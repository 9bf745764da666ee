import CompilerSymbols.Proofs.Types.Request

namespace CompilerSymbols

/-- Types written down one after the other, each at its position and with all its parts. -/
abbrev Catalog := List Shape

namespace Catalog

def initial : Catalog :=
  BuiltinTag.all.map .builtin ++ Pool.builtinContainers.map (fun c => .container c.1 .any)
    ++ List.replicate 48 .reserved

def add (l : Catalog) (s : Shape) : TypeId × Catalog := (⟨l.length.toUInt32⟩, l ++ [s])

def place (l : Catalog) (s : Shape) : TypeId × Catalog :=
  match l.idxOf? s with
  | some i => (⟨i.toUInt32⟩, l)
  | none => l.add s

def addMember (l : Catalog) (t member : TypeId) : TypeAnswer × Catalog :=
  match l[t.raw.toNat]? with
  | none => (.failed (.unknownType t), l)
  | some (.union ⟨name, members⟩) =>
    if member = t then (.added false [.selfMember t], l)
    else if member ∈ members then (.added false [], l)
    else (.added true [], l.set t.raw.toNat (.union ⟨name, members ++ [member]⟩))
  | some _ => (.added false [], l)

def serve (l : Catalog) : TypeRequest → TypeAnswer × Catalog
  | .container tag constraint => (l.place (.container tag constraint)).map .type id
  | .function params ret => (l.place (.function params ret)).map .type id
  | .tuple [] => (.type .nil, l)
  | .tuple elems => (l.place (.tuple elems)).map .type id
  | .union name members => (l.add (.union ⟨name, members.eraseDups⟩)).map .type id
  | .declare (.nominal n) name => (l.add (.nominal n name)).map .type id
  | .declare tag _ => (.failed (.notNominal tag), l)
  | .addMember t member => l.addMember t member

def serveAll (l : Catalog) (rs : List TypeRequest) : List TypeAnswer × Catalog :=
  TypeRequest.serveAll Catalog.serve l rs

def shape (l : Catalog) (t : TypeId) : Except Fault Shape :=
  match l[t.raw.toNat]? with
  | some s => .ok s
  | none => .error (.unknownType t)

def contains (l : Catalog) (t : TypeId) : Bool :=
  match l[t.raw.toNat]? with
  | none | some .reserved => false
  | some _ => true

def tag (l : Catalog) (t : TypeId) : Except Fault TypeTag := (l.shape t).map Shape.tag

def isUnion (l : Catalog) (t : TypeId) : Except Fault Bool := (l.tag t).map (· == .union)

def constraint (l : Catalog) (t : TypeId) : Except Fault TypeId := do
  match ← l.shape t with
  | .container _ c => return c
  | _ => throw (.notContainer t)

def params (l : Catalog) (t : TypeId) : Except Fault (List TypeId) := do
  match ← l.shape t with
  | .function params _ => return params
  | _ => throw (.notFunction t)

def returnType (l : Catalog) (t : TypeId) : Except Fault TypeId := do
  match ← l.shape t with
  | .function _ ret => return ret
  | _ => throw (.notFunction t)

def elements (l : Catalog) (t : TypeId) : Except Fault (List TypeId) := do
  match ← l.shape t with
  | .tuple elems => return elems
  | _ => throw (.notTuple t)

def union? (l : Catalog) (t : TypeId) : Except Fault (Option UnionType) := (l.shape t).map Shape.union?

def members (l : Catalog) (t : TypeId) : Except Fault (List TypeId) := (l.shape t).map Shape.members

def nominal? (l : Catalog) (t : TypeId) : Except Fault (Option Name) := (l.shape t).map Shape.nominal?

def typeName? (l : Catalog) (t : TypeId) : Except Fault (Option Name) := (l.shape t).map Shape.name?

/-- The pool answers every question about every position, in use or not, as the list does. -/
structure Describes (l : Catalog) (p : Pool) : Prop where
  size : p.size = l.length
  contains : ∀ t, p.contains t = l.contains t
  shape : ∀ t, p.shape t = l.shape t
  tag : ∀ t, p.tag t = l.tag t
  isUnion : ∀ t, p.isUnion t = l.isUnion t
  constraint : ∀ t, p.constraint t = l.constraint t
  params : ∀ t, p.params t = l.params t
  returnType : ∀ t, p.returnType t = l.returnType t
  elements : ∀ t, p.elements t = l.elements t
  union? : ∀ t, p.union? t = l.union? t
  members : ∀ t, p.members t = l.members t
  nominal? : ∀ t, p.nominal? t = l.nominal? t
  typeName? : ∀ t, p.typeName? t = l.typeName? t

end Catalog

end CompilerSymbols
