import CompilerSymbols.Fault
import CompilerSymbols.Types.Shape

namespace CompilerSymbols

/-- What the pool stores at a position. The parts of function types and tuples are laid out in
the pool's words from `start` on; unions and nominal types have a slot in a table of their own.
Both numbers are unbounded here. They agree with 32-bit ones as long as the pool has fewer than
2 ^ 32 words, unions and nominal types. -/
inductive Item
  | builtin (tag : BuiltinTag)
  | container (tag : ContainerTag) (constraint : TypeId)
  | function (start : Nat)
  | tuple (start : Nat)
  | union (slot : Nat)
  | nominal (tag : NominalTag) (slot : Nat)
  | reserved
deriving DecidableEq

def Item.tag : Item → TypeTag
  | builtin b => .builtin b
  | container c _ => .container c
  | function _ => .function
  | tuple _ => .tuple
  | union _ => .union
  | nominal n _ => .nominal n
  | reserved => .reserved

/-- The types of a compilation. Containers, function types and tuples are shared: `shared` finds
the position of one from its code and its layout. Unions grow in place, so they are never shared,
and neither are nominal types. -/
structure Pool where
  items : Array Item
  words : Array UInt32
  unions : Array UnionType
  nominals : Array Name
  shared : Std.TreeMap (List UInt32) TypeId

namespace Pool

def sharedKey (tag : TypeTag) (layout : List UInt32) : List UInt32 :=
  tag.code.toUInt32 :: layout

def builtinContainers : List (ContainerTag × TypeId) :=
  [(.map, .map), (.table, .table), (.stream, .stream), (.future, .future)]

def initialItems : List Item :=
  BuiltinTag.all.map .builtin ++ builtinContainers.map (fun c => .container c.1 .any)
    ++ List.replicate 48 .reserved

def initial : Pool where
  items := initialItems.toArray
  words := #[]
  unions := #[]
  nominals := #[]
  shared := builtinContainers.foldl
    (fun m c => m.insert (sharedKey (.container c.1) [TypeId.any.raw]) c.2) ∅

def size (p : Pool) : Nat := p.items.size

def isEmpty (p : Pool) : Bool := p.items.isEmpty

def item? (p : Pool) (t : TypeId) : Option Item := p.items[t.raw.toNat]?

def item (p : Pool) (t : TypeId) : Except Fault Item :=
  match p.item? t with
  | some i => .ok i
  | none => .error (.unknownType t)

def tag (p : Pool) (t : TypeId) : Except Fault TypeTag := (p.item t).map Item.tag

def contains (p : Pool) (t : TypeId) : Bool :=
  match p.item? t with
  | none | some .reserved => false
  | some _ => true

def isUnion (p : Pool) (t : TypeId) : Except Fault Bool := (p.tag t).map (· == .union)

def counted? (p : Pool) (start : Nat) : Option (List TypeId × Nat) :=
  match p.words[start]? with
  | none => none
  | some n =>
    let stop := start + 1 + n.toNat
    if stop ≤ p.words.size then some ((p.words.extract (start + 1) stop).toList.map .mk, stop)
    else none

def shapeOf? (p : Pool) : Item → Option Shape
  | .builtin b => some (.builtin b)
  | .container c t => some (.container c t)
  | .function start =>
    (p.counted? start).bind fun (params, next) => p.words[next]?.map fun ret => .function params ⟨ret⟩
  | .tuple start => (p.counted? start).map fun (elems, _) => .tuple elems
  | .union slot => p.unions[slot]?.map .union
  | .nominal n slot => p.nominals[slot]?.map (.nominal n)
  | .reserved => some .reserved

def shape (p : Pool) (t : TypeId) : Except Fault Shape := do
  match p.shapeOf? (← p.item t) with
  | some s => return s
  | none => throw (.brokenLayout t)

def constraint (p : Pool) (t : TypeId) : Except Fault TypeId := do
  match ← p.shape t with
  | .container _ c => return c
  | _ => throw (.notContainer t)

def params (p : Pool) (t : TypeId) : Except Fault (List TypeId) := do
  match ← p.shape t with
  | .function params _ => return params
  | _ => throw (.notFunction t)

def returnType (p : Pool) (t : TypeId) : Except Fault TypeId := do
  match ← p.shape t with
  | .function _ ret => return ret
  | _ => throw (.notFunction t)

def elements (p : Pool) (t : TypeId) : Except Fault (List TypeId) := do
  match ← p.shape t with
  | .tuple elems => return elems
  | _ => throw (.notTuple t)

def union? (p : Pool) (t : TypeId) : Except Fault (Option UnionType) := (p.shape t).map (·.union?)

def members (p : Pool) (t : TypeId) : Except Fault (List TypeId) := (p.shape t).map (·.members)

def nominal? (p : Pool) (t : TypeId) : Except Fault (Option Name) := (p.shape t).map (·.nominal?)

def typeName? (p : Pool) (t : TypeId) : Except Fault (Option Name) := (p.shape t).map (·.name?)

def inspect (p : Pool) : String := "SharedPool \x7b len: " ++ toString p.size ++ ", .. \x7d"

end Pool

end CompilerSymbols
