import CompilerSymbols.Event
import CompilerSymbols.Types.Pool

namespace CompilerSymbols.Pool

def next (p : Pool) : TypeId := ⟨p.size.toUInt32⟩

def push (p : Pool) (i : Item) : TypeId × Pool := (p.next, { p with items := p.items.push i })

/-- The position of a shared type. A new one takes the words of its layout with it. -/
def share (p : Pool) (key words : List UInt32) (i : Item) : TypeId × Pool :=
  match p.shared[key]? with
  | some t => (t, p)
  | none =>
    let (t, q) := { p with words := p.words ++ words }.push i
    (t, { q with shared := q.shared.insert key t })

def container (p : Pool) (tag : ContainerTag) (constraint : TypeId) : TypeId × Pool :=
  p.share (sharedKey (.container tag) [constraint.raw]) [] (.container tag constraint)

def counted (ts : List TypeId) : List UInt32 := ts.length.toUInt32 :: ts.map (·.raw)

def function (p : Pool) (params : List TypeId) (ret : TypeId) : TypeId × Pool :=
  let layout := counted params ++ [ret.raw]
  p.share (sharedKey .function layout) layout (.function p.words.size)

def tuple (p : Pool) (elems : List TypeId) : TypeId × Pool :=
  if elems.isEmpty then (.nil, p)
  else
    let layout := counted elems
    p.share (sharedKey .tuple layout) layout (.tuple p.words.size)

/-- A new union, even if an equal one exists, since either of them can grow later. -/
def union (p : Pool) (name : Option Name) (members : List TypeId) : TypeId × Pool :=
  { p with unions := p.unions.push (.ofList name members) }.push (.union p.unions.size)

def declare (p : Pool) (tag : TypeTag) (name : Name) : Except Fault (TypeId × Pool) :=
  match tag with
  | .nominal n => .ok ({ p with nominals := p.nominals.push name }.push (.nominal n p.nominals.size))
  | _ => .error (.notNominal tag)

/-- Adds a member to a union in place and answers whether it was new. Nothing is added to a type
that is no union, nor a union to itself. -/
def addMember (p : Pool) (t member : TypeId) : Except Fault (Reported (Bool × Pool)) := do
  match ← p.item t with
  | .union slot =>
    if member = t then return ⟨(false, p), [.selfMember t]⟩
    else
      match p.unions[slot]? with
      | none => throw (.brokenLayout t)
      | some u =>
        if member ∈ u.members then return ⟨(false, p), []⟩
        else return ⟨(true, { p with unions := p.unions.setIfInBounds slot (u.insert member) }), []⟩
  | _ => return ⟨(false, p), []⟩

end CompilerSymbols.Pool
