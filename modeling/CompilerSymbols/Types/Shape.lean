import CompilerSymbols.Name
import CompilerSymbols.Types.Id
import CompilerSymbols.Types.Tag

namespace CompilerSymbols

/-- The members of a union in the order of insertion, without repetition. Unions that the
compiler makes up have no name. -/
structure UnionType where
  name : Option Name
  members : List TypeId
deriving DecidableEq

namespace UnionType

def contains (u : UnionType) (t : TypeId) : Bool := t ∈ u.members

def insert (u : UnionType) (t : TypeId) : UnionType :=
  if t ∈ u.members then u else { u with members := u.members ++ [t] }

def ofList (name : Option Name) (members : List TypeId) : UnionType :=
  members.foldl insert ⟨name, []⟩

end UnionType

inductive Shape
  | builtin (tag : BuiltinTag)
  | container (tag : ContainerTag) (constraint : TypeId)
  | function (params : List TypeId) (ret : TypeId)
  | tuple (elems : List TypeId)
  | union (u : UnionType)
  | nominal (tag : NominalTag) (name : Name)
  | reserved
deriving DecidableEq

namespace Shape

def tag : Shape → TypeTag
  | builtin b => .builtin b
  | container c _ => .container c
  | function _ _ => .function
  | tuple _ => .tuple
  | union _ => .union
  | nominal n _ => .nominal n
  | reserved => .reserved

def union? : Shape → Option UnionType
  | union u => some u
  | _ => none

def nominal? : Shape → Option Name
  | nominal _ name => some name
  | _ => none

def name? : Shape → Option Name
  | union u => u.name
  | nominal _ name => some name
  | _ => none

def members : Shape → List TypeId
  | union u => u.members
  | _ => []

end Shape

end CompilerSymbols
