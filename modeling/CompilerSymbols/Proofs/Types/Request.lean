import CompilerSymbols.Types.Build

namespace CompilerSymbols

inductive TypeRequest
  | container (tag : ContainerTag) (constraint : TypeId)
  | function (params : List TypeId) (ret : TypeId)
  | tuple (elems : List TypeId)
  | union (name : Option Name) (members : List TypeId)
  | declare (tag : TypeTag) (name : Name)
  | addMember (t member : TypeId)
deriving DecidableEq

inductive TypeAnswer
  | type (t : TypeId)
  | added (isNew : Bool) (events : List Event)
  | failed (f : Fault)
deriving DecidableEq

namespace TypeRequest

def serveAll {σ : Type} (serve : σ → TypeRequest → TypeAnswer × σ) (s : σ) :
    List TypeRequest → List TypeAnswer × σ
  | [] => ([], s)
  | r :: rs =>
    let (answer, s') := serve s r
    let (answers, s'') := serveAll serve s' rs
    (answer :: answers, s'')

end TypeRequest

def Pool.serve (p : Pool) : TypeRequest → TypeAnswer × Pool
  | .container tag constraint => (p.container tag constraint).map .type id
  | .function params ret => (p.function params ret).map .type id
  | .tuple elems => (p.tuple elems).map .type id
  | .union name members => (p.union name members).map .type id
  | .declare tag name =>
    match p.declare tag name with
    | .ok made => made.map .type id
    | .error f => (.failed f, p)
  | .addMember t member =>
    match p.addMember t member with
    | .ok r => (.added r.value.1 r.events, r.value.2)
    | .error f => (.failed f, p)

/-- Serves requests one after the other. One that fails changes nothing. -/
def Pool.serveAll (p : Pool) (rs : List TypeRequest) : List TypeAnswer × Pool :=
  TypeRequest.serveAll Pool.serve p rs

end CompilerSymbols
