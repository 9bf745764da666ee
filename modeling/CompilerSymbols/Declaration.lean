import CompilerSymbols.Event
import CompilerSymbols.Symbol.Basic

namespace CompilerSymbols

inductive Construct
  | object
  | record
  | enum
  | connector
  | service
  | annot (attachPoints : AttachPoints)
  | function (bodyExists : Bool)
  | invokable (kind : CallableKind)
  | denoting (kind : SymbolKind)
  /-- An anonymous block, which is there for its scope only. -/
  | block
  | xmlns (uri : String)
deriving DecidableEq

def Payload.denoting? : SymbolKind → Option Payload
  | .object => some .object
  | .record => some .record
  | .enum => some .enum
  | .connector => some .connector
  | .service => some .service
  | .scope => some .scope
  | .type => some .type
  | _ => none

namespace Construct

/-- A kind that cannot denote a type counts as a plain type. Its symbol is made all the same, and
`events` reports the kind. -/
def payload : Construct → Payload
  | object => .object
  | record => .record
  | enum => .enum
  | connector => .connector
  | service => .service
  | annot a => .annot a
  | function b => .callable ⟨.function, b⟩
  | invokable k => .callable ⟨k, true⟩
  | denoting k => (Payload.denoting? k).getD .type
  | block => .scope
  | xmlns uri => .xmlns uri

def events : Construct → List Event
  | denoting k => if (Payload.denoting? k).isSome then [] else [.notTypeKind k]
  | _ => []

end Construct

structure Declaration where
  construct : Construct
  flags : Flags
  name : Name
  package : PackageId
  type : TypeId
  owner : SymbolId
deriving DecidableEq

def Declaration.symbol (d : Declaration) : Symbol where
  payload := d.construct.payload
  flags := match d.construct with
    | .block | .xmlns _ => ∅
    | _ => d.flags
  name := d.name
  package := some d.package
  type := match d.construct with
    | .xmlns _ => .noType
    | _ => d.type
  owner := some d.owner
  scope := none

end CompilerSymbols
