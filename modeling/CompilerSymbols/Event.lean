import CompilerSymbols.Types.Id
import CompilerSymbols.Types.Tag
import CompilerSymbols.Symbol.Kind

namespace CompilerSymbols

inductive Severity
  | warning
  | error
deriving DecidableEq

/-- What a request reports although it goes on. -/
inductive Event
  | selfMember (union : TypeId)
  | noUnboxing (target : TypeTag)
  | notTypeKind (kind : SymbolKind)
deriving DecidableEq

namespace Event

def severity : Event → Severity
  | selfMember _ | noUnboxing _ => .warning
  | notTypeKind _ => .error

def message : Event → String
  | selfMember _ => "refusing to make a union a member of itself"
  | noUnboxing _ => "no unbox instruction for target type, falling back to ANY2B"
  | notTypeKind _ => "create_type_symbol called with a non-type kind"

def fields : Event → List (String × String)
  | selfMember union => [("union", toString union.raw)]
  | noUnboxing target => [("tag", target.name)]
  | notTypeKind kind => [("kind", kind.name)]

end Event

structure Reported (α : Type) where
  value : α
  events : List Event := []

end CompilerSymbols
