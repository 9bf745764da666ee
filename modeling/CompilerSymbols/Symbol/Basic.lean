import CompilerSymbols.PackageId
import CompilerSymbols.Symbol.Callable
import CompilerSymbols.Symbol.Instruction

namespace CompilerSymbols

/-- What is particular to a conversion operator. Its type is `function (source, target)`, and a
safe one returns the target itself. -/
structure Conversion where
  source : TypeId
  target : TypeId
  instruction : Instruction
  implicit : Bool
  safe : Bool
deriving DecidableEq

inductive Payload
  | package
  | object
  | record
  | enum
  | connector
  | service
  | scope
  | type
  | annot (attachPoints : AttachPoints)
  | callable (c : Callable)
  | xmlns (uri : String)
  | conversion (c : Conversion)
deriving DecidableEq

def Payload.kind : Payload → SymbolKind
  | package => .package
  | object => .object
  | record => .record
  | enum => .enum
  | connector => .connector
  | service => .service
  | scope => .scope
  | type => .type
  | annot _ => .annot
  | callable c => c.kind.symbolKind
  | xmlns _ => .xmlns
  | conversion _ => .conversion

/-- A declared or made-up entity. The owner is remembered without being kept alive, the scope is
kept alive. -/
structure Symbol where
  payload : Payload
  flags : Flags
  name : Name
  package : Option PackageId
  type : TypeId
  owner : Option SymbolId
  scope : Option ScopeId
deriving DecidableEq

namespace Symbol

def kind (s : Symbol) : SymbolKind := s.payload.kind

def mask (s : Symbol) : KindMask := s.kind.mask

def isInvokable (s : Symbol) : Bool := s.mask.contains .invokables

def isType (s : Symbol) : Bool := s.mask.contains .types

def callable? (s : Symbol) : Option Callable :=
  match s.payload with
  | .callable c => some c
  | _ => none

def bodyExists? (s : Symbol) : Option Bool := s.callable?.map (·.bodyExists)

def attachPoints? (s : Symbol) : Option AttachPoints :=
  match s.payload with
  | .annot a => some a
  | _ => none

def conversion? (s : Symbol) : Option Conversion :=
  match s.payload with
  | .conversion c => some c
  | _ => none

def uri? (s : Symbol) : Option String :=
  match s.payload with
  | .xmlns uri => some uri
  | _ => none

def isNative (s : Symbol) : Bool := s.flags.isOn .nativeFlag

def isPublic (s : Symbol) : Bool := s.flags.isOn .publicFlag

def isPrivate (s : Symbol) : Bool := !s.isPublic

def qualifiedName (s : Symbol) (names : Interner) : Except Fault String := do
  match s.package with
  | some p => return (← p.display names) ++ ":" ++ (← names.lookup s.name)
  | none => names.lookup s.name

end Symbol

def attachedName (type function : String) : String := type ++ "." ++ function

end CompilerSymbols
