import CompilerSymbols.Symbol.Flags

namespace CompilerSymbols

inductive SymbolKind
  | package
  | object
  | record
  | enum
  | annot
  | worker
  | connector
  | service
  | function
  | action
  | resource
  | xmlns
  | conversion
  | scope
  | type
deriving DecidableEq

/-- A set of categories and kinds. The low eight bits are categories and every bit above them
identifies one kind. -/
structure KindMask where
  bits : UInt32
deriving DecidableEq

namespace KindMask

instance : Union KindMask := ⟨fun a b => ⟨a.bits ||| b.bits⟩⟩

def types : KindMask := ⟨bit 0⟩

def invokables : KindMask := ⟨bit 1⟩

def scopes : KindMask := ⟨bit 2⟩

def categoryMask : KindMask := types ∪ invokables ∪ scopes

def ofKind : SymbolKind → KindMask
  | .package => ⟨bit 8⟩ ∪ scopes
  | .object => ⟨bit 9⟩ ∪ types ∪ scopes
  | .record => ⟨bit 10⟩ ∪ types ∪ scopes
  | .enum => ⟨bit 11⟩ ∪ types ∪ scopes
  | .annot => ⟨bit 12⟩
  | .worker => ⟨bit 13⟩ ∪ invokables
  | .connector => ⟨bit 14⟩ ∪ types
  | .service => ⟨bit 15⟩ ∪ types
  | .function => ⟨bit 16⟩ ∪ invokables
  | .action => ⟨bit 17⟩ ∪ invokables
  | .resource => ⟨bit 18⟩ ∪ invokables
  | .xmlns => ⟨bit 19⟩
  | .conversion => ⟨bit 20⟩ ∪ invokables
  | .scope => ⟨bit 21⟩ ∪ scopes
  | .type => ⟨bit 22⟩ ∪ types

def vocabulary : BitVocabulary :=
  [⟨"TYPE", types.bits⟩, ⟨"INVOKABLE", invokables.bits⟩, ⟨"SCOPED", scopes.bits⟩,
    ⟨"PACKAGE", (ofKind .package).bits⟩, ⟨"OBJECT", (ofKind .object).bits⟩,
    ⟨"RECORD", (ofKind .record).bits⟩, ⟨"ENUM", (ofKind .enum).bits⟩,
    ⟨"ANNOTATION", (ofKind .annot).bits⟩, ⟨"WORKER", (ofKind .worker).bits⟩,
    ⟨"CONNECTOR", (ofKind .connector).bits⟩, ⟨"SERVICE", (ofKind .service).bits⟩,
    ⟨"FUNCTION", (ofKind .function).bits⟩, ⟨"ACTION", (ofKind .action).bits⟩,
    ⟨"RESOURCE", (ofKind .resource).bits⟩, ⟨"XMLNS", (ofKind .xmlns).bits⟩,
    ⟨"CONVERSION_OPERATOR", (ofKind .conversion).bits⟩, ⟨"SCOPE", (ofKind .scope).bits⟩,
    ⟨"TYPE_DEF", (ofKind .type).bits⟩]

def all : KindMask := ⟨vocabulary.bits⟩

def contains (mask part : KindMask) : Bool := hasBits mask.bits part.bits

def categories (mask : KindMask) : KindMask := ⟨mask.bits &&& categoryMask.bits⟩

def inspect (mask : KindMask) : String := vocabulary.inspect "SymTag" mask.bits

end KindMask

namespace SymbolKind

def all : List SymbolKind :=
  [package, object, record, enum, annot, worker, connector, service, function, action,
    resource, xmlns, conversion, scope, type]

def mask (k : SymbolKind) : KindMask := .ofKind k

def isScoped (k : SymbolKind) : Bool := k.mask.contains .scopes

def isType (k : SymbolKind) : Bool := k.mask.contains .types

def isInvokable (k : SymbolKind) : Bool := k.mask.contains .invokables

def name : SymbolKind → String
  | package => "package"
  | object => "object"
  | record => "record"
  | enum => "enum"
  | annot => "annotation"
  | worker => "worker"
  | connector => "connector"
  | service => "service"
  | function => "function"
  | action => "action"
  | resource => "resource"
  | xmlns => "xmlns"
  | conversion => "conversion operator"
  | scope => "scope"
  | type => "type"

def variant : SymbolKind → String
  | package => "Package"
  | object => "Object"
  | record => "Record"
  | enum => "Enum"
  | annot => "Annotation"
  | worker => "Worker"
  | connector => "Connector"
  | service => "Service"
  | function => "Function"
  | action => "Action"
  | resource => "Resource"
  | xmlns => "XmlNs"
  | conversion => "ConversionOperator"
  | scope => "Scope"
  | type => "Type"

theorem isScoped_iff (k : SymbolKind) :
    k.isScoped ↔ k = package ∨ k = object ∨ k = record ∨ k = enum ∨ k = scope := by
  cases k <;> decide

end SymbolKind

end CompilerSymbols
