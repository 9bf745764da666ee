import CompilerSymbols.Heap.Create
import CompilerSymbols.Text.Quoted

namespace CompilerSymbols

def inspectRecord (title : String) (fields : List (String × String)) : String :=
  title ++ " \x7b " ++ ", ".intercalate (fields.map fun f => f.1 ++ ": " ++ f.2) ++ " \x7d"

def inspectOption : Option String → String
  | none => "None"
  | some s => "Some(" ++ s ++ ")"

def Callable.inspect (c : Callable) : String :=
  inspectRecord "Invokable" [("kind", c.kind.variant), ("body_exists", toString c.bodyExists)]

def Conversion.inspect (c : Conversion) : String :=
  inspectRecord "ConversionOperator"
    [("source", c.source.inspect), ("target", c.target.inspect), ("opcode", c.instruction.variant),
      ("implicit", toString c.implicit), ("safe", toString c.safe)]

def Payload.inspect : Payload → String
  | annot a => inspectRecord "Annotation" [("attach_points", a.inspect)]
  | callable c => "Invokable(" ++ c.inspect ++ ")"
  | xmlns uri => inspectRecord "XmlNs" [("uri", Text.quoted uri)]
  | conversion c => "ConversionOperator(" ++ c.inspect ++ ")"
  | p => p.kind.variant

namespace Heap

/-- The text of a symbol in diagnostics. An owner shows even when it is gone, and of the scope
only the size shows. -/
def inspect (h : Heap) (s : Symbol) : String :=
  inspectRecord "Symbol"
    [("kind", s.kind.variant), ("name", s.name.inspect), ("flags", s.flags.inspect),
      ("pkg", inspectOption (s.package.map (·.inspect))), ("ty", s.type.inspect),
      ("data", s.payload.inspect), ("has_owner", toString s.owner.isSome),
      ("scope_len", inspectOption ((s.scope.bind h.scope?).map fun k => toString k.size))]

def inspectWeak : String := "(WeakSymbolRef)"

end Heap

end CompilerSymbols
