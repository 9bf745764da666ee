import CompilerSymbols.BitSet

namespace CompilerSymbols

/-- The modifiers of a declaration. Bits without a name are kept. -/
structure Flags where
  bits : UInt32
deriving DecidableEq

namespace Flags

def vocabulary : BitVocabulary :=
  BitVocabulary.ofNames ["PUBLIC", "NATIVE", "FINAL", "ATTACHED", "DEPRECATED", "READONLY", "FUNCTION_FINAL",
    "INTERFACE", "DEFAULTABLE_CHECKED", "DEFAULTABLE", "OPTIONAL", "REQUIRED", "RECORD", "ANONYMOUS",
    "CONSTANT", "LISTENER", "COMPENSATE", "LAMBDA"]

instance : EmptyCollection Flags := ⟨⟨0⟩⟩

instance : Union Flags := ⟨fun a b => ⟨a.bits ||| b.bits⟩⟩

def publicFlag : Flags := ⟨bit 0⟩

def nativeFlag : Flags := ⟨bit 1⟩

def all : Flags := ⟨vocabulary.bits⟩

def isOn (mask flag : Flags) : Bool := hasBits mask.bits flag.bits

def write (f : Flags) : String := vocabulary.write f.bits

def read? (text : String) : Option Flags := (vocabulary.read? text).map mk

def inspect (f : Flags) : String := vocabulary.inspect "Flags" f.bits

end Flags

structure AttachPoints where
  bits : UInt32
deriving DecidableEq

namespace AttachPoints

/-- Resources, actions, functions and workers. -/
def invokables : AttachPoints := ⟨bit 1 ||| bit 3 ||| bit 4 ||| bit 13⟩

def vocabulary : BitVocabulary :=
  BitVocabulary.ofNames ["SERVICE", "RESOURCE", "CONNECTOR", "ACTION", "FUNCTION", "OBJECT", "RECORD", "TYPE",
    "ENDPOINT", "PARAMETER", "ANNOTATION", "ENUM", "CONSTANT", "WORKER"] ++ [⟨"INVOKABLES", invokables.bits⟩]

def all : AttachPoints := ⟨vocabulary.bits⟩

def isPresent (mask point : AttachPoints) : Bool := hasBits mask.bits point.bits

def write (a : AttachPoints) : String := vocabulary.write a.bits

def read? (text : String) : Option AttachPoints := (vocabulary.read? text).map mk

def inspect (a : AttachPoints) : String := vocabulary.inspect "AttachPoints" a.bits

end AttachPoints

end CompilerSymbols
