import Std.Data.TreeMap

namespace CompilerSymbols

/-- The position of a type in the pool. Builtin types have the same position in every pool. -/
structure TypeId where
  raw : UInt32
deriving DecidableEq

namespace TypeId

def int : TypeId := ⟨0⟩
def byte : TypeId := ⟨1⟩
def float : TypeId := ⟨2⟩
def string : TypeId := ⟨3⟩
def boolean : TypeId := ⟨4⟩
def nil : TypeId := ⟨5⟩
def any : TypeId := ⟨6⟩
def json : TypeId := ⟨7⟩
def xml : TypeId := ⟨8⟩
def error : TypeId := ⟨9⟩
def noType : TypeId := ⟨10⟩
def typedesc : TypeId := ⟨11⟩
def map : TypeId := ⟨12⟩
def table : TypeId := ⟨13⟩
def stream : TypeId := ⟨14⟩
def future : TypeId := ⟨15⟩

def builtinNames : List String :=
  ["int", "byte", "float", "string", "boolean", "()", "any", "json", "xml", "error", "<none>",
    "typedesc", "map", "table", "stream", "future"]

/-- How many builtin types there are; the positions from here to `firstDynamic` are reserved. -/
def builtinCount : UInt32 := 16

def firstDynamic : UInt32 := 64

def absent : TypeId := ⟨0xffffffff⟩

instance : Inhabited TypeId := ⟨absent⟩

def isBuiltin (t : TypeId) : Bool := t.raw < firstDynamic

def isAbsent (t : TypeId) : Bool := t == absent

def name? (t : TypeId) : Option String := builtinNames[t.raw.toNat]?

def displayName (t : TypeId) : String := t.name?.getD "<type>"

def inspect (t : TypeId) : String :=
  if t.isAbsent then "Idx::NONE" else "Idx(" ++ t.name?.getD (toString t.raw) ++ ")"

instance : Ord TypeId := ⟨compareOn raw⟩

instance : Std.TransOrd TypeId := inferInstanceAs (Std.TransCmp (compareOn raw))

instance : Std.LawfulEqOrd TypeId where
  eq_of_compare {a b} h := by
    have hr : a.raw = b.raw := Std.LawfulEqOrd.eq_of_compare h
    cases a
    cases b
    simp_all

end TypeId

end CompilerSymbols
