import CompilerSymbols.Symbol.Basic

namespace CompilerSymbols

/-- What a cache file is made of. Numbers with a fractional part are kept apart from integers. -/
inductive Stored
  | null
  | bool (b : Bool)
  | integer (n : Int)
  | fraction
  | text (s : String)
  | list (xs : List Stored)
  | record (fields : List (String × Stored))
deriving Inhabited

namespace Stored

def word? : Stored → Option UInt32
  | integer n => if 0 ≤ n ∧ n < UInt32.size then some n.toNat.toUInt32 else none
  | _ => none

def field? (fields : List (String × Stored)) (key : String) : Option Stored :=
  (fields.find? fun f => f.1 == key).map (·.2)

/-- A value of an enumeration: its name, or its name as the only key with null under it. -/
def variant? {α : Type} (all : List α) (name : α → String) : Stored → Option α
  | text s => all.find? fun a => name a == s
  | record [(s, null)] => all.find? fun a => name a == s
  | _ => none

end Stored

namespace Name

def store (n : Name) : Stored := .integer n.raw.toNat

def ofStored? (s : Stored) : Option Name := s.word?.map mk

end Name

namespace TypeId

def store (t : TypeId) : Stored := .integer t.raw.toNat

def ofStored? (s : Stored) : Option TypeId := s.word?.map mk

end TypeId

namespace PackageId

def store (p : PackageId) : Stored :=
  .record [("org", p.org.store), ("name", p.name.store), ("version", p.version.store)]

/-- Reads the three parts by key, whatever other keys there are, or in order from a list. -/
def ofStored? : Stored → Option PackageId
  | .record fields => do
    let org ← (← Stored.field? fields "org").word?
    let name ← (← Stored.field? fields "name").word?
    let version ← (← Stored.field? fields "version").word?
    return ⟨⟨org⟩, ⟨name⟩, ⟨version⟩⟩
  | .list [org, name, version] => do
    return ⟨⟨← org.word?⟩, ⟨← name.word?⟩, ⟨← version.word?⟩⟩
  | _ => none

end PackageId

namespace Flags

def store (f : Flags) : Stored := .text f.write

def ofStored? : Stored → Option Flags
  | .text s => read? s
  | _ => none

end Flags

namespace AttachPoints

def store (a : AttachPoints) : Stored := .text a.write

def ofStored? : Stored → Option AttachPoints
  | .text s => read? s
  | _ => none

end AttachPoints

namespace TypeTag

def store (t : TypeTag) : Stored := .text t.variant

def ofStored? : Stored → Option TypeTag := Stored.variant? all variant

end TypeTag

namespace Instruction

def store (i : Instruction) : Stored := .text i.variant

def ofStored? : Stored → Option Instruction := Stored.variant? all variant

end Instruction

namespace SymbolKind

def store (k : SymbolKind) : Stored := .text k.variant

def ofStored? : Stored → Option SymbolKind := Stored.variant? all variant

end SymbolKind

namespace CallableKind

def store (k : CallableKind) : Stored := .text k.variant

def ofStored? : Stored → Option CallableKind := Stored.variant? all variant

end CallableKind

end CompilerSymbols
