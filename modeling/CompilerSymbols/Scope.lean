import CompilerSymbols.Fault

namespace CompilerSymbols

/-- The symbols defined in one place, in the order of their first definition, and the slot of
each name. A frozen scope takes no more definitions. -/
structure Scope where
  owner : Option SymbolId
  entries : Array (Name × SymbolId)
  slots : Std.TreeMap Name Nat
  frozen : Bool

namespace Scope

def empty (owner : Option SymbolId) : Scope := ⟨owner, #[], ∅, false⟩

def size (s : Scope) : Nat := s.entries.size

def isEmpty (s : Scope) : Bool := s.entries.isEmpty

def lookup? (s : Scope) (name : Name) : Option SymbolId :=
  (s.slots[name]?.bind fun k => s.entries[k]?).map (·.2)

def contains (s : Scope) (name : Name) : Bool := s.slots.contains name

def symbols (s : Scope) : List SymbolId := s.entries.toList.map (·.2)

/-- Puts a symbol under a name and answers which one it replaces there. A replaced entry keeps
its place in the order. -/
def define (s : Scope) (name : Name) (symbol : SymbolId) : Except Fault (Option SymbolId × Scope) :=
  if s.frozen then .error (.frozen name)
  else
    match s.slots[name]?.bind fun k => s.entries[k]?.map fun e => (k, e.2) with
    | some (k, previous) =>
      .ok (some previous, { s with entries := s.entries.setIfInBounds k (name, symbol) })
    | none =>
      .ok (none, { s with entries := s.entries.push (name, symbol), slots := s.slots.insert name s.size })

def freeze (s : Scope) : Scope := { s with frozen := true }

/-- The text of a scope in diagnostics. It lists names only, since a scope can hold its owner. -/
def inspect (s : Scope) : String :=
  "Scope \x7b names: [" ++ ", ".intercalate (s.entries.toList.map fun e => e.1.inspect) ++ "], frozen: "
    ++ toString s.frozen ++ ", .. \x7d"

end Scope

end CompilerSymbols
