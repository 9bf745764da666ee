import CompilerSymbols.Table

namespace CompilerSymbols

/-- A table and the references to symbols and scopes that compilation units hold. -/
structure Workspace where
  table : Table
  held : List Ref

namespace Workspace

def initial (names : Interner) : Except Fault Workspace :=
  (Table.initial names).map fun t => ⟨t, []⟩

def take (w : Workspace) (r : Ref) (t : Table) : Workspace := ⟨t, r :: w.held⟩

def intern (w : Workspace) (text : String) : Except Fault (Name × Workspace) :=
  (w.table.names.intern text).map fun (name, names) => (name, { w with table := { w.table with names } })

def onTypes {α : Type} (w : Workspace) (f : Pool → Except Fault (α × Pool)) :
    Except Fault (α × Workspace) :=
  (f w.table.types).map fun (a, types) => (a, { w with table := { w.table with types } })

def takeSymbol (w : Workspace) (made : SymbolId × Table) : SymbolId × Workspace :=
  (made.1, w.take (.symbol made.1) made.2)

def createPackage (w : Workspace) (id : PackageId) : Except Fault (SymbolId × Workspace) :=
  (w.table.createPackage id).map w.takeSymbol

def declare (w : Workspace) (d : Declaration) : Except Fault (Reported (SymbolId × Workspace)) :=
  (w.table.declare d).map fun r => ⟨w.takeSymbol r.value, r.events⟩

def createConversion (w : Workspace) (c : Conversion) (error : TypeId) (package : Option PackageId)
    (owner : Option SymbolId) : Except Fault (Reported (SymbolId × Workspace)) :=
  (w.table.createConversion c error package owner).map fun r => ⟨w.takeSymbol r.value, r.events⟩

def createUnboxing (w : Workspace) (source target : TypeId) :
    Except Fault (Reported (SymbolId × Workspace)) :=
  (w.table.createUnboxing source target).map fun r => ⟨w.takeSymbol r.value, r.events⟩

/-- Defines a symbol in a scope. The symbol it replaces, if any, is held afterwards. -/
def define (w : Workspace) (scope : ScopeId) (name : Name) (symbol : SymbolId) :
    Except Fault (Option SymbolId × Workspace) :=
  (w.table.define scope name symbol).map fun (previous, t) =>
    (previous, ⟨t, previous.toList.map .symbol ++ w.held⟩)

def freezeScope (w : Workspace) (scope : ScopeId) : Workspace :=
  { w with table := w.table.freezeScope scope }

def freeze (w : Workspace) : Workspace := { w with table := w.table.freeze }

def openScope (w : Workspace) (owner : Option SymbolId) : ScopeId × Workspace :=
  let (k, heap) := w.table.heap.addScope owner
  (k, w.take (.scope k) { w.table with heap })

def hold (w : Workspace) (r : Ref) : Except Fault Workspace :=
  if w.table.heap.isLive r then
    .ok (w.take r { w.table with heap := w.table.heap.retain r })
  else .error (.released r)

def drop (w : Workspace) (r : Ref) : Except Fault Workspace :=
  if r ∈ w.held then .ok ⟨w.table.release r, w.held.erase r⟩ else .error (.notHeld r)

end Workspace

end CompilerSymbols
