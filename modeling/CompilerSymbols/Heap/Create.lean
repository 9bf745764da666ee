import CompilerSymbols.Heap.Basic

namespace CompilerSymbols

inductive ScopeChoice
  | absent
  | fresh
  | shared (scope : ScopeId)
deriving DecidableEq

namespace Heap

/-- A new scope with one reference to it. Its owner is not held. -/
def addScope (h : Heap) (owner : Option SymbolId) : ScopeId × Heap :=
  (⟨h.scopes.size⟩, { h with scopes := h.scopes.push (some ⟨.empty owner, 1⟩) })

def addSymbol (h : Heap) (s : Symbol) (choice : ScopeChoice) : SymbolId × Heap :=
  let id : SymbolId := ⟨h.symbols.size⟩
  let (scope, h) := match choice with
    | .absent => (none, h)
    | .fresh => let (k, h) := h.addScope (some id); (some k, h)
    | .shared k => (some k, h.retain (.scope k))
  (id, { h with symbols := h.symbols.push (some ⟨{ s with scope := scope }, 1⟩) })

def setScope (h : Heap) (id : ScopeId) (s : Scope) : Heap :=
  { h with scopes := h.scopes.setValue id.index s }

/-- Defines a symbol in a scope. The reference that the scope had to the symbol replaced, if there
was one, goes to the caller. -/
def define (h : Heap) (scope : ScopeId) (name : Name) (symbol : SymbolId) :
    Except Fault (Option SymbolId × Heap) :=
  match h.scope? scope with
  | none => .error (.released (.scope scope))
  | some s =>
    if h.isLive (.symbol symbol) then
      (s.define name symbol).map fun (previous, s) =>
        (previous, (h.setScope scope s).retain (.symbol symbol))
    else .error (.released (.symbol symbol))

def freeze (h : Heap) (id : ScopeId) : Heap :=
  match h.scope? id with
  | some s => h.setScope id s.freeze
  | none => h

def upgrade? (h : Heap) (id : Option SymbolId) : Option SymbolId :=
  id.filter fun s => h.isLive (.symbol s)

def owner? (h : Heap) (id : SymbolId) : Option SymbolId := h.upgrade? ((h.symbol? id).bind (·.owner))

def scopeOwner? (h : Heap) (id : ScopeId) : Option SymbolId := h.upgrade? ((h.scope? id).bind (·.owner))

def scopeOf (h : Heap) (id : SymbolId) : Except Fault ScopeId :=
  match h.symbol? id with
  | none => .error (.released (.symbol id))
  | some s =>
    match s.scope with
    | some k => .ok k
    | none => .error (.noScope id)

def enclosing? (h : Heap) (id : ScopeId) : Option SymbolId := (h.scopeOwner? id).bind h.owner?

def parent? (h : Heap) (id : ScopeId) : Option ScopeId :=
  (h.enclosing? id).bind fun s => (h.symbol? s).bind (·.scope)

end Heap

end CompilerSymbols
