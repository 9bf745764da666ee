import CompilerSymbols.Heap.Create
import CompilerSymbols.Proofs.Heap.Cells
import Mathlib.Logic.Relation

namespace CompilerSymbols

attribute [ext] SymbolId ScopeId

namespace Heap

def incoming (h : Heap) (r : Ref) : Nat :=
  h.symbols.links (fun s => (s.scope.toList.map Ref.scope).count r)
    + h.scopes.links (fun s => (s.symbols.map Ref.symbol).count r)

theorem incoming_ne_zero_iff (h : Heap) (r : Ref) : h.incoming r ≠ 0 ↔ ∃ a, r ∈ h.holds a := by
  have hs (a b : Nat) : a + b ≠ 0 ↔ a ≠ 0 ∨ b ≠ 0 := by omega
  have hc (l : List Ref) : l.count r ≠ 0 ↔ r ∈ l := by rw [Ne, List.count_eq_zero, Decidable.not_not]
  simp only [incoming, hs, Cells.links_ne_zero_iff, hc]
  constructor
  · rintro (⟨i, x, hx, hr⟩ | ⟨i, x, hx, hr⟩)
    · exact ⟨.symbol ⟨i⟩, by simpa [holds, symbol?, Cells.value?, hx] using hr⟩
    · exact ⟨.scope ⟨i⟩, by simpa [holds, scope?, Cells.value?, hx] using hr⟩
  · rintro ⟨a, ha⟩
    cases a with
    | symbol id =>
        left
        cases hx : h.symbols.cell? id.index with
        | none => simp [holds, symbol?, Cells.value?, hx] at ha
        | some x => exact ⟨id.index, x, hx, by simpa [holds, symbol?, Cells.value?, hx] using ha⟩
    | scope id =>
        right
        cases hx : h.scopes.cell? id.index with
        | none => simp [holds, scope?, Cells.value?, hx] at ha
        | some x => exact ⟨id.index, x, hx, by simpa [holds, scope?, Cells.value?, hx] using ha⟩

theorem isLive_of_strong {h : Heap} {r : Ref} (hs : h.strong r ≠ 0) : h.isLive r := by
  cases r with
  | symbol id =>
      cases hx : h.symbols.cell? id.index with
      | none => simp [strong, Cells.strong, hx] at hs
      | some x => simp [isLive, symbol?, Cells.value?, hx]
  | scope id =>
      cases hx : h.scopes.cell? id.index with
      | none => simp [strong, Cells.strong, hx] at hs
      | some x => simp [isLive, scope?, Cells.value?, hx]

theorem isLive_scope {h : Heap} {k : ScopeId} {s : Scope} (hs : h.scope? k = some s) :
    h.isLive (.scope k) := by
  rw [isLive, hs]
  rfl

theorem isLive_symbol {h : Heap} {id : SymbolId} {s : Symbol} (hs : h.symbol? id = some s) :
    h.isLive (.symbol id) := by
  rw [isLive, hs]
  rfl

@[simp]
theorem incoming_setStrong (h : Heap) (n : Nat) (r r' : Ref) :
    (h.setStrong n r).incoming r' = h.incoming r' := by
  cases r <;> simp [setStrong, incoming, Cells.links_setStrong]

theorem incoming_free {h : Heap} {r : Ref} (hs : h.strong r ≠ 0) (r' : Ref) :
    (h.free r).incoming r' + (h.holds r).count r' = h.incoming r' := by
  cases r with
  | symbol id =>
      cases hx : h.symbols.cell? id.index with
      | none => simp [strong, Cells.strong, hx] at hs
      | some x =>
          have hl := Cells.links_free (fun s : Symbol => (s.scope.toList.map Ref.scope).count r') h.symbols hx
          simp only [incoming, free, holds, symbol?, Cells.value?, hx, Option.map_some, Option.bind_some]
          omega
  | scope id =>
      cases hx : h.scopes.cell? id.index with
      | none => simp [strong, Cells.strong, hx] at hs
      | some x =>
          have hl := Cells.links_free (fun s : Scope => (s.symbols.map Ref.symbol).count r') h.scopes hx
          simp only [incoming, free, holds, scope?, Cells.value?, hx, Option.map_some, Option.getD_some]
          omega

@[simp]
theorem symbol?_setStrong (h : Heap) (n : Nat) (r : Ref) (id : SymbolId) :
    (h.setStrong n r).symbol? id = h.symbol? id := by
  cases r <;> simp [setStrong, symbol?]

@[simp]
theorem scope?_setStrong (h : Heap) (n : Nat) (r : Ref) (id : ScopeId) :
    (h.setStrong n r).scope? id = h.scope? id := by
  cases r <;> simp [setStrong, scope?]

@[simp]
theorem isLive_setStrong (h : Heap) (n : Nat) (r r' : Ref) : (h.setStrong n r).isLive r' = h.isLive r' := by
  cases r' <;> simp [isLive]

theorem strong_setStrong {h : Heap} {r : Ref} (hl : h.isLive r) (n : Nat) (r' : Ref) :
    (h.setStrong n r).strong r' = if r' = r then n else h.strong r' := by
  cases r with
  | symbol id =>
      cases r' with
      | symbol id' => simpa [setStrong, strong, SymbolId.ext_iff] using Cells.strong_setStrong hl n id'.index
      | scope id' => simp [setStrong, strong]
  | scope id =>
      cases r' with
      | symbol id' => simp [setStrong, strong]
      | scope id' => simpa [setStrong, strong, ScopeId.ext_iff] using Cells.strong_setStrong hl n id'.index

theorem strong_free (h : Heap) (r r' : Ref) : (h.free r).strong r' = if r' = r then 0 else h.strong r' := by
  cases r <;> cases r' <;> simp [free, strong, Cells.strong_free, SymbolId.ext_iff, ScopeId.ext_iff]

theorem symbol?_free (h : Heap) (r : Ref) (id : SymbolId) :
    (h.free r).symbol? id = if r = .symbol id then none else h.symbol? id := by
  cases r <;> simp [free, symbol?, Cells.value?_free, SymbolId.ext_iff, eq_comm]

theorem scope?_free (h : Heap) (r : Ref) (id : ScopeId) :
    (h.free r).scope? id = if r = .scope id then none else h.scope? id := by
  cases r <;> simp [free, scope?, Cells.value?_free, ScopeId.ext_iff, eq_comm]

theorem isLive_free (h : Heap) (r r' : Ref) :
    (h.free r).isLive r' = if r' = r then false else h.isLive r' := by
  cases r' with
  | symbol id =>
      simp only [isLive, symbol?_free, eq_comm (a := r)]
      split <;> rfl
  | scope id =>
      simp only [isLive, scope?_free, eq_comm (a := r)]
      split <;> rfl

@[simp]
theorem symbol?_setScope (h : Heap) (id : ScopeId) (s : Scope) (id' : SymbolId) :
    (h.setScope id s).symbol? id' = h.symbol? id' := rfl

theorem scope?_setScope {h : Heap} {id : ScopeId} (hl : h.isLive (.scope id)) (s : Scope) (id' : ScopeId) :
    (h.setScope id s).scope? id' = if id' = id then some s else h.scope? id' := by
  simpa [setScope, scope?, ScopeId.ext_iff] using Cells.value?_setValue hl s id'.index

theorem isLive_setScope {h : Heap} {id : ScopeId} (hl : h.isLive (.scope id)) (s : Scope) (r : Ref) :
    (h.setScope id s).isLive r = h.isLive r := by
  cases r with
  | symbol id' => rfl
  | scope id' =>
      rw [isLive, scope?_setScope hl]
      split
      · next he => exact (he ▸ hl).symm
      · rfl

@[simp]
theorem strong_setScope (h : Heap) (id : ScopeId) (s : Scope) (r : Ref) :
    (h.setScope id s).strong r = h.strong r := by
  cases r <;> simp [setScope, strong]

theorem incoming_setScope {h : Heap} {id : ScopeId} {s : Scope} (hs : h.scope? id = some s) (s' : Scope)
    (r : Ref) : (h.setScope id s').incoming r + (s.symbols.map Ref.symbol).count r =
      h.incoming r + (s'.symbols.map Ref.symbol).count r := by
  obtain ⟨x, hx, rfl⟩ := Option.map_eq_some_iff.mp hs
  have hl := Cells.links_setValue (fun s : Scope => (s.symbols.map Ref.symbol).count r) h.scopes hx s'
  simp only [incoming, setScope]
  omega

def enter (h : Heap) (s : Symbol) : Heap := { h with symbols := h.symbols.push (some ⟨s, 1⟩) }

theorem addSymbol_absent (h : Heap) (s : Symbol) :
    h.addSymbol s .absent = (⟨h.symbols.size⟩, h.enter { s with scope := none }) := rfl

theorem addSymbol_fresh (h : Heap) (s : Symbol) :
    h.addSymbol s .fresh = (⟨h.symbols.size⟩,
      (h.addScope (some ⟨h.symbols.size⟩)).2.enter { s with scope := some ⟨h.scopes.size⟩ }) := rfl

theorem addSymbol_shared (h : Heap) (s : Symbol) (k : ScopeId) :
    h.addSymbol s (.shared k) = (⟨h.symbols.size⟩, (h.retain (.scope k)).enter { s with scope := some k }) := rfl

theorem symbol?_enter (h : Heap) (s : Symbol) (id : SymbolId) :
    (h.enter s).symbol? id = if id = ⟨h.symbols.size⟩ then some s else h.symbol? id := by
  simp [enter, symbol?, Cells.value?_push, SymbolId.ext_iff]

@[simp]
theorem scope?_enter (h : Heap) (s : Symbol) (id : ScopeId) : (h.enter s).scope? id = h.scope? id := rfl

theorem strong_enter (h : Heap) (s : Symbol) (r : Ref) :
    (h.enter s).strong r = if r = .symbol ⟨h.symbols.size⟩ then 1 else h.strong r := by
  cases r <;> simp [enter, strong, Cells.strong_push, SymbolId.ext_iff]

theorem isLive_enter (h : Heap) (s : Symbol) (r : Ref) :
    (h.enter s).isLive r = if r = .symbol ⟨h.symbols.size⟩ then true else h.isLive r := by
  cases r with
  | symbol id =>
      simp only [isLive, symbol?_enter, Ref.symbol.injEq]
      split <;> rfl
  | scope id => simp [isLive]

theorem incoming_enter (h : Heap) (s : Symbol) (r : Ref) :
    (h.enter s).incoming r = h.incoming r + (s.scope.toList.map Ref.scope).count r := by
  simp only [incoming, enter, Cells.links_push]
  omega

@[simp]
theorem symbol?_addScope (h : Heap) (owner : Option SymbolId) (id : SymbolId) :
    (h.addScope owner).2.symbol? id = h.symbol? id := rfl

theorem scope?_addScope (h : Heap) (owner : Option SymbolId) (id : ScopeId) :
    (h.addScope owner).2.scope? id = if id = ⟨h.scopes.size⟩ then some (.empty owner) else h.scope? id := by
  simp [addScope, scope?, Cells.value?_push, ScopeId.ext_iff]

theorem strong_addScope (h : Heap) (owner : Option SymbolId) (r : Ref) :
    (h.addScope owner).2.strong r = if r = .scope ⟨h.scopes.size⟩ then 1 else h.strong r := by
  cases r <;> simp [addScope, strong, Cells.strong_push, ScopeId.ext_iff]

theorem isLive_addScope (h : Heap) (owner : Option SymbolId) (r : Ref) :
    (h.addScope owner).2.isLive r = if r = .scope ⟨h.scopes.size⟩ then true else h.isLive r := by
  cases r with
  | symbol id => simp [isLive]
  | scope id =>
      simp only [isLive, scope?_addScope, Ref.scope.injEq]
      split <;> rfl

@[simp]
theorem incoming_addScope (h : Heap) (owner : Option SymbolId) (r : Ref) :
    (h.addScope owner).2.incoming r = h.incoming r := by
  simp [incoming, addScope, Cells.links_push, Scope.empty, Scope.symbols]

def chosen (h : Heap) : ScopeChoice → Option ScopeId
  | .absent => none
  | .fresh => some ⟨h.scopes.size⟩
  | .shared k => some k

theorem symbol?_addSymbol (h : Heap) (s : Symbol) (choice : ScopeChoice) (id : SymbolId) :
    (h.addSymbol s choice).2.symbol? id =
      if id = ⟨h.symbols.size⟩ then some { s with scope := h.chosen choice } else h.symbol? id := by
  cases choice with
  | absent | fresh => exact symbol?_enter ..
  | shared k =>
      rw [addSymbol_shared, symbol?_enter, retain, symbol?_setStrong]
      rfl

theorem symbol?_new {h : Heap} {s s' : Symbol} {choice : ScopeChoice} {id : SymbolId}
    (hs : (h.addSymbol s choice).2.symbol? id = some s') :
    h.symbol? id = some s' ∨ s'.payload = s.payload ∧ s'.type = s.type := by
  rw [symbol?_addSymbol] at hs
  split at hs
  · cases hs
    exact .inr ⟨rfl, rfl⟩
  · exact .inl hs

theorem scope?_addSymbol (h : Heap) (s : Symbol) (choice : ScopeChoice) (k : ScopeId) :
    (h.addSymbol s choice).2.scope? k =
      if choice = .fresh ∧ k = ⟨h.scopes.size⟩ then some (.empty (some ⟨h.symbols.size⟩)) else h.scope? k := by
  cases choice with
  | absent => simp [addSymbol_absent]
  | fresh => simp [addSymbol_fresh, scope?_addScope]
  | shared k' => simp [addSymbol_shared, retain]

theorem define_cases {h h' : Heap} {scope : ScopeId} {name : Name} {symbol : SymbolId}
    {previous : Option SymbolId} (hd : h.define scope name symbol = .ok (previous, h')) :
    ∃ s s', h.scope? scope = some s ∧ h.isLive (.symbol symbol) ∧ s.define name symbol = .ok (previous, s') ∧
      h' = (h.setScope scope s').retain (.symbol symbol) := by
  unfold define at hd
  split at hd
  · cases hd
  · next s hs =>
      split at hd
      · next hl =>
          cases hx : s.define name symbol with
          | error f =>
              rw [hx] at hd
              cases hd
          | ok r =>
              rw [hx] at hd
              cases hd
              exact ⟨s, r.2, hs, hl, hx, rfl⟩
      · cases hd

/-- A definition changes just the scope that it is made in. -/
theorem scope?_define {h h' : Heap} {scope : ScopeId} {name : Name} {symbol : SymbolId}
    {previous : Option SymbolId} (hd : h.define scope name symbol = .ok (previous, h')) :
    ∃ s s', h.scope? scope = some s ∧ h.isLive (.symbol symbol) ∧ s.define name symbol = .ok (previous, s') ∧
      ∀ k, h'.scope? k = if k = scope then some s' else h.scope? k := by
  obtain ⟨s, s', hs, hl, hs', rfl⟩ := define_cases hd
  refine ⟨s, s', hs, hl, hs', fun k => ?_⟩
  rw [retain, scope?_setStrong, scope?_setScope (isLive_scope hs)]

theorem scope?_freeze (h : Heap) (j k : ScopeId) :
    (h.freeze j).scope? k = if k = j then (h.scope? j).map Scope.freeze else h.scope? k := by
  unfold Heap.freeze
  split
  · next s hs => rw [scope?_setScope (isLive_scope hs), hs, Option.map_some]
  · next hs =>
      split
      · next he => rw [he, hs, Option.map_none]
      · rfl

theorem not_isLive_symbol_size (h : Heap) : ¬ h.isLive (.symbol ⟨h.symbols.size⟩) := by
  simp [isLive, symbol?, Cells.value?, Cells.cell?_size]

theorem not_isLive_scope_size (h : Heap) : ¬ h.isLive (.scope ⟨h.scopes.size⟩) := by
  simp [isLive, scope?, Cells.value?, Cells.cell?_size]

end Heap

end CompilerSymbols
