import CompilerSymbols.Proofs.Heap.References
import CompilerSymbols.Proofs.Scope.Define

namespace CompilerSymbols.Heap

def Created (h : Heap) : Ref → Prop
  | .symbol id => id.index < h.symbols.size
  | .scope id => id.index < h.scopes.size

theorem created_of_isLive {h : Heap} {r : Ref} (hl : h.isLive r) : h.Created r := by
  cases r with
  | symbol id =>
      obtain ⟨s, hs⟩ := Option.isSome_iff_exists.mp hl
      obtain ⟨x, hx, -⟩ := Option.map_eq_some_iff.mp hs
      exact Cells.lt_of_cell? hx
  | scope id =>
      obtain ⟨s, hs⟩ := Option.isSome_iff_exists.mp hl
      obtain ⟨x, hx, -⟩ := Option.map_eq_some_iff.mp hs
      exact Cells.lt_of_cell? hx

/-- Nothing is new in the second heap: some objects can be gone, symbols do not change, and a scope
keeps its owner. -/
structure Shrinks (h h' : Heap) : Prop where
  created : ∀ r, h'.Created r ↔ h.Created r
  symbol : ∀ id s, h'.symbol? id = some s → h.symbol? id = some s
  scope : ∀ id s', h'.scope? id = some s' → ∃ s, h.scope? id = some s ∧ s.owner = s'.owner

namespace Shrinks

variable {h h' h'' : Heap}

theorem refl (h : Heap) : Shrinks h h := ⟨fun _ => .rfl, fun _ _ hs => hs, fun _ s hs => ⟨s, hs, rfl⟩⟩

theorem trans (a : Shrinks h h') (b : Shrinks h' h'') : Shrinks h h'' := by
  refine ⟨fun r => (b.created r).trans (a.created r), fun id s hs => a.symbol id s (b.symbol id s hs), ?_⟩
  intro id s'' hs
  obtain ⟨s', hs', ho'⟩ := b.scope id s'' hs
  obtain ⟨s, hs, ho⟩ := a.scope id s' hs'
  exact ⟨s, hs, ho.trans ho'⟩

theorem setStrong (h : Heap) (n : Nat) (r : Ref) : Shrinks h (h.setStrong n r) where
  created := by
    intro r'
    cases r <;> cases r' <;> simp [Created, Heap.setStrong]
  symbol := by simp
  scope := by
    intro id s hs
    rw [scope?_setStrong] at hs
    exact ⟨s, hs, rfl⟩

theorem free (h : Heap) (r : Ref) : Shrinks h (h.free r) where
  created := by
    intro r'
    cases r <;> cases r' <;> simp [Created, Heap.free, Cells.free, Cells.put]
  symbol := by
    intro id s hs
    rw [symbol?_free] at hs
    split at hs
    · cases hs
    · exact hs
  scope := by
    intro id s hs
    rw [scope?_free] at hs
    split at hs
    · cases hs
    · exact ⟨s, hs, rfl⟩

theorem release (h : Heap) (rs : List Ref) : Shrinks h (h.release rs) := by
  fun_induction Heap.release h rs with
  | case1 h => exact refl h
  | case2 h r rs hr ih => exact ih
  | case3 h r rs hr hone ih => exact (free h r).trans ih
  | case4 h r rs hr hone ih => exact (setStrong h _ r).trans ih

theorem setScope {id : ScopeId} {s s' : Scope} (hs : h.scope? id = some s) (ho : s'.owner = s.owner) :
    Shrinks h (h.setScope id s') where
  created := by
    intro r
    cases r <;> simp [Created, Heap.setScope]
  symbol := by simp
  scope := by
    intro id' t ht
    rw [scope?_setScope (by simp [isLive, hs])] at ht
    split at ht
    · next he =>
        cases ht
        exact ⟨s, he ▸ hs, ho.symm⟩
    · exact ⟨t, ht, rfl⟩

theorem define {scope : ScopeId} {name : Name} {symbol : SymbolId} {previous : Option SymbolId}
    (hd : h.define scope name symbol = .ok (previous, h')) : Shrinks h h' := by
  obtain ⟨s, s', hs, -, hs', rfl⟩ := define_cases hd
  exact (setScope hs (Scope.define_owner hs')).trans (setStrong ..)

theorem freeze (h : Heap) (id : ScopeId) : Shrinks h (h.freeze id) := by
  unfold Heap.freeze
  split
  · next s hs => exact setScope hs rfl
  · exact refl h

end Shrinks

/-- What a later heap has of the objects of an earlier one: symbols do not change, scopes keep
their owner, and what is gone does not come back. -/
structure Precedes (h h' : Heap) : Prop where
  created : ∀ r, h.Created r → h'.Created r
  symbol : ∀ id s, h.Created (.symbol id) → h'.symbol? id = some s → h.symbol? id = some s
  scope : ∀ id s', h.Created (.scope id) → h'.scope? id = some s' →
    ∃ s, h.scope? id = some s ∧ s.owner = s'.owner

namespace Precedes

variable {h h' h'' : Heap}

theorem of_shrinks (a : Shrinks h h') : Precedes h h' :=
  ⟨fun r => (a.created r).mpr, fun id s _ => a.symbol id s, fun id s _ => a.scope id s⟩

theorem refl (h : Heap) : Precedes h h := of_shrinks (.refl h)

theorem trans (a : Precedes h h') (b : Precedes h' h'') : Precedes h h'' where
  created := fun r hr => b.created r (a.created r hr)
  symbol := fun id s hc hs => a.symbol id s hc (b.symbol id s (a.created _ hc) hs)
  scope := by
    intro id s'' hc hs
    obtain ⟨s', hs', ho'⟩ := b.scope id s'' (a.created _ hc) hs
    obtain ⟨s, hs, ho⟩ := a.scope id s' hc hs'
    exact ⟨s, hs, ho.trans ho'⟩

theorem enter (h : Heap) (s : Symbol) : Precedes h (h.enter s) where
  created := by
    intro r hr
    cases r with
    | symbol id => exact Nat.lt_of_lt_of_le hr (by simp [Heap.enter])
    | scope id => exact hr
  symbol := by
    intro id s' hc hs
    rw [symbol?_enter, if_neg] at hs
    · exact hs
    · rintro rfl
      exact Nat.lt_irrefl _ hc
  scope := fun id s' _ hs => ⟨s', hs, rfl⟩

theorem addScope (h : Heap) (owner : Option SymbolId) : Precedes h (h.addScope owner).2 where
  created := by
    intro r hr
    cases r with
    | symbol id => exact hr
    | scope id => exact Nat.lt_of_lt_of_le hr (by simp [Heap.addScope])
  symbol := fun id s _ hs => hs
  scope := by
    intro id s' hc hs
    rw [scope?_addScope, if_neg] at hs
    · exact ⟨s', hs, rfl⟩
    · rintro rfl
      exact Nat.lt_irrefl _ hc

theorem addSymbol (h : Heap) (s : Symbol) (choice : ScopeChoice) : Precedes h (h.addSymbol s choice).2 := by
  cases choice with
  | absent => exact enter h _
  | fresh => exact (addScope h (some ⟨h.symbols.size⟩)).trans (enter _ _)
  | shared k => exact (of_shrinks (.setStrong h _ (.scope k))).trans (enter _ _)

end Precedes

end CompilerSymbols.Heap
