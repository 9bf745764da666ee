import CompilerSymbols.Proofs.Heap.References
import CompilerSymbols.Proofs.Scope.Define

namespace CompilerSymbols.Heap

/-- Every count of references is right, when `outside` lists those that no object holds: an object
is there as long as somebody has a reference to it. -/
structure Balanced (h : Heap) (outside : List Ref) : Prop where
  strong_eq : ∀ r, h.strong r = outside.count r + h.incoming r
  strong_ne_zero : ∀ r, h.isLive r → h.strong r ≠ 0

namespace Balanced

variable {h : Heap} {outside : List Ref}

theorem isLive_iff (b : Balanced h outside) (r : Ref) :
    h.isLive r ↔ r ∈ outside ∨ ∃ a, r ∈ h.holds a := by
  have hr := b.strong_eq r
  rw [← incoming_ne_zero_iff, ← List.count_pos_iff]
  constructor
  · intro hl
    have := b.strong_ne_zero r hl
    omega
  · intro ho
    exact isLive_of_strong (by omega)

theorem isLive_of_mem (b : Balanced h outside) {r : Ref} (hr : r ∈ outside) : h.isLive r :=
  (b.isLive_iff r).mpr (.inl hr)

theorem isLive_of_holds (b : Balanced h outside) {a r : Ref} (hr : r ∈ h.holds a) : h.isLive r :=
  (b.isLive_iff r).mpr (.inr ⟨a, hr⟩)

theorem isLive_of_mem_symbols (b : Balanced h outside) {k : ScopeId} {s : Scope} (hs : h.scope? k = some s)
    {x : SymbolId} (hx : x ∈ s.symbols) : h.isLive (.symbol x) := by
  apply b.isLive_of_holds (a := .scope k)
  rw [holds, hs]
  exact List.mem_map_of_mem hx

theorem perm (b : Balanced h outside) {outside' : List Ref} (hp : outside.Perm outside') :
    Balanced h outside' :=
  ⟨fun r => by rw [b.strong_eq, hp.count_eq], b.strong_ne_zero⟩

theorem forget {r : Ref} (b : Balanced h (r :: outside)) (hr : h.strong r ≠ 1) :
    Balanced (h.setStrong (h.strong r - 1) r) outside where
  strong_eq := by
    intro r'
    have hs := b.strong_eq r'
    rw [strong_setStrong (b.isLive_of_mem List.mem_cons_self), incoming_setStrong]
    by_cases hr' : r' = r
    · subst r'
      rw [List.count_cons_self] at hs
      rw [if_pos rfl]
      omega
    · rw [List.count_cons_of_ne (Ne.symm hr')] at hs
      rw [if_neg hr', hs]
  strong_ne_zero := by
    intro r' hl
    rw [isLive_setStrong] at hl
    rw [strong_setStrong (b.isLive_of_mem List.mem_cons_self)]
    split
    · have := b.strong_ne_zero r (b.isLive_of_mem List.mem_cons_self)
      omega
    · exact b.strong_ne_zero r' hl

theorem free {r : Ref} (b : Balanced h (r :: outside)) (hr : h.strong r = 1) :
    Balanced (h.free r) (h.holds r ++ outside) where
  strong_eq := by
    intro r'
    have hs := b.strong_eq r'
    have hi := incoming_free (show h.strong r ≠ 0 by omega) r'
    rw [strong_free, List.count_append]
    by_cases hr' : r' = r
    · subst r'
      rw [List.count_cons_self] at hs
      rw [if_pos rfl]
      omega
    · rw [List.count_cons_of_ne (Ne.symm hr')] at hs
      rw [if_neg hr']
      omega
  strong_ne_zero := by
    intro r' hl
    rw [isLive_free] at hl
    split at hl
    · cases hl
    · next hr' =>
        rw [strong_free, if_neg hr']
        exact b.strong_ne_zero r' hl

/-- Giving back references leaves every count right, whatever else is gone then. -/
theorem release {rs : List Ref} (b : Balanced h (rs ++ outside)) : Balanced (h.release rs) outside := by
  fun_induction Heap.release h rs with
  | case1 h => exact b
  -- A reference that is given back is counted, so there is no count of zero on the way.
  | case2 h r rs hr ih => exact absurd hr (b.strong_ne_zero r (b.isLive_of_mem List.mem_cons_self))
  | case3 h r rs hr hone ih =>
      apply ih
      rw [List.append_assoc]
      exact b.free hone
  | case4 h r rs hr hone ih => exact ih (b.forget hone)

theorem retain {r : Ref} (b : Balanced h outside) (hr : h.isLive r) : Balanced (h.retain r) (r :: outside) where
  strong_eq := by
    intro r'
    have hs := b.strong_eq r'
    rw [Heap.retain, strong_setStrong hr, incoming_setStrong]
    by_cases hr' : r' = r
    · subst r'
      rw [if_pos rfl, List.count_cons_self]
      omega
    · rw [if_neg hr', List.count_cons_of_ne (Ne.symm hr'), hs]
  strong_ne_zero := by
    intro r' hl
    rw [Heap.retain, isLive_setStrong] at hl
    rw [Heap.retain, strong_setStrong hr]
    split
    · exact Nat.succ_ne_zero _
    · exact b.strong_ne_zero r' hl

theorem setScope (b : Balanced h outside) {id : ScopeId} {s s' : Scope} (hs : h.scope? id = some s)
    {outside' : List Ref}
    (hp : (s'.symbols.map Ref.symbol ++ outside').Perm (s.symbols.map Ref.symbol ++ outside)) :
    Balanced (h.setScope id s') outside' where
  strong_eq := by
    intro r
    have hr := b.strong_eq r
    have hi := incoming_setScope hs s' r
    have hc := hp.count_eq r
    rw [List.count_append, List.count_append] at hc
    rw [strong_setScope]
    omega
  strong_ne_zero := by
    intro r hl
    rw [isLive_setScope (by simp [isLive, hs])] at hl
    rw [strong_setScope]
    exact b.strong_ne_zero r hl

/-- A new object comes with one reference to it, and takes over references to what it holds. -/
theorem create {h' : Heap} {r : Ref} {taken : List Ref} (b : Balanced h (taken ++ outside)) (hr : ¬ h.isLive r)
    (hs : ∀ r', h'.strong r' = if r' = r then 1 else h.strong r')
    (hl : ∀ r', h'.isLive r' = if r' = r then true else h.isLive r')
    (hi : ∀ r', h'.incoming r' = h.incoming r' + taken.count r') : Balanced h' (r :: outside) where
  strong_eq := by
    intro r'
    have hb := b.strong_eq r'
    rw [List.count_append] at hb
    rw [hs, hi]
    by_cases hr' : r' = r
    · subst r'
      have hz : h.strong r = 0 := by
        apply Decidable.byContradiction
        exact fun hz => hr (isLive_of_strong hz)
      rw [if_pos rfl, List.count_cons_self]
      omega
    · rw [if_neg hr', List.count_cons_of_ne (Ne.symm hr')]
      omega
  strong_ne_zero := by
    intro r' hr'
    rw [hl] at hr'
    rw [hs]
    split
    · exact Nat.one_ne_zero
    · next hne => exact b.strong_ne_zero r' (by simpa [hne] using hr')

theorem addScope (b : Balanced h outside) (owner : Option SymbolId) :
    Balanced (h.addScope owner).2 (.scope (h.addScope owner).1 :: outside) :=
  create (show Balanced h ([] ++ outside) from b) h.not_isLive_scope_size (h.strong_addScope owner)
    (h.isLive_addScope owner) (by simp)

theorem enter {s : Symbol} (b : Balanced h (s.scope.toList.map .scope ++ outside)) :
    Balanced (h.enter s) (.symbol ⟨h.symbols.size⟩ :: outside) :=
  create b h.not_isLive_symbol_size (h.strong_enter s) (h.isLive_enter s) (h.incoming_enter s)

theorem addSymbol (b : Balanced h outside) (s : Symbol) {choice : ScopeChoice}
    (hc : ∀ k, choice = .shared k → h.isLive (.scope k)) :
    Balanced (h.addSymbol s choice).2 (.symbol (h.addSymbol s choice).1 :: outside) := by
  cases choice with
  | absent => exact enter (s := { s with scope := none }) b
  | fresh => exact enter (s := { s with scope := some ⟨h.scopes.size⟩ }) (b.addScope (some ⟨h.symbols.size⟩))
  | shared k => exact enter (s := { s with scope := some k }) (b.retain (hc k rfl))

theorem define (b : Balanced h outside) {scope : ScopeId} {name : Name} {symbol : SymbolId}
    {previous : Option SymbolId} {h' : Heap} (hd : h.define scope name symbol = .ok (previous, h')) :
    Balanced h' (previous.toList.map .symbol ++ outside) := by
  obtain ⟨s, s', hs, hl, hs', rfl⟩ := define_cases hd
  have hr : (h.retain (.symbol symbol)).scope? scope = some s := by rw [Heap.retain, scope?_setStrong, hs]
  refine setScope (b.retain hl) hr ?_
  have hp := ((Scope.define_perm hs').map Ref.symbol).append_right outside
  simpa [List.map_append, List.append_assoc] using hp

theorem freeze (b : Balanced h outside) (id : ScopeId) : Balanced (h.freeze id) outside := by
  unfold Heap.freeze
  split
  · next s hs => exact b.setScope hs (List.Perm.refl _)
  · exact b

end Balanced

end CompilerSymbols.Heap
