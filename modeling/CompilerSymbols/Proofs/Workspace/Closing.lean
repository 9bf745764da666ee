import CompilerSymbols.Proofs.Workspace.Frozen
import CompilerSymbols.SharedTable

namespace CompilerSymbols

theorem Table.initial_open {names : Interner} {t : Table} (h : initial names = .ok t) {k : ScopeId} {s : Scope}
    (hs : t.heap.scope? k = some s) : s.frozen = false := by
  revert k s
  apply initial_invariant (P := fun t => ∀ {k s}, t.heap.scope? k = some s → s.frozen = false) h
  · intro t hb k s hs
    obtain ⟨owner, rfl⟩ := bare_scope? hb hs
    rfl
  · intro t t' text type ha ht k s hs
    obtain ⟨name, -, hold⟩ := addBuiltinType_scope? ha
    rcases hold hs with hs | ⟨old, previous, -, hd⟩
    · exact ht hs
    · obtain ⟨hf, ⟨j, n, x, -, -, -, rfl⟩ | ⟨-, -, rfl⟩⟩ := Scope.define_cases hd <;> exact hf
  · intro t t' target ha ht k s hs
    exact ht ((addUnboxing_scope? ha).2 k ▸ hs)
  · intro t t' c ha ht k s hs
    exact ht ((addScalarConversion_scope? ha).2 k ▸ hs)

namespace Workspace

variable {w : Workspace} {qs : List Request} {q : Request} {k : ScopeId} {s : Scope}

def Closes (w : Workspace) (qs : List Request) (k : ScopeId) : Prop :=
  ∃ qs₁ q, qs₁ ++ [q] <+: qs ∧ (w.run qs₁).table.heap.isLive (.scope k) ∧ q.closes? (w.run qs₁).table = some k

theorem closes_concat : w.Closes (qs ++ [q]) k ↔
    w.Closes qs k ∨ (w.run qs).table.heap.isLive (.scope k) ∧ q.closes? (w.run qs).table = some k := by
  constructor
  · rintro ⟨qs₁, q₁, hp, hl, hc⟩
    rcases List.prefix_concat_iff.mp hp with he | hp
    · obtain ⟨rfl, hq⟩ := List.append_inj' he rfl
      cases hq
      exact .inr ⟨hl, hc⟩
    · exact .inl ⟨qs₁, q₁, hp, hl, hc⟩
  · rintro (⟨qs₁, q₁, hp, hl, hc⟩ | ⟨hl, hc⟩)
    · exact ⟨qs₁, q₁, hp.trans (List.prefix_append ..), hl, hc⟩
    · exact ⟨qs, q, List.prefix_rfl, hl, hc⟩

theorem Closes.created (h : w.Closes qs k) : (w.run qs).table.heap.Created (.scope k) := by
  obtain ⟨qs₁, q, ⟨qs₂, rfl⟩, hl, -⟩ := h
  rw [List.append_assoc, run_append]
  exact (Steps.run _ _).precedes.heap.created _ (Heap.created_of_isLive hl)

theorem run_frozen_iff (ho : ∀ {k s}, w.table.heap.scope? k = some s → s.frozen = false)
    (hs : (w.run qs).table.heap.scope? k = some s) : s.frozen = true ↔ w.Closes qs k := by
  induction qs using List.reverseRecOn generalizing k s with
  | nil =>
      refine iff_of_false (by simp [ho hs]) ?_
      rintro ⟨qs₁, q, hp, -⟩
      simp at hp
  | append_singleton qs q ih =>
      rw [run_append] at hs
      rw [closes_concat]
      cases next_scope? hs with
      | same hq hk => rw [ih hk, or_iff_left fun h => hq h.2]
      | opened hn he =>
          subst he
          refine iff_of_false Bool.false_ne_true ?_
          rintro (hc | ⟨hl, -⟩)
          · exact hn hc.created
          · exact hn (Heap.created_of_isLive hl)
      | defined hq hk hd =>
          obtain ⟨hf, hcase⟩ := Scope.define_cases hd
          have hf' : s.frozen = false := by
            obtain ⟨j, n, x, -, -, -, rfl⟩ | ⟨-, -, rfl⟩ := hcase <;> exact hf
          refine iff_of_false (by simp [hf']) ?_
          rintro (hc | ⟨-, hc⟩)
          · exact absurd ((ih hk).mpr hc) (by simp [hf])
          · rw [hq] at hc
            cases hc
      | closed hq hk he =>
          rw [he]
          exact iff_of_true rfl (.inr ⟨Heap.isLive_scope hk, hq⟩)

theorem exists_define {name : Name} {symbol : SymbolId} (hs : w.table.heap.scope? k = some s) (hf : s.frozen = false)
    (hl : w.table.heap.isLive (.symbol symbol)) : ∃ w', w.perform (.definition k name symbol) = .ok w' := by
  obtain ⟨r, hr⟩ : ∃ r, s.define name symbol = .ok r := by
    unfold Scope.define
    rw [if_neg (by simp [hf])]
    split <;> exact ⟨_, rfl⟩
  simp only [perform, define, Table.define, Heap.define, hs, hl, if_true, hr, Except.map]
  exact ⟨_, rfl⟩

/-- A scope refuses definitions if it has been frozen itself, or is the root scope of a table that
has been. Any other takes them, from whom they may come. -/
theorem refuses_iff_closed {names : Interner} (h : initial names = .ok w) (qs : List Request) {k : ScopeId}
    (name : Name) {symbol : SymbolId} (hk : (w.run qs).table.heap.isLive (.scope k))
    (hl : (w.run qs).table.heap.isLive (.symbol symbol)) :
    ((w.run qs).define k name symbol = .error (.frozen name) ↔ w.Closes qs k) ∧
      (¬ w.Closes qs k → ∃ s, ((w.run qs).next (.definition k name symbol)).table.heap.scope? k = some s ∧
        s.lookup? name = some symbol) := by
  obtain ⟨s, hs⟩ := Option.isSome_iff_exists.mp hk
  have hf : s.frozen = true ↔ w.Closes qs k := by
    obtain ⟨t, ht, rfl⟩ := map_ok h
    exact run_frozen_iff (Table.initial_open ht) hs
  have hopen (hc : ¬ w.Closes qs k) : ∃ w', (w.run qs).perform (.definition k name symbol) = .ok w' :=
    exists_define hs (Bool.eq_false_iff.mpr fun h => hc (hf.mp h)) hl
  constructor
  · refine ⟨fun he => ?_, fun hc => define_frozen hs (hf.mpr hc) hl⟩
    by_contra hc
    obtain ⟨w', hw⟩ := hopen hc
    rw [perform, he] at hw
    cases hw
  · intro hc
    obtain ⟨w', hw⟩ := hopen hc
    rw [next, hw]
    exact (perform_definition_scope? k hw).2

theorem refuses_iff_closed_builtinObject : ∃ w, initial (.initial fun _ => 0) = .ok w ∧
    let qs := w.definedObject ++ [.freeze]
    (w.run qs).table.heap.isLive (.scope w.table.rootScope) = true ∧ (w.run qs).table.heap.isLive (.scope ⟨1⟩) = true ∧
      (w.run qs).table.heap.isLive (.symbol ⟨35⟩) = true ∧
      ((w.run qs).define w.table.rootScope .empty ⟨35⟩ = .error (.frozen .empty) ↔ w.Closes qs w.table.rootScope) ∧
      ((w.run qs).define ⟨1⟩ .empty ⟨35⟩ = .error (.frozen .empty) ↔ w.Closes qs ⟨1⟩) := by
  obtain ⟨w, h, hroot, hk, hl⟩ := exists_initial (p := fun w =>
    (w.run (w.definedObject ++ [.freeze])).table.heap.isLive (.scope w.table.rootScope) = true ∧
    (w.run (w.definedObject ++ [.freeze])).table.heap.isLive (.scope ⟨1⟩) = true ∧
    (w.run (w.definedObject ++ [.freeze])).table.heap.isLive (.symbol ⟨35⟩) = true) (by decide +kernel)
  exact ⟨w, h, hroot, hk, hl, (refuses_iff_closed h _ .empty hroot hl).1, (refuses_iff_closed h _ .empty hk hl).1⟩

/-- A builtin object is found in the frozen root scope, and its own scope still takes a definition. -/
theorem builtinObject_open_after_freeze : ∃ w, initial (.initial fun _ => 0) = .ok w ∧
    let v := w.run (w.definedObject ++ [.freeze])
    v.table.isFrozen = true ∧ (v.table.heap.scope? v.table.rootScope).bind (·.lookup? .empty) = some ⟨36⟩ ∧
      v.table.heap.scopeOf ⟨36⟩ = .ok ⟨1⟩ ∧ (v.table.heap.scope? ⟨1⟩).map (·.symbols) = some [] ∧
      ((v.next (.definition ⟨1⟩ .empty ⟨35⟩)).table.heap.scope? ⟨1⟩).map (·.symbols) = some [⟨35⟩] :=
  exists_initial (by decide +kernel)

end Workspace

open Workspace in
/-- The table that the first request gets is frozen, whatever the builtin package has declared in
it, and every later request gets that table, with what it would bind left undone. -/
theorem SharedTable.request_shared {names : Interner} {bind : Workspace → Except Fault Workspace}
    (hbind : ∀ {w w'}, bind w = .ok w' → Steps w w') {first : Bool} {w : Workspace} {g : SharedTable}
    (h : absent.request names bind = .ok (first, w, g)) :
    first = true ∧ w.table.isFrozen = true ∧
      ∀ names' bind', g.request names' bind' = .ok (false, w, g) := by
  obtain ⟨v, hv, he⟩ := map_ok h
  cases he
  obtain ⟨w₀, h₀, hv⟩ := bind_ok hv
  obtain ⟨w₁, h₁, hv⟩ := bind_ok hv
  cases hv
  obtain ⟨t, ht, hsteps⟩ := Steps.initial h₀
  have hb : w₁.table.heap.Balanced w₁.roots := Steps.balanced (hsteps.trans (hbind h₁)) (Table.bare_balanced ht)
  obtain ⟨s, hs⟩ := Option.isSome_iff_exists.mp (isLive_rootScope hb)
  have hf : w₁.freeze.table.heap.scope? w₁.freeze.table.rootScope = some s.freeze := freeze_scope? hs
  exact ⟨rfl, by rw [Table.isFrozen, hf]; rfl, fun _ _ => rfl⟩

end CompilerSymbols
