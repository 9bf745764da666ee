import CompilerSymbols.Proofs.Heap.Liveness
import CompilerSymbols.Proofs.Workspace.Creator

namespace CompilerSymbols

namespace Heap

theorem upgrade?_eq_none_iff (h : Heap) (id : Option SymbolId) :
    h.upgrade? id = none ↔ id = none ∨ ∃ o, id = some o ∧ ¬ h.isLive (.symbol o) := by
  cases id with
  | none => simp [upgrade?]
  | some o => simp [upgrade?, Option.filter_eq_none_iff]

theorem eq_of_upgrade? {h : Heap} {id : Option SymbolId} {o : SymbolId} (ho : h.upgrade? id = some o) :
    id = some o := (Option.filter_eq_some_iff.mp ho).1

end Heap

namespace Workspace

variable {w w' : Workspace}

theorem perform_link {q : Request} {r : Ref} (h : w.perform q = .ok w') (hn : ¬ w.table.heap.Created r)
    (hl : w'.table.heap.isLive r) : w'.table.heap.link? r = q.owner w r := by
  cases hq : q.makes with
  | false => exact absurd (((perform_shrinks h hq).created r).mp (Heap.created_of_isLive hl)) hn
  | true =>
      cases q with
      | intern | types | definition | freezeScope | freeze | hold | drop => cases hq
      | package id =>
          obtain ⟨made, hm, rfl⟩ := perform_package h
          obtain ⟨text, -, rfl⟩ := Table.createPackage_cases hm
          rw [heap_takeSymbol] at hl ⊢
          cases r with
          | symbol id => exact Heap.link?_addSymbol hn hl
          | scope k => exact (Heap.link?_addSymbol_scope hn hl).2
      | declaration d =>
          obtain ⟨made, hm, rfl⟩ := perform_declaration h
          obtain ⟨-, he⟩ := Table.declare_cases hm
          rw [he, heap_takeSymbol] at hl ⊢
          cases r with
          | symbol id => exact Heap.link?_addSymbol hn hl
          | scope k => exact (Heap.link?_addSymbol_scope hn hl).2
      | conversion c error package owner =>
          obtain ⟨made, hm, rfl⟩ := perform_conversion h
          obtain ⟨-, type, -, he⟩ := Table.createConversion_cases hm
          rw [he, heap_takeSymbol] at hl ⊢
          cases r with
          | symbol id => exact Heap.link?_addSymbol hn hl
          | scope k => cases (Heap.link?_addSymbol_scope hn hl).1
      | unboxing source target =>
          obtain ⟨made, hm, rfl⟩ := perform_unboxing h
          obtain ⟨type, -, he⟩ := Table.createUnboxing_cases hm
          rw [he, heap_takeSymbol] at hl ⊢
          cases r with
          | symbol id => exact Heap.link?_addSymbol hn hl
          | scope k => cases (Heap.link?_addSymbol_scope hn hl).1
      | openScope owner =>
          cases h
          obtain ⟨k, rfl, ho⟩ := Heap.link?_addScope hn hl
          exact ho

theorem next_link {q : Request} {r : Ref} (hn : ¬ w.table.heap.Created r)
    (hl : (w.next q).table.heap.isLive r) : (w.next q).table.heap.link? r = q.owner w r := by
  cases h : w.perform q with
  | error f =>
      rw [next, h] at hl
      exact absurd (Heap.created_of_isLive hl) hn
  | ok w' =>
      rw [next, h] at hl ⊢
      exact perform_link h hn hl

theorem run_link {qs : List Request} {r : Ref} (hl : (w.run qs).table.heap.isLive r) :
    (w.run qs).table.heap.link? r = w.givenOwner qs r := by
  rcases creator_cases (Heap.created_of_isLive hl) with hc | ⟨qs₁, q, qs₂, rfl, hcr, hn, hc⟩
  · rw [givenOwner, creator_of_created hc]
    exact (Steps.run w qs).precedes.heap.link?_eq hc hl
  · -- The owner is the one that `q` gave, and nothing in `qs₂` can change it.
    have hr : w.run (qs₁ ++ q :: qs₂) = ((w.run qs₁).next q).run qs₂ := run_append w qs₁ (q :: qs₂)
    rw [hr] at hl
    have hp := (Steps.run ((w.run qs₁).next q) qs₂).precedes.heap
    rw [givenOwner, hcr, hr, hp.link?_eq hc hl]
    exact next_link hn (hp.isLive hc hl)

/-- An object is there when it is reached from a handle, from the table or from a cycle. Its owner
is missing when it was made without one or when that owner is gone. -/
theorem live_iff_reached {names : Interner} (h : initial names = .ok w) (qs : List Request) (r : Ref) :
    ((w.run qs).table.heap.isLive r ↔
      (∃ a ∈ (w.run qs).roots, (w.run qs).table.heap.Reaches a r) ∨
        ∃ c, (w.run qs).table.heap.OnCycle c ∧ (w.run qs).table.heap.Reaches c r) ∧
    ((w.run qs).table.heap.isLive r →
      ((w.run qs).table.heap.ownerOf? r = none ↔ w.givenOwner qs r = none ∨
        ∃ o, w.givenOwner qs r = some o ∧ ¬ (w.run qs).table.heap.isLive (.symbol o)) ∧
      ∀ o, (w.run qs).table.heap.ownerOf? r = some o → w.givenOwner qs r = some o) := by
  have hb := (Steps.run w qs).balanced (initial_balanced h)
  refine ⟨hb.isLive_iff_reaches r, ?_⟩
  intro hl
  rw [← run_link hl, Heap.ownerOf?_eq]
  exact ⟨Heap.upgrade?_eq_none_iff _ _, fun o ho => Heap.eq_of_upgrade? ho⟩

/-- An object type, a function that belongs to it, and then the last handle to the type is given
back. -/
def orphaned : List Request :=
  [.declaration ⟨.object, ∅, .empty, ⟨.empty, .empty, .empty⟩, .noType, ⟨0⟩⟩,
    .declaration ⟨.function true, ∅, .empty, ⟨.empty, .empty, .empty⟩, .noType, ⟨35⟩⟩,
    .drop (.symbol ⟨35⟩)]

theorem live_iff_reached_orphaned : ∃ w, initial (.initial fun _ => 0) = .ok w ∧
    ((∃ a ∈ (w.run orphaned).roots, (w.run orphaned).table.heap.Reaches a (.symbol ⟨36⟩)) ∨
      ∃ c, (w.run orphaned).table.heap.OnCycle c ∧ (w.run orphaned).table.heap.Reaches c (.symbol ⟨36⟩)) ∧
    w.givenOwner orphaned (.symbol ⟨36⟩) = some ⟨35⟩ ∧
    (w.run orphaned).table.heap.ownerOf? (.symbol ⟨36⟩) = none := by
  obtain ⟨w, h, hl, hg, hn⟩ := exists_initial (p := fun w =>
    (w.run orphaned).table.heap.isLive (.symbol ⟨36⟩) ∧
    w.givenOwner orphaned (.symbol ⟨36⟩) = some ⟨35⟩ ∧
    ¬ (w.run orphaned).table.heap.isLive (.symbol ⟨35⟩)) (by decide +kernel)
  have hr := live_iff_reached h orphaned (.symbol ⟨36⟩)
  exact ⟨w, h, hr.1.mp hl, hg, (hr.2 hl).1.mpr (.inr ⟨⟨35⟩, hg, hn⟩)⟩

end Workspace

end CompilerSymbols
