import CompilerSymbols.Proofs.Heap.Balance
import CompilerSymbols.Proofs.Heap.Persistence
import CompilerSymbols.Proofs.Names.Growth
import CompilerSymbols.Proofs.Workspace.Step

namespace CompilerSymbols

def Table.kept (t : Table) : List Ref :=
  .symbol t.rootPackage :: .scope t.rootScope :: t.conversions.map fun c => .symbol c.2

theorem Heap.balanced_empty : Balanced empty [] where
  strong_eq := by
    intro r
    cases r <;> simp [empty, strong, incoming, Cells.strong, Cells.links, Cells.cell?]
  strong_ne_zero := by
    intro r hl
    cases r <;> simp [empty, isLive, symbol?, scope?, Cells.value?, Cells.cell?] at hl

theorem Table.bare_balanced {names : Interner} {t : Table} (h : bare names = .ok t) :
    t.heap.Balanced t.kept := by
  obtain ⟨name, id, builtin, names, rfl⟩ := bare_cases h
  let s : Symbol := ⟨.package, ∅, name, some id, .noType, none, none⟩
  have hf : ∀ k, ScopeChoice.fresh = .shared k → Heap.empty.isLive (.scope k) := by simp
  have hb := Heap.balanced_empty.addSymbol s hf
  exact (hb.retain (hb.isLive_of_holds (a := .symbol ⟨0⟩) List.mem_cons_self)).perm (.swap ..)

/-- What a later table has of an earlier one: the same root, and all texts and objects that are
left. -/
structure Table.Precedes (t t' : Table) : Prop where
  rootPackage : t'.rootPackage = t.rootPackage
  rootScope : t'.rootScope = t.rootScope
  names : ∀ {name text}, t.names.lookup name = .ok text → t'.names.lookup name = .ok text
  heap : t.heap.Precedes t'.heap

namespace Table.Precedes

variable {t t' t'' : Table}

theorem refl (t : Table) : t.Precedes t := ⟨rfl, rfl, fun h => h, .refl _⟩

theorem trans (a : t.Precedes t') (b : t'.Precedes t'') : t.Precedes t'' :=
  ⟨b.rootPackage.trans a.rootPackage, b.rootScope.trans a.rootScope, fun h => b.names (a.names h),
    a.heap.trans b.heap⟩

theorem of_heap {heap : Heap} (h : t.heap.Precedes heap) : t.Precedes { t with heap } :=
  ⟨rfl, rfl, fun h => h, h⟩

end Table.Precedes

namespace Workspace

/-- All references that no object holds. -/
def roots (w : Workspace) : List Ref := w.held ++ w.table.kept

variable {w w' : Workspace}

namespace Step

theorem balanced (h : Step w w') (b : w.table.heap.Balanced w.roots) : w'.table.heap.Balanced w'.roots := by
  cases h with
  | intern | serve => exact b
  | @create s choice hc =>
      apply b.addSymbol s
      rintro k rfl
      obtain ⟨rfl, -⟩ := hc
      exact b.isLive_of_mem (List.mem_append_right _ (.tail _ (.head _)))
  | define hd =>
      have hb := b.define hd
      rw [roots, ← List.append_assoc] at hb
      exact hb
  | freeze scope => exact b.freeze scope
  | openScope owner => exact b.addScope owner
  | hold hl => exact b.retain hl
  | drop hr =>
      apply Heap.Balanced.release
      exact b.perm ((List.perm_cons_erase hr).append_right w.table.kept)
  | keep types hr =>
      apply b.perm
      have hp := (List.perm_cons_erase hr).append_right w.table.kept
      refine hp.trans (List.perm_append_singleton _ _).symm |>.trans ?_
      simp [roots, Table.kept]

theorem precedes (h : Step w w') : w.table.Precedes w'.table := by
  cases h with
  | intern hn => exact ⟨rfl, rfl, Interner.lookup_intern hn, .refl _⟩
  | serve | keep => exact ⟨rfl, rfl, fun h => h, .refl _⟩
  | create => exact .of_heap (.addSymbol ..)
  | define hd => exact .of_heap (.of_shrinks (.define hd))
  | freeze scope => exact .of_heap (.of_shrinks (.freeze _ scope))
  | openScope owner => exact .of_heap (.addScope _ owner)
  | hold hl => exact .of_heap (.of_shrinks (.setStrong ..))
  | drop hr => exact .of_heap (.of_shrinks (.release ..))

end Step

namespace Steps

theorem precedes (h : Steps w w') : w.table.Precedes w'.table :=
  preserves (P := fun v => w.table.Precedes v.table) (fun hs hp => hp.trans hs.precedes) h (.refl _)

theorem balanced (h : Steps w w') (b : w.table.heap.Balanced w.roots) : w'.table.heap.Balanced w'.roots :=
  preserves Step.balanced h b

end Steps

theorem initial_balanced {names : Interner} (h : initial names = .ok w) : w.table.heap.Balanced w.roots := by
  obtain ⟨t, ht, hs⟩ := Steps.initial h
  exact hs.balanced (Table.bare_balanced ht)

end Workspace

end CompilerSymbols
