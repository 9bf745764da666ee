import CompilerSymbols.Proofs.Heap.Balance
import CompilerSymbols.Proofs.Heap.Persistence
import Mathlib.Data.Set.Finite.List
import Mathlib.Data.Set.Finite.Basic
import Mathlib.Order.WellFounded

namespace CompilerSymbols.Heap

def Holds (h : Heap) (a b : Ref) : Prop := b ∈ h.holds a

def Reaches (h : Heap) : Ref → Ref → Prop := Relation.ReflTransGen h.Holds

def OnCycle (h : Heap) (r : Ref) : Prop := Relation.TransGen h.Holds r r

theorem isLive_of_holds {h : Heap} {a b : Ref} (hb : h.Holds a b) : h.isLive a := by
  cases a with
  | symbol id =>
      cases hx : h.symbol? id with
      | none => simp [Holds, holds, hx] at hb
      | some s => simp [isLive, hx]
  | scope id =>
      cases hx : h.scope? id with
      | none => simp [Holds, holds, hx] at hb
      | some s => simp [isLive, hx]

theorem finite_isLive (h : Heap) : {r | h.isLive r}.Finite := by
  let all := (List.range h.symbols.size).map (fun i => Ref.symbol ⟨i⟩) ++
    (List.range h.scopes.size).map (fun i => Ref.scope ⟨i⟩)
  apply (List.finite_toSet all).subset
  intro r hr
  have hc := created_of_isLive hr
  cases r with
  | symbol id => exact List.mem_append_left _ (List.mem_map.mpr ⟨id.index, List.mem_range.mpr hc, rfl⟩)
  | scope id => exact List.mem_append_right _ (List.mem_map.mpr ⟨id.index, List.mem_range.mpr hc, rfl⟩)

/-- In a finite set in which everything has a predecessor, some predecessors go round. -/
theorem exists_cycle {α : Type} {R : α → α → Prop} {S : Set α} (hf : S.Finite) {a : α} (ha : a ∈ S)
    (hp : ∀ a ∈ S, ∃ b ∈ S, R b a) : ∃ c ∈ S, Relation.TransGen R c c := by
  -- Otherwise having a predecessor is well-founded, and what comes first has none.
  by_contra hc
  have hfin : Finite S := hf
  let T : S → S → Prop := fun b c => Relation.TransGen R b c
  have ht : IsTrans S T := ⟨fun _ _ _ h h' => h.trans h'⟩
  have hi : Std.Irrefl T := ⟨fun b hb => hc ⟨b, b.2, hb⟩⟩
  have hw : WellFounded T := Finite.wellFounded_of_trans_of_irrefl T
  obtain ⟨m, -, hm⟩ := hw.has_min Set.univ ⟨⟨a, ha⟩, trivial⟩
  obtain ⟨b, hb, hbm⟩ := hp m m.2
  exact hm ⟨b, hb⟩ trivial (.single hbm)

theorem Balanced.isLive_of_reaches {h : Heap} {outside : List Ref} (b : Balanced h outside) {a r : Ref}
    (ha : h.isLive a) (hr : h.Reaches a r) : h.isLive r := by
  induction hr with
  | refl => exact ha
  | tail _ hs _ => exact b.isLive_of_holds hs

/-- What is there is reached from outside or from a cycle, and the other way round. -/
theorem Balanced.isLive_iff_reaches {h : Heap} {outside : List Ref} (b : Balanced h outside) (r : Ref) :
    h.isLive r ↔ (∃ a ∈ outside, h.Reaches a r) ∨ ∃ c, h.OnCycle c ∧ h.Reaches c r := by
  constructor
  · intro hl
    by_cases ho : ∃ a ∈ outside, h.Reaches a r
    · exact .inl ho
    · right
      -- What leads to `r` is not reached from outside then. So each of it is held by something that
      -- leads to `r` too, and since only finitely much is there, the holders go round.
      let S : Set Ref := {a | h.isLive a ∧ h.Reaches a r}
      have hf : S.Finite := h.finite_isLive.subset fun a ha => ha.1
      have hp : ∀ a ∈ S, ∃ c ∈ S, h.Holds c a := by
        rintro a ⟨ha, har⟩
        rcases (b.isLive_iff a).mp ha with hm | ⟨c, hc⟩
        · exact absurd ⟨a, hm, har⟩ ho
        · exact ⟨c, ⟨Heap.isLive_of_holds hc, har.head hc⟩, hc⟩
      obtain ⟨c, hc, hcc⟩ := exists_cycle hf (a := r) ⟨hl, .refl⟩ hp
      exact ⟨c, hcc, hc.2⟩
  · rintro (⟨a, ha, har⟩ | ⟨c, hc, hcr⟩)
    · exact b.isLive_of_reaches (b.isLive_of_mem ha) har
    · obtain ⟨d, -, hd⟩ := Relation.TransGen.tail'_iff.mp hc
      exact b.isLive_of_reaches (b.isLive_of_holds hd) hcr

end CompilerSymbols.Heap
