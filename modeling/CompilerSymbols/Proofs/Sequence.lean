import Mathlib.Data.List.Forall2
import Mathlib.Data.List.Induction
import Mathlib.Data.List.Nodup
import Std.Data.TreeMap

namespace CompilerSymbols

variable {α : Type}

theorem eraseDups_concat [DecidableEq α] (l : List α) (a : α) :
    (l ++ [a]).eraseDups = if a ∈ l.eraseDups then l.eraseDups else l.eraseDups ++ [a] := by
  rw [List.eraseDups_append]
  by_cases h : a ∈ l <;> simp [h, List.removeAll, List.eraseDups_cons]

theorem nodup_eraseDups [DecidableEq α] (l : List α) : l.eraseDups.Nodup := by
  induction l using List.reverseRecOn with
  | nil => exact .nil
  | append_singleton l a ih =>
      rw [eraseDups_concat]
      split
      · exact ih
      · next h => exact List.concat_eq_append ▸ ih.concat h

section Forall₂

variable {β : Type} {R S : α → β → Prop} {l l' : List α} {bs : List β}

theorem exists_forall₂ (h : ∀ a ∈ l, ∃ b, R a b) : ∃ bs, List.Forall₂ R l bs := by
  induction l with
  | nil => exact ⟨[], .nil⟩
  | cons a l ih =>
      obtain ⟨b, hb⟩ := h a List.mem_cons_self
      obtain ⟨bs, hbs⟩ := ih fun a ha => h a (List.mem_cons_of_mem _ ha)
      exact ⟨b :: bs, .cons hb hbs⟩

theorem forall₂_mem (h : List.Forall₂ R l bs) : List.Forall₂ (fun a b => R a b ∧ b ∈ bs) l bs := by
  induction h with
  | nil => exact .nil
  | cons ha _ ih =>
      exact .cons ⟨ha, List.mem_cons_self⟩ (ih.imp fun _ _ ⟨hb, hm⟩ => ⟨hb, List.mem_cons_of_mem _ hm⟩)

theorem forall₂_intersperse {a : α} {b : β} (hab : R a b) (h : List.Forall₂ R l bs) :
    List.Forall₂ R (l.intersperse a) (bs.intersperse b) := by
  induction h with
  | nil => exact .nil
  | cons ha has ih =>
      cases has with
      | nil => exact .cons ha .nil
      | cons => exact .cons ha (.cons hab ih)

theorem mapM_of_forall₂ {f : α → Option β} (h : List.Forall₂ (fun a b => f a = some b) l bs) : l.mapM f = some bs := by
  induction h with
  | nil => rfl
  | cons ha _ ih => simp [List.mapM_cons, ha, ih]

theorem eq_of_forall₂ (h : ∀ {a a' b}, R a b → S a' b → a = a') (hl : List.Forall₂ R l bs)
    (hl' : List.Forall₂ S l' bs) : l = l' := by
  induction hl generalizing l' with
  | nil =>
      cases hl'
      rfl
  | cons ha has ih =>
      cases hl' with
      | cons ha' has' => rw [h ha ha', ih has']

end Forall₂

variable [Ord α] {slots : Std.TreeMap α Nat} {keys : List α} {a : α} {i j : Nat}

/-- The slot of a key is its place in the list. -/
def Indexes (slots : Std.TreeMap α Nat) (keys : List α) : Prop :=
  ∀ (a : α) (i : Nat), slots[a]? = some i ↔ keys[i]? = some a

namespace Indexes

theorem empty [Std.TransOrd α] : Indexes (∅ : Std.TreeMap α Nat) [] := fun a i => by simp

theorem inj (h : Indexes slots keys) (hi : keys[i]? = some a) (hj : keys[j]? = some a) : i = j :=
  Option.some.inj (((h a i).mpr hi).symm.trans ((h a j).mpr hj))

theorem nodup (h : Indexes slots keys) : keys.Nodup := by
  rw [List.nodup_iff_getElem?_ne_getElem?]
  intro i j hij hj he
  exact Nat.ne_of_lt hij (h.inj (he.trans (List.getElem?_eq_getElem hj)) (List.getElem?_eq_getElem hj))

theorem eq_none_iff (h : Indexes slots keys) : slots[a]? = none ↔ a ∉ keys := by
  rw [Option.eq_none_iff_forall_ne_some, List.mem_iff_getElem?, not_exists]
  exact forall_congr' fun i => not_congr (h a i)

theorem insert [Std.TransOrd α] [Std.LawfulEqOrd α] (h : Indexes slots keys) (hn : a ∉ keys) :
    Indexes (slots.insert a keys.length) (keys ++ [a]) := by
  intro b i
  rw [Std.TreeMap.getElem?_insert, List.getElem?_append]
  by_cases hi : i < keys.length
  · rw [if_pos hi, ← h b i]
    split
    · next he =>
        cases Std.LawfulEqOrd.eq_of_compare he
        rw [h.eq_none_iff.mpr hn]
        simp only [Option.some.injEq, reduceCtorEq, iff_false]
        omega
    · exact Iff.rfl
  · rw [if_neg hi, List.getElem?_singleton]
    split
    · next he =>
        cases Std.LawfulEqOrd.eq_of_compare he
        simp only [Option.some.injEq, ite_eq_left_iff, reduceCtorEq, imp_false, not_not]
        omega
    · next hne =>
        rw [h b i, List.getElem?_eq_none (Nat.le_of_not_lt hi)]
        refine iff_of_false (by simp) fun hs => ?_
        cases (Option.ite_none_right_eq_some.mp hs).2
        exact hne Std.ReflOrd.compare_self

end Indexes

end CompilerSymbols
