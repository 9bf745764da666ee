import CompilerSymbols.Proofs.Types.Service
import Mathlib.Logic.Relation

namespace CompilerSymbols

/-- What can become of a type that is there: a union can get more members at the end. -/
inductive Shape.Grows : Shape → Shape → Prop
  | same (s : Shape) : Grows s s
  | union (name : Option Name) (ms more : List TypeId) : Grows (.union ⟨name, ms⟩) (.union ⟨name, ms ++ more⟩)

namespace Shape.Grows

variable {s s' s'' : Shape}

theorem trans (a : s.Grows s') (b : s'.Grows s'') : s.Grows s'' := by
  cases a with
  | same => exact b
  | union name ms more =>
      cases b with
      | same => exact .union name ms more
      | union _ _ more' =>
          rw [List.append_assoc]
          exact .union name ms (more ++ more')

theorem eq_of_tag (h : s.Grows s') (ht : s.tag ≠ .union) : s' = s := by
  cases h with
  | same => rfl
  | union name ms more => exact absurd rfl ht

theorem exists_union {u : UnionType} (h : Grows (.union u) s) :
    ∃ more, s = .union ⟨u.name, u.members ++ more⟩ := by
  cases h with
  | same => exact ⟨[], by rw [List.append_nil]⟩
  | union name ms more => exact ⟨more, rfl⟩

end Shape.Grows

namespace Catalog

def Grows (l l' : Catalog) : Prop :=
  ∀ (n : Nat) (s : Shape), l[n]? = some s → ∃ s' : Shape, l'[n]? = some s' ∧ s.Grows s'

variable {l l' l'' : Catalog}

theorem Grows.refl (l : Catalog) : l.Grows l := fun _ s hs => ⟨s, hs, .same s⟩

theorem Grows.trans (a : l.Grows l') (b : l'.Grows l'') : l.Grows l'' := by
  intro n s hs
  obtain ⟨s', hs', hg⟩ := a n s hs
  obtain ⟨s'', hs'', hg'⟩ := b n s' hs'
  exact ⟨s'', hs'', hg.trans hg'⟩

theorem Grows.shape (h : l.Grows l') {t : TypeId} {s : Shape} (hs : l.shape t = .ok s) :
    ∃ s', l'.shape t = .ok s' ∧ s.Grows s' := by
  unfold Catalog.shape at hs ⊢
  cases hx : l[t.raw.toNat]? with
  | none =>
      rw [hx] at hs
      cases hs
  | some x =>
      rw [hx] at hs
      cases hs
      obtain ⟨s', hs', hg⟩ := h _ s hx
      exact ⟨s', by rw [hs'], hg⟩

theorem add_grows (l : Catalog) (s : Shape) : l.Grows (l.add s).2 := by
  intro n s' hs
  exact ⟨s', by rw [add, List.getElem?_append_left (List.getElem?_eq_some_iff.mp hs).1, hs], .same s'⟩

theorem place_grows (l : Catalog) (s : Shape) : l.Grows (l.place s).2 := by
  unfold place
  split
  · exact .refl l
  · exact add_grows l s

theorem addMember_grows (l : Catalog) (t member : TypeId) : l.Grows (l.addMember t member).2 := by
  unfold addMember
  split
  · exact .refl l
  · next name ms hu =>
      split
      · exact .refl l
      · split
        · exact .refl l
        · intro n s hs
          rw [List.getElem?_set]
          split
          · next hn =>
              subst hn
              cases hu.symm.trans hs
              exact ⟨_, if_pos (List.getElem?_eq_some_iff.mp hs).1, .union name ms [member]⟩
          · exact ⟨s, hs, .same s⟩
  · exact .refl l

theorem serve_grows (l : Catalog) (r : TypeRequest) : l.Grows (l.serve r).2 := by
  cases r with
  | container tag constraint | function params ret => exact place_grows l _
  | tuple elems =>
      cases elems with
      | nil => exact .refl l
      | cons e es => exact place_grows l _
  | union name members => exact add_grows l _
  | declare tag name =>
      cases tag with
      | nominal n => exact add_grows l _
      | _ => exact .refl l
  | addMember t member => exact addMember_grows l t member

theorem add_shape (hl : l.length < UInt32.size) (s : Shape) : (l.add s).2.shape (l.add s).1 = .ok s := by
  simp [add, shape, Pool.toNat_position hl]

theorem place_shape (hl : l.length < UInt32.size) (s : Shape) : (l.place s).2.shape (l.place s).1 = .ok s := by
  unfold place
  split
  · next i hi =>
      obtain ⟨hlt, he, -⟩ := List.idxOf?_eq_some_iff.mp hi
      rw [shape, Pool.toNat_position (Nat.lt_trans hlt hl), List.getElem?_eq_getElem hlt, he]
  · exact add_shape hl s

end Catalog

namespace Pool

abbrev Becomes : Pool → Pool → Prop := Relation.ReflTransGen fun p q => ∃ r, q = (p.serve r).2

variable {p q : Pool} {l : Catalog}

theorem Becomes.fits (h : p.Becomes q) (hf : q.Fits) : p.Fits := by
  induction h with
  | refl => exact hf
  | tail _ hs ih =>
      obtain ⟨r, rfl⟩ := hs
      exact ih (fits_of_serve hf)

theorem Represents.becomes (h : Represents p l) (hb : p.Becomes q) (hf : q.Fits) :
    ∃ l', Represents q l' ∧ l.Grows l' := by
  induction hb with
  | refl => exact ⟨l, h, .refl l⟩
  | tail _ hs ih =>
      obtain ⟨r, rfl⟩ := hs
      obtain ⟨l', hr, hg⟩ := ih (fits_of_serve hf)
      exact ⟨_, (hr.serve hf).2, hg.trans (l'.serve_grows r)⟩

end Pool

end CompilerSymbols
