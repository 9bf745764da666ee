import CompilerSymbols.Proofs.Table.Operations
import CompilerSymbols.Proofs.Types.Growth
import CompilerSymbols.Proofs.Types.Refinement

namespace CompilerSymbols

namespace Catalog

variable {l l' : Catalog} {t : TypeId}

theorem Grows.shape_eq (h : l.Grows l') {s : Shape} (hs : l.shape t = .ok s) (ht : s.tag ≠ .union) :
    l'.shape t = .ok s := by
  obtain ⟨s', hs', hg⟩ := h.shape hs
  rw [hs', hg.eq_of_tag ht]

theorem Grows.shape_union (h : l.Grows l') {u : UnionType} (hu : l.shape t = .ok (.union u)) :
    ∃ more, l'.shape t = .ok (.union ⟨u.name, u.members ++ more⟩) := by
  obtain ⟨s', hs', hg⟩ := h.shape hu
  obtain ⟨more, rfl⟩ := hg.exists_union
  exact ⟨more, hs'⟩

theorem lt_of_shape {s : Shape} (hs : l.shape t = .ok s) : t.raw.toNat < l.length := by
  apply Decidable.byContradiction
  intro hn
  rw [shape, List.getElem?_eq_none (Nat.le_of_not_lt hn)] at hs
  cases hs

theorem shape_of_isUnion {b : Bool} (h : l.isUnion t = .ok b) :
    ∃ s, l.shape t = .ok s ∧ (s.tag == .union) = b := by
  obtain ⟨tag, ht, hb⟩ := map_ok h
  obtain ⟨s, hs, rfl⟩ := map_ok ht
  exact ⟨s, hs, hb⟩

theorem isUnion_of_shape {s : Shape} (hs : l.shape t = .ok s) : l.isUnion t = .ok (s.tag == .union) := by
  rw [isUnion, tag, hs]
  rfl

theorem addMember_shape {u : UnionType} (hu : l.shape t = .ok (.union u)) (member : TypeId) :
    ∃ u', (l.addMember t member).2.shape t = .ok (.union u') ∧ (member ≠ t → member ∈ u'.members) := by
  have hlt := lt_of_shape hu
  rw [shape, List.getElem?_eq_getElem hlt] at hu
  have hx : l[t.raw.toNat]? = some (.union u) := by
    rw [List.getElem?_eq_getElem hlt, Except.ok.inj hu]
  unfold addMember
  rw [hx]
  dsimp only
  by_cases hm : member = t
  · rw [if_pos hm]
    exact ⟨u, by rw [shape, hx], fun hn => absurd hm hn⟩
  · rw [if_neg hm]
    by_cases hmem : member ∈ u.members
    · rw [if_pos hmem]
      exact ⟨u, by rw [shape, hx], fun _ => hmem⟩
    · rw [if_neg hmem]
      refine ⟨⟨u.name, u.members ++ [member]⟩, ?_, fun _ => List.mem_append_right _ List.mem_cons_self⟩
      rw [shape, List.getElem?_set_self hlt]

/-- The type of a conversion operator. If the operator can fail it returns a union, which is the
target itself or was made for it. -/
inductive Operator (l : Catalog) (type : TypeId) (c : Conversion) (error : Option TypeId) : Prop
  | safe (hs : c.safe = true) (ht : l.shape type = .ok (.function [c.source, c.target] c.target))
  | grown {u : UnionType} (hs : c.safe = false)
      (ht : l.shape type = .ok (.function [c.source, c.target] c.target))
      (hu : l.shape c.target = .ok (.union u)) (he : ∀ e, error = some e → e ≠ c.target → e ∈ u.members)
  | made {ret : TypeId} {s : Shape} {u : UnionType} (hs : c.safe = false)
      (ht : l.shape type = .ok (.function [c.source, c.target] ret)) (hne : ret ≠ c.target)
      (hc : l.shape c.target = .ok s) (hn : s.tag ≠ .union) (hu : l.shape ret = .ok (.union u))
      (hname : u.name = none) (hh : u.members.head? = some c.target)
      (he : ∀ e, error = some e → e ∈ u.members)

theorem Operator.mono {type : TypeId} {c : Conversion} {error : Option TypeId}
    (h : l.Operator type c error) (hg : l.Grows l') : l'.Operator type c error := by
  have hf : ∀ ret, (Shape.function [c.source, c.target] ret).tag ≠ .union := by simp [Shape.tag]
  cases h with
  | safe hs ht => exact .safe hs (hg.shape_eq ht (hf _))
  | grown hs ht hu he =>
      obtain ⟨more, hu'⟩ := hg.shape_union hu
      exact .grown hs (hg.shape_eq ht (hf _)) hu' fun e h hn => List.mem_append_left more (he e h hn)
  | made hs ht hne hc hn hu hname hh he =>
      obtain ⟨more, hu'⟩ := hg.shape_union hu
      refine .made hs (hg.shape_eq ht (hf _)) hne (hg.shape_eq hc hn) hn hu' hname ?_ ?_
      · rw [List.head?_append, hh]
        rfl
      · exact fun e h => List.mem_append_left more (he e h)

end Catalog

namespace Pool

/-- What the type of a conversion operator says: what the operator takes, and what it returns,
which is a union with the error type in it unless the operator is safe. -/
structure TypesOperator (p : Pool) (type : TypeId) (c : Conversion) (error : Option TypeId) : Prop where
  tag : p.tag type = .ok .function
  params : p.params type = .ok [c.source, c.target]
  returns_target : c.safe = true → p.returnType type = .ok c.target
  returns_union : c.safe = false → ∃ ret u, p.returnType type = .ok ret ∧ p.union? ret = .ok (some u) ∧
    (p.isUnion c.target = .ok true ∧ ret = c.target ∨
      p.isUnion c.target = .ok false ∧ ret ≠ c.target ∧ u.name = none ∧ u.members.head? = some c.target) ∧
    ∀ e, error = some e → e ∈ u.members ∨ p.isUnion c.target = .ok true ∧ e = c.target

variable {p : Pool} {l : Catalog} {c : Conversion}

theorem Represents.typesOperator (h : Represents p l) {type : TypeId} {error : Option TypeId}
    (ho : l.Operator type c error) : p.TypesOperator type c error := by
  have hd := h.describes
  have hfun {ret : TypeId} (ht : l.shape type = .ok (.function [c.source, c.target] ret)) :
      p.tag type = .ok .function ∧ p.params type = .ok [c.source, c.target] ∧ p.returnType type = .ok ret := by
    rw [hd.tag, hd.params, hd.returnType, Catalog.tag, Catalog.params, Catalog.returnType, ht]
    exact ⟨rfl, rfl, rfl⟩
  have hunion {ret : TypeId} {u : UnionType} (hu : l.shape ret = .ok (.union u)) : p.union? ret = .ok (some u) := by
    rw [hd.union?, Catalog.union?, hu]
    rfl
  cases ho with
  | safe hs ht =>
      obtain ⟨htag, hp, hret⟩ := hfun ht
      exact ⟨htag, hp, fun _ => hret, fun hn => absurd (hs.symm.trans hn) Bool.noConfusion⟩
  | @grown u hs ht hu he =>
      obtain ⟨htag, hp, hret⟩ := hfun ht
      have hc : p.isUnion c.target = .ok true := (hd.isUnion _).trans (Catalog.isUnion_of_shape hu)
      refine ⟨htag, hp, fun hn => absurd (hs.symm.trans hn) Bool.noConfusion, fun _ => ?_⟩
      refine ⟨c.target, u, hret, hunion hu, .inl ⟨hc, rfl⟩, ?_⟩
      intro e h
      by_cases hn : e = c.target
      · exact .inr ⟨hc, hn⟩
      · exact .inl (he e h hn)
  | @made ret s u hs ht hne hc hn hu hname hh he =>
      obtain ⟨htag, hp, hret⟩ := hfun ht
      have hc' : p.isUnion c.target = .ok false := by
        rw [hd.isUnion, Catalog.isUnion_of_shape hc, beq_false_of_ne hn]
      refine ⟨htag, hp, fun hn => absurd (hs.symm.trans hn) Bool.noConfusion, fun _ => ?_⟩
      exact ⟨ret, u, hret, hunion hu, .inr ⟨hc', hne, hname, hh⟩, fun e h => .inl (he e h)⟩

theorem Represents.exists_function (h : Represents p l) {params : List TypeId} {ret : TypeId}
    (hf : (p.function params ret).2.Fits) : ∃ l', Represents (p.function params ret).2 l' ∧ l.Grows l' ∧
      l'.shape (p.function params ret).1 = .ok (.function params ret) := by
  have hl : l.length < UInt32.size := by
    rw [← h.size]
    exact Nat.lt_of_le_of_lt (size_le_share ..) hf.1
  obtain ⟨ht, hr⟩ := h.function hf
  refine ⟨_, hr, l.place_grows _, ?_⟩
  rw [ht]
  exact Catalog.place_shape hl _

theorem Represents.exists_union (h : Represents p l) {target error : TypeId} {s : Shape}
    (hs : l.shape target = .ok s) (hf : (p.union none [target, error]).2.Fits) :
    ∃ l' u, Represents (p.union none [target, error]).2 l' ∧ l.Grows l' ∧
      (p.union none [target, error]).1 ≠ target ∧ l'.shape (p.union none [target, error]).1 = .ok (.union u) ∧
      u.name = none ∧ u.members.head? = some target ∧ error ∈ u.members := by
  have hl : l.length < UInt32.size := by
    rw [← h.size]
    exact Nat.lt_of_le_of_lt (size_le_serve p (.union none [target, error])).1 hf.1
  obtain ⟨ht, hr⟩ := h.union none [target, error]
  refine ⟨_, ⟨none, [target, error].eraseDups⟩, hr, l.add_grows _, ?_, ?_, rfl, ?_, ?_⟩
  · intro he
    have hlt := Catalog.lt_of_shape hs
    rw [← he, ht, Catalog.add, toNat_position hl] at hlt
    exact Nat.lt_irrefl _ hlt
  · rw [ht]
    exact Catalog.add_shape hl _
  · rw [List.eraseDups_cons]
    rfl
  · simp

theorem Represents.conversionType (h : Represents p l) {error : TypeId} {r : Reported (TypeId × Pool)}
    (hc : p.conversionType c error = .ok r) (hf : r.value.2.Fits) :
    ∃ l', Represents r.value.2 l' ∧ l.Grows l' ∧ l'.Operator r.value.1 c (some error) := by
  rcases conversionType_cases hc with ⟨hs, hr⟩ | ⟨hs, hu, added, ha, hr⟩ | ⟨hs, hu, hr⟩
  · rw [hr] at hf ⊢
    obtain ⟨l', hr', hg, ht⟩ := h.exists_function hf
    exact ⟨l', hr', hg, .safe hs ht⟩
  · rw [hr] at hf ⊢
    have h₁ := (h.serve_addMember c.target error).2
    rw [Pool.serve_addMember ha] at h₁
    obtain ⟨l', hr', hg, ht⟩ := h₁.exists_function hf
    rw [h.describes.isUnion] at hu
    obtain ⟨s, hs', hx⟩ := Catalog.shape_of_isUnion hu
    cases s with
    | union u =>
        obtain ⟨u', hu', hm⟩ := Catalog.addMember_shape hs' error
        obtain ⟨more, hu''⟩ := hg.shape_union hu'
        refine ⟨l', hr', (l.addMember_grows _ _).trans hg, .grown hs ht hu'' ?_⟩
        rintro e he hne
        cases he
        exact List.mem_append_left more (hm hne)
    | _ => cases hx
  · rw [hr] at hf ⊢
    rw [h.describes.isUnion] at hu
    obtain ⟨s, hs', hx⟩ := Catalog.shape_of_isUnion hu
    have hn : s.tag ≠ .union := by
      intro he
      simp [he] at hx
    have hfu : (p.union none [c.target, error]).2.Fits := fits_of_serve (r := .function _ _) hf
    obtain ⟨l₁, u, h₁, hg₁, hne, hu, hname, hh, he⟩ := h.exists_union hs' hfu
    obtain ⟨l', hr', hg, ht⟩ := h₁.exists_function hf
    obtain ⟨more, hu'⟩ := hg.shape_union hu
    have hg' := hg₁.trans hg
    refine ⟨l', hr', hg', .made hs ht hne (hg'.shape_eq hs' hn) hn hu' hname ?_ ?_⟩
    · rw [List.head?_append, hh]
      rfl
    · rintro e h
      cases h
      exact List.mem_append_left more he

theorem Represents.unboxingType (h : Represents p l) {source target : TypeId}
    {r : Reported (Conversion × TypeId × Pool)} (hc : p.unboxingType source target = .ok r)
    (hf : r.value.2.2.Fits) (error : Option TypeId) :
    ∃ l', Represents r.value.2.2 l' ∧ l.Grows l' ∧ l'.Operator r.value.2.1 r.value.1 error := by
  obtain ⟨i, hi⟩ := unboxingType_cases hc
  rw [hi] at hf ⊢
  obtain ⟨l', hr', hg, ht⟩ := h.exists_function hf
  exact ⟨l', hr', hg, .safe rfl ht⟩

end Pool

end CompilerSymbols
