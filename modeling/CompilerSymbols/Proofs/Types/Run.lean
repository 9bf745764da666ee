import CompilerSymbols.Proofs.Types.Operator

namespace CompilerSymbols

inductive PoolRequest
  | type (r : TypeRequest)
  | conversionReturn (target error : TypeId) (safe : Bool)
  | conversion (c : Conversion) (error : TypeId)
  | unboxing (source target : TypeId)
deriving DecidableEq

namespace TypeRequest

def types : TypeRequest → List TypeId
  | container _ constraint => [constraint]
  | function params ret => params ++ [ret]
  | tuple elems => elems
  | union _ members => members
  | declare _ _ => []
  | addMember t member => [t, member]

def makes : TypeRequest → Bool
  | addMember _ _ => false
  | _ => true

/-- The requests to which equal answers are given again. -/
def shares : TypeRequest → Bool
  | container _ _ | function _ _ | tuple _ => true
  | _ => false

def shape? : TypeRequest → Option Shape
  | container tag constraint => some (.container tag constraint)
  | function params ret => some (.function params ret)
  | tuple elems => some (.tuple elems)
  | union name members => some (.union ⟨name, members.eraseDups⟩)
  | declare (.nominal n) name => some (.nominal n name)
  | declare _ _ | addMember _ _ => none

theorem serveAll_append {σ : Type} (serve : σ → TypeRequest → TypeAnswer × σ) (s : σ) (rs rs' : List TypeRequest) :
    (serveAll serve s (rs ++ rs')).2 = (serveAll serve (serveAll serve s rs).2 rs').2 := by
  induction rs generalizing s with
  | nil => rfl
  | cons r rs ih => exact ih (serve s r).2

end TypeRequest

namespace PoolRequest

def types : PoolRequest → List TypeId
  | type r => r.types
  | conversionReturn target error _ => [target, error]
  | conversion c error => [c.source, c.target, error]
  | unboxing source target => [source, target]

inductive Adds : PoolRequest → TypeId → TypeId → Prop
  | direct (t member : TypeId) : Adds (.type (.addMember t member)) t member
  | returned (target error : TypeId) : Adds (.conversionReturn target error false) target error
  | converted {c : Conversion} (hs : c.safe = false) (error : TypeId) : Adds (.conversion c error) c.target error

theorem Adds.of_return {target error t m : TypeId} {safe : Bool} (h : Adds (.conversionReturn target error safe) t m) :
    safe = false ∧ t = target ∧ m = error := by
  cases h
  exact ⟨rfl, rfl, rfl⟩

end PoolRequest

namespace Catalog

variable {l l' : Catalog} {r : TypeRequest} {rs : List TypeRequest} {t m : TypeId}

inductive Step (l : Catalog) : TypeRequest → Catalog → Prop
  | same (r : TypeRequest) : Step l r l
  | added {r : TypeRequest} {s : Shape} (hs : r.shape? = some s) (hn : s.key?.isSome → s ∉ l) : Step l r (l ++ [s])
  | grown {t m : TypeId} {name : Option Name} {ms : List TypeId}
      (hu : l[t.raw.toNat]? = some (.union ⟨name, ms⟩)) (hne : m ≠ t) (hm : m ∉ ms) :
      Step l (.addMember t m) (l.set t.raw.toNat (.union ⟨name, ms ++ [m]⟩))

theorem place_step {s : Shape} (hs : r.shape? = some s) : l.Step r (l.place s).2 := by
  unfold place
  cases hi : l.idxOf? s with
  | some i => exact .same r
  | none => exact .added hs fun _ => List.idxOf?_eq_none_iff.mp hi

theorem serve_step (l : Catalog) (r : TypeRequest) : l.Step r (l.serve r).2 := by
  cases r with
  | container tag constraint | function params ret => exact place_step rfl
  | tuple elems =>
      cases elems with
      | nil => exact .same _
      | cons e es => exact place_step rfl
  | union name members => exact .added rfl (by simp [Shape.key?, Shape.layout?])
  | declare tag name =>
      cases tag with
      | nominal n => exact .added rfl (by simp [Shape.key?, Shape.layout?])
      | _ => exact .same _
  | addMember t m =>
      rw [serve, addMember]
      split
      · exact .same _
      · next name ms hu =>
          split
          · exact .same _
          · next hne =>
              split
              · exact .same _
              · next hm => exact .grown hu hne hm
      · exact .same _

theorem shape_eq_ok {s : Shape} : l.shape t = .ok s ↔ l[t.raw.toNat]? = some s := by
  unfold shape
  cases l[t.raw.toNat]? <;> simp

theorem Step.shape_before {s : Shape} (h : l.Step r l') (hs : l'.shape t = .ok s) :
    l.shape t = .ok s ∨ (t.raw.toNat = l.length ∧ r.shape? = some s) ∨
      ∃ m name ms, l.shape t = .ok (.union ⟨name, ms⟩) ∧ m ≠ t ∧ m ∉ ms ∧ s = .union ⟨name, ms ++ [m]⟩ := by
  cases h with
  | same => exact .inl hs
  | added hr hn =>
      rcases Pool.getElem?_concat_eq_some.mp (shape_eq_ok.mp hs) with hs | ⟨ht, rfl⟩
      · exact .inl (shape_eq_ok.mpr hs)
      · exact .inr (.inl ⟨ht, hr⟩)
  | @grown t' m name ms hu hne hm =>
      rw [shape_eq_ok, List.getElem?_set] at hs
      split at hs
      · next ht =>
          obtain rfl : t' = t := TypeId.toNat_injective ht
          cases (Option.ite_none_right_eq_some.mp hs).2
          exact .inr (.inr ⟨m, name, ms, shape_eq_ok.mpr hu, hne, hm, rfl⟩)
      · exact .inl (shape_eq_ok.mpr hs)

def Admits (l : Catalog) (ts : List TypeId) : Prop := ∀ t ∈ ts, l.contains t = true

def AdmitsAll : Catalog → List TypeRequest → Prop
  | _, [] => True
  | l, r :: rs => l.Admits r.types ∧ (l.serve r).2.AdmitsAll rs

theorem AdmitsAll.append {rs' : List TypeRequest} (h : l.AdmitsAll rs) (h' : (l.serveAll rs).2.AdmitsAll rs') :
    l.AdmitsAll (rs ++ rs') := by
  induction rs generalizing l with
  | nil => exact h'
  | cons r rs ih => exact ⟨h.1, ih h.2 h'⟩

theorem serveAll_invariant {I : Catalog → Prop} (hI : ∀ {l r}, l.Admits r.types → I l → I (l.serve r).2) (h : I l)
    (ha : l.AdmitsAll rs) : I (l.serveAll rs).2 := by
  induction rs generalizing l with
  | nil => exact h
  | cons r rs ih => exact ih (hI ha.1 h) ha.2

theorem serveAll_grows (l : Catalog) (rs : List TypeRequest) : l.Grows (l.serveAll rs).2 := by
  induction rs generalizing l with
  | nil => exact .refl l
  | cons r rs ih => exact (l.serve_grows r).trans (ih _)

theorem contains_iff : l.contains t = true ↔ ∃ s, l.shape t = .ok s ∧ s ≠ .reserved := by
  unfold contains shape
  cases l[t.raw.toNat]? with
  | none => simp
  | some s => cases s <;> simp

theorem Grows.contains (hg : l.Grows l') (ht : l.contains t = true) : l'.contains t = true := by
  obtain ⟨s, hs, hr⟩ := contains_iff.mp ht
  obtain ⟨s', hs', hg⟩ := hg.shape hs
  refine contains_iff.mpr ⟨s', hs', ?_⟩
  cases hg with
  | same => exact hr
  | union => simp

end Catalog

namespace Pool

variable {p : Pool} {l : Catalog} {q : PoolRequest} {qs : List PoolRequest} {rs : List TypeRequest}

def step (p : Pool) : PoolRequest → Pool
  | .type r => (p.serve r).2
  | .conversionReturn target error safe =>
    match p.conversionReturn target error safe with
    | .ok r => r.value.2
    | .error _ => p
  | .conversion c error =>
    match p.conversionType c error with
    | .ok r => r.value.2
    | .error _ => p
  | .unboxing source target =>
    match p.unboxingType source target with
    | .ok r => r.value.2.2
    | .error _ => p

def run (p : Pool) (qs : List PoolRequest) : Pool := qs.foldl step p

/-- Every request is about types that are in use when it comes. -/
def AdmitsAll : Pool → List PoolRequest → Prop
  | _, [] => True
  | p, q :: qs => (∀ t ∈ q.types, p.contains t = true) ∧ (p.step q).AdmitsAll qs

theorem AdmitsAll.of_append {qs' : List PoolRequest} (h : p.AdmitsAll (qs ++ qs')) : p.AdmitsAll qs := by
  induction qs generalizing p with
  | nil => trivial
  | cons q qs ih => exact ⟨h.1, ih h.2⟩

instance decidableAdmitsAll : (p : Pool) → (qs : List PoolRequest) → Decidable (p.AdmitsAll qs)
  | _, [] => isTrue trivial
  | p, q :: qs =>
    haveI := decidableAdmitsAll (p.step q) qs
    inferInstanceAs (Decidable (_ ∧ _))

/-- What a request comes down to: making types, after adding a member perhaps. -/
structure Plays (p : Pool) (q : PoolRequest) (rs : List TypeRequest) : Prop where
  step : p.step q = (p.serveAll rs).2
  makes : ∀ r ∈ rs.tail, r.makes = true
  adds : ∀ t m, rs.head? = some (.addMember t m) → q.Adds t m
  admits : ∀ l, Represents p l → (p.step q).Fits → l.Admits q.types → l.AdmitsAll rs

theorem plays_nil (h : p.step q = p) : p.Plays q [] := ⟨h, by simp, by simp, fun _ _ _ _ => trivial⟩

theorem exists_plays_return {target error : TypeId} {safe : Bool} {r : Reported (TypeId × Pool)}
    (hc : p.conversionReturn target error safe = .ok r) :
    ∃ rs, p.Plays (.conversionReturn target error safe) rs ∧ rs.length ≤ 1 ∧
      ∀ l, Represents p l → r.value.2.Fits → l.Admits [target, error] → (l.serveAll rs).2.contains r.value.1 = true := by
  have hs : p.step (.conversionReturn target error safe) = r.value.2 := by simp only [Pool.step, hc]
  rcases conversionReturn_cases hc with ⟨-, hr⟩ | ⟨rfl, -, added, ha, hr⟩ | ⟨rfl, -, hr⟩
  · refine ⟨[], plays_nil (hs.trans (by rw [hr])), Nat.zero_le 1, ?_⟩
    intro l h hf ha
    rw [hr]
    exact ha target List.mem_cons_self
  · refine ⟨[.addMember target error], ⟨hs.trans ?_, by simp, ?_, fun _ _ _ ha => ⟨ha, trivial⟩⟩, Nat.le_refl 1, ?_⟩
    · rw [hr]
      exact (serve_addMember ha).symm
    · intro t m hm
      cases hm
      exact .returned target error
    · intro l h hf hl
      rw [hr]
      exact (l.serve_grows (.addMember target error)).contains (hl target List.mem_cons_self)
  · refine ⟨[.union none [target, error]], ⟨hs.trans (by rw [hr]; rfl), by simp, by simp, fun _ _ _ ha => ⟨ha, trivial⟩⟩,
      Nat.le_refl 1, ?_⟩
    intro l h hf hl
    rw [hr] at hf ⊢
    have hlt : l.length < UInt32.size := by
      rw [← h.size]
      exact (fits_of_serve (r := .union none [target, error]) hf).1
    rw [(h.union none [target, error]).1]
    exact Catalog.contains_iff.mpr ⟨_, Catalog.add_shape hlt _, by simp⟩

theorem exists_plays_conversion {c : Conversion} {error : TypeId} {r : Reported (TypeId × Pool)}
    (hc : p.conversionType c error = .ok r) : ∃ rs, p.Plays (.conversion c error) rs := by
  obtain ⟨ret, hret, hr⟩ := conversionType_eq hc
  obtain ⟨rs, hp, hlen, hcontains⟩ := exists_plays_return hret
  have hstep : p.step (.conversionReturn c.target error c.safe) = ret.value.2 := by simp only [Pool.step, hret]
  have hfun : p.step (.conversion c error) =
      (ret.value.2.serve (.function [c.source, c.target] ret.value.1)).2 := by
    simp only [Pool.step, hc, hr]
    rfl
  refine ⟨rs ++ [.function [c.source, c.target] ret.value.1], ?_, ?_, ?_, ?_⟩
  · rw [hfun, ← hstep, hp.step, serveAll, serveAll, TypeRequest.serveAll_append]
    rfl
  · cases rs with
    | nil => simp
    | cons r rs =>
        cases List.length_eq_zero_iff.mp (Nat.le_zero.mp (Nat.le_of_succ_le_succ hlen))
        simp [TypeRequest.makes]
  · intro t m hm
    cases rs with
    | nil => simp at hm
    | cons r rs =>
        obtain ⟨hs, rfl, rfl⟩ := (hp.adds t m hm).of_return
        exact .converted hs m
  · intro l h hf ha
    have hret : ret.value.2.Fits := fits_of_serve (hfun ▸ hf)
    have hl : l.Admits [c.target, error] := fun t ht => ha t (List.mem_cons_of_mem _ ht)
    refine (hp.admits l h (hstep ▸ hret) hl).append ⟨?_, trivial⟩
    intro t ht
    simp only [TypeRequest.types, List.mem_append, List.mem_cons, List.not_mem_nil, or_false] at ht
    rcases ht with (rfl | rfl) | rfl
    · exact (l.serveAll_grows rs).contains (ha _ List.mem_cons_self)
    · exact (l.serveAll_grows rs).contains (hl _ List.mem_cons_self)
    · exact hcontains l h hret hl

theorem exists_plays (p : Pool) (q : PoolRequest) : ∃ rs, p.Plays q rs := by
  cases q with
  | type r =>
      refine ⟨[r], rfl, by simp, ?_, fun l _ _ ha => ⟨ha, trivial⟩⟩
      intro t m hr
      cases hr
      exact .direct t m
  | conversionReturn target error safe =>
      cases hc : p.conversionReturn target error safe with
      | error f => exact ⟨[], plays_nil (by simp only [Pool.step, hc])⟩
      | ok r =>
          obtain ⟨rs, hp, -⟩ := exists_plays_return hc
          exact ⟨rs, hp⟩
  | conversion c error =>
      cases hc : p.conversionType c error with
      | error f => exact ⟨[], plays_nil (by simp only [Pool.step, hc])⟩
      | ok r => exact exists_plays_conversion hc
  | unboxing source target =>
      cases hc : p.unboxingType source target with
      | error f => exact ⟨[], plays_nil (by simp only [Pool.step, hc])⟩
      | ok r =>
          obtain ⟨i, hi⟩ := unboxingType_cases hc
          refine ⟨[.function [source, target] target], by simp only [Pool.step, hc, hi]; rfl, by simp, by simp, ?_⟩
          intro l h hf ha
          refine ⟨fun t ht => ha t ?_, trivial⟩
          simpa [TypeRequest.types, PoolRequest.types, or_assoc] using ht

theorem fits_of_step (hf : (p.step q).Fits) : p.Fits := by
  obtain ⟨rs, hp⟩ := exists_plays p q
  exact fits_of_serveAll (hp.step ▸ hf)

theorem fits_of_run (hf : (p.run qs).Fits) : p.Fits := by
  induction qs generalizing p with
  | nil => exact hf
  | cons q qs ih => exact fits_of_step (ih hf)

theorem run_append (p : Pool) (qs qs' : List PoolRequest) : p.run (qs ++ qs') = (p.run qs).run qs' :=
  List.foldl_append

theorem run_concat (p : Pool) (qs : List PoolRequest) (q : PoolRequest) : p.run (qs ++ [q]) = (p.run qs).step q :=
  List.foldl_concat ..

theorem Represents.plays (h : Represents p l) (hp : p.Plays q rs) (hf : (p.step q).Fits) :
    Represents (p.step q) (l.serveAll rs).2 := by
  rw [hp.step] at hf ⊢
  exact (h.serveAll hf).2

/-- A whole run comes down to requests for types and members. -/
theorem Represents.run (h : Represents p l) (hf : (p.run qs).Fits) :
    ∃ rs, Represents (p.run qs) (l.serveAll rs).2 ∧ (p.AdmitsAll qs → l.AdmitsAll rs) := by
  induction qs generalizing p l with
  | nil => exact ⟨[], h, fun _ => trivial⟩
  | cons q qs ih =>
      have hstep : (p.step q).Fits := @fits_of_run (p.step q) qs hf
      obtain ⟨rs, hp⟩ := exists_plays p q
      obtain ⟨rs', hr, ha⟩ := ih (h.plays hp hstep) hf
      refine ⟨rs ++ rs', ?_, ?_⟩
      · rw [Catalog.serveAll, TypeRequest.serveAll_append]
        exact hr
      · rintro ⟨hq, hqs⟩
        refine (hp.admits l h hstep fun t ht => ?_).append (ha hqs)
        rw [← h.describes.contains]
        exact hq t ht

end Pool

end CompilerSymbols
