import CompilerSymbols.Proofs.Sequence
import CompilerSymbols.Proofs.Types.Run

namespace CompilerSymbols

namespace Catalog

variable {l l' : Catalog} {r : TypeRequest} {rs : List TypeRequest} {t m : TypeId} {s : Shape} {u : UnionType}

theorem shape_initial_ne_union (t : TypeId) (u : UnionType) : initial.shape t ≠ .ok (.union u) := by
  rw [Ne, shape_eq_ok]
  intro h
  have hm := List.mem_of_getElem? h
  simp [initial, BuiltinTag.all, Pool.builtinContainers] at hm

theorem exists_shape (ht : t.raw.toNat < l.length) : ∃ s, l.shape t = .ok s :=
  ⟨_, shape_eq_ok.mpr (List.getElem?_eq_getElem ht)⟩

theorem Grows.length_le (hg : l.Grows l') : l.length ≤ l'.length := by
  rw [← Nat.not_lt]
  intro hlt
  obtain ⟨s, hs, -⟩ := hg _ _ (List.getElem?_eq_getElem hlt)
  exact Nat.lt_irrefl _ (List.getElem?_eq_some_iff.mp hs).1

theorem union_of_members {ms : List TypeId} (hm : l.members t = .ok ms) (hne : ms ≠ []) :
    ∃ u, l.shape t = .ok (.union u) ∧ u.members = ms := by
  obtain ⟨s, hs, rfl⟩ := map_ok hm
  cases s with
  | union u => exact ⟨u, hs, rfl⟩
  | _ => exact absurd rfl hne

theorem exists_place (l : Catalog) (hr : r.shares = true) (hne : r ≠ .tuple []) :
    ∃ s key, r.shape? = some s ∧ s.key? = some key ∧ l.serve r = (l.place s).map .type id := by
  cases r with
  | container tag constraint | function params ret => exact ⟨_, _, rfl, rfl, rfl⟩
  | tuple elems =>
      cases elems with
      | nil => exact absurd rfl hne
      | cons e es => exact ⟨_, _, rfl, rfl, rfl⟩
  | _ => cases hr

def Distinct (l : Catalog) : Prop := ∀ t u, l.shape t = .ok (.union u) → u.members.Nodup

def Apart (l : Catalog) : Prop := ∀ t u, l.shape t = .ok (.union u) → t ∉ u.members

theorem distinct_initial : initial.Distinct := fun t u hu => absurd hu (shape_initial_ne_union t u)

theorem apart_initial : initial.Apart := fun t u hu => absurd hu (shape_initial_ne_union t u)

theorem eq_union_of_shape? (h : r.shape? = some (.union u)) :
    ∃ name ms, r = .union name ms ∧ u = ⟨name, ms.eraseDups⟩ := by
  cases r with
  | union name ms =>
      cases h
      exact ⟨name, ms, rfl, rfl⟩
  | declare tag name => cases tag <;> cases h
  | _ => cases h

namespace Step

theorem distinct (h : l.Step r l') (hd : l.Distinct) : l'.Distinct := by
  intro t u hu
  rcases h.shape_before hu with hu | ⟨-, hs⟩ | ⟨m, name, ms, ht, -, hm, hs⟩
  · exact hd t u hu
  · obtain ⟨name, ms, -, rfl⟩ := eq_union_of_shape? hs
    exact nodup_eraseDups ms
  · cases hs
    exact List.concat_eq_append ▸ (hd t _ ht).concat hm

theorem apart (h : l.Step r l') (ha : l.Admits r.types) (hd : l.Apart) : l'.Apart := by
  intro t u hu
  rcases h.shape_before hu with hu | ⟨ht, hs⟩ | ⟨m, name, ms, ht, hne, -, hs⟩
  · exact hd t u hu
  · obtain ⟨name, ms, rfl, rfl⟩ := eq_union_of_shape? hs
    intro hm
    obtain ⟨s, hs, -⟩ := contains_iff.mp (ha t (List.mem_eraseDups.mp hm))
    exact absurd ht (Nat.ne_of_lt (lt_of_shape hs))
  · cases hs
    have hms := hd t _ ht
    simpa [hms] using hne.symm

theorem shape (h : l.Step r l') (hs : l.shape t = .ok s) : l'.shape t = .ok s ∨
    ∃ name ms m, s = .union ⟨name, ms⟩ ∧ r = .addMember t m ∧ m ≠ t ∧ m ∉ ms ∧
      l'.shape t = .ok (.union ⟨name, ms ++ [m]⟩) := by
  cases h with
  | same => exact .inl hs
  | added => exact .inl (shape_eq_ok.mpr (Pool.getElem?_concat_eq_some.mpr (.inl (shape_eq_ok.mp hs))))
  | @grown t' m name ms hu hne hm =>
      by_cases ht : t'.raw.toNat = t.raw.toNat
      · obtain rfl : t' = t := TypeId.toNat_injective ht
        cases (shape_eq_ok.mpr hu).symm.trans hs
        refine .inr ⟨name, ms, m, rfl, rfl, hne, hm, ?_⟩
        rw [shape_eq_ok, List.getElem?_set_self (lt_of_shape hs)]
      · left
        rw [shape_eq_ok, List.getElem?_set_ne ht]
        exact shape_eq_ok.mp hs

end Step

theorem distinct_serveAll (h : l.Distinct) (rs : List TypeRequest) : (l.serveAll rs).2.Distinct := by
  induction rs generalizing l with
  | nil => exact h
  | cons r rs ih => exact ih ((serve_step l r).distinct h)

theorem shape_serveAll_of_makes (hr : ∀ r ∈ rs, r.makes = true) (hs : l.shape t = .ok s) :
    (l.serveAll rs).2.shape t = .ok s := by
  induction rs generalizing l with
  | nil => exact hs
  | cons r rs ih =>
      apply ih fun r hm => hr r (List.mem_cons_of_mem _ hm)
      rcases (serve_step l r).shape hs with hs' | ⟨name, ms, m, -, rfl, -⟩
      · exact hs'
      · exact absurd (hr _ List.mem_cons_self) Bool.false_ne_true

end Catalog

namespace Pool

variable {p : Pool} {l l' : Catalog} {q : PoolRequest} {qs : List PoolRequest} {rs : List TypeRequest} {t m : TypeId}
  {s : Shape} {ms : List TypeId}

theorem Plays.shape (hp : p.Plays q rs) (hs : l.shape t = .ok s) : (l.serveAll rs).2.shape t = .ok s ∨
    ∃ name ms m, s = .union ⟨name, ms⟩ ∧ q.Adds t m ∧ m ≠ t ∧ m ∉ ms ∧
      (l.serveAll rs).2.shape t = .ok (.union ⟨name, ms ++ [m]⟩) := by
  cases rs with
  | nil => exact .inl hs
  | cons r rs =>
      have hrest {s : Shape} (hs : (l.serve r).2.shape t = .ok s) : ((l.serve r).2.serveAll rs).2.shape t = .ok s :=
        Catalog.shape_serveAll_of_makes hp.makes hs
      rcases (l.serve_step r).shape hs with hs' | ⟨name, ms, m, hu, rfl, hne, hm, hs'⟩
      · exact .inl (hrest hs')
      · exact .inr ⟨name, ms, m, hu, hp.adds t m rfl, hne, hm, hrest hs'⟩

/-- A request in the run put this member into the union, which did not have it and is another type. -/
def Gains (p : Pool) (qs : List PoolRequest) (t m : TypeId) : Prop :=
  ∃ qs₁ q qs₂ ms, qs = qs₁ ++ q :: qs₂ ∧ q.Adds t m ∧ m ≠ t ∧ (p.run qs₁).members t = .ok ms ∧ m ∉ ms ∧
    (p.run (qs₁ ++ [q])).members t = .ok (ms ++ [m])

theorem Gains.concat (h : p.Gains qs t m) (q : PoolRequest) : p.Gains (qs ++ [q]) t m := by
  obtain ⟨qs₁, q₁, qs₂, ms, rfl, h⟩ := h
  exact ⟨qs₁, q₁, qs₂ ++ [q], ms, by simp, h⟩

namespace Represents

theorem members_step (h : Represents p l) (hf : (p.step q).Fits) (hm : p.members t = .ok ms) :
    (p.step q).members t = .ok ms ∨
      ∃ m, q.Adds t m ∧ m ≠ t ∧ m ∉ ms ∧ (p.step q).members t = .ok (ms ++ [m]) := by
  obtain ⟨rs, hp⟩ := exists_plays p q
  rw [(h.plays hp hf).describes.members]
  rw [h.describes.members] at hm
  obtain ⟨s, hs, rfl⟩ := map_ok hm
  rcases hp.shape hs with hs' | ⟨name, ms, m, rfl, ha, hne, hm, hs'⟩
  · exact .inl (by rw [Catalog.members, hs']; rfl)
  · exact .inr ⟨m, ha, hne, hm, by rw [Catalog.members, hs']; rfl⟩

theorem members_run (h : Represents p l) (hf : (p.run qs).Fits) (hm : p.members t = .ok ms) :
    ∃ more, (p.run qs).members t = .ok (ms ++ more) ∧ ∀ m ∈ more, p.Gains qs t m := by
  induction qs using List.reverseRecOn with
  | nil => exact ⟨[], by rw [List.append_nil]; exact hm, by simp⟩
  | append_singleton qs q ih =>
      rw [run_concat] at hf ⊢
      have hf' := fits_of_step hf
      obtain ⟨more, hms, hg⟩ := ih hf'
      obtain ⟨rs, hr, -⟩ := h.run hf'
      rcases hr.members_step hf hms with hms' | ⟨m, ha, hne, hm, hms'⟩
      · exact ⟨more, hms', fun m hm => (hg m hm).concat q⟩
      · refine ⟨more ++ [m], by rw [hms', List.append_assoc], ?_⟩
        intro m' hm'
        rcases List.mem_append.mp hm' with hm' | hm'
        · exact (hg m' hm').concat q
        · cases List.mem_singleton.mp hm'
          exact ⟨qs, q, [], _, rfl, ha, hne, hms, hm, by rw [run_concat, hms']⟩

theorem eq_of_shape (h : Represents p l) {key : List UInt32} {t' : TypeId} (hs : p.shape t = .ok s)
    (hs' : p.shape t' = .ok s) (hk : s.key? = some key) : t = t' := by
  have hshared {u : TypeId} (hu : p.shape u = .ok s) : p.shared[key]? = some u :=
    (h.shared key u).mpr ⟨s, Catalog.shape_eq_ok.mp ((h.shape_eq u).symm.trans hu), hk⟩
  exact Option.some.inj ((hshared hs).symm.trans (hshared hs'))

theorem shared_mono {p' : Pool} (h : Represents p l) (h' : Represents p' l') (hg : l.Grows l') {key : List UInt32}
    (ht : p.shared[key]? = some t) : p'.shared[key]? = some t := by
  obtain ⟨s, hs, hk⟩ := (h.shared key t).mp ht
  have hn : s.tag ≠ .union := by
    cases s with
    | union u => simp [Shape.key?, Shape.layout?] at hk
    | _ => simp [Shape.tag]
  exact (h'.shared key t).mpr ⟨s, Catalog.shape_eq_ok.mp (hg.shape_eq (Catalog.shape_eq_ok.mpr hs) hn), hk⟩

theorem shared_serve (h : Represents p l) {r : TypeRequest} (hf : (p.serve r).2.Fits) (hr : r.shares = true)
    (hne : r ≠ .tuple []) : ∃ t s key, (p.serve r).1 = .type t ∧ r.shape? = some s ∧ s.key? = some key ∧
      (p.serve r).2.shared[key]? = some t := by
  obtain ⟨ha, h'⟩ := h.serve hf
  obtain ⟨s, key, hs, hk, hl⟩ := Catalog.exists_place l hr hne
  have hlt : l.length < UInt32.size := by
    rw [← h.size]
    exact (fits_of_serve hf).1
  rw [hl] at ha h'
  have hp := Catalog.shape_eq_ok.mp (Catalog.place_shape hlt s)
  exact ⟨_, s, key, ha, hs, hk, (h'.shared key _).mpr ⟨s, hp, hk⟩⟩

end Represents

theorem share_of_found {key : List UInt32} (ht : p.shared[key]? = some t) (words : List UInt32) (i : Item) :
    p.share key words i = (t, p) := by
  rw [share, ht]

theorem serve_of_found {r : TypeRequest} {key : List UInt32} (hr : r.shares = true) (hne : r ≠ .tuple [])
    (hs : r.shape? = some s) (hk : s.key? = some key) (ht : p.shared[key]? = some t) : p.serve r = (.type t, p) := by
  cases r with
  | container tag constraint | function params ret =>
      cases hs
      cases hk
      exact congrArg (Prod.map TypeAnswer.type id) (share_of_found ht ..)
  | tuple elems =>
      cases hs
      cases hk
      cases elems with
      | nil => exact absurd rfl hne
      | cons e es => exact congrArg (Prod.map TypeAnswer.type id) (share_of_found ht ..)
  | _ => cases hr

/-- A repeated request for a shared type gets the answer that it got first, and changes nothing. -/
theorem Represents.serve_again (h : Represents p l) {r : TypeRequest} (hr : r.shares = true)
    (hf : ((p.serve r).2.run qs).Fits) :
    ((p.serve r).2.run qs).serve r = ((p.serve r).1, (p.serve r).2.run qs) := by
  by_cases hne : r = .tuple []
  · subst hne
    rfl
  · have hf' := fits_of_run hf
    have h₁ := (h.serve hf').2
    obtain ⟨t, s, key, ha, hs, hk, ht⟩ := h.shared_serve hf' hr hne
    obtain ⟨rs, h₂, -⟩ := h₁.run hf
    rw [ha]
    exact serve_of_found hr hne hs hk (h₁.shared_mono h₂ (Catalog.serveAll_grows _ rs) ht)

structure Agrees (p p' : Pool) (t : TypeId) : Prop where
  tag : p'.tag t = p.tag t
  constraint : p'.constraint t = p.constraint t
  params : p'.params t = p.params t
  returnType : p'.returnType t = p.returnType t
  elements : p'.elements t = p.elements t
  nominal? : p'.nominal? t = p.nominal? t
  typeName? : p'.typeName? t = p.typeName? t
  unionName : (p'.union? t).map (·.map (·.name)) = (p.union? t).map (·.map (·.name))

theorem Represents.agrees {p' : Pool} (h : Represents p l) (h' : Represents p' l') (hg : l.Grows l')
    (hs : l.shape t = .ok s) : p.Agrees p' t := by
  obtain ⟨s', hs', hgs⟩ := hg.shape hs
  have he : p.shape t = .ok s := (h.shape_eq t).trans hs
  have he' : p'.shape t = .ok s' := (h'.shape_eq t).trans hs'
  have htag : p'.tag t = p.tag t := by
    rw [h.describes.tag, h'.describes.tag, Catalog.tag, Catalog.tag, hs, hs']
    cases hgs <;> rfl
  constructor
  case tag => exact htag
  all_goals
    simp only [Pool.constraint, Pool.params, Pool.returnType, Pool.elements, Pool.nominal?, Pool.typeName?,
      Pool.union?, he, he']
    cases hgs <;> rfl

/-- What a run leaves of the types that are there before it. -/
structure KeepsTypes (p : Pool) (qs : List PoolRequest) : Prop where
  size : p.size ≤ (p.run qs).size
  agrees : ∀ t : TypeId, t.raw.toNat < p.size → p.Agrees (p.run qs) t
  members : ∀ t : TypeId, t.raw.toNat < p.size → ∃ ms more, p.members t = .ok ms ∧
    (p.run qs).members t = .ok (ms ++ more) ∧ ∀ m ∈ more, p.Gains qs t m
  distinct : ∀ t ms, (p.run qs).members t = .ok ms → ms.Nodup
  serve_again : ∀ r qs', r.shares = true → qs = .type r :: qs' →
    (p.run qs).serve r = ((p.serve r).1, p.run qs)

theorem Represents.keepsTypes (h : Represents p l) (hd : l.Distinct) (hf : (p.run qs).Fits) : p.KeepsTypes qs := by
  obtain ⟨rs, h', -⟩ := h.run hf
  have hg := l.serveAll_grows rs
  refine ⟨?_, ?_, ?_, ?_, ?_⟩
  · rw [h.size, h'.size]
    exact hg.length_le
  · intro t ht
    obtain ⟨s, hs⟩ := Catalog.exists_shape (h.size ▸ ht)
    exact h.agrees h' hg hs
  · intro t ht
    obtain ⟨s, hs⟩ := Catalog.exists_shape (h.size ▸ ht)
    have hm : p.members t = .ok s.members := by
      rw [Pool.members, h.shape_eq, hs]
      rfl
    obtain ⟨more, hm', hgain⟩ := h.members_run hf hm
    exact ⟨s.members, more, hm, hm', hgain⟩
  · intro t ms hm
    by_cases hne : ms = []
    · exact hne ▸ .nil
    · obtain ⟨u, hu, rfl⟩ := Catalog.union_of_members ((h'.describes.members t).symm.trans hm) hne
      exact Catalog.distinct_serveAll hd rs t u hu
  · rintro r qs' hr rfl
    exact h.serve_again hr hf

/-- Types keep their meaning for ever. Unions can grow, and when all types are in use before they
are mentioned, none comes to contain itself. -/
theorem types_kept (qs qs' : List PoolRequest) (hf : (Pool.initial.run (qs ++ qs')).Fits) :
    (Pool.initial.run qs).KeepsTypes qs' ∧ (Pool.initial.AdmitsAll (qs ++ qs') →
      ∀ t ms, (Pool.initial.run (qs ++ qs')).members t = .ok ms → t ∉ ms) := by
  constructor
  · rw [run_append] at hf
    obtain ⟨rs, h, -⟩ := Represents.initial.run (fits_of_run hf)
    exact h.keepsTypes (Catalog.distinct_serveAll Catalog.distinct_initial rs) hf
  · intro ha t ms hm
    obtain ⟨rs, h, hadmits⟩ := Represents.initial.run hf
    by_cases hne : ms = []
    · exact hne ▸ List.not_mem_nil
    · obtain ⟨u, hu, rfl⟩ := Catalog.union_of_members ((h.describes.members t).symm.trans hm) hne
      exact Catalog.serveAll_invariant (fun ha hl => (Catalog.serve_step ..).apart ha hl) Catalog.apart_initial
        (hadmits ha) t u hu

/-- A function type that returns a union, and requests that extend the union, one of them refused. -/
theorem types_kept_growing :
    let qs : List PoolRequest := [.type (.union none [.int]), .type (.container .array ⟨64⟩),
      .type (.function [.any, ⟨65⟩] ⟨64⟩)]
    let qs' : List PoolRequest := [.type (.container .array ⟨64⟩), .type (.addMember ⟨64⟩ .string),
      .type (.addMember ⟨64⟩ ⟨64⟩), .conversion ⟨.string, ⟨64⟩, .nop, false, false⟩ .error,
      .conversionReturn .int .error false, .unboxing .any .int]
    (Pool.initial.run (qs ++ qs')).Fits ∧ Pool.initial.AdmitsAll (qs ++ qs') ∧
      (Pool.initial.run qs).KeepsTypes qs' ∧ ((Pool.initial.run qs).run qs').params ⟨66⟩ = .ok [.any, ⟨65⟩] ∧
      (Pool.initial.run (qs ++ qs')).members ⟨64⟩ = .ok [.int, .string, .error] ∧
      ⟨64⟩ ∉ [TypeId.int, .string, .error] := by
  intro qs qs'
  have hf : (Pool.initial.run (qs ++ qs')).Fits := by decide +kernel
  have ha : Pool.initial.AdmitsAll (qs ++ qs') := by decide +kernel
  have hm : (Pool.initial.run (qs ++ qs')).members ⟨64⟩ = .ok [.int, .string, .error] := by decide +kernel
  obtain ⟨hk, hself⟩ := types_kept qs qs' hf
  refine ⟨hf, ha, hk, (hk.agrees ⟨66⟩ ?_).params.trans ?_, hm, hself ha ⟨64⟩ _ hm⟩
  · decide +kernel
  · decide +kernel

end Pool

end CompilerSymbols
