import CompilerSymbols.Proofs.Types.Items

namespace CompilerSymbols

inductive ConversionCall
  | returned (target error : TypeId) (safe : Bool)
  | operator (c : Conversion) (error : TypeId)
deriving DecidableEq

namespace ConversionCall

def target : ConversionCall → TypeId
  | returned target _ _ => target
  | operator c _ => c.target

def error : ConversionCall → TypeId
  | returned _ error _ | operator _ error => error

def safe : ConversionCall → Bool
  | returned _ _ safe => safe
  | operator c _ => c.safe

def request : ConversionCall → PoolRequest
  | returned target error safe => .conversionReturn target error safe
  | operator c error => .conversion c error

def into? (u : TypeId) (c : ConversionCall) : Option TypeId :=
  if c.safe = false ∧ c.target = u ∧ c.error ≠ u then some c.error else none

def newMembers (cs : List ConversionCall) (u : TypeId) (ms : List TypeId) : List TypeId :=
  ((cs.filterMap (into? u)).filter (· ∉ ms)).eraseDups

theorem mem_newMembers {cs : List ConversionCall} {u e : TypeId} {ms : List TypeId} :
    e ∈ newMembers cs u ms ↔ (∃ c ∈ cs, c.into? u = some e) ∧ e ∉ ms := by
  simp [newMembers]

theorem newMembers_perm {cs cs' : List ConversionCall} (hp : cs'.Perm cs) (u : TypeId) (ms : List TypeId) :
    (newMembers cs' u ms).Perm (newMembers cs u ms) := by
  apply (List.perm_ext_iff_of_nodup (nodup_eraseDups _) (nodup_eraseDups _)).mpr
  intro e
  rw [← newMembers, ← newMembers, mem_newMembers, mem_newMembers]
  simp only [hp.mem_iff]

theorem newMembers_append_again {cs cs' : List ConversionCall} (hm : ∀ c ∈ cs', c ∈ cs) (u : TypeId) (ms : List TypeId) :
    newMembers (cs ++ cs') u ms = newMembers cs u ms := by
  rw [newMembers, List.filterMap_append, List.filter_append, List.eraseDups_append]
  have hnil : ((cs'.filterMap (into? u)).filter (· ∉ ms)).removeAll ((cs.filterMap (into? u)).filter (· ∉ ms)) = [] := by
    rw [List.removeAll, List.filter_eq_nil_iff]
    intro e he
    simp only [List.mem_filter, List.mem_filterMap] at he
    obtain ⟨⟨c, hc, hce⟩, hn⟩ := he
    simpa using ⟨⟨c, hm c hc, hce⟩, by simpa using hn⟩
  rw [hnil]
  simp [newMembers]

end ConversionCall

namespace Pool

open ConversionCall

variable {p q q' : Pool} {t target error : TypeId} {u : UnionType} {c : ConversionCall} {cs cs' : List ConversionCall}
  {b safe : Bool}

def convert (p : Pool) : ConversionCall → Except Fault (Reported (TypeId × Pool))
  | .returned target error safe => p.conversionReturn target error safe
  | .operator c error => p.conversionType c error

theorem conversionReturn_other (hu : p.isUnion target = .ok false) (error : TypeId) :
    p.conversionReturn target error false = .ok ⟨p.union none [target, error], []⟩ := by
  rw [conversionReturn, hu]
  rfl

theorem conversionReturn_union (hu : p.isUnion target = .ok true) {a : Reported (Bool × Pool)}
    (ha : p.addMember target error = .ok a) :
    p.conversionReturn target error false = .ok ⟨(target, a.value.2), a.events⟩ := by
  simp [conversionReturn, hu, ha, bind, Except.bind, pure, Except.pure]

theorem conversionType_of_return {c : Conversion} {r : Reported (TypeId × Pool)}
    (h : p.conversionReturn c.target error c.safe = .ok r) :
    p.conversionType c error = .ok ⟨r.value.2.function [c.source, c.target] r.value.1, r.events⟩ := by
  rw [conversionType, h]
  rfl

theorem step_request {r : Reported (TypeId × Pool)} (h : p.convert c = .ok r) : p.step c.request = r.value.2 := by
  cases c with
  | returned target error safe =>
      have hr : p.conversionReturn target error safe = .ok r := h
      simp only [request, step, hr]
  | operator c error =>
      have hr : p.conversionType c error = .ok r := h
      simp only [request, step, hr]

theorem Arranged.exists_addMember (h : p.Arranged) (hu : p.isUnion t = .ok true) (e : TypeId) :
    ∃ a, p.addMember t e = .ok a ∧ a.value.2.items = p.items ∧ ∀ t' v, p.shape t' = .ok (.union v) →
      a.value.2.shape t' = .ok (.union (if t = t' ∧ e ≠ t' then v.insert e else v)) := by
  obtain ⟨u, hu⟩ := h.exists_union hu
  obtain ⟨slot, hi, hslot⟩ := shape_union_iff.mp hu
  have hsame {t' : TypeId} {v : UnionType} (hv : p.shape t' = .ok (.union v)) : t = t' → v = u := by
    rintro rfl
    exact Shape.union.inj (Except.ok.inj (hv.symm.trans hu))
  refine ⟨_, addMember_union hi hslot e, ?_⟩
  split
  · next he =>
      refine ⟨rfl, fun t' v hv => ?_⟩
      rw [if_neg fun hn => hn.2 (he.trans hn.1)]
      exact hv
  · next he =>
      split
      · next hm =>
          refine ⟨rfl, fun t' v hv => ?_⟩
          split
          · next ht => rw [UnionType.insert, hsame hv ht.1, if_pos hm, ← hsame hv ht.1, hv]
          · exact hv
      · refine ⟨rfl, fun t' v hv => (h.shape_set hi _ hv).trans ?_⟩
        by_cases ht : t = t'
        · rw [if_pos ht, if_pos ⟨ht, ht ▸ he⟩, hsame hv ht]
        · rw [if_neg ht, if_neg fun hn => ht hn.1]

/-- What is left of a pool when calls have been served. -/
structure Absorbs (p : Pool) (cs : List ConversionCall) (q : Pool) : Prop where
  arranged : q.Arranged
  tag : ∀ t g, p.tag t = .ok g → q.tag t = .ok g
  shape : ∀ t u, p.shape t = .ok (.union u) → q.shape t = .ok (.union ((cs.filterMap (into? t)).foldl .insert u))

namespace Absorbs

theorem refl (h : p.Arranged) : p.Absorbs [] p := ⟨h, fun _ _ ht => ht, fun _ _ hu => hu⟩

theorem trans (h : p.Absorbs cs q) (h' : q.Absorbs cs' q') : p.Absorbs (cs ++ cs') q' where
  arranged := h'.arranged
  tag t g ht := h'.tag t g (h.tag t g ht)
  shape t u hu := by
    rw [List.filterMap_append, List.foldl_append]
    exact h'.shape t _ (h.shape t u hu)

theorem makes (h : p.Absorbs cs q) (hq : q.Makes q') : p.Absorbs cs q' where
  arranged := h.arranged.makes hq
  tag t g ht := hq.tag (h.tag t g ht)
  shape t u hu := hq.shape (h.shape t u hu)

theorem isUnion (h : p.Absorbs cs q) (hu : p.isUnion t = .ok b) : q.isUnion t = .ok b := by
  obtain ⟨g, ht, rfl⟩ := map_ok hu
  exact isUnion_of_tag (h.tag t g ht)

theorem members (h : p.Absorbs cs q) (hu : p.shape t = .ok (.union u)) :
    q.members t = .ok (u.members ++ newMembers cs t u.members) := by
  rw [Pool.members, h.shape t u hu, UnionType.foldl_insert]
  rfl

theorem of_none (h : p.Arranged) (hn : ∀ t u, p.shape t = .ok (.union u) → c.into? t = none) : p.Absorbs [c] p :=
  ⟨h, fun _ _ ht => ht, fun t u hu => by rw [List.filterMap_cons_none (hn t u hu)]; exact hu⟩

theorem of_addMember (h : p.Arranged) (hc : c.safe = false) (hu : p.isUnion c.target = .ok true) :
    ∃ a, p.addMember c.target c.error = .ok a ∧ p.Absorbs [c] a.value.2 := by
  obtain ⟨a, ha, hi, hs⟩ := h.exists_addMember hu c.error
  refine ⟨a, ha, ?_, ?_, ?_⟩
  · rw [← serve_addMember ha]
    exact h.serve _
  · intro t g ht
    rw [tag_eq_ok, hi]
    exact tag_eq_ok.mp ht
  · intro t u hu
    rw [hs t u hu, List.filterMap_cons, into?, hc]
    by_cases ht : c.target = t ∧ c.error ≠ t <;> simp [ht]

end Absorbs

theorem Arranged.exists_return (h : p.Arranged) (hu : p.isUnion c.target = .ok b) :
    ∃ r, p.conversionReturn c.target c.error c.safe = .ok r ∧ (c.safe = true ∨ b = true → r.value.1 = c.target) ∧
      p.Absorbs [c] r.value.2 := by
  cases hc : c.safe with
  | true => exact ⟨_, rfl, fun _ => rfl, .of_none h fun t u hu => by simp [into?, hc]⟩
  | false =>
      cases b with
      | true =>
          obtain ⟨a, ha, hq⟩ := Absorbs.of_addMember h hc hu
          exact ⟨_, conversionReturn_union hu ha, fun _ => rfl, hq⟩
      | false =>
          refine ⟨_, conversionReturn_other hu c.error, by simp, Absorbs.makes (.of_none h fun t u ht => ?_)
            (serve_makes p (r := .union none [c.target, c.error]) rfl)⟩
          have hne : c.target ≠ t := by
            rintro rfl
            rw [isUnion_of_tag (tag_of_shape ht)] at hu
            cases hu
          simp [into?, hne]

theorem Arranged.exists_convert (h : p.Arranged) (hu : p.isUnion c.target = .ok b) :
    ∃ r, p.convert c = .ok r ∧ p.Absorbs [c] r.value.2 := by
  obtain ⟨r, hr, -, hq⟩ := h.exists_return hu
  cases c with
  | returned target error safe => exact ⟨r, hr, hq⟩
  | operator c error =>
      exact ⟨_, conversionType_of_return hr, hq.makes (serve_makes _ (r := .function [c.source, c.target] r.value.1) rfl)⟩

theorem Arranged.absorbs_run (h : p.Arranged) (hcs : ∀ c ∈ cs, ∃ b, p.isUnion c.target = .ok b) :
    p.Absorbs cs (p.run (cs.map request)) := by
  induction cs using List.reverseRecOn with
  | nil => exact .refl h
  | append_singleton cs c ih =>
      have hq := ih fun d hd => hcs d (List.mem_append_left _ hd)
      obtain ⟨b, hb⟩ := hcs c (List.mem_append_right _ List.mem_cons_self)
      obtain ⟨r, hr, hq'⟩ := hq.arranged.exists_convert (hq.isUnion hb)
      rw [List.map_append, List.map_singleton, run_concat, step_request hr]
      exact hq.trans hq'

theorem exists_isUnion (ht : p.contains t = true) : ∃ b, p.isUnion t = .ok b := by
  rw [contains_eq_tag] at ht
  cases hg : p.tag t with
  | error f => simp [hg] at ht
  | ok g => exact ⟨_, isUnion_of_tag hg⟩

theorem Represents.returnType_operator {l : Catalog} (h : Represents q l) (hq : p.Absorbs cs q) {c : Conversion}
    {r : Reported (TypeId × Pool)} (hr : q.conversionType c error = .ok r) (hf : r.value.2.Fits)
    (hc : c.safe = true ∨ p.isUnion c.target = .ok true) : r.value.2.returnType r.value.1 = .ok c.target := by
  obtain ⟨l', h', -, ho⟩ := h.conversionType hr hf
  have ht := h'.typesOperator ho
  cases hs : c.safe with
  | true => exact ht.returns_target hs
  | false =>
      have hu := hc.resolve_left (by simp [hs])
      obtain ⟨r', hr', hq'⟩ := Arranged.exists_convert (c := .operator c error) hq.arranged (hq.isUnion hu)
      cases hr.symm.trans hr'
      obtain ⟨ret, u, hret, -, ⟨-, rfl⟩ | ⟨hn, -⟩, -⟩ := ht.returns_union hs
      · exact hret
      · exact absurd ((hq.trans hq').isUnion hu) (by simp [show _ = _ from hn])

structure Answers (p q : Pool) (c : ConversionCall) : Prop where
  served : ∃ r, q.convert c = .ok r
  returned : c.safe = true ∨ p.isUnion c.target = .ok true →
    ∃ r, q.conversionReturn c.target c.error c.safe = .ok r ∧ r.value.1 = c.target
  operator : ∀ c' error, c = .operator c' error → c'.safe = true ∨ p.isUnion c'.target = .ok true →
    (q.step c.request).Fits → ∃ r, q.conversionType c' error = .ok r ∧ r.value.2.returnType r.value.1 = .ok c'.target

/-- How calls are answered one after the other, and what they add to the unions that were there. -/
structure Serves (p : Pool) (cs : List ConversionCall) : Prop where
  answers : ∀ before c after, cs = before ++ c :: after → p.Answers (p.run (before.map request)) c
  members : ∀ t ms, p.isUnion t = .ok true → p.members t = .ok ms →
    (p.run (cs.map request)).members t = .ok (ms ++ newMembers cs t ms)

theorem serves (qs : List PoolRequest) (hcs : ∀ c ∈ cs, (initial.run qs).contains c.target = true) :
    (initial.run qs).Serves cs := by
  have harr := arranged_run qs
  refine ⟨?_, ?_⟩
  · rintro before c after rfl
    have hq : (initial.run qs).Absorbs before _ :=
      harr.absorbs_run fun d hd => exists_isUnion (hcs d (List.mem_append_left _ hd))
    obtain ⟨b, hb⟩ := exists_isUnion (hcs c (List.mem_append_right _ List.mem_cons_self))
    have hb' := hq.isUnion hb
    obtain ⟨r, hr, -⟩ := hq.arranged.exists_convert hb'
    refine ⟨⟨r, hr⟩, ?_, ?_⟩
    · intro hc
      obtain ⟨r, hr, ht, -⟩ := hq.arranged.exists_return hb'
      exact ⟨r, hr, ht (hc.imp id fun hu => Except.ok.inj (hb.symm.trans hu))⟩
    · rintro c error rfl hc hf
      rw [step_request hr] at hf
      have hp : ((initial.run qs).run (before.map request)).Fits := @fits_of_step _ (ConversionCall.operator c error).request
        (step_request hr ▸ hf)
      rw [← run_append] at hp
      obtain ⟨rs, h, -⟩ := Represents.initial.run hp
      rw [run_append] at h
      exact ⟨r, hr, h.returnType_operator hq hr hf hc⟩
  · intro t ms hu hms
    obtain ⟨u, hs⟩ := harr.exists_union hu
    rw [Pool.members, hs] at hms
    cases hms
    exact (harr.absorbs_run fun c hc => exists_isUnion (hcs c hc)).members hs

/-- Conversions come to the same in every order: they add the same members to the unions that are
there, the order of the members apart, and a second time they add none. -/
theorem conversions_commute (qs : List PoolRequest) (cs cs' : List ConversionCall) (hp : cs'.Perm cs)
    (hcs : ∀ c ∈ cs, (initial.run qs).contains c.target = true) :
    (initial.run qs).Serves cs ∧ (initial.run qs).Serves cs' ∧
      ∀ t, (initial.run qs).isUnion t = .ok true → ∃ ms, (initial.run qs).members t = .ok ms ∧
        (newMembers cs' t ms).Perm (newMembers cs t ms) ∧
        ∀ again, (∀ c ∈ again, c ∈ cs) → ((initial.run qs).run ((cs ++ again).map request)).members t =
          ((initial.run qs).run (cs.map request)).members t := by
  refine ⟨serves qs hcs, serves qs fun c hc => hcs c (hp.mem_iff.mp hc), fun t ht => ?_⟩
  obtain ⟨u, hu⟩ := (arranged_run qs).exists_union ht
  have hms : (initial.run qs).members t = .ok u.members := by
    rw [Pool.members, hu]
    rfl
  refine ⟨u.members, hms, newMembers_perm hp t u.members, fun again hm => ?_⟩
  have hagain : ∀ c ∈ cs ++ again, (initial.run qs).contains c.target = true := by
    intro c hc
    exact hcs c ((List.mem_append.mp hc).elim id (hm c))
  rw [(serves qs hagain).members t _ ht hms, (serves qs hcs).members t _ ht hms, newMembers_append_again hm]

/-- A union is given an error twice, itself, another union and the error that it has. -/
theorem conversions_commute_reversed :
    let qs : List PoolRequest := [.type (.union none [.int, .error]), .type (.union none [.json])]
    let cs : List ConversionCall := [.returned ⟨64⟩ .xml false, .returned ⟨64⟩ ⟨64⟩ false, .returned ⟨64⟩ .xml false,
      .operator ⟨.string, ⟨64⟩, .nop, false, false⟩ ⟨65⟩, .returned ⟨64⟩ .error false,
      .operator ⟨.any, .int, .nop, false, false⟩ .error, .operator ⟨.any, ⟨65⟩, .nop, false, true⟩ .error]
    cs.reverse.Perm cs ∧ (∀ c ∈ cs, (initial.run qs).contains c.target = true) ∧
      ((initial.run qs).run (cs.map request)).members ⟨64⟩ = .ok [.int, .error, .xml, ⟨65⟩] ∧
      ((initial.run qs).run (cs.reverse.map request)).members ⟨64⟩ = .ok [.int, .error, ⟨65⟩, .xml] ∧
      (∃ r, (initial.run qs).conversionReturn ⟨64⟩ .xml false = .ok r ∧ r.value.1 = ⟨64⟩) := by
  intro qs cs
  have hp : cs.reverse.Perm cs := List.reverse_perm cs
  have hcs : ∀ c ∈ cs, (initial.run qs).contains c.target = true := by decide +kernel
  obtain ⟨hs, hs', -⟩ := conversions_commute qs cs cs.reverse hp hcs
  have hu : (initial.run qs).isUnion ⟨64⟩ = .ok true := by decide +kernel
  have hms : (initial.run qs).members ⟨64⟩ = .ok [.int, .error] := by decide +kernel
  refine ⟨hp, hcs, (hs.members _ _ hu hms).trans ?_, (hs'.members _ _ hu hms).trans ?_, ?_⟩
  · decide +kernel
  · decide +kernel
  · exact (hs.answers [] _ _ rfl).returned (.inr hu)

end Pool

end CompilerSymbols
