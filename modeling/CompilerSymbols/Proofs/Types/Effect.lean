import CompilerSymbols.Proofs.Types.Conversions
import CompilerSymbols.Proofs.Types.Following

namespace CompilerSymbols.Pool

variable {p q : Pool} {l : Catalog} {c : Conversion} {error t u ret type : TypeId} {params : List TypeId} {s : Shape}
  {qs : List PoolRequest} {es : List Event}

def Keeps (p q : Pool) : Prop := ∀ t s, p.shape t = .ok s → q.shape t = .ok s

/-- A function type is found where it is, or takes the next position when there is none like it. -/
inductive GivesFunction (p : Pool) (params : List TypeId) (ret type : TypeId) (q : Pool) : Prop
  | found (hs : p.shape type = .ok (.function params ret)) (hsize : q.size = p.size)
  | made (hn : ∀ t, p.shape t ≠ .ok (.function params ret)) (hsize : q.size = p.size + 1)
      (ht : type.raw.toNat = p.size) (hs : q.shape type = .ok (.function params ret))

inductive Synthesizes (p : Pool) (c : Conversion) (error type : TypeId) (q : Pool) : List Event → Prop
  | safe (hs : c.safe = true) (hf : p.GivesFunction [c.source, c.target] c.target type q) (hk : p.Keeps q) :
      Synthesizes p c error type q []
  | self {u : UnionType} (hs : c.safe = false) (hu : p.shape c.target = .ok (.union u)) (he : error = c.target)
      (hf : p.GivesFunction [c.source, c.target] c.target type q) (hk : p.Keeps q) :
      Synthesizes p c error type q [.selfMember c.target]
  | present {u : UnionType} (hs : c.safe = false) (hu : p.shape c.target = .ok (.union u)) (he : error ≠ c.target)
      (hm : error ∈ u.members) (hf : p.GivesFunction [c.source, c.target] c.target type q) (hk : p.Keeps q) :
      Synthesizes p c error type q []
  | grown {u : UnionType} (hs : c.safe = false) (hu : p.shape c.target = .ok (.union u)) (he : error ≠ c.target)
      (hm : error ∉ u.members) (hf : p.GivesFunction [c.source, c.target] c.target type q)
      (hg : q.shape c.target = .ok (.union ⟨u.name, u.members ++ [error]⟩))
      (hk : ∀ t s, t ≠ c.target → p.shape t = .ok s → q.shape t = .ok s) :
      Synthesizes p c error type q []
  | made {ret : TypeId} (hs : c.safe = false) (hu : p.isUnion c.target = .ok false) (hsize : q.size = p.size + 2)
      (hret : ret.raw.toNat = p.size) (htype : type.raw.toNat = p.size + 1)
      (hr : q.shape ret = .ok (.union ⟨none, if error = c.target then [c.target] else [c.target, error]⟩))
      (ht : q.shape type = .ok (.function [c.source, c.target] ret)) (hk : p.Keeps q)
      (hn : ∀ t s, p.shape t = .ok s → ret ∉ s.mentions) :
      Synthesizes p c error type q []

theorem Represents.shared_eq_some (h : Represents p l) {key : List UInt32} (hk : s.key? = some key) :
    p.shared[key]? = some t ↔ p.shape t = .ok s := by
  rw [h.shared, h.shape_eq, Catalog.shape_eq_ok]
  constructor
  · rintro ⟨s', hs', hk'⟩
    obtain rfl := Shape.key?_injective hk' hk
    exact hs'
  · intro hs
    exact ⟨s, hs, hk⟩

theorem keeps_function (p : Pool) (params : List TypeId) (ret : TypeId) : p.Keeps (p.function params ret).2 :=
  fun _ _ hs => (serve_makes p (r := .function params ret) rfl).shape hs

theorem Represents.givesFunction (h : Represents p l) (hf : (p.function params ret).2.Fits) :
    p.GivesFunction params ret (p.function params ret).1 (p.function params ret).2 := by
  have hk : (Shape.function params ret).key? = some (sharedKey .function (counted params ++ [ret.raw])) := rfl
  cases hs : p.shared[sharedKey .function (counted params ++ [ret.raw])]? with
  | some t =>
      have he : p.function params ret = (t, p) := share_of_found hs ..
      rw [he]
      exact .found ((h.shared_eq_some hk).mp hs) rfl
  | none =>
      obtain ⟨l', h', -, hs'⟩ := h.exists_function hf
      have hp : p.size < UInt32.size := Nat.lt_of_le_of_lt (size_le_share ..) hf.1
      have hnext : (p.function params ret).1 = p.next ∧ (p.function params ret).2.size = p.size + 1 := by
        rw [Pool.function, Pool.share, hs]
        exact ⟨rfl, Array.size_push ..⟩
      refine .made (fun t ht => ?_) hnext.2 ?_ ((h'.shape_eq _).trans hs')
      · cases hs.symm.trans ((h.shared_eq_some hk).mpr ht)
      · rw [hnext.1]
        exact toNat_position hp

theorem GivesFunction.of_same {m : Pool} (h : m.GivesFunction params ret type q) (hsize : m.size = p.size)
    (hsame : ∀ t, m.shape t = .ok (.function params ret) ↔ p.shape t = .ok (.function params ret)) :
    p.GivesFunction params ret type q := by
  cases h with
  | found hs hq => exact .found ((hsame type).mp hs) (hq.trans hsize)
  | made hn hq ht hs =>
      rw [hsize] at hq ht
      exact .made (fun t h => hn t ((hsame t).mpr h)) hq ht hs

theorem Sound.function_addMember (h : p.Sound) {m : TypeId} {a : Reported (Bool × Pool)}
    (ha : p.addMember t m = .ok a) : a.value.2.shape u = .ok (.function params ret) ↔ p.shape u = .ok (.function params ret) := by
  constructor
  · intro hs
    have hlt := lt_of_shape hs
    rw [← serve_addMember ha] at hs
    rcases h.shape_serve hs with hs | ⟨hu, -⟩ | ⟨name, ms, m', -, -, -, -, he⟩
    · exact hs
    · rw [size, (addMember_frame ha).1] at hlt
      exact absurd hu (Nat.ne_of_lt hlt)
    · cases he
  · intro hs
    rcases h.arranged.shape_addMember ha hs with hs | ⟨name, ms, -, he, -⟩
    · exact hs
    · cases he

/-- What asking for a union does, which is made even if there is an equal one. -/
structure GivesUnion (p : Pool) (name : Option Name) (ms : List TypeId) (u : TypeId) (q : Pool) : Prop where
  position : u.raw.toNat = p.size
  size : q.size = p.size + 1
  keeps : p.Keeps q
  shape : q.shape u = .ok (.union ⟨name, ms.eraseDups⟩)

theorem Represents.givesUnion (h : Represents p l) {name : Option Name} {ms : List TypeId}
    (hf : (p.union name ms).2.Fits) : p.GivesUnion name ms (p.union name ms).1 (p.union name ms).2 where
  position := toNat_position (fits_of_serve (r := .union name ms) hf).1
  size := Array.size_push ..
  keeps _ _ hs := (serve_makes p (r := .union name ms) rfl).shape hs
  shape := by
    have hp : p.Fits := fits_of_serve (r := .union name ms) hf
    obtain ⟨ht, hr⟩ := h.union name ms
    rw [hr.shape_eq, ht]
    exact Catalog.add_shape (h.size ▸ hp.1) _

theorem eraseDups_pair (a b : TypeId) : [a, b].eraseDups = if b = a then [a] else [a, b] := by
  by_cases h : b = a <;> simp [List.eraseDups_cons, h]

/-- No type mentions a union that is not there yet, so a function type that returns it is new. -/
theorem Sound.synthesizes_other (h : p.Sound) (hl : p.Linked) (hr : Represents p l) (hs : c.safe = false)
    (hu : p.isUnion c.target = .ok false) {m : Pool} (hret : (p.union none [c.target, error]).1 = ret)
    (hm : (p.union none [c.target, error]).2 = m) (hf : (m.function [c.source, c.target] ret).2.Fits) :
    p.Synthesizes c error (m.function [c.source, c.target] ret).1 (m.function [c.source, c.target] ret).2 [] := by
  have hmf : m.Fits := fits_of_serve (r := .function _ _) hf
  have hunion : p.GivesUnion none [c.target, error] ret m := hret ▸ hm ▸ hr.givesUnion (hm ▸ hmf)
  have hrep := (hr.union none [c.target, error]).2
  rw [hm] at hrep
  have hnew : ∀ t s, p.shape t = .ok s → ret ∉ s.mentions :=
    fun t s hs hmem => Nat.ne_of_lt (hl t s hs ret hmem) hunion.position
  have hfunction : ∀ t ps, m.shape t ≠ .ok (.function ps ret) := by
    intro t ps ht
    rw [← hm] at ht
    rcases h.shape_serve (r := .union none [c.target, error]) ht with hold | ⟨hpos, -⟩ | ⟨_, _, _, he, -⟩
    · exact hnew t _ hold (List.mem_append_right _ List.mem_cons_self)
    · rw [TypeId.toNat_injective (hpos.trans hunion.position.symm), hm] at ht
      cases hunion.shape.symm.trans ht
    · cases he
  have hkeep := keeps_function m [c.source, c.target] ret
  cases hrep.givesFunction hf with
  | found ht => exact absurd ht (hfunction _ _)
  | made _ hq htype ht =>
      rw [hunion.size] at hq htype
      have hshape := hunion.shape
      rw [eraseDups_pair] at hshape
      refine .made hs hu hq hunion.position htype (hkeep _ _ hshape) ht ?_ hnew
      exact fun t s hs => hkeep t s (hunion.keeps t s hs)

theorem Sound.synthesizes_union (h : p.Sound) (hr : Represents p l) {a : Reported (Bool × Pool)} (hs : c.safe = false)
    {v : UnionType} (hu : p.shape c.target = .ok (.union v)) (ha : p.addMember c.target error = .ok a)
    (hf : (a.value.2.function [c.source, c.target] c.target).2.Fits) :
    p.Synthesizes c error (a.value.2.function [c.source, c.target] c.target).1
      (a.value.2.function [c.source, c.target] c.target).2 a.events := by
  obtain ⟨slot, hi, hv⟩ := shape_union_iff.mp hu
  have hm := (hr.serve_addMember c.target error).2
  rw [serve_addMember ha] at hm
  have hsize : a.value.2.size = p.size := by rw [size, (addMember_frame ha).1, size]
  -- The function type is asked for when the member is in, which makes no difference to function types.
  have hgives := (hm.givesFunction hf).of_same hsize fun t => h.function_addMember ha
  have hkeep := keeps_function a.value.2 [c.source, c.target] c.target
  have hadd := ha.symm.trans (addMember_union hi hv error)
  by_cases he : error = c.target
  · rw [if_pos he] at hadd
    cases hadd
    exact .self hs hu he hgives hkeep
  · rw [if_neg he] at hadd
    by_cases hmem : error ∈ v.members
    · rw [if_pos hmem] at hadd
      cases hadd
      exact .present hs hu he hmem hgives hkeep
    · have hevents : a.events = [] := by
        rw [if_neg hmem] at hadd
        cases hadd
        rfl
      have hkeeps : ∀ t s, t ≠ c.target → p.shape t = .ok s → a.value.2.shape t = .ok s := by
        intro t s hne hs
        rcases h.arranged.shape_addMember ha hs with hs' | ⟨_, _, ht, -⟩
        · exact hs'
        · exact absurd ht hne
      have hgrown : a.value.2.shape c.target = .ok (.union ⟨v.name, v.members ++ [error]⟩) := by
        rw [if_neg hmem] at hadd
        cases hadd
        rw [h.arranged.shape_set hi _ hu, if_pos rfl, UnionType.insert, if_neg hmem]
      rw [hevents]
      exact .grown hs hu he hmem hgives (hkeep _ _ hgrown) fun t s hne hs => hkeep t s (hkeeps t s hne hs)

theorem Sound.exists_synthesizes (h : p.Sound) (hl : p.Linked) {b : Bool} (hu : p.isUnion c.target = .ok b)
    (error : TypeId) : ∃ r, p.conversionType c error = .ok r ∧ ∀ l, Represents p l → r.value.2.Fits →
      p.Synthesizes c error r.value.1 r.value.2 r.events := by
  cases hs : c.safe with
  | true =>
      have hret : p.conversionReturn c.target error c.safe = .ok ⟨(c.target, p), []⟩ := by
        rw [hs]
        rfl
      exact ⟨_, conversionType_of_return hret, fun l hr hf => .safe hs (hr.givesFunction hf) (keeps_function _ _ _)⟩
  | false =>
      cases b with
      | false =>
          have hret := conversionReturn_other hu error
          rw [← hs] at hret
          exact ⟨_, conversionType_of_return hret, fun l hr hf => h.synthesizes_other hl hr hs hu rfl rfl hf⟩
      | true =>
          obtain ⟨v, hv⟩ := h.arranged.exists_union hu
          obtain ⟨a, ha, -⟩ := h.arranged.exists_addMember hu error
          have hret := conversionReturn_union hu ha
          rw [← hs] at hret
          exact ⟨_, conversionType_of_return hret, fun l hr hf => h.synthesizes_union hr hs hv ha hf⟩

theorem exists_unboxed (ht : p.contains t = true) (source : TypeId) : ∃ r i, p.unboxingType source t = .ok r ∧
    r.value.1 = ⟨source, t, i, false, true⟩ ∧ p.Keeps r.value.2.2 ∧
      ∀ l, Represents p l → r.value.2.2.Fits → p.GivesFunction [source, t] t r.value.2.1 r.value.2.2 := by
  obtain ⟨b, hu⟩ := exists_isUnion ht
  obtain ⟨g, hg, -⟩ := map_ok hu
  refine ⟨⟨(⟨source, t, (Instruction.unboxing g).value, false, true⟩, p.function [source, t] t),
    (Instruction.unboxing g).events⟩, (Instruction.unboxing g).value, ?_, rfl, keeps_function _ _ _, ?_⟩
  · rw [unboxingType, hg]
    rfl
  · exact fun l hr hf => hr.givesFunction hf

theorem returnType_of_shape (hs : p.shape t = .ok (.function params ret)) : p.returnType t = .ok ret := by
  rw [returnType, hs]
  rfl

theorem size_le_run (p : Pool) (qs : List PoolRequest) : p.size ≤ (p.run qs).size := by
  induction qs generalizing p with
  | nil => exact Nat.le_refl _
  | cons q qs ih => exact Nat.le_trans (size_le_step p q) (ih _)

theorem Sound.mentioned_lt_size (h : p.Sound) (ha : p.AdmitsAll qs) :
    ∀ q ∈ qs, ∀ u ∈ q.types, u.raw.toNat < (p.run qs).size := by
  induction qs generalizing p with
  | nil => simp
  | cons q qs ih =>
      intro q' hq u hu
      rcases List.mem_cons.mp hq with rfl | hq
      · exact Nat.lt_of_lt_of_le (h.readable.lt_of_contains (ha.1 u hu)) (size_le_run p (q' :: qs))
      · exact ih (h.step q) ha.2 q' hq u hu

structure MakesUnion (p : Pool) (c : Conversion) (error : TypeId) (r : Reported (TypeId × Pool)) : Prop where
  safe : c.safe = false
  other : p.isUnion c.target = .ok false
  served : p.conversionType c error = .ok r
  fits : r.value.2.Fits

theorem MakesUnion.positions {r : Reported (TypeId × Pool)} (h : (initial.run qs).MakesUnion c error r)
    (ha : initial.AdmitsAll qs) : ∃ ret, r.value.2.returnType r.value.1 = .ok ret ∧
      ret.raw.toNat = (initial.run qs).size ∧ r.value.1.raw.toNat = (initial.run qs).size + 1 ∧
      r.value.2.size = (initial.run qs).size + 2 := by
  obtain ⟨hs, hu, hserved, hf⟩ := h
  have hp : (initial.run qs).Fits := fits_of_step (step_request (c := .operator c error) hserved ▸ hf)
  obtain ⟨rs, hrep, -⟩ := Represents.initial.run hp
  have hl := linked_run sound_initial linked_initial ha
  obtain ⟨r', hr', heffect⟩ := (sound_initial.run qs).exists_synthesizes hl hu error
  cases hserved.symm.trans hr'
  have hunion {v : UnionType} (hv : (initial.run qs).shape c.target = .ok (.union v)) : False := by
    rw [isUnion_of_tag (tag_of_shape hv)] at hu
    cases hu
  have hr := heffect _ hrep hf
  generalize r.events = es at hr
  cases hr with
  | safe hs' => cases hs.symm.trans hs'
  | self _ hv | present _ hv | grown _ hv => exact (hunion hv).elim
  | made _ _ hsize hret htype _ ht => exact ⟨_, returnType_of_shape ht, hret, htype, hsize⟩

end CompilerSymbols.Pool
