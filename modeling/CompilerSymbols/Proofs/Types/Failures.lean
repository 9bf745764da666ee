import CompilerSymbols.Proofs.Types.Conversions
import CompilerSymbols.Proofs.Types.Printing

namespace CompilerSymbols

theorem Pool.serve_failed {p : Pool} {f : Fault} {r : TypeRequest} (h : (p.serve r).1 = .failed f) :
    (p.serve r).2 = p := by
  cases r with
  | declare tag name => cases tag <;> first | rfl | cases h
  | addMember t m =>
      rw [Pool.serve] at h ⊢
      cases ha : p.addMember t m with
      | error f' => rfl
      | ok a =>
          rw [ha] at h
          cases h
  | _ => cases h

/-- Work on a pool that is changed on the way. What has been done before a failure is not undone. -/
abbrev InPlace := ExceptT Fault (StateM Pool)

namespace InPlace

variable {α β : Type} {x : InPlace α} {g : α → InPlace β} {p q : Pool} {a : α} {f : Fault}

def ask (f : Pool → Except Fault α) : InPlace α := ExceptT.mk fun p => (f p, p)

def make (f : Pool → α × Pool) : InPlace α := ExceptT.mk fun p => (.ok (f p).1, (f p).2)

def change (f : Pool → Except Fault (Reported (α × Pool))) : InPlace (Reported α) := ExceptT.mk fun p =>
  match f p with
  | .ok r => (.ok ⟨r.value.1, r.events⟩, r.value.2)
  | .error f => (.error f, p)

def conversionReturn (target error : TypeId) (safe : Bool) : InPlace (Reported TypeId) := do
  if safe then return ⟨target, []⟩
  else if ← ask (·.isUnion target) then
    let r ← change (·.addMember target error)
    return ⟨target, r.events⟩
  else return ⟨← make (·.union none [target, error]), []⟩

def conversionType (c : Conversion) (error : TypeId) : InPlace (Reported TypeId) := do
  let r ← conversionReturn c.target error c.safe
  return ⟨← make (·.function [c.source, c.target] r.value), r.events⟩

def unboxingType (source target : TypeId) : InPlace (Reported (Conversion × TypeId)) := do
  let i := Instruction.unboxing (← ask (·.tag target))
  return ⟨(⟨source, target, i.value, false, true⟩, ← make (·.function [source, target] target)), i.events⟩

def serve (r : TypeRequest) : InPlace TypeAnswer := ExceptT.mk fun p =>
  match p.serve r with
  | (.failed f, q) => (.error f, q)
  | (answer, q) => (.ok answer, q)

theorem bind_apply (x : InPlace α) (g : α → InPlace β) (p : Pool) :
    (x >>= g) p = match x p with
      | (.ok a, q) => g a q
      | (.error f, q) => (.error f, q) := by
  have hb : (x >>= g) p = ExceptT.bindCont g (x p).1 (x p).2 := rfl
  rw [hb]
  rcases x p with ⟨f | a, q⟩ <;> rfl

theorem bind_of_ok (h : x p = (.ok a, q)) (g : α → InPlace β) : (x >>= g) p = g a q := by
  rw [bind_apply, h]

theorem bind_of_error (h : x p = (.error f, q)) (g : α → InPlace β) : (x >>= g) p = (.error f, q) := by
  rw [bind_apply, h]

theorem change_apply (g : Pool → Except Fault (Reported (α × Pool))) (p : Pool) : change g p = match g p with
    | .ok r => (.ok ⟨r.value.1, r.events⟩, r.value.2)
    | .error f => (.error f, p) := rfl

theorem change_of_ok {g : Pool → Except Fault (Reported (α × Pool))} {r : Reported (α × Pool)} (h : g p = .ok r) :
    change g p = (.ok ⟨r.value.1, r.events⟩, r.value.2) := by
  rw [change_apply, h]

theorem change_of_error {g : Pool → Except Fault (Reported (α × Pool))} (h : g p = .error f) :
    change g p = (.error f, p) := by
  rw [change_apply, h]

/-- Work on `p` makes `q` of it, or fails and leaves it as it was. -/
def Settles (x : InPlace α) (p q : Pool) : Prop := (x p).2 = q ∧ ∀ f, (x p).1 = .error f → q = p

theorem serve_settles (r : TypeRequest) (p : Pool) : (serve r).Settles p (p.step (.type r)) := by
  have hs : serve r p = match p.serve r with
    | (.failed f, q) => (.error f, q)
    | (answer, q) => (.ok answer, q) := rfl
  have hfailed {f : Fault} (h : (p.serve r).1 = .failed f) : (p.serve r).2 = p := Pool.serve_failed h
  rw [Settles, hs, Pool.step]
  generalize p.serve r = served at hfailed
  obtain ⟨answer, q⟩ := served
  cases answer with
  | failed f => exact ⟨rfl, fun _ _ => hfailed rfl⟩
  | _ => exact ⟨rfl, by simp⟩

theorem settles_change {g : Pool → Except Fault (Reported (α × Pool))} (hq : ∀ r, g p = .ok r → q = r.value.2)
    (hp : ∀ f, g p = .error f → q = p) : (change g).Settles p q := by
  cases hg : g p with
  | ok r =>
      rw [Settles, change_of_ok hg]
      exact ⟨(hq r hg).symm, by simp⟩
  | error f =>
      rw [Settles, change_of_error hg]
      exact ⟨(hp f hg).symm, fun _ _ => hp f hg⟩

theorem conversionReturn_eq (target error : TypeId) (safe : Bool) :
    conversionReturn target error safe = change (·.conversionReturn target error safe) := by
  funext p
  cases safe with
  | true => rfl
  | false =>
      have hask : ask (·.isUnion target) p = (p.isUnion target, p) := rfl
      rw [conversionReturn, if_neg Bool.false_ne_true]
      cases hu : p.isUnion target with
      | error f =>
          rw [hu] at hask
          rw [bind_of_error hask, change_of_error]
          rw [Pool.conversionReturn, hu]
          rfl
      | ok b =>
          rw [hu] at hask
          rw [bind_of_ok hask]
          cases b with
          | false =>
              rw [change_of_ok (Pool.conversionReturn_other hu error)]
              rfl
          | true =>
              rw [if_pos rfl]
              cases ha : p.addMember target error with
              | error f =>
                  rw [bind_of_error (change_of_error ha), change_of_error]
                  simp [Pool.conversionReturn, hu, ha, bind, Except.bind]
              | ok r =>
                  rw [bind_of_ok (change_of_ok ha), change_of_ok (Pool.conversionReturn_union hu ha)]
                  rfl

theorem conversionType_eq (c : Conversion) (error : TypeId) :
    conversionType c error = change (·.conversionType c error) := by
  funext p
  rw [conversionType, conversionReturn_eq]
  cases hr : p.conversionReturn c.target error c.safe with
  | error f =>
      rw [bind_of_error (change_of_error hr), change_of_error]
      rw [Pool.conversionType, hr]
      rfl
  | ok r =>
      rw [bind_of_ok (change_of_ok hr), change_of_ok (Pool.conversionType_of_return hr)]
      rfl

theorem unboxingType_eq (source target : TypeId) : unboxingType source target =
    change fun p => (p.unboxingType source target).map fun r => ⟨((r.value.1, r.value.2.1), r.value.2.2), r.events⟩ := by
  funext p
  have hask : ask (·.tag target) p = (p.tag target, p) := rfl
  cases ht : p.tag target with
  | error f =>
      rw [ht] at hask
      rw [unboxingType, bind_of_error hask, change_of_error]
      rw [Pool.unboxingType, ht]
      rfl
  | ok g =>
      rw [ht] at hask
      rw [unboxingType, bind_of_ok hask]
      have hr : p.unboxingType source target = .ok ⟨(⟨source, target, (Instruction.unboxing g).value, false, true⟩,
          p.function [source, target] target), (Instruction.unboxing g).events⟩ := by
        rw [Pool.unboxingType, ht]
        rfl
      rw [change_of_ok (congrArg (Except.map _) hr)]
      rfl

theorem conversionReturn_settles (target error : TypeId) (safe : Bool) (p : Pool) :
    (conversionReturn target error safe).Settles p (p.step (.conversionReturn target error safe)) := by
  rw [conversionReturn_eq]
  exact settles_change (fun r hr => by simp only [Pool.step, hr]) fun f hf => by simp only [Pool.step, hf]

theorem conversionType_settles (c : Conversion) (error : TypeId) (p : Pool) :
    (conversionType c error).Settles p (p.step (.conversion c error)) := by
  rw [conversionType_eq]
  exact settles_change (fun r hr => by simp only [Pool.step, hr]) fun f hf => by simp only [Pool.step, hf]

theorem unboxingType_settles (source target : TypeId) (p : Pool) :
    (unboxingType source target).Settles p (p.step (.unboxing source target)) := by
  rw [unboxingType_eq]
  apply settles_change
  · intro r hr
    obtain ⟨made, hm, rfl⟩ := map_ok hr
    simp only [Pool.step, hm]
  · intro f hf
    simp only [Pool.step, map_eq_error.mp hf]

end InPlace

namespace Pool

variable {p : Pool} {t : TypeId} {f : Fault} {s : Shape}

def FailsOutside {α : Type} (p : Pool) (ask : TypeId → Except Fault α) : Prop :=
  ∀ t f, ask t = .error f ↔ f = .unknownType t ∧ p.size ≤ t.raw.toNat

def FailsUnless {α : Type} (p : Pool) (kinds : TypeTag → Bool) (wrong : TypeId → Fault)
    (ask : TypeId → Except Fault α) : Prop :=
  ∀ t f, ask t = .error f ↔ f = .unknownType t ∧ p.size ≤ t.raw.toNat ∨
    f = wrong t ∧ ∃ g, p.tag t = .ok g ∧ kinds g = false

theorem FailsOutside.map {α β : Type} {ask : TypeId → Except Fault α} (h : p.FailsOutside ask) (g : α → β) :
    p.FailsOutside fun t => (ask t).map g :=
  fun t f => map_eq_error.trans (h t f)

theorem Readable.failsUnless (h : p.Readable) {α : Type} {kinds : TypeTag → Bool} {wrong : TypeId → Fault}
    {pick : TypeId → Shape → Except Fault α}
    (hok : ∀ t s, kinds s.tag = true → ∃ a, pick t s = .ok a)
    (hno : ∀ t s, kinds s.tag = false → pick t s = .error (wrong t)) :
    p.FailsUnless kinds wrong fun t => p.shape t >>= pick t := by
  intro t f
  change (p.shape t >>= pick t) = .error f ↔ _
  by_cases hlt : t.raw.toNat < p.size
  · obtain ⟨s, hs⟩ := h.exists_shape hlt
    have hpick : (p.shape t >>= pick t) = pick t s := by
      rw [hs]
      rfl
    rw [hpick, tag_of_shape hs]
    cases hk : kinds s.tag with
    | true =>
        obtain ⟨a, ha⟩ := hok t s hk
        simp [ha, hlt, hk]
    | false =>
        constructor
        · intro he
          exact .inr ⟨(Except.error.inj ((hno t s hk).symm.trans he)).symm, _, rfl, hk⟩
        · rintro (⟨-, hle⟩ | ⟨rfl, -⟩)
          · exact absurd hlt (Nat.not_lt.mpr hle)
          · exact hno t s hk
  · have hs : p.shape t = .error (.unknownType t) := h.shape_eq_error.mpr ⟨rfl, Nat.le_of_not_lt hlt⟩
    have hg : p.tag t = .error (.unknownType t) := tag_eq_error.mpr ⟨rfl, Nat.le_of_not_lt hlt⟩
    have herror : (p.shape t >>= pick t) = .error (.unknownType t) := by
      rw [hs]
      rfl
    rw [herror, hg]
    constructor
    · intro he
      exact .inl ⟨(Except.error.inj he).symm, Nat.le_of_not_lt hlt⟩
    · rintro (⟨rfl, -⟩ | ⟨-, g, hno, -⟩)
      · rfl
      · cases hno

theorem Sound.addMember_eq_error (h : p.Sound) (m : TypeId) : p.FailsOutside (p.addMember · m) := by
  intro t f
  change p.addMember t m = .error f ↔ _
  rw [← isUnion_eq_error]
  cases hu : p.isUnion t with
  | error f' =>
      have hi : p.item t = .error f' := map_eq_error.mp (map_eq_error.mp hu)
      have ha : p.addMember t m = .error f' := by
        rw [addMember, hi]
        rfl
      simp [ha]
  | ok b =>
      refine iff_of_false ?_ (by simp)
      obtain ⟨g, hg, rfl⟩ := map_ok hu
      obtain ⟨i, hi, rfl⟩ := tag_eq_ok.mp hg
      cases i with
      | union slot =>
          obtain ⟨u, hs⟩ := h.arranged.exists_union hu
          obtain ⟨slot', hi', hslot⟩ := shape_union_iff.mp hs
          rw [addMember_union hi' hslot]
          simp
      | _ => simp [addMember_other hi]

theorem Sound.conversionReturn_eq_error (h : p.Sound) (target error : TypeId) (safe : Bool) :
    p.conversionReturn target error safe = .error f ↔
      f = .unknownType target ∧ safe = false ∧ p.size ≤ target.raw.toNat := by
  cases safe with
  | true => simp [conversionReturn, pure, Except.pure]
  | false =>
      cases hu : p.isUnion target with
      | error f' =>
          have hr : p.conversionReturn target error false = .error f' := by
            rw [conversionReturn, hu]
            rfl
          have hiff : Except.error (α := Bool) f' = .error f ↔ f = .unknownType target ∧ p.size ≤ target.raw.toNat :=
            hu ▸ isUnion_eq_error
          simpa [hr] using hiff
      | ok b =>
          obtain ⟨r, hr, -⟩ := h.arranged.exists_return (c := .returned target error false) hu
          have hlt : ¬ p.size ≤ target.raw.toNat := fun hle => by
            cases hu.symm.trans (isUnion_eq_error.mpr ⟨rfl, hle⟩)
          simp [show p.conversionReturn target error false = .ok r from hr, hlt]

theorem Sound.conversionType_eq_error (h : p.Sound) (c : Conversion) (error : TypeId) :
    p.conversionType c error = .error f ↔ f = .unknownType c.target ∧ c.safe = false ∧ p.size ≤ c.target.raw.toNat := by
  rw [← h.conversionReturn_eq_error c.target error]
  cases hr : p.conversionReturn c.target error c.safe with
  | error f' =>
      have hc : p.conversionType c error = .error f' := by
        rw [conversionType, hr]
        rfl
      rw [hc]
  | ok r => simp [conversionType_of_return hr]

theorem unboxingType_eq_error (p : Pool) (source : TypeId) : p.FailsOutside (p.unboxingType source) := by
  intro t f
  rw [← tag_eq_error]
  cases ht : p.tag t with
  | error f' =>
      have hu : p.unboxingType source t = .error f' := by
        rw [unboxingType, ht]
        rfl
      simp [hu]
  | ok g =>
      have hu : ∃ r, p.unboxingType source t = .ok r := by
        rw [unboxingType, ht]
        exact ⟨_, rfl⟩
      obtain ⟨r, hr⟩ := hu
      simp [hr]

theorem declare_eq_error {tag : TypeTag} {name : Name} :
    p.declare tag name = .error f ↔ f = .notNominal tag ∧ tag.isNominal = false := by
  cases tag <;> simp [declare, TypeTag.isNominal, eq_comm]

theorem Cyclefree.text_fails_iff (h : p.Cyclefree t) (hr : p.Readable) {names : Interner} (hk : p.Knows names t) :
    (∃ f, p.text names t = .error f) ↔ ∃ elem, p.MeetsMissing t elem := by
  constructor
  · rintro ⟨f, hf⟩
    obtain ⟨elem, hm, -⟩ := h.text_error hr hk hf
    exact ⟨elem, hm⟩
  · rintro ⟨elem, array, hreach, hs, hle⟩
    cases ht : p.text names t with
    | error f => exact ⟨f, rfl⟩
    | ok s =>
        obtain ⟨ps, hps⟩ := exists_pieces hr ht hreach
        have hu := isUnion_eq_error.mpr ⟨rfl, hle⟩
        rw [pieces_eq hs (by simp), shapePieces, hu] at hps
        cases hps

structure Refuses (p : Pool) : Prop where
  shape : p.FailsOutside p.shape
  tag : p.FailsOutside p.tag
  isUnion : p.FailsOutside p.isUnion
  union? : p.FailsOutside p.union?
  members : p.FailsOutside p.members
  nominal? : p.FailsOutside p.nominal?
  typeName? : p.FailsOutside p.typeName?
  constraint : p.FailsUnless TypeTag.isContainer .notContainer p.constraint
  params : p.FailsUnless (· == .function) .notFunction p.params
  returnType : p.FailsUnless (· == .function) .notFunction p.returnType
  elements : p.FailsUnless (· == .tuple) .notTuple p.elements
  addMember : ∀ m, p.FailsOutside (p.addMember · m)
  declare : ∀ tag name f, p.declare tag name = .error f ↔ f = .notNominal tag ∧ tag.isNominal = false
  conversionReturn : ∀ target error safe f, p.conversionReturn target error safe = .error f ↔
    f = .unknownType target ∧ safe = false ∧ p.size ≤ target.raw.toNat
  conversionType : ∀ c error f, p.conversionType c error = .error f ↔
    f = .unknownType c.target ∧ c.safe = false ∧ p.size ≤ c.target.raw.toNat
  unboxingType : ∀ source, p.FailsOutside (p.unboxingType source)
  serve_settles : ∀ r, (InPlace.serve r).Settles p (p.step (.type r))
  conversionReturn_settles : ∀ target error safe,
    (InPlace.conversionReturn target error safe).Settles p (p.step (.conversionReturn target error safe))
  conversionType_settles : ∀ c error, (InPlace.conversionType c error).Settles p (p.step (.conversion c error))
  unboxingType_settles : ∀ source target, (InPlace.unboxingType source target).Settles p (p.step (.unboxing source target))

theorem Sound.refuses (h : p.Sound) : p.Refuses where
  shape _ _ := h.readable.shape_eq_error
  tag _ _ := tag_eq_error
  isUnion _ _ := isUnion_eq_error
  union? := FailsOutside.map (fun _ _ => h.readable.shape_eq_error) _
  members := FailsOutside.map (fun _ _ => h.readable.shape_eq_error) _
  nominal? := FailsOutside.map (fun _ _ => h.readable.shape_eq_error) _
  typeName? := FailsOutside.map (fun _ _ => h.readable.shape_eq_error) _
  constraint := h.readable.failsUnless
    (fun t s hk => by cases s <;> first | exact ⟨_, rfl⟩ | cases hk)
    (fun t s hk => by cases s <;> first | rfl | cases hk)
  params := h.readable.failsUnless
    (fun t s hk => by cases s <;> first | exact ⟨_, rfl⟩ | cases hk)
    (fun t s hk => by cases s <;> first | rfl | cases hk)
  returnType := h.readable.failsUnless
    (fun t s hk => by cases s <;> first | exact ⟨_, rfl⟩ | cases hk)
    (fun t s hk => by cases s <;> first | rfl | cases hk)
  elements := h.readable.failsUnless
    (fun t s hk => by cases s <;> first | exact ⟨_, rfl⟩ | cases hk)
    (fun t s hk => by cases s <;> first | rfl | cases hk)
  addMember := h.addMember_eq_error
  declare _ _ _ := declare_eq_error
  conversionReturn target error safe _ := h.conversionReturn_eq_error target error safe
  conversionType c error _ := h.conversionType_eq_error c error
  unboxingType := unboxingType_eq_error p
  serve_settles r := InPlace.serve_settles r p
  conversionReturn_settles target error safe := InPlace.conversionReturn_settles target error safe p
  conversionType_settles c error := InPlace.conversionType_settles c error p
  unboxingType_settles source target := InPlace.unboxingType_settles source target p

end Pool

namespace Table

structure RefusesOperators (t : Table) : Prop where
  createConversion : ∀ c error package owner f, (∀ o, owner = some o → t.heap.isLive (.symbol o)) →
    (t.createConversion c error package owner = .error f ↔
      f = .unknownType c.target ∧ c.safe = false ∧ t.types.size ≤ c.target.raw.toNat)
  createUnboxing : ∀ source, t.types.FailsOutside (t.createUnboxing source)

theorem checkOwner_eq_ok {t : Table} {owner : Option SymbolId} (h : ∀ o, owner = some o → t.heap.isLive (.symbol o)) :
    t.checkOwner owner = .ok () := by
  cases owner with
  | none => rfl
  | some o => exact if_pos (h o rfl)

theorem refusesOperators {t : Table} (h : t.types.Sound) : t.RefusesOperators where
  createConversion c error package owner f ho := by
    rw [← h.conversionType_eq_error c error, createConversion, checkOwner_eq_ok ho]
    change (t.types.conversionType c error >>= _) = .error f ↔ _
    cases t.types.conversionType c error with
    | error f' => simp [bind, Except.bind]
    | ok r => simp [bind, Except.bind, pure, Except.pure]
  createUnboxing source target f := by
    rw [← Pool.unboxingType_eq_error t.types source target f, createUnboxing]
    cases t.types.unboxingType source target with
    | error f' => simp [bind, Except.bind]
    | ok r => simp [bind, Except.bind, pure, Except.pure]

end Table

namespace Pool

/-- In every pool the requests fail for the known reasons only and change nothing then. A text whose
writing ends fails only for an array whose element is not in the pool. -/
theorem failures_known (qs : List PoolRequest) :
    (initial.run qs).Refuses ∧ (∀ t : Table, t.types = initial.run qs → t.RefusesOperators) ∧
      ∀ t names, (initial.run qs).Cyclefree t → (initial.run qs).Knows names t →
        (∀ f, (initial.run qs).text names t = .error f →
          ∃ elem, (initial.run qs).MeetsMissing t elem ∧ f = .unknownType elem) ∧
        ((∃ f, (initial.run qs).text names t = .error f) ↔ ∃ elem, (initial.run qs).MeetsMissing t elem) := by
  have hs := sound_initial.run qs
  refine ⟨hs.refuses, fun t ht => Table.refusesOperators (ht ▸ hs), fun t names hc hk => ?_⟩
  exact ⟨fun f => hc.text_error hs.readable hk, hc.text_fails_iff hs.readable hk⟩

theorem follows_missing {t u : TypeId}
    (h : (initial.run [.type (.container .array ⟨900⟩)]).Follows t u) : t = ⟨64⟩ ∧ u = ⟨900⟩ := by
  obtain ⟨s, hs, hu⟩ := h
  have harray : (initial.run [.type (.container .array ⟨900⟩)]).shape ⟨64⟩ = .ok (.container .array ⟨900⟩) := by
    decide +kernel
  have hlt : t.raw.toNat < 65 := lt_of_shape hs
  cases sound_initial.origin_step (c := .type (.container .array ⟨900⟩)) hs with
  | old hp => exact absurd ⟨s, hp, hu⟩ not_follows_initial
  | new ht =>
      have hsize : initial.size = 64 := rfl
      obtain rfl : t = ⟨64⟩ := TypeId.toNat_injective (show t.raw.toNat = 64 by omega)
      cases harray.symm.trans hs
      cases hu with
      | element => exact ⟨rfl, rfl⟩
      | constraint hne => exact absurd rfl hne
  | grown hp hadd => cases hadd

theorem cyclefree_missing : (initial.run [.type (.container .array ⟨900⟩)]).Cyclefree ⟨64⟩ := by
  intro u _ hcycle
  have hedge {a b : TypeId} (h : Relation.TransGen (initial.run [.type (.container .array ⟨900⟩)]).Follows a b) :
      a = ⟨64⟩ ∧ b = ⟨900⟩ := by
    induction h with
    | single h => exact follows_missing h
    | tail _ h ih => exact ⟨ih.1, (follows_missing h).2⟩
  obtain ⟨rfl, h⟩ := hedge hcycle
  cases h

theorem knows_missing (names : Interner) : (initial.run [.type (.container .array ⟨900⟩)]).Knows names ⟨64⟩ := by
  intro u name hu hname
  cases hu with
  | refl =>
      have hnone : (initial.run [.type (.container .array ⟨900⟩)]).typeName? ⟨64⟩ = .ok none := by decide +kernel
      cases hnone.symm.trans hname
  | tail _ h =>
      obtain ⟨-, rfl⟩ := follows_missing h
      have herror : (initial.run [.type (.container .array ⟨900⟩)]).typeName? ⟨900⟩ = .error (.unknownType ⟨900⟩) := by
        decide +kernel
      cases herror.symm.trans hname

/-- An unsafe conversion to a position outside the pool, a question about a type of another kind, and
the text of an array whose element is missing. -/
theorem failures_known_missing :
    let p := initial.run [.type (.container .array ⟨900⟩)]
    let c : Conversion := ⟨.any, ⟨900⟩, .nop, false, false⟩
    p.conversionType c .error = .error (.unknownType ⟨900⟩) ∧ (InPlace.conversionType c .error).Settles p p ∧
      p.params ⟨64⟩ = .error (.notFunction ⟨64⟩) ∧ ∃ elem, p.MeetsMissing ⟨64⟩ elem := by
  intro p c
  obtain ⟨hr, -, ht⟩ := failures_known [.type (.container .array ⟨900⟩)]
  have hfail : p.conversionType c .error = .error (.unknownType ⟨900⟩) :=
    (hr.conversionType _ _ _).mpr ⟨rfl, rfl, by decide +kernel⟩
  have hsettles : (InPlace.conversionType c .error).Settles p (p.step (.conversion c .error)) :=
    hr.conversionType_settles c .error
  rw [step, hfail] at hsettles
  refine ⟨hfail, hsettles, ?_, ?_⟩
  · exact (hr.params _ _).mpr (.inr ⟨rfl, .container .array, by decide +kernel, rfl⟩)
  · have htext : p.text (Interner.initial fun _ => 0) ⟨64⟩ = .error (.unknownType ⟨900⟩) := by decide +kernel
    exact (ht ⟨64⟩ _ cyclefree_missing (knows_missing _)).2.mp ⟨_, htext⟩

/-- The text of an array whose element is missing fails, although writing it ends and all names are
known. The missing type itself, and a map of it, are written as invalid. -/
theorem text_fails_missing :
    let p := initial.run [.type (.container .array ⟨900⟩), .type (.container .map ⟨900⟩)]
    let q := initial.run [.type (.container .array ⟨900⟩)]
    let names := Interner.initial fun _ => 0
    q.contains ⟨64⟩ = true ∧ q.Cyclefree ⟨64⟩ ∧ q.Knows names ⟨64⟩ ∧ q.text names ⟨64⟩ = .error (.unknownType ⟨900⟩) ∧
      p.text names ⟨65⟩ = .ok "map<<invalid>>" ∧ p.text names ⟨900⟩ = .ok "<invalid>" := by
  intro p q names
  exact ⟨by decide +kernel, cyclefree_missing, knows_missing names, by decide +kernel, by decide +kernel, by decide +kernel⟩

end Pool

end CompilerSymbols
