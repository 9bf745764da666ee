import CompilerSymbols.Proofs.Types.Failures
import CompilerSymbols.Types.Store

namespace CompilerSymbols

inductive PoolAnswer
  | type (answer : TypeAnswer)
  | returned (t : TypeId) (events : List Event)
  | operator (c : Conversion) (t : TypeId) (events : List Event)
deriving DecidableEq

/-- A request with its answer. One that fails leaves the pool as it is. -/
def Pool.perform (p : Pool) : PoolRequest → Except Fault (PoolAnswer × Pool)
  | .type r =>
    match p.serve r with
    | (.failed f, _) => .error f
    | (answer, q) => .ok (.type answer, q)
  | .conversionReturn target error safe =>
    (p.conversionReturn target error safe).map fun r => (.returned r.value.1 r.events, r.value.2)
  | .conversion c error => (p.conversionType c error).map fun r => (.returned r.value.1 r.events, r.value.2)
  | .unboxing source target =>
    (p.unboxingType source target).map fun r => (.operator r.value.1 r.value.2.1 r.events, r.value.2.2)

inductive StoreRequest
  | create
  | share (h : PoolHandle)
  | snapshot (h : PoolHandle)
  | operation (h : PoolHandle) (q : PoolRequest)
deriving DecidableEq

def StoreRequest.handle? : StoreRequest → Option PoolHandle
  | create => none
  | share h | snapshot h | operation h _ => some h

inductive StoreAnswer
  | handle (h : PoolHandle)
  | done (answer : PoolAnswer)
deriving DecidableEq

theorem Pool.perform_ok {p p' : Pool} {q : PoolRequest} {a : PoolAnswer} (h : p.perform q = .ok (a, p')) :
    p.step q = p' := by
  cases q with
  | type r =>
      simp only [perform] at h
      split at h
      · cases h
      · next hs =>
          cases h
          rw [step, hs]
  | conversionReturn | conversion | unboxing =>
      obtain ⟨r, hr, hp⟩ := map_ok h
      cases hp
      simp only [step, hr]

theorem Pool.perform_error {p : Pool} {q : PoolRequest} {f : Fault} (h : p.perform q = .error f) : p.step q = p := by
  cases q with
  | type r =>
      simp only [perform] at h
      split at h
      · next hs =>
          have hf := serve_failed (congrArg Prod.fst hs)
          exact hf
      · cases h
  | conversionReturn target error safe =>
      simp only [step, map_eq_error.mp h]
  | conversion c error =>
      simp only [step, map_eq_error.mp h]
  | unboxing source target =>
      simp only [step, map_eq_error.mp h]

namespace PoolStore

def perform (s : PoolStore) : StoreRequest → Except Fault (StoreAnswer × PoolStore)
  | .create => .ok ((s.create .initial).map .handle id)
  | .share h => (s.share h).map (Prod.map .handle id)
  | .snapshot h => (s.snapshot h).map (Prod.map .handle id)
  | .operation h q => (s.modify h (·.perform q)).map (Prod.map .done id)

def next (s : PoolStore) (r : StoreRequest) : PoolStore :=
  match s.perform r with
  | .ok (_, s') => s'
  | .error _ => s

def run (s : PoolStore) (rs : List StoreRequest) : PoolStore := rs.foldl next s

def after (rs : List StoreRequest) : PoolStore := empty.run rs

/-- What a request asks of the pool of `h`, through whatever handle it comes. -/
def asks (s : PoolStore) (h : PoolHandle) : StoreRequest → List PoolRequest
  | .operation a q => if s.same a h = .ok true then [q] else []
  | _ => []

def through (h : PoolHandle) : PoolStore → List StoreRequest → List PoolRequest
  | _, [] => []
  | s, r :: rs => s.asks h r ++ through h (s.next r) rs

def Gives (rs : List StoreRequest) (r : StoreRequest) (h : PoolHandle) : Prop :=
  ∃ rs₁ rs₂ s, rs = rs₁ ++ r :: rs₂ ∧ (after rs₁).perform r = .ok (.handle h, s)

def Issued (rs : List StoreRequest) (h : PoolHandle) : Prop := ∃ r, Gives rs r h

def Cloned (rs : List StoreRequest) (a b : PoolHandle) : Prop := Gives rs (.share a) b

inductive Creates (s : PoolStore) : StoreRequest → PoolHandle → Pool → Prop
  | new {h : PoolHandle} {s' : PoolStore} (hh : s.perform .create = .ok (.handle h, s')) : Creates s .create h .initial
  | snapshot {a h : PoolHandle} {p : Pool} {s' : PoolStore} (hp : s.pool a = .ok p)
      (hh : s.perform (.snapshot a) = .ok (.handle h, s')) : Creates s (.snapshot a) h p

variable {s s' : PoolStore} {r : StoreRequest} {rs rs' : List StoreRequest} {a b c h : PoolHandle} {k : Nat} {p : Pool}
  {q : PoolRequest}

def Directed (s : PoolStore) : Prop := ∀ h k, s.target h = .ok k → k < s.pools.size

theorem target_eq_ok : s.target h = .ok k ↔ s.targets[h.index]? = some k := by
  unfold target
  cases s.targets[h.index]? <;> simp

theorem pool_of_target (hk : s.target h = .ok k) (hp : s.pools[k]? = some p) : s.pool h = .ok p := by
  simp [pool, hk, hp, bind, Except.bind, pure, Except.pure]

theorem pool_eq_ok : s.pool h = .ok p ↔ ∃ k, s.target h = .ok k ∧ s.pools[k]? = some p := by
  constructor
  · intro hp
    obtain ⟨k, hk, hp⟩ := bind_ok hp
    split at hp
    · next hs =>
        cases hp
        exact ⟨k, hk, hs⟩
    · cases hp
  · rintro ⟨k, hk, hp⟩
    exact pool_of_target hk hp

theorem same_eq {i j : Nat} (ha : s.target a = .ok i) (hb : s.target b = .ok j) : s.same a b = .ok (i == j) := by
  rw [same, ha, hb]
  rfl

theorem same_eq_true : s.same a b = .ok true ↔ ∃ k, s.target a = .ok k ∧ s.target b = .ok k := by
  constructor
  · intro h
    obtain ⟨i, hi, h⟩ := bind_ok h
    obtain ⟨j, hj, h⟩ := bind_ok h
    obtain rfl : i = j := by simpa [pure, Except.pure] using h
    exact ⟨i, hi, hj⟩
  · rintro ⟨k, ha, hb⟩
    rw [same_eq ha hb, beq_self_eq_true]

/-- What can come of a request: a new pool with a handle to it, one more handle to a pool, or a change of
one pool. A request through a handle that leads to no pool does nothing. -/
inductive Step (s : PoolStore) : StoreRequest → PoolStore → Prop
  | makes {r : StoreRequest} {p : Pool} (hc : s.Creates r ⟨s.targets.size⟩ p) : Step s r (s.create p).2
  | shares {a : PoolHandle} {k : Nat} (hk : s.target a = .ok k) :
      Step s (.share a) { s with targets := s.targets.push k }
  | changes {a : PoolHandle} {k : Nat} {p : Pool} (hk : s.target a = .ok k) (hp : s.pools[k]? = some p) (q : PoolRequest) :
      Step s (.operation a q) { s with pools := s.pools.setIfInBounds k (p.step q) }
  | ignores {r : StoreRequest} {a : PoolHandle} {f : Fault} (hr : r.handle? = some a) (hf : s.pool a = .error f) :
      Step s r s

theorem setIfInBounds_self {pools : Array Pool} (h : pools[k]? = some p) : pools.setIfInBounds k p = pools := by
  apply Array.ext_getElem?
  intro j
  rw [Array.getElem?_setIfInBounds]
  split
  · next hj =>
      subst hj
      rw [if_pos (Array.getElem?_eq_some_iff.mp h).1, h]
  · rfl

theorem pool_of_target_error {f : Fault} (h : s.target a = .error f) : s.pool a = .error f := by
  rw [pool, h]
  rfl

theorem next_share (s : PoolStore) (a : PoolHandle) : s.Step (.share a) (s.next (.share a)) := by
  cases hk : s.target a with
  | error f =>
      have hn : s.next (.share a) = s := by simp [next, perform, share, hk, Except.map]
      rw [hn]
      exact .ignores rfl (pool_of_target_error hk)
  | ok k =>
      have hn : s.next (.share a) = { s with targets := s.targets.push k } := by
        simp [next, perform, share, hk, Except.map]
      rw [hn]
      exact .shares hk

theorem next_snapshot (s : PoolStore) (a : PoolHandle) : s.Step (.snapshot a) (s.next (.snapshot a)) := by
  cases hp : s.pool a with
  | error f =>
      have hn : s.next (.snapshot a) = s := by simp [next, perform, snapshot, hp, Except.map]
      rw [hn]
      exact .ignores rfl hp
  | ok p =>
      have hn : s.perform (.snapshot a) = .ok (.handle ⟨s.targets.size⟩, (s.create p).2) := by
        simp [perform, snapshot, hp, Except.map, create]
      rw [next, hn]
      exact .makes (.snapshot hp hn)

theorem next_operation (s : PoolStore) (a : PoolHandle) (q : PoolRequest) :
    s.Step (.operation a q) (s.next (.operation a q)) := by
  cases hp : s.pool a with
  | error f =>
      have hn : s.next (.operation a q) = s := by
        cases hk : s.target a <;> simp [next, perform, modify, hk, hp, Except.map, bind, Except.bind]
      rw [hn]
      exact .ignores rfl hp
  | ok p =>
      obtain ⟨k, hk, hs⟩ := pool_eq_ok.mp hp
      have hn : s.next (.operation a q) = { s with pools := s.pools.setIfInBounds k (p.step q) } := by
        cases hq : p.perform q with
        | ok answered =>
            rw [Pool.perform_ok hq]
            simp [next, perform, modify, hk, hp, hq, Except.map, bind, Except.bind, pure, Except.pure]
        | error f =>
            rw [Pool.perform_error hq]
            simp [next, perform, modify, hk, hp, hq, Except.map, bind, Except.bind, setIfInBounds_self hs]
      rw [hn]
      exact .changes hk hs q

theorem next_step (s : PoolStore) (r : StoreRequest) : s.Step r (s.next r) := by
  cases r with
  | create => exact .makes (.new rfl)
  | share a => exact next_share s a
  | snapshot a => exact next_snapshot s a
  | operation a q => exact next_operation s a q

theorem getElem?_push_iff {α : Type} {xs : Array α} {x y : α} {n : Nat} :
    (xs.push x)[n]? = some y ↔ xs[n]? = some y ∨ n = xs.size ∧ x = y := by
  rw [Array.getElem?_push]
  split
  · next hn => simp [hn]
  · next hn => simp [hn]

namespace Step

theorem target (hs : s.Step r s') (hk : s.target h = .ok k) : s'.target h = .ok k := by
  rw [target_eq_ok] at hk ⊢
  cases hs with
  | makes | shares => exact getElem?_push_iff.mpr (.inl hk)
  | changes | ignores => exact hk

theorem directed (hs : s.Step r s') (hd : s.Directed) : s'.Directed := by
  intro h k hk
  cases hs with
  | makes =>
      change k < (s.pools.push _).size
      rw [Array.size_push]
      rcases getElem?_push_iff.mp (target_eq_ok.mp hk) with hk | ⟨-, rfl⟩
      · exact Nat.lt_succ_of_lt (hd h k (target_eq_ok.mpr hk))
      · exact Nat.lt_succ_self _
  | shares ha =>
      rcases getElem?_push_iff.mp (target_eq_ok.mp hk) with hk | ⟨-, rfl⟩
      · exact hd h k (target_eq_ok.mpr hk)
      · exact hd _ _ ha
  | changes =>
      change k < (s.pools.setIfInBounds _ _).size
      rw [Array.size_setIfInBounds]
      exact hd h k hk
  | ignores => exact hd h k hk

theorem target_before (hs : s.Step r s') (hk : s'.target h = .ok k) : s.target h = .ok k ∨
    h = ⟨s.targets.size⟩ ∧ ((∃ a, r = .share a ∧ s.target a = .ok k) ∨ k = s.pools.size ∧ ∃ p, s.Creates r h p) := by
  cases hs with
  | makes hc =>
      rcases getElem?_push_iff.mp (target_eq_ok.mp hk) with hk | ⟨hh, rfl⟩
      · exact .inl (target_eq_ok.mpr hk)
      · obtain rfl : h = ⟨s.targets.size⟩ := congrArg PoolHandle.mk hh
        exact .inr ⟨rfl, .inr ⟨rfl, _, hc⟩⟩
  | shares ha =>
      rcases getElem?_push_iff.mp (target_eq_ok.mp hk) with hk | ⟨hh, rfl⟩
      · exact .inl (target_eq_ok.mpr hk)
      · exact .inr ⟨congrArg PoolHandle.mk hh, .inl ⟨_, rfl, ha⟩⟩
  | changes | ignores => exact .inl hk

/-- A pool changes by what is asked of it, and by nothing else. -/
theorem pools (hs : s.Step r s') (hk : s.target h = .ok k) (hp : s.pools[k]? = some p) :
    s'.pools[k]? = some (p.run (s.asks h r)) := by
  cases hs with
  | makes hc =>
      have hnone : s.asks h r = [] := by cases hc <;> rfl
      rw [hnone]
      exact getElem?_push_iff.mpr (.inl hp)
  | shares => exact hp
  | @changes a j p' ha hp' q =>
      change (s.pools.setIfInBounds j (p'.step q))[k]? = _
      rw [Array.getElem?_setIfInBounds, asks, same_eq ha hk]
      by_cases hj : j = k
      · subst hj
        cases hp.symm.trans hp'
        rw [if_pos rfl, if_pos (Array.getElem?_eq_some_iff.mp hp).1, if_pos (by simp)]
        rfl
      · rw [if_neg hj, if_neg (by simpa using hj), hp]
        rfl
  | ignores hr hf =>
      have hnone : s.asks h r = [] := by
        cases r with
        | operation a q =>
            cases hr
            refine if_neg fun hs => ?_
            obtain ⟨j, ha, hb⟩ := same_eq_true.mp hs
            cases hk.symm.trans hb
            cases hf.symm.trans (pool_of_target ha hp)
        | _ => rfl
      rw [hnone]
      exact hp

end Step

theorem run_append (s : PoolStore) (rs rs' : List StoreRequest) : s.run (rs ++ rs') = (s.run rs).run rs' :=
  List.foldl_append

theorem after_concat (rs : List StoreRequest) (r : StoreRequest) : after (rs ++ [r]) = (after rs).next r :=
  List.foldl_concat ..

theorem after_cons (rs : List StoreRequest) (r : StoreRequest) (rs' : List StoreRequest) :
    after (rs ++ r :: rs') = ((after rs).next r).run rs' :=
  run_append ..

theorem target_run (hk : s.target h = .ok k) (rs : List StoreRequest) : (s.run rs).target h = .ok k := by
  induction rs generalizing s with
  | nil => exact hk
  | cons r rs ih => exact ih ((s.next_step r).target hk)

theorem pools_run (hk : s.target h = .ok k) (hp : s.pools[k]? = some p) (rs : List StoreRequest) :
    (s.run rs).pools[k]? = some (p.run (through h s rs)) := by
  induction rs generalizing s p with
  | nil => exact hp
  | cons r rs ih =>
      have hstep := s.next_step r
      rw [through, Pool.run_append]
      exact ih (hstep.target hk) (hstep.pools hk hp)

theorem directed_after (rs : List StoreRequest) : (after rs).Directed := by
  induction rs using List.reverseRecOn with
  | nil =>
      intro h k hk
      simp [after, run, empty, target] at hk
  | append_singleton rs r ih =>
      rw [after_concat]
      exact (next_step _ r).directed ih

theorem exists_pool (hk : (after rs).target h = .ok k) : ∃ p, (after rs).pools[k]? = some p :=
  ⟨_, Array.getElem?_eq_getElem (directed_after rs h k hk)⟩

theorem Creates.leads (hc : s.Creates r h p) : h = ⟨s.targets.size⟩ ∧
    (s.next r).target h = .ok s.pools.size ∧ (s.next r).pools[s.pools.size]? = some p := by
  have hmade {made : PoolStore} (hs : made = (s.create p).2) : made.target ⟨s.targets.size⟩ = .ok s.pools.size ∧
      made.pools[s.pools.size]? = some p := by
    subst hs
    exact ⟨target_eq_ok.mpr (getElem?_push_iff.mpr (.inr ⟨rfl, rfl⟩)), getElem?_push_iff.mpr (.inr ⟨rfl, rfl⟩)⟩
  cases hc with
  | new hh =>
      cases hh
      exact ⟨rfl, hmade rfl⟩
  | snapshot hp hh =>
      simp only [perform, PoolStore.snapshot, hp, Except.map] at hh
      cases hh
      exact ⟨rfl, hmade (by simp [next, perform, PoolStore.snapshot, hp, Except.map])⟩

theorem share_leads (hs : s.perform (.share a) = .ok (.handle b, s')) :
    ∃ k, s.target a = .ok k ∧ (s.next (.share a)).target b = .ok k := by
  obtain ⟨made, hm, he⟩ := map_ok hs
  obtain ⟨k, hk, rfl⟩ := map_ok hm
  cases he
  refine ⟨k, hk, ?_⟩
  rw [next, hs]
  exact target_eq_ok.mpr (getElem?_push_iff.mpr (.inr ⟨rfl, rfl⟩))

theorem Gives.mono (hg : Gives rs r h) (rs' : List StoreRequest) : Gives (rs ++ rs') r h := by
  obtain ⟨rs₁, rs₂, s, rfl, hs⟩ := hg
  exact ⟨rs₁, rs₂ ++ rs', s, by rw [List.append_assoc, List.cons_append], hs⟩

theorem Gives.exists_target (hg : Gives rs r h) : ∃ k, (after rs).target h = .ok k := by
  obtain ⟨rs₁, rs₂, s, rfl, hs⟩ := hg
  rw [after_cons]
  have hnext : ∃ k, ((after rs₁).next r).target h = .ok k := by
    cases r with
    | create => exact ⟨_, (Creates.new hs).leads.2.1⟩
    | share a =>
        obtain ⟨k, -, hk⟩ := share_leads hs
        exact ⟨k, hk⟩
    | snapshot a =>
        cases hp : (after rs₁).pool a with
        | error f => simp [perform, snapshot, hp, Except.map] at hs
        | ok p => exact ⟨_, (Creates.snapshot hp hs).leads.2.1⟩
    | operation a q =>
        obtain ⟨made, -, he⟩ := map_ok hs
        cases he
  obtain ⟨k, hk⟩ := hnext
  exact ⟨k, target_run hk rs₂⟩

theorem Issued.exists_target (hh : Issued rs h) : ∃ k, (after rs).target h = .ok k := by
  obtain ⟨r, hg⟩ := hh
  exact hg.exists_target

theorem Cloned.same (hc : Cloned rs a b) : (after rs).same a b = .ok true := by
  obtain ⟨rs₁, rs₂, s, rfl, hs⟩ := hc
  obtain ⟨k, ha, hb⟩ := share_leads hs
  rw [after_cons]
  exact same_eq_true.mpr ⟨k, target_run ((next_step _ _).target ha) rs₂, target_run hb rs₂⟩

theorem targets_of_eqvGen (h : Relation.EqvGen (Cloned rs) a b) :
    (after rs).targets[a.index]? = (after rs).targets[b.index]? := by
  induction h with
  | rel a b hc =>
      obtain ⟨k, ha, hb⟩ := same_eq_true.mp hc.same
      rw [target_eq_ok.mp ha, target_eq_ok.mp hb]
  | refl a => rfl
  | symm a b _ ih => exact ih.symm
  | trans a b c _ _ ih ih' => exact ih.trans ih'

theorem eqvGen_of_target (ha : (after rs).target a = .ok k) (hb : (after rs).target b = .ok k) :
    Relation.EqvGen (Cloned rs) a b := by
  induction rs using List.reverseRecOn generalizing a b k with
  | nil => simp [after, run, empty, target] at ha
  | append_singleton rs r ih =>
      rw [after_concat] at ha hb
      have hstep := next_step (after rs) r
      have hold {a b : PoolHandle} (ha : (after rs).target a = .ok k) (hb : (after rs).target b = .ok k) :
          Relation.EqvGen (Cloned (rs ++ [r])) a b := (ih ha hb).mono fun _ _ hc => Gives.mono hc [r]
      -- A new handle leads to the pool of an old one only when it is cloned from one that does.
      have hnew {old new : PoolHandle} (ho : (after rs).target old = .ok k) (hn : new = ⟨(after rs).targets.size⟩)
          (hr : (∃ c, r = .share c ∧ (after rs).target c = .ok k) ∨
            k = (after rs).pools.size ∧ ∃ p, (after rs).Creates r new p) :
          Relation.EqvGen (Cloned (rs ++ [r])) old new := by
        rcases hr with ⟨c, rfl, hc⟩ | ⟨rfl, -⟩
        · have hclone : Cloned (rs ++ [.share c]) c new := by
            refine ⟨rs, [], { after rs with targets := (after rs).targets.push k }, rfl, ?_⟩
            rw [hn, perform, share, hc]
            rfl
          exact (hold ho hc).trans _ _ _ (.rel _ _ hclone)
        · exact absurd (directed_after rs _ _ ho) (Nat.lt_irrefl _)
      rcases hstep.target_before ha with ha | ⟨ha, hra⟩ <;> rcases hstep.target_before hb with hb | ⟨hb, hrb⟩
      · exact hold ha hb
      · exact hnew ha hb hrb
      · exact (hnew hb ha hra).symm _ _
      · rw [ha, hb]
        exact .refl _

theorem exists_creates_target (hk : (after rs).target b = .ok k) : ∃ rs₁ r rs₂ h p, rs = rs₁ ++ r :: rs₂ ∧
    (after rs₁).Creates r h p ∧ (after rs).target h = .ok k := by
  induction rs using List.reverseRecOn generalizing b with
  | nil => simp [after, run, empty, target] at hk
  | append_singleton rs r ih =>
      have hstep := next_step (after rs) r
      rw [after_concat] at hk ⊢
      have hold {c : PoolHandle} (hc : (after rs).target c = .ok k) : ∃ rs₁ r' rs₂ h p, rs ++ [r] = rs₁ ++ r' :: rs₂ ∧
          (after rs₁).Creates r' h p ∧ ((after rs).next r).target h = .ok k := by
        obtain ⟨rs₁, r', rs₂, h, p, hrs, hcreates, hh⟩ := ih hc
        exact ⟨rs₁, r', rs₂ ++ [r], h, p, by rw [hrs, List.append_assoc, List.cons_append], hcreates, hstep.target hh⟩
      rcases hstep.target_before hk with hk | ⟨-, ⟨a, -, ha⟩ | ⟨rfl, p, hc⟩⟩
      · exact hold hk
      · exact hold ha
      · exact ⟨rs, r, [], b, p, rfl, hc, hc.leads.2.1⟩

theorem operation_answer (hp : s.pool a = .ok p) (q : PoolRequest) :
    (s.perform (.operation a q)).map (·.1) = (p.perform q).map (.done ·.1) := by
  obtain ⟨k, hk, -⟩ := pool_eq_ok.mp hp
  cases hq : p.perform q with
  | ok answered => simp [perform, modify, hk, hp, hq, Except.map, bind, Except.bind, pure, Except.pure]
  | error f => simp [perform, modify, hk, hp, hq, Except.map, bind, Except.bind]

theorem same_append {x : Bool} (h : (after rs).same a b = .ok x) (rs' : List StoreRequest) :
    (after (rs ++ rs')).same a b = .ok x := by
  obtain ⟨i, hi, h⟩ := bind_ok h
  obtain ⟨j, hj, h⟩ := bind_ok h
  cases h
  rw [after, run_append]
  exact same_eq (target_run hi rs') (target_run hj rs')

/-- Issued handles are told to lead to one pool when cloning relates them, and not otherwise. -/
theorem Issued.exists_same (ha : Issued rs a) (hb : Issued rs b) :
    ∃ x, (after rs).same a b = .ok x ∧ (x = true ↔ Relation.EqvGen (Cloned rs) a b) := by
  obtain ⟨i, hi⟩ := ha.exists_target
  obtain ⟨j, hj⟩ := hb.exists_target
  refine ⟨i == j, same_eq hi hj, ?_⟩
  constructor
  · intro hij
    obtain rfl : i = j := by simpa using hij
    exact eqvGen_of_target hi hj
  · intro hab
    have hij := targets_of_eqvGen hab
    rw [target_eq_ok.mp hi, target_eq_ok.mp hj] at hij
    simpa using hij

theorem Issued.exists_handle (ha : Issued rs a) (hr : r = .share a ∨ r = .snapshot a) :
    ∃ b s, (after rs).perform r = .ok (.handle b, s) := by
  obtain ⟨k, hk⟩ := ha.exists_target
  obtain ⟨p, hp⟩ := exists_pool hk
  rcases hr with rfl | rfl
  · rw [perform, share, hk]
    exact ⟨_, _, rfl⟩
  · rw [perform, snapshot, pool_of_target hk hp]
    exact ⟨_, _, rfl⟩

theorem Issued.exists_creates (hb : Issued rs b) : ∃ rs₁ r rs₂ h p, rs = rs₁ ++ r :: rs₂ ∧
    (after rs₁).Creates r h p ∧ (after rs).same b h = .ok true := by
  obtain ⟨k, hk⟩ := hb.exists_target
  obtain ⟨rs₁, r, rs₂, h, p, hrs, hc, hh⟩ := exists_creates_target hk
  exact ⟨rs₁, r, rs₂, h, p, hrs, hc, same_eq_true.mpr ⟨k, hk, hh⟩⟩

namespace Creates

theorem contents (hc : (after rs).Creates r h p) (hb : (after (rs ++ r :: rs')).same b h = .ok true) :
    (after (rs ++ r :: rs')).pool b = .ok (p.run (through h (after (rs ++ [r])) rs')) := by
  obtain ⟨k, hkb, hkh⟩ := same_eq_true.mp hb
  obtain ⟨-, hh, hp⟩ := hc.leads
  rw [after_cons] at hkb hkh ⊢
  rw [after_concat]
  cases hkh.symm.trans (target_run hh rs')
  exact pool_of_target hkb (pools_run hh hp rs')

/-- A pool that has just been made is not one that a handle leads to already, and never gets to be one. -/
theorem apart (hc : (after rs).Creates r h p) (hb : Issued rs b) (rs' : List StoreRequest) :
    (after (rs ++ r :: rs')).same b h = .ok false ∧ (after (rs ++ r :: rs')).same h b = .ok false := by
  obtain ⟨k, hk⟩ := hb.exists_target
  have hlt : k < (after rs).pools.size := directed_after rs b k hk
  have hb' := target_run ((next_step _ r).target hk) rs'
  have hh' := target_run hc.leads.2.1 rs'
  rw [after_cons, same_eq hb' hh', same_eq hh' hb']
  simp [Nat.ne_of_lt hlt, Nat.ne_of_gt hlt]

end Creates

theorem pool_of_same (hab : (after rs).same a b = .ok true) (hp : (after rs).pool a = .ok p) (q : PoolRequest) :
    (after (rs ++ [.operation a q])).pool b = .ok (p.step q) := by
  obtain ⟨k, ha, hb⟩ := same_eq_true.mp hab
  obtain ⟨j, hj, hs⟩ := pool_eq_ok.mp hp
  cases ha.symm.trans hj
  have hstep := next_step (after rs) (.operation a q)
  have hpool := hstep.pools hb hs
  rw [asks, if_pos hab] at hpool
  rw [after_concat]
  exact pool_of_target (hstep.target hb) hpool

theorem pool_of_not_same (hab : (after rs).same a b = .ok false) (q : PoolRequest) :
    (after (rs ++ [.operation a q])).pool b = (after rs).pool b := by
  obtain ⟨k, hk⟩ : ∃ k, (after rs).target b = .ok k := by
    obtain ⟨_, _, hrest⟩ := bind_ok hab
    obtain ⟨k, hk, -⟩ := bind_ok hrest
    exact ⟨k, hk⟩
  obtain ⟨p, hs⟩ := exists_pool hk
  have hstep := next_step (after rs) (.operation a q)
  have hpool := hstep.pools hk hs
  rw [asks, if_neg (by simp [hab])] at hpool
  rw [after_concat, pool_of_target (hstep.target hk) hpool, pool_of_target hk hs]
  rfl

/-- Handles lead to one pool when they come from one by cloning, and what a pool holds is what its
own requests have made of the contents that it was created with. -/
structure KeepsApart (rs : List StoreRequest) : Prop where
  served : ∀ a r, Issued rs a → r = .share a ∨ r = .snapshot a → ∃ b s, (after rs).perform r = .ok (.handle b, s)
  same_iff : ∀ a b, Issued rs a → Issued rs b →
    ∃ x, (after rs).same a b = .ok x ∧ (x = true ↔ Relation.EqvGen (Cloned rs) a b)
  same_kept : ∀ rs₁ rs₂ a b x, rs = rs₁ ++ rs₂ → (after rs₁).same a b = .ok x → (after rs).same a b = .ok x
  created : ∀ b, Issued rs b → ∃ rs₁ r rs₂ h p, rs = rs₁ ++ r :: rs₂ ∧ (after rs₁).Creates r h p ∧
    (after rs).same b h = .ok true
  contents : ∀ rs₁ r rs₂ h p, rs = rs₁ ++ r :: rs₂ → (after rs₁).Creates r h p → ∀ b, (after rs).same b h = .ok true →
    (after rs).pool b = .ok (p.run (through h (after (rs₁ ++ [r])) rs₂))
  apart : ∀ rs₁ r rs₂ h p, rs = rs₁ ++ r :: rs₂ → (after rs₁).Creates r h p → ∀ b, Issued rs₁ b →
    (after rs).same b h = .ok false ∧ (after rs).same h b = .ok false
  answer : ∀ a p q, (after rs).pool a = .ok p →
    ((after rs).perform (.operation a q)).map (·.1) = (p.perform q).map (.done ·.1)
  visible : ∀ a b p q, (after rs).same a b = .ok true → (after rs).pool a = .ok p →
    (after (rs ++ [.operation a q])).pool b = .ok (p.step q)
  hidden : ∀ a b q, (after rs).same a b = .ok false →
    (after (rs ++ [.operation a q])).pool b = (after rs).pool b

theorem pools_kept_apart (rs : List StoreRequest) : KeepsApart rs where
  served _ _ ha hr := ha.exists_handle hr
  same_iff _ _ ha hb := ha.exists_same hb
  same_kept := by
    rintro rs₁ rs₂ a b x rfl hx
    exact same_append hx rs₂
  created _ hb := hb.exists_creates
  contents := by
    rintro rs₁ r rs₂ h p rfl hc b hb
    exact hc.contents hb
  apart := by
    rintro rs₁ r rs₂ h p rfl hc b hb
    exact hc.apart hb rs₂
  answer _ _ q hp := operation_answer hp q
  visible _ _ _ q hab hp := pool_of_same hab hp q
  hidden _ _ q hab := pool_of_not_same hab q

/-- A union that is made through a clone is there for the first handle and for a snapshot, and grows in the
snapshot only. -/
theorem pools_kept_apart_growing :
    let rs : List StoreRequest := [.create, .share ⟨0⟩, .operation ⟨1⟩ (.type (.union none [.int, .float])),
      .snapshot ⟨0⟩, .operation ⟨2⟩ (.type (.addMember ⟨64⟩ .error))]
    KeepsApart rs ∧ Cloned rs ⟨0⟩ ⟨1⟩ ∧ (after rs).same ⟨0⟩ ⟨1⟩ = .ok true ∧ (after rs).same ⟨1⟩ ⟨2⟩ = .ok false ∧
      ((after rs).pool ⟨0⟩).bind (·.members ⟨64⟩) = .ok [.int, .float] ∧
      ((after rs).pool ⟨2⟩).bind (·.members ⟨64⟩) = .ok [.int, .float, .error] :=
  ⟨pools_kept_apart _, ⟨[.create], _, _, rfl, rfl⟩, by decide +kernel⟩

end PoolStore

end CompilerSymbols
