import CompilerSymbols.Proofs.Names.Naming
import CompilerSymbols.Proofs.Types.Printing

namespace CompilerSymbols

/-- Two types that are written alike: they are the same, or unions of one name. -/
inductive Shape.Alike : Shape → Shape → Prop
  | same (s : Shape) : Alike s s
  | named (name : Name) (ms ms' : List TypeId) : Alike (.union ⟨some name, ms⟩) (.union ⟨some name, ms'⟩)

namespace Shape.Alike

variable {s s' s'' : Shape} {u : TypeId}

theorem symm (h : s.Alike s') : s'.Alike s := by
  cases h with
  | same => exact .same s
  | named name ms ms' => exact .named name ms' ms

theorem trans (h : s.Alike s') (h' : s'.Alike s'') : s.Alike s'' := by
  cases h with
  | same => exact h'
  | named name ms ms' =>
      cases h' with
      | same => exact .named name ms ms'
      | named _ _ ms'' => exact .named name ms ms''

theorem tag_eq (h : s.Alike s') : s'.tag = s.tag := by
  cases h <;> rfl

theorem follows (h : s.Alike s') (hu : s.Follows u) : s'.Follows u := by
  cases h with
  | same => exact hu
  | named => cases hu

end Shape.Alike

namespace Pool

open Piece Relation

variable {p p' p'' : Pool} {q : PoolRequest} {qs : List PoolRequest} {names names' : Interner} {t u m : TypeId}
  {s s' : Shape} {ps : List Piece} {written text : String} {out : Except Fault String} {f : Fault}

/-- A type has this text, and writing it appends the text to what is written already. -/
def HasText (p : Pool) (names : Interner) (t : TypeId) (text : String) : Prop :=
  p.text names t = .ok text ∧ ∀ written, p.Prints names [part t] written (.ok (written ++ text)) ∧
    p.writeText names t written = .ok (written ++ text)

def Extends (p : Pool) (q : PoolRequest) (u m : TypeId) : Prop :=
  ∃ ms, p.members u = .ok ms ∧ (p.step q).members u = .ok (ms ++ [m])

def IsNamed (p : Pool) (u : TypeId) : Prop := ∃ name, p.typeName? u = .ok (some name)

/-- During a run, the unions that get members have a name or are not part of the text of `t`. -/
def Spares (t : TypeId) : Pool → List PoolRequest → Prop
  | _, [] => True
  | p, q :: qs => (∀ u m, p.Extends q u m → p.IsNamed u ∨ ¬ ReflTransGen p.Follows t u) ∧ Spares t (p.step q) qs

/-- All that is reached from a type is in both pools, and is written alike in them. -/
def Mirrors (p p' : Pool) (t : TypeId) : Prop :=
  ∀ u, ReflTransGen p.Follows t u → ∃ s s', p.shape u = .ok s ∧ p'.shape u = .ok s' ∧ s.Alike s'

theorem pieces_of_shape (hs : p.shape t = .ok s) : p.pieces names t = p.shapePieces names s := by
  by_cases hr : s = .reserved
  · subst hr
    obtain ⟨i, hi, his⟩ := shape_eq_ok.mp hs
    have hc : p.contains t = false := by
      rw [contains, item?, hi]
      have ht := tag_of_shapeOf? his
      cases i with
      | reserved => rfl
      | _ => cases ht
    rw [pieces, hc]
    rfl
  · exact pieces_eq hs hr

theorem shapePieces_alike (hn : ∀ name text, names.lookup name = .ok text → names'.lookup name = .ok text)
    (ha : s.Alike s') (he : ∀ elem, s = .container .array elem → p'.isUnion elem = p.isUnion elem)
    (hps : p.shapePieces names s = .ok ps) : p'.shapePieces names' s' = .ok ps := by
  have hname {name : Name} (h : (names.lookup name).map (fun s => [letters s]) = .ok ps) :
      (names'.lookup name).map (fun s => [letters s]) = .ok ps := by
    obtain ⟨text, ht, rfl⟩ := map_ok h
    rw [hn name text ht]
    rfl
  cases ha with
  | named name ms ms' => exact hname hps
  | same =>
      cases s with
      | container c elem =>
          by_cases hc : c = .array
          · subst hc
            rw [shapePieces, he elem rfl]
            exact hps
          · rw [shapePieces_container hc] at hps ⊢
            exact hps
      | union v =>
          obtain ⟨name, ms⟩ := v
          cases name with
          | some name => exact hname hps
          | none => exact hps
      | nominal k name => exact hname hps
      | builtin b => cases b <;> exact hps
      | _ => exact hps

namespace Mirrors

theorem reaches (h : p.Mirrors p' t) (hu : ReflTransGen p.Follows t u) : ReflTransGen p'.Follows t u := by
  induction hu with
  | refl => exact .refl
  | tail hu hv ih =>
      obtain ⟨s, hs, hv⟩ := hv
      obtain ⟨s₁, s', hs₁, hs', ha⟩ := h _ hu
      cases hs.symm.trans hs₁
      exact ih.tail ⟨s', hs', ha.follows hv⟩

theorem reaches_back (h : p.Mirrors p' t) (hu : ReflTransGen p'.Follows t u) : ReflTransGen p.Follows t u := by
  induction hu with
  | refl => exact .refl
  | tail _ hv ih =>
      obtain ⟨s', hs', hv⟩ := hv
      obtain ⟨s, s₁, hs, hs₁, ha⟩ := h _ ih
      cases hs'.symm.trans hs₁
      exact ih.tail ⟨s, hs, ha.symm.follows hv⟩

theorem symm (h : p.Mirrors p' t) : p'.Mirrors p t := by
  intro u hu
  obtain ⟨s, s', hs, hs', ha⟩ := h u (h.reaches_back hu)
  exact ⟨s', s, hs', hs, ha.symm⟩

theorem trans (h : p.Mirrors p' t) (h' : p'.Mirrors p'' t) : p.Mirrors p'' t := by
  intro u hu
  obtain ⟨s, s', hs, hs', ha⟩ := h u hu
  obtain ⟨s₁, s'', hs₁, hs'', ha'⟩ := h' u (h.reaches hu)
  cases hs'.symm.trans hs₁
  exact ⟨s, s'', hs, hs'', ha.trans ha'⟩

theorem isUnion (h : p.Mirrors p' t) (hu : ReflTransGen p.Follows t u) : p'.isUnion u = p.isUnion u := by
  obtain ⟨s, s', hs, hs', ha⟩ := h u hu
  rw [isUnion_of_tag (tag_of_shape hs), isUnion_of_tag (tag_of_shape hs'), ha.tag_eq]

theorem pieces (h : p.Mirrors p' t) (hn : ∀ name text, names.lookup name = .ok text → names'.lookup name = .ok text)
    (hu : ReflTransGen p.Follows t u) (hps : p.pieces names u = .ok ps) : p'.pieces names' u = .ok ps := by
  obtain ⟨s, s', hs, hs', ha⟩ := h u hu
  rw [pieces_of_shape hs] at hps
  rw [pieces_of_shape hs']
  refine shapePieces_alike hn ha ?_ hps
  rintro elem rfl
  exact h.isUnion (hu.tail ⟨_, hs, .element elem⟩)

end Mirrors

theorem Linked.mirrors (hl : p.Linked) (hr : p.Readable) (ht : t.raw.toNat < p.size) : p.Mirrors p t := by
  have hlt {u : TypeId} (hu : ReflTransGen p.Follows t u) : u.raw.toNat < p.size := by
    cases hu with
    | refl => exact ht
    | tail _ hv =>
        obtain ⟨s, hs, hv⟩ := hv
        exact hl _ s hs _ hv.mem_mentions
  intro u hu
  obtain ⟨s, hs⟩ := hr.exists_shape (hlt hu)
  exact ⟨s, s, hs, hs, .same s⟩

namespace Sound

theorem shape_step (h : p.Sound) (q : PoolRequest) (hs : p.shape u = .ok s) : (p.step q).shape u = .ok s ∨
    ∃ name ms m, s = .union ⟨name, ms⟩ ∧ q.Adds u m ∧ m ≠ u ∧ m ∉ ms ∧
      (p.step q).shape u = .ok (.union ⟨name, ms ++ [m]⟩) := by
  have hlt := lt_of_shape hs
  obtain ⟨s', hs'⟩ := (h.step q).readable.exists_shape (Nat.lt_of_lt_of_le hlt (size_le_step p q))
  cases h.origin_step hs' with
  | old hp =>
      cases hs.symm.trans hp
      exact .inl hs'
  | new hle => exact absurd hlt (Nat.not_lt.mpr hle)
  | grown hp ha hne hm =>
      cases hs.symm.trans hp
      exact .inr ⟨_, _, _, rfl, ha, hne, hm, hs'⟩

theorem adds_of_extends (h : p.Sound) (hx : p.Extends q u m) :
    q.Adds u m ∧ ∃ name ms, p.shape u = .ok (.union ⟨name, ms⟩) ∧ m ≠ u ∧ m ∉ ms := by
  obtain ⟨ms, hms, hms'⟩ := hx
  obtain ⟨s, hs, rfl⟩ := map_ok hms
  rcases h.shape_step q hs with hs' | ⟨name, ms, m', rfl, ha, hne, hm, hs'⟩
  · rw [members, hs'] at hms'
    simp [Except.map] at hms'
  · rw [members, hs'] at hms'
    obtain rfl : m' = m := by simpa [Except.map, Shape.members] using hms'
    exact ⟨ha, name, ms, hs, hne, hm⟩

theorem alike_step (h : p.Sound) (hs : p.shape u = .ok s) (hx : ∀ m, p.Extends q u m → p.IsNamed u) :
    ∃ s', (p.step q).shape u = .ok s' ∧ s.Alike s' := by
  rcases h.shape_step q hs with hs' | ⟨name, ms, m, rfl, -, -, -, hs'⟩
  · exact ⟨s, hs', .same s⟩
  · obtain ⟨made, hname⟩ := hx m ⟨ms, by rw [members, hs]; rfl, by rw [members, hs']; rfl⟩
    rw [typeName?, hs] at hname
    cases hname
    exact ⟨_, hs', .named made ms _⟩

theorem mirrors_step (h : p.Sound) (hm : p.Mirrors p t)
    (hx : ∀ u m, p.Extends q u m → p.IsNamed u ∨ ¬ ReflTransGen p.Follows t u) : p.Mirrors (p.step q) t := by
  intro u hu
  obtain ⟨s, -, hs, -⟩ := hm u hu
  obtain ⟨s', hs', ha⟩ := h.alike_step hs fun m hxm => (hx u m hxm).resolve_right (not_not_intro hu)
  exact ⟨s, s', hs, hs', ha⟩

theorem mirrors_run (h : p.Sound) (hm : p.Mirrors p t) (hq : Spares t p qs) : p.Mirrors (p.run qs) t := by
  induction qs generalizing p with
  | nil => exact hm
  | cons q qs ih =>
      have hstep := h.mirrors_step hm hq.1
      exact hstep.trans (ih (h.step q) (hstep.symm.trans hstep) hq.2)

end Sound

namespace Prints

theorem mirrored (h : p.Prints names ps written (.ok text)) (hr : p.Readable) (hm : p.Mirrors p' t)
    (hn : ∀ name text, names.lookup name = .ok text → names'.lookup name = .ok text)
    (hps : ∀ u, part u ∈ ps → ReflTransGen p.Follows t u) : p'.Prints names' ps written (.ok text) := by
  generalize ho : Except.ok text = out at h ⊢
  induction h generalizing text with
  | done => exact .done _
  | puts _ ih => exact .puts (ih (fun u hu => hps u (List.mem_cons_of_mem _ hu)) ho)
  | nested ht _ _ ihts ih =>
      have hu := hps _ List.mem_cons_self
      refine .nested (hm.pieces hn hu ht) (ihts (fun v hv => ?_) rfl) (ih (fun v hv => hps v (List.mem_cons_of_mem _ hv)) ho)
      exact hu.tail ((part_mem_pieces hr ht).mp hv)
  | refused | stopped => cases ho

/-- The parts of what has been written are nested only finitely deep. -/
theorem acc (h : p.Prints names ps written (.ok text)) (hr : p.Readable) (hu : part u ∈ ps) :
    Acc (fun v u => p.Follows u v) u := by
  generalize ho : Except.ok text = out at h
  induction h generalizing text u with
  | done => cases hu
  | puts _ ih =>
      rcases List.mem_cons.mp hu with ⟨⟨⟩⟩ | hu
      exact ih hu ho
  | nested ht _ _ ihts ih =>
      rcases List.mem_cons.mp hu with ⟨⟨⟩⟩ | hu
      · exact .intro _ fun v hv => ihts ((part_mem_pieces hr ht).mpr hv) rfl
      · exact ih hu ho
  | refused | stopped => cases ho

theorem cyclefree (h : p.Prints names [part t] written (.ok text)) (hr : p.Readable) : p.Cyclefree t := by
  have hno {u : TypeId} (ha : Acc (fun v u => p.Follows u v) u) : ¬ TransGen p.Follows u u := by
    induction ha with
    | intro u _ ih =>
        intro hu
        obtain ⟨v, huv, hvu⟩ := TransGen.head'_iff.mp hu
        exact ih v huv (TransGen.tail' hvu huv)
  intro u hu
  apply hno
  induction hu with
  | refl => exact h.acc hr List.mem_cons_self
  | tail _ hv ih => exact ih.inv hv

theorem exists_refused (h : p.Prints names ps written (.error f)) (hr : p.Readable) :
    ∃ u v, part u ∈ ps ∧ ReflTransGen p.Follows u v ∧ p.pieces names v = .error f := by
  generalize ho : Except.error f = out at h
  induction h with
  | done => cases ho
  | puts _ ih | nested _ _ _ _ ih =>
      obtain ⟨u, v, hu, hv⟩ := ih ho
      exact ⟨u, v, List.mem_cons_of_mem _ hu, hv⟩
  | refused ht =>
      cases ho
      exact ⟨_, _, List.mem_cons_self, .refl, ht⟩
  | stopped ht _ _ ihts =>
      obtain ⟨u, v, hu, huv, hv⟩ := ihts ho
      exact ⟨_, v, List.mem_cons_self, .head ((part_mem_pieces hr ht).mp hu) huv, hv⟩

theorem hasText (h : p.Prints names [part t] "" (.ok text)) (hr : p.Readable) : p.HasText names t text := by
  have hc := h.cyclefree hr
  obtain ⟨s, hs, he⟩ := map_ok ((hc.finishes hr names "").1.unique h)
  obtain rfl : s = text := by simpa using he
  obtain ⟨s', hs', happ⟩ := hc.appends hr hs
  cases hs.symm.trans hs'
  exact ⟨hs, happ⟩

end Prints

theorem Ordered.le_of_reaches (h : p.Ordered) (hu : ReflTransGen p.Follows t u) : u.raw ≤ t.raw := by
  induction hu with
  | refl => exact UInt32.le_refl _
  | tail _ hv ih => exact UInt32.le_of_lt (UInt32.lt_of_lt_of_le (h _ _ hv) ih)

theorem exists_hasText (hr : p.Readable) (hl : p.Linked) (hk : p.Knows names t)
    (h : p.Prints names [part t] written out) : ∃ text, p.HasText names t text := by
  cases out with
  | ok text => exact (h.cyclefree hr).appends_of_linked hr hl hk
  | error f =>
      obtain ⟨u, v, hu, huv, hv⟩ := h.exists_refused hr
      obtain rfl : u = t := by simpa using hu
      rcases pieces_error hr hv with ⟨elem, hs, hle, -⟩ | ⟨name, hn, hname⟩
      · exact absurd (hl v _ hs elem List.mem_cons_self) (Nat.not_lt.mpr hle)
      · obtain ⟨s, hs⟩ := hk v name huv hn
        cases hs.symm.trans hname

/-- A type's text lasts. Of all that happens later, in the pool or to the names, only a new member of
an unnamed union that is part of the text can change it. -/
theorem texts_last (qs : List PoolRequest) (ha : initial.AdmitsAll qs) (names : Interner) (t : TypeId)
    (ht : (initial.run qs).contains t = true) (hk : (initial.run qs).Knows names t)
    (hp : ∃ written out, (initial.run qs).Prints names [part t] written out) :
    (∃ text, (initial.run qs).HasText names t text ∧
      ∀ qs' rs, Spares t (initial.run qs) qs' → ((initial.run qs).run qs').HasText (names.run rs) t text) ∧
    ∀ q u m, (initial.run qs).Extends q u m →
      q.Adds u m ∧ ∃ name ms, (initial.run qs).shape u = .ok (.union ⟨name, ms⟩) ∧ m ≠ u ∧ m ∉ ms := by
  have hs := sound_initial.run qs
  have hl := linked_run sound_initial linked_initial ha
  refine ⟨?_, fun q u m => hs.adds_of_extends⟩
  obtain ⟨written, out, hp⟩ := hp
  obtain ⟨text, htext⟩ := exists_hasText hs.readable hl hk hp
  refine ⟨text, htext, fun qs' rs hq => ?_⟩
  have hm := hs.mirrors_run (hl.mirrors hs.readable (hs.readable.lt_of_contains ht)) hq
  have hprints : (initial.run qs).Prints names [part t] "" (.ok text) := by simpa using (htext.2 "").1
  refine (hprints.mirrored hs.readable hm (fun _ _ hname => Interner.lookup_run hname rs) ?_).hasText (hs.run qs').readable
  intro u hu
  obtain rfl : u = t := by simpa using hu
  exact .refl

/-- The text of a function type stays as it is while the named union among its parameters comes to contain
the function type itself, while a conversion adds to that union, while a later union grows and while the
union that the function type returns an array of gets a member that it has. -/
theorem texts_last_recursive :
    let qs : List PoolRequest := [.type (.union none [.int]), .type (.container .array ⟨64⟩),
      .type (.union (some ⟨25⟩) [.nil]), .type (.function [⟨66⟩] ⟨65⟩)]
    let qs' : List PoolRequest := [.type (.union none [.string]), .type (.addMember ⟨68⟩ .int),
      .type (.addMember ⟨66⟩ ⟨67⟩), .conversion ⟨.any, ⟨66⟩, .nop, false, false⟩ .error, .type (.addMember ⟨64⟩ .int)]
    let names := (Interner.initial fun _ => 0).run [.intern "Handler"]
    let p := initial.run qs
    initial.AdmitsAll qs ∧ p.contains ⟨67⟩ = true ∧ p.Knows names ⟨67⟩ ∧
      (∃ written out, p.Prints names [part ⟨67⟩] written out) ∧ Spares ⟨67⟩ p qs' ∧
      p.HasText names ⟨67⟩ "function (Handler) returns ((int)[])" ∧ (p.run qs').members ⟨66⟩ = .ok [.nil, ⟨67⟩, .error] ∧
      (p.run qs').HasText (names.run [.intern "Value"]) ⟨67⟩ "function (Handler) returns ((int)[])" := by
  intro qs qs' names p
  have ha : initial.AdmitsAll qs := by decide +kernel
  have ht : p.contains ⟨67⟩ = true := by decide +kernel
  have htext : p.text names ⟨67⟩ = .ok "function (Handler) returns ((int)[])" := by decide +kernel
  have hnames : ∀ i : Fin 68, ∀ name ∈ ((p.typeName? ⟨i.val.toUInt32⟩).toOption.join),
      names.lookup name = .ok "Handler" := by
    decide +kernel
  have hk : p.Knows names ⟨67⟩ := by
    intro u name _ hn
    have hu : u.raw.toNat < 68 := by
      obtain ⟨s, hs, -⟩ := map_ok hn
      exact lt_of_shape hs
    refine ⟨"Handler", hnames ⟨u.raw.toNat, hu⟩ name ?_⟩
    rw [position_toNat, hn]
    rfl
  have hp : ∃ written out, p.Prints names [part ⟨67⟩] written out :=
    ⟨"", _, prints_textWithin ⟨67⟩ "" fun e he => by cases htext.symm.trans he⟩
  have hq : Spares ⟨67⟩ p qs' := by
    have hs : p.Sound := sound_initial.run qs
    have hs₁ := hs.step (.type (.union none [.string]))
    have hs₂ := hs₁.step (.type (.addMember ⟨68⟩ .int))
    have hs₃ := hs₂.step (.type (.addMember ⟨66⟩ ⟨67⟩))
    have hs₄ := hs₃.step (.conversion ⟨.any, ⟨66⟩, .nop, false, false⟩ .error)
    refine ⟨?_, ?_, ?_, ?_, ?_, trivial⟩
    · intro u m hx
      obtain ⟨⟨⟩, -⟩ := hs.adds_of_extends hx
    · intro u m hx
      obtain ⟨⟨⟩, -⟩ := hs₁.adds_of_extends hx
      refine .inr fun hu => ?_
      have hq : ExtendsUnnamed LetsEarlier initial (qs ++ qs'.take 1) := by
        refine ⟨?_, ?_, ?_, ?_, ?_, trivial⟩ <;> rintro t m ms ⟨⟩
      have ho := ordered_run sound_initial ordered_initial (by decide +kernel) hq
      exact absurd (ho.le_of_reaches hu) (by decide)
    · intro u m hx
      obtain ⟨⟨⟩, -⟩ := hs₂.adds_of_extends hx
      exact .inl ⟨⟨25⟩, by decide +kernel⟩
    · intro u m hx
      obtain ⟨⟨⟩, -⟩ := hs₃.adds_of_extends hx
      exact .inl ⟨⟨25⟩, by decide +kernel⟩
    · intro u m hx
      obtain ⟨⟨⟩, name, ms, hshape, -, hm⟩ := hs₄.adds_of_extends hx
      have hint : (p.run (qs'.take 4)).shape ⟨64⟩ = .ok (.union ⟨none, [.int]⟩) := by decide +kernel
      simp only [qs', List.take_succ_cons, List.take_zero, Pool.run, List.foldl_cons, List.foldl_nil] at hint
      cases hint.symm.trans hshape
      exact absurd List.mem_cons_self hm
  obtain ⟨⟨text, hold, hlast⟩, -⟩ := texts_last qs ha names ⟨67⟩ ht hk hp
  cases htext.symm.trans hold.1
  exact ⟨ha, ht, hk, hp, hq, hold, by decide +kernel, hlast qs' _ hq⟩

end Pool

end CompilerSymbols
