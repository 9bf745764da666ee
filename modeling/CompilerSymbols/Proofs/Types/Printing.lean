import CompilerSymbols.Proofs.Types.Following
import Mathlib.Order.SuccPred.Relation
import Mathlib.Data.Nat.SuccPred

namespace CompilerSymbols.Pool

open Piece Relation

variable {p : Pool} {names : Interner} {depth : Nat} {t u : TypeId} {ps ps' : List Piece} {written written' : String}
  {out out' : Except Fault String} {f : Fault}

/-- What comes of appending pieces to what is written already, however deep they are nested. A failure
stops the writing. -/
inductive Prints (p : Pool) (names : Interner) : List Piece → String → Except Fault String → Prop
  | done (written : String) : Prints p names [] written (.ok written)
  | puts {s : String} {ps : List Piece} {written : String} {out : Except Fault String}
      (h : Prints p names ps (written ++ s) out) : Prints p names (letters s :: ps) written out
  | nested {t : TypeId} {ts ps : List Piece} {written written' : String} {out : Except Fault String}
      (ht : p.pieces names t = .ok ts) (hts : Prints p names ts written (.ok written'))
      (h : Prints p names ps written' out) : Prints p names (part t :: ps) written out
  | refused {t : TypeId} {f : Fault} (ht : p.pieces names t = .error f) (ps : List Piece) (written : String) :
      Prints p names (part t :: ps) written (.error f)
  | stopped {t : TypeId} {ts : List Piece} {written : String} {f : Fault} (ht : p.pieces names t = .ok ts)
      (hts : Prints p names ts written (.error f)) (ps : List Piece) : Prints p names (part t :: ps) written (.error f)

namespace Prints

theorem unique (h : p.Prints names ps written out) (h' : p.Prints names ps written out') : out = out' := by
  induction h generalizing out' with
  | done =>
      cases h'
      rfl
  | puts _ ih =>
      cases h' with
      | puts h' => exact ih h'
  | nested ht hts h ihts ih =>
      cases h' with
      | nested ht' hts' h' =>
          cases ht.symm.trans ht'
          cases ihts hts'
          exact ih h'
      | refused ht' => cases ht.symm.trans ht'
      | stopped ht' hts' =>
          cases ht.symm.trans ht'
          cases ihts hts'
  | refused ht =>
      cases h' with
      | nested ht' | stopped ht' => cases ht.symm.trans ht'
      | refused ht' =>
          cases ht.symm.trans ht'
          rfl
  | stopped ht hts ps ihts =>
      cases h' with
      | nested ht' hts' =>
          cases ht.symm.trans ht'
          cases ihts hts'
      | refused ht' => cases ht.symm.trans ht'
      | stopped ht' hts' =>
          cases ht.symm.trans ht'
          exact ihts hts'

theorem cons_nested (ht : p.Prints names [part t] written (.ok written')) (h : p.Prints names ps written' out) :
    p.Prints names (part t :: ps) written out := by
  cases ht with
  | nested ht hts hdone =>
      cases hdone
      exact .nested ht hts h

theorem cons_failed (ht : p.Prints names [part t] written (.error f)) (ps : List Piece) :
    p.Prints names (part t :: ps) written (.error f) := by
  cases ht with
  | nested ht hts hdone => cases hdone
  | refused ht => exact .refused ht ps written
  | stopped ht hts => exact .stopped ht hts ps

end Prints

def pieceWithin (p : Pool) (names : Interner) (depth : Nat) : Piece → Except Fault String
  | letters s => .ok s
  | part u => p.textWithin names depth u

def piecesWithin (p : Pool) (names : Interner) (depth : Nat) (ps : List Piece) : Except Fault String :=
  (ps.mapM (p.pieceWithin names depth)).map String.join

theorem textWithin_succ (p : Pool) (names : Interner) (depth : Nat) (t : TypeId) :
    p.textWithin names (depth + 1) t = (p.pieces names t).bind (p.piecesWithin names depth) := by
  have hpiece : p.pieceWithin names depth = fun
      | letters s => pure s
      | part u => p.textWithin names depth u := by
    funext piece
    cases piece <;> rfl
  unfold piecesWithin
  rw [hpiece, textWithin]
  rfl

theorem piecesWithin_nil (p : Pool) (names : Interner) (depth : Nat) : p.piecesWithin names depth [] = .ok "" :=
  congrArg Except.ok String.join_nil

theorem piecesWithin_cons (p : Pool) (names : Interner) (depth : Nat) (piece : Piece) (ps : List Piece) :
    p.piecesWithin names depth (piece :: ps) =
      (p.pieceWithin names depth piece).bind fun s => (p.piecesWithin names depth ps).map (s ++ ·) := by
  rw [piecesWithin, List.mapM_cons]
  cases p.pieceWithin names depth piece with
  | error f => rfl
  | ok s =>
      simp only [piecesWithin]
      cases ps.mapM (p.pieceWithin names depth) with
      | error f => rfl
      | ok texts => exact congrArg Except.ok String.join_cons

def Ends (x : Except Fault String) : Prop := ∀ t, x ≠ .error (.endlessText t)

theorem Ends.of_map {x : Except Fault String} {g : String → String} (h : Ends (x.map g)) : Ends x := by
  rintro t rfl
  exact h t rfl

theorem prints_pieces (hd : ∀ t written, Ends (p.textWithin names depth t) →
      p.Prints names [part t] written ((p.textWithin names depth t).map (written ++ ·)))
    (ps : List Piece) (written : String) (he : Ends (p.piecesWithin names depth ps)) :
    p.Prints names ps written ((p.piecesWithin names depth ps).map (written ++ ·)) := by
  induction ps generalizing written with
  | nil =>
      rw [piecesWithin_nil, Except.map, String.append_empty]
      exact .done written
  | cons piece ps ih =>
      rw [piecesWithin_cons] at he ⊢
      have hrest {s : String} (hs : p.pieceWithin names depth piece = .ok s) :
          p.Prints names ps (written ++ s) (((p.piecesWithin names depth ps).map (s ++ ·)).map (written ++ ·)) := by
        rw [hs] at he
        have hps := ih (written ++ s) he.of_map
        cases hx : p.piecesWithin names depth ps with
        | error f => rwa [hx] at hps
        | ok s' =>
            rw [hx] at hps
            simpa only [Except.map, String.append_assoc] using hps
      cases piece with
      | letters s => exact .puts (hrest rfl)
      | part u =>
          have hhead := hd u written
          cases hu : p.textWithin names depth u with
          | error f =>
              rw [hu] at hhead
              simp only [pieceWithin, hu] at he ⊢
              exact (hhead he).cons_failed ps
          | ok s =>
              rw [hu] at hhead
              simp only [pieceWithin, hu]
              exact (hhead (by rintro t ⟨⟩)).cons_nested (hrest hu)

theorem prints_textWithin (t : TypeId) (written : String) (he : Ends (p.textWithin names depth t)) :
    p.Prints names [part t] written ((p.textWithin names depth t).map (written ++ ·)) := by
  induction depth generalizing t written with
  | zero => exact absurd rfl (he t)
  | succ depth ih =>
      rw [textWithin_succ] at he ⊢
      cases ht : p.pieces names t with
      | error f => exact .refused ht [] written
      | ok ts =>
          rw [ht] at he
          have hts := prints_pieces ih ts written he
          change p.Prints names [part t] written ((p.piecesWithin names depth ts).map (written ++ ·))
          cases hx : p.piecesWithin names depth ts with
          | error f =>
              rw [hx] at hts
              exact .stopped ht hts []
          | ok s =>
              rw [hx] at hts
              exact .nested ht hts (.done _)

theorem piecesWithin_error (h : p.piecesWithin names depth ps = .error f) :
    ∃ u, part u ∈ ps ∧ p.textWithin names depth u = .error f := by
  induction ps with
  | nil =>
      rw [piecesWithin_nil] at h
      cases h
  | cons piece ps ih =>
      rw [piecesWithin_cons] at h
      have hrest {s : String} (hs : p.pieceWithin names depth piece = .ok s) :
          ∃ u, part u ∈ piece :: ps ∧ p.textWithin names depth u = .error f := by
        rw [hs] at h
        cases hx : p.piecesWithin names depth ps with
        | error f' =>
            simp only [hx, Except.bind, Except.map] at h
            cases h
            obtain ⟨u, hu, hf⟩ := ih hx
            exact ⟨u, List.mem_cons_of_mem _ hu, hf⟩
        | ok s' =>
            simp only [hx, Except.bind, Except.map] at h
            cases h
      cases piece with
      | letters s => exact hrest rfl
      | part u =>
          cases hu : p.textWithin names depth u with
          | error f' =>
              simp only [pieceWithin, hu] at h
              cases h
              exact ⟨u, List.mem_cons_self, hu⟩
          | ok s => exact hrest hu

theorem piecesWithin_ok {s : String} (h : p.piecesWithin names depth ps = .ok s) (hu : part u ∈ ps) :
    ∃ s', p.textWithin names depth u = .ok s' := by
  induction ps generalizing s with
  | nil => cases hu
  | cons piece ps ih =>
      rw [piecesWithin_cons] at h
      obtain ⟨s', hs', h⟩ := bind_ok h
      obtain ⟨s'', hs'', -⟩ := map_ok h
      rcases List.mem_cons.mp hu with rfl | hu
      · exact ⟨s', hs'⟩
      · exact ih hs'' hu

/-- A text fails where the pieces of a type do, unless it is as deep as it may be. -/
theorem textWithin_error (hr : p.Readable) (h : p.textWithin names depth t = .error f) :
    (∃ u, ReflTransGen p.Follows t u ∧ p.pieces names u = .error f) ∨
      ∃ walk : Nat → TypeId, walk 0 = t ∧ ∀ i < depth, p.Follows (walk i) (walk (i + 1)) := by
  induction depth generalizing t with
  | zero => exact .inr ⟨fun _ => t, rfl, by simp⟩
  | succ depth ih =>
      rw [textWithin_succ] at h
      cases ht : p.pieces names t with
      | error f' =>
          rw [ht] at h
          cases h
          exact .inl ⟨t, .refl, ht⟩
      | ok ts =>
          rw [ht] at h
          obtain ⟨u, hu, hf⟩ := piecesWithin_error h
          have hfollows := (part_mem_pieces hr ht).mp hu
          rcases ih hf with ⟨v, huv, hv⟩ | ⟨walk, rfl, hwalk⟩
          · exact .inl ⟨v, .head hfollows huv, hv⟩
          · refine .inr ⟨fun i => Nat.casesOn i t walk, rfl, ?_⟩
            rintro (_ | i) hi
            · exact hfollows
            · exact hwalk i (Nat.lt_of_succ_lt_succ hi)

theorem exists_pieces (hr : p.Readable) {s : String} (h : p.textWithin names depth t = .ok s)
    (hu : ReflTransGen p.Follows t u) : ∃ ps, p.pieces names u = .ok ps := by
  induction hu using ReflTransGen.head_induction_on generalizing depth s with
  | refl =>
      cases depth with
      | zero => cases h
      | succ depth =>
          rw [textWithin_succ] at h
          obtain ⟨ps, hps, -⟩ := bind_ok h
          exact ⟨ps, hps⟩
  | head hfollows _ ih =>
      cases depth with
      | zero => cases h
      | succ depth =>
          rw [textWithin_succ] at h
          obtain ⟨ps, hps, h⟩ := bind_ok h
          obtain ⟨s', hs'⟩ := piecesWithin_ok h ((part_mem_pieces hr hps).mpr hfollows)
          exact ih hs'

/-- No type that is reached from this one is part of its own text. -/
def Cyclefree (p : Pool) (t : TypeId) : Prop := ∀ u, ReflTransGen p.Follows t u → ¬ TransGen p.Follows u u

def Knows (p : Pool) (names : Interner) (t : TypeId) : Prop :=
  ∀ u name, ReflTransGen p.Follows t u → p.typeName? u = .ok (some name) → ∃ s, names.lookup name = .ok s

theorem Ordered.cyclefree (h : p.Ordered) (t : TypeId) : p.Cyclefree t := by
  have hlt {u v : TypeId} (huv : TransGen p.Follows u v) : v.raw < u.raw := by
    induction huv with
    | single huv => exact h _ _ huv
    | tail _ huv ih => exact UInt32.lt_trans (h _ _ huv) ih
  intro u _ hu
  exact UInt32.lt_irrefl _ (hlt hu)

/-- A walk that is longer than the pool comes to a type again. -/
theorem Cyclefree.length_le (h : p.Cyclefree t) {walk : Nat → TypeId} {n : Nat} (h0 : walk 0 = t)
    (hw : ∀ i < n, p.Follows (walk i) (walk (i + 1))) : n ≤ p.size := by
  by_contra hn
  -- Two of the steps start at one type, and those between them lead back to it.
  obtain ⟨i, j, hne, hij⟩ := Fintype.exists_ne_map_eq_of_card_lt
    (fun i : Fin n => (⟨_, (hw i i.isLt).lt_size⟩ : Fin p.size)) (by simpa using hn)
  have hij : walk i = walk j := TypeId.toNat_injective (Fin.mk.inj hij)
  have hagain {i j : Fin n} (hij : walk i = walk j) : ¬ i < j := by
    intro hlt
    have hstep (k : Nat) (hk : k < j) : p.Follows (walk k) (walk (k + 1)) := hw k (Nat.lt_trans hk j.isLt)
    have hreach := reflTransGen_of_succ_of_le (fun a b => p.Follows (walk a) (walk b)) (n := 0) (m := i.val)
      (fun k hk => hstep k (Nat.lt_trans hk.2 hlt)) (Nat.zero_le _)
    have hcycle := transGen_of_succ_of_lt (fun a b => p.Follows (walk a) (walk b)) (fun k hk => hstep k hk.2) hlt
    refine h (walk i) (h0 ▸ hreach.lift walk fun _ _ hab => hab) ?_
    have hback : TransGen p.Follows (walk i) (walk j) := hcycle.lift walk fun _ _ hab => hab
    rwa [← hij] at hback
  rcases Nat.lt_or_gt_of_ne (Fin.val_ne_of_ne hne) with hlt | hlt
  · exact hagain hij hlt
  · exact hagain hij.symm hlt

theorem lookup_error {name : Name} (h : names.lookup name = .error f) : f = .unknownName name := by
  unfold Interner.lookup at h
  split at h <;> cases h
  rfl

theorem pieces_error (hr : p.Readable) (h : p.pieces names t = .error f) :
    (∃ elem, p.shape t = .ok (.container .array elem) ∧ p.size ≤ elem.raw.toNat ∧ f = .unknownType elem) ∨
      ∃ name, p.typeName? t = .ok (some name) ∧ names.lookup name = .error f := by
  unfold pieces at h
  split at h
  · next hc =>
      obtain ⟨s, hs, -⟩ := hr.contains_iff.mp hc
      rw [hs] at h
      have hname {name : Name} (he : s.name? = some name) (h : (names.lookup name).map (fun s => [letters s]) = .error f) :
          ∃ name, p.typeName? t = .ok (some name) ∧ names.lookup name = .error f := by
        refine ⟨name, by rw [typeName?, hs]; exact congrArg Except.ok he, ?_⟩
        cases hl : names.lookup name with
        | error f' =>
            rw [hl] at h
            cases h
            rfl
        | ok s =>
            rw [hl] at h
            cases h
      cases s with
      | builtin b => cases b <;> cases h
      | container c k =>
          by_cases hc : c = .array
          · subst hc
            left
            cases hu : p.isUnion k with
            | error f' =>
                obtain ⟨rfl, hk⟩ := isUnion_eq_error.mp hu
                simp only [Except.bind, shapePieces, hu] at h
                cases h
                exact ⟨k, hs, hk, rfl⟩
            | ok b =>
                simp only [Except.bind, shapePieces, hu] at h
                cases b <;> cases h
          · simp only [Except.bind, shapePieces_container hc] at h
            split at h <;> cases h
      | function params ret =>
          simp only [Except.bind, shapePieces] at h
          split at h <;> cases h
      | union v =>
          obtain ⟨name, ms⟩ := v
          cases name with
          | none => cases h
          | some name => exact .inr (hname rfl h)
      | nominal k name => exact .inr (hname rfl h)
      | tuple elems | reserved => cases h
  · cases h

def Finishes (p : Pool) (names : Interner) (t : TypeId) : Prop :=
  ∀ written, p.Prints names [part t] written (p.writeText names t written) ∧ Ends (p.writeText names t written)

def Appends (p : Pool) (names : Interner) (t : TypeId) : Prop :=
  ∃ s, p.text names t = .ok s ∧ ∀ written, p.Prints names [part t] written (.ok (written ++ s)) ∧
    p.writeText names t written = .ok (written ++ s)

def MeetsMissing (p : Pool) (t elem : TypeId) : Prop :=
  ∃ array, ReflTransGen p.Follows t array ∧ p.shape array = .ok (.container .array elem) ∧ p.size ≤ elem.raw.toNat

namespace Cyclefree

theorem ends (h : p.Cyclefree t) (hr : p.Readable) (names : Interner) : Ends (p.text names t) := by
  intro e he
  rcases textWithin_error hr he with ⟨u, -, hu⟩ | ⟨walk, h0, hw⟩
  · rcases pieces_error hr hu with ⟨elem, -, -, hf⟩ | ⟨name, -, hl⟩
    · cases hf
    · cases lookup_error hl
  · exact absurd (h.length_le h0 hw) (Nat.not_succ_le_self _)

theorem finishes (h : p.Cyclefree t) (hr : p.Readable) (names : Interner) : p.Finishes names t := by
  have he := h.ends hr names
  intro written
  refine ⟨prints_textWithin t written he, fun e hw => ?_⟩
  cases hx : p.text names t with
  | error f =>
      rw [writeText, hx] at hw
      cases hw
      exact he e hx
  | ok s =>
      rw [writeText, hx] at hw
      cases hw

theorem text_error (h : p.Cyclefree t) (hr : p.Readable) (hk : p.Knows names t) (hf : p.text names t = .error f) :
    ∃ elem, p.MeetsMissing t elem ∧ f = .unknownType elem := by
  rcases textWithin_error hr hf with ⟨u, htu, hu⟩ | ⟨walk, h0, hw⟩
  · rcases pieces_error hr hu with ⟨elem, hs, hlt, rfl⟩ | ⟨name, hn, hl⟩
    · exact ⟨elem, ⟨u, htu, hs, hlt⟩, rfl⟩
    · obtain ⟨s, hs⟩ := hk u name htu hn
      cases hs.symm.trans hl
  · exact absurd (h.length_le h0 hw) (Nat.not_succ_le_self _)

theorem appends (h : p.Cyclefree t) (hr : p.Readable) {s : String} (hs : p.text names t = .ok s) :
    p.Appends names t := by
  have hw (written : String) : p.writeText names t written = .ok (written ++ s) := by
    rw [writeText, hs]
    rfl
  exact ⟨s, hs, fun written => ⟨hw written ▸ (h.finishes hr names written).1, hw written⟩⟩

theorem appends_of_linked (h : p.Cyclefree t) (hr : p.Readable) (hl : p.Linked) (hk : p.Knows names t) :
    p.Appends names t := by
  cases hs : p.text names t with
  | ok s => exact h.appends hr hs
  | error f =>
      obtain ⟨elem, ⟨array, -, harray, hlt⟩, -⟩ := h.text_error hr hk hs
      exact absurd (hl array _ harray elem List.mem_cons_self) (Nat.not_lt.mpr hlt)

end Cyclefree

/-- Writing the text of a type ends when nothing that is reached from it is part of its own text. This
is so of all types when they are in use before they are mentioned and unnamed unions get earlier
members only. -/
theorem writing_finishes (qs : List PoolRequest) :
    (initial.AdmitsAll qs → ExtendsUnnamed LetsEarlier initial qs → (initial.run qs).Ordered ∧
      ∀ t names, (initial.run qs).Knows names t → (initial.run qs).Appends names t) ∧
    (ExtendsUnnamed LetsBuiltin initial qs → ExtendsUnnamed LetsEarlier initial qs) ∧
    ∀ t, (initial.run qs).Cyclefree t → ∀ names, (initial.run qs).Finishes names t ∧
      ((initial.run qs).Knows names t → (initial.AdmitsAll qs → (initial.run qs).Appends names t) ∧
        ((initial.run qs).Appends names t ∨ ∃ elem, (initial.run qs).MeetsMissing t elem ∧
          (initial.run qs).text names t = .error (.unknownType elem))) := by
  have hs := sound_initial.run qs
  refine ⟨?_, .earlier sound_initial unionsLast_initial, ?_⟩
  · intro ha hq
    have ho := ordered_run sound_initial ordered_initial ha hq
    refine ⟨ho, fun t names hk => ?_⟩
    exact (ho.cyclefree t).appends_of_linked hs.readable (linked_run sound_initial linked_initial ha) hk
  · intro t hc names
    refine ⟨hc.finishes hs.readable names, fun hk => ⟨fun ha => ?_, ?_⟩⟩
    · exact hc.appends_of_linked hs.readable (linked_run sound_initial linked_initial ha) hk
    · cases ht : (initial.run qs).text names t with
      | ok s => exact .inl (hc.appends hs.readable ht)
      | error f =>
          obtain ⟨elem, hm, rfl⟩ := hc.text_error hs.readable hk ht
          exact .inr ⟨elem, hm, rfl⟩

/-- An array of a union that a conversion gives an error, and a map of a named union that has this map
for a member. -/
theorem writing_finishes_recursive :
    let qs : List PoolRequest := [.type (.union none [.int]), .type (.container .array ⟨64⟩),
      .type (.union (some ⟨12⟩) [.nil]), .type (.container .map ⟨66⟩), .type (.addMember ⟨66⟩ ⟨67⟩),
      .conversion ⟨.any, ⟨64⟩, .nop, false, false⟩ .error]
    let p := initial.run qs
    let names := Interner.initial fun _ => 0
    initial.AdmitsAll qs ∧ ExtendsUnnamed LetsBuiltin initial qs ∧ p.Ordered ∧ p.members ⟨66⟩ = .ok [.nil, ⟨67⟩] ∧
      (∀ t, p.Cyclefree t ∧ p.Knows names t ∧ p.Finishes names t ∧ p.Appends names t) ∧
      p.writeText names ⟨65⟩ "element: " = .ok "element: (int|error)[]" ∧ p.writeText names ⟨67⟩ "" = .ok "map<json>" ∧
      p.writeText names ⟨900⟩ "" = .ok "<invalid>" := by
  intro qs p names
  have ha : initial.AdmitsAll qs := by decide +kernel
  have hq : ExtendsUnnamed LetsBuiltin initial qs := by
    refine ⟨?_, ?_, ?_, ?_, ?_, ?_, trivial⟩
    · rintro t m ms ⟨⟩
    · rintro t m ms ⟨⟩
    · rintro t m ms ⟨⟩
    · rintro t m ms ⟨⟩
    · rintro t m ms ⟨⟩ hs
      have hname : (initial.run (qs.take 4)).shape ⟨66⟩ = .ok (.union ⟨some ⟨12⟩, [.nil]⟩) := by decide +kernel
      cases hname.symm.trans hs
    · rintro t m ms ⟨⟩ - - -
      exact ⟨by simp, by decide⟩
  obtain ⟨hwell, hearlier, hfree⟩ := writing_finishes qs
  obtain ⟨ho, happends⟩ := hwell ha (hearlier hq)
  have hnames : ∀ i : Fin 69, ∀ name ∈ ((p.typeName? ⟨i.val.toUInt32⟩).toOption.join), names.lookup name = .ok "json" := by
    decide +kernel
  have hk (t : TypeId) : p.Knows names t := by
    intro u name _ hn
    have hu : u.raw.toNat < 69 := by
      obtain ⟨s, hs, -⟩ := map_ok hn
      exact lt_of_shape hs
    refine ⟨"json", hnames ⟨u.raw.toNat, hu⟩ name ?_⟩
    rw [position_toNat, hn]
    rfl
  refine ⟨ha, hq, ho, by decide +kernel, ?_, by decide +kernel, by decide +kernel, by decide +kernel⟩
  intro t
  exact ⟨ho.cyclefree t, hk t, (hfree t (ho.cyclefree t) names).1, happends t names (hk t)⟩

end CompilerSymbols.Pool
