import CompilerSymbols.Proofs.Types.Reading
import CompilerSymbols.Types.Text

namespace CompilerSymbols.Pool

open Piece

variable {p : Pool} {names : Interner} {depth : Nat} {t u : TypeId} {T U : TypeForm} {s : Shape}

def Writes (x : Except Fault String) (cs : List Char) : Prop := x.map String.toList = .ok cs

inductive Spells (p : Pool) (names : Interner) (depth : Nat) : Piece → List Char → Prop
  | letters (s : String) : Spells p names depth (letters s) s.toList
  | part {u : TypeId} {cs : List Char} (h : Writes (p.textWithin names depth u) cs) : Spells p names depth (part u) cs

theorem Writes.exists_text {x : Except Fault String} {cs : List Char} (h : Writes x cs) :
    ∃ s, x = .ok s ∧ s.toList = cs := map_ok h

theorem spells_pieces {ps : List Piece} {css : List (List Char)} (h : List.Forall₂ (p.Spells names depth) ps css) :
    ∃ texts, (ps.mapM fun
      | letters s => pure s
      | part u => p.textWithin names depth u) = Except.ok texts ∧ texts.map String.toList = css := by
  induction h with
  | nil => exact ⟨[], rfl, rfl⟩
  | @cons piece cs ps css hp hps ih =>
      obtain ⟨texts, ht, hc⟩ := ih
      cases hp with
      | letters s =>
          refine ⟨s :: texts, ?_, congrArg _ hc⟩
          rw [List.mapM_cons, ht]
          rfl
      | part hu =>
          obtain ⟨s, hs, hcs⟩ := Writes.exists_text hu
          refine ⟨s :: texts, ?_, by rw [List.map_cons, hc, hcs]⟩
          simp only [List.mapM_cons, hs, ht]
          rfl

theorem writes_textWithin {ps : List Piece} {css : List (List Char)} (hp : p.pieces names t = .ok ps)
    (h : List.Forall₂ (p.Spells names depth) ps css) : Writes (p.textWithin names (depth + 1) t) css.flatten := by
  obtain ⟨texts, ht, rfl⟩ := spells_pieces h
  have hw : p.textWithin names (depth + 1) t = .ok (String.join texts) := by
    rw [textWithin, hp]
    exact congrArg (· >>= fun texts => pure (String.join texts)) ht
  rw [Writes, hw]
  exact congrArg Except.ok (String.toList_join.trans (List.flatMap_def ..))

theorem pieces_eq (hs : p.shape t = .ok s) (hr : s ≠ .reserved) : p.pieces names t = p.shapePieces names s := by
  obtain ⟨i, hi, his⟩ := shape_eq_ok.mp hs
  have hc : p.contains t = true := by
    rw [contains, item?, hi]
    cases i with
    | reserved => exact absurd (Option.some.inj his).symm hr
    | _ => rfl
  rw [pieces, if_pos hc, hs]
  rfl

/-- The builtin types whose texts are left out are known by their positions. -/
theorem Arranged.isBuiltin_iff (ha : p.Arranged) (b : BuiltinTag) (u' : TypeId) (hb : u'.raw.toNat = b.code.toNat)
    (h : p.Forms u U) : U.isBuiltin b = true ↔ u = u' := by
  rw [h.isBuiltin_iff, ha.shape_builtin_iff, ← hb]
  exact TypeId.toNat_injective.eq_iff

theorem spells_separated {ts : List TypeId} {Ts : List TypeForm} (sep : String)
    (h : List.Forall₂ (fun u U => Writes (p.textWithin names depth u) U.chars) ts Ts) :
    List.Forall₂ (p.Spells names depth) (separated sep ts) ((Ts.map TypeForm.chars).intersperse sep.toList) := by
  apply forall₂_intersperse (Spells.letters sep)
  rw [List.forall₂_map_left_iff, List.forall₂_map_right_iff]
  exact h.imp fun _ _ => .part

theorem shapePieces_container {c : ContainerTag} (hc : c ≠ .array) (k : TypeId) : p.shapePieces names (.container c k) =
    if k = .any then .ok [letters c.name] else .ok [letters c.name, letters "<", part k, letters ">"] := by
  cases c with
  | array => exact absurd rfl hc
  | _ => rfl

theorem exists_spelled (ha : p.Arranged) (hT : s.Formed (p.FormedWithin depth) T)
    (hw : ∀ u U, p.FormedWithin depth u U → Writes (p.textWithin names depth u) U.chars) :
    ∃ ps css, p.shapePieces names s = .ok ps ∧ List.Forall₂ (p.Spells names depth) ps css ∧ css.flatten = T.chars := by
  have hlist {us : List TypeId} {Us : List TypeForm} (sep : String) (hus : List.Forall₂ (p.FormedWithin depth) us Us) :
      List.Forall₂ (p.Spells names depth) (separated sep us) ((Us.map TypeForm.chars).intersperse sep.toList) :=
    spells_separated sep (hus.imp hw)
  cases hT with
  | builtin b => cases b <;> exact ⟨_, _, rfl, .cons (.letters _) .nil, rfl⟩
  | @container c k K hk =>
      have hpart := Spells.part (hw k K hk)
      by_cases hc : c = .array
      · subst hc
        have hu : p.isUnion k = .ok K.isUnion := Forms.isUnion ⟨depth, hk⟩
        cases hK : K.isUnion with
        | true =>
            refine ⟨[letters "(", part k, letters ")", letters "[]"], _, by rw [shapePieces, hu, hK]; rfl,
              .cons (.letters _) (.cons hpart (.cons (.letters _) (.cons (.letters _) .nil))), ?_⟩
            rw [TypeForm.chars_array, TypeForm.wrapped_of_union hK]
            simp
        | false =>
            refine ⟨[part k, letters "[]"], _, by rw [shapePieces, hu, hK]; rfl,
              .cons hpart (.cons (.letters _) .nil), ?_⟩
            rw [TypeForm.chars_array, TypeForm.wrapped_eq_chars hK]
            simp
      · have hany := ha.isBuiltin_iff .any .any rfl ⟨depth, hk⟩
        rw [shapePieces_container hc, TypeForm.chars_container hc]
        by_cases he : k = .any
        · refine ⟨_, _, if_pos he, .cons (.letters _) .nil, ?_⟩
          simp [TypeForm.optional, hany.mpr he]
        · refine ⟨_, _, if_neg he, .cons (.letters _) (.cons (.letters _) (.cons hpart (.cons (.letters _) .nil))), ?_⟩
          simp [TypeForm.optional, mt hany.mp he]
  | @function ps r Ps Ret hps hr =>
      have hnil := ha.isBuiltin_iff .nil .nil rfl ⟨depth, hr⟩
      rw [TypeForm.chars_function, TypeForm.listed, List.intercalate]
      by_cases he : r = .nil
      · refine ⟨_, _, if_pos he, .cons (.letters _) (List.rel_append (hlist ", " hps) (.cons (.letters _) .nil)), ?_⟩
        simp [TypeForm.optional, hnil.mpr he]
      · refine ⟨_, _, if_neg he, .cons (.letters _) (List.rel_append (List.rel_append (hlist ", " hps)
          (.cons (.letters _) .nil)) (.cons (.letters _) (.cons (.part (hw _ _ hr)) (.cons (.letters _) .nil)))), ?_⟩
        simp [TypeForm.optional, mt hnil.mp he]
  | tuple hes =>
      refine ⟨_, _, rfl, .cons (.letters _) (List.rel_append (hlist ", " hes) (.cons (.letters _) .nil)), ?_⟩
      rw [TypeForm.chars_tuple, TypeForm.listed, List.intercalate]
      simp
  | union hms => exact ⟨_, _, rfl, hlist "|" hms, (TypeForm.chars_union _).symm⟩

theorem writes_formed (ha : p.Arranged) (h : p.FormedWithin depth t T) :
    Writes (p.textWithin names depth t) T.chars := by
  induction depth generalizing t T with
  | zero => exact h.elim
  | succ depth ih =>
      obtain ⟨s, hs, hT⟩ := h
      obtain ⟨ps, css, hps, hcss, hchars⟩ := exists_spelled ha hT fun _ _ => ih
      rw [← hchars]
      exact writes_textWithin ((pieces_eq hs hT.ne_reserved).trans hps) hcss

theorem Forms.exists_text (ha : p.Arranged) (h : p.Forms t T) (names : Interner) :
    ∃ s, p.text names t = .ok s ∧ s.toList = T.chars :=
  map_ok (writes_formed ha h.within_size.succ)

/-- Plain types have texts, which are equal when the types have the same structure and not otherwise.
Types in which no union occurs are even the same type then. -/
theorem texts_unambiguous (qs : List PoolRequest) (names : Interner) (t t' : TypeId) (T T' : TypeForm)
    (h : (Pool.initial.run qs).Forms t T) (h' : (Pool.initial.run qs).Forms t' T') (hT : T.Plain) (hT' : T'.Plain) :
    ∃ s s', (Pool.initial.run qs).text names t = .ok s ∧ (Pool.initial.run qs).text names t' = .ok s' ∧
      (s = s' ↔ T = T') ∧ ((Pool.initial.run qs).Fits → T.UnionFree → (s = s' ↔ t = t')) := by
  have ha := arranged_run qs
  obtain ⟨s, hs, hc⟩ := h.exists_text ha names
  obtain ⟨s', hs', hc'⟩ := h'.exists_text ha names
  have heq : s = s' ↔ T = T' := by
    constructor
    · rintro rfl
      exact TypeForm.chars_injective hT hT' (hc.symm.trans hc')
    · rintro rfl
      exact String.toList_inj.mp (hc.trans hc'.symm)
  refine ⟨s, s', hs, hs', heq, fun hf hu => ⟨?_, ?_⟩⟩
  · intro he
    obtain rfl := heq.mp he
    obtain ⟨rs, hr, -⟩ := Represents.initial.run hf
    exact FormedWithin.injective hr ha hu h.within_size h'.within_size
  · rintro rfl
    exact Except.ok.inj (hs.symm.trans hs')

/-- Two function types whose parameters are arrays of equal unions at different positions are written
alike. A function type that returns an array is not written like an array of functions. -/
theorem texts_unambiguous_nested :
    let qs : List PoolRequest := [.type (.union none [.int, .string]), .type (.union none [.int, .string]),
      .type (.container .array ⟨64⟩), .type (.container .array ⟨65⟩), .type (.function [⟨66⟩] .nil),
      .type (.function [⟨67⟩] .nil), .type (.container .array .int), .type (.function [] ⟨70⟩),
      .type (.function [] .int), .type (.container .array ⟨72⟩)]
    let p := Pool.initial.run qs
    let names := Interner.initial fun _ => 0
    let callback : TypeForm := .function [.container .array (.union [.builtin .int, .builtin .string])] (.builtin .nil)
    let returning : TypeForm := .function [] (.container .array (.builtin .int))
    let array : TypeForm := .container .array (.function [] (.builtin .int))
    p.Fits ∧ p.Forms ⟨68⟩ callback ∧ p.Forms ⟨69⟩ callback ∧ callback.Plain ∧ p.Forms ⟨71⟩ returning ∧ returning.Plain ∧
      returning.UnionFree ∧ p.Forms ⟨73⟩ array ∧ array.Plain ∧ (∃ s, p.text names ⟨68⟩ = .ok s ∧ p.text names ⟨69⟩ = .ok s) ∧
      ∃ s s', p.text names ⟨71⟩ = .ok s ∧ p.text names ⟨73⟩ = .ok s' ∧ s ≠ s' := by
  intro qs p names callback returning array
  have hf : p.Fits := by decide +kernel
  have hb (b : BuiltinTag) (t : TypeId) (ht : t.raw.toNat = b.code.toNat) : p.Forms t (.builtin b) :=
    .of_shape ((arranged_run qs).shape_builtin_iff.mpr ht) (.builtin b)
  have hint := hb .int .int rfl
  have hcallback (t u v : TypeId) (ht : p.shape t = .ok (.function [u] .nil)) (hu : p.shape u = .ok (.container .array v))
      (hv : p.shape v = .ok (.union ⟨none, [.int, .string]⟩)) : p.Forms t callback := by
    have hunion := Forms.of_shape hv (.union (.cons hint (.cons (hb .string .string rfl) .nil)))
    exact .of_shape ht (.function (.cons (.of_shape hu (.container .array hunion)) .nil) (hb .nil .nil rfl))
  have h68 := hcallback ⟨68⟩ ⟨66⟩ ⟨64⟩ (by decide +kernel) (by decide +kernel) (by decide +kernel)
  have h69 := hcallback ⟨69⟩ ⟨67⟩ ⟨65⟩ (by decide +kernel) (by decide +kernel) (by decide +kernel)
  have h71 : p.Forms ⟨71⟩ returning :=
    .of_shape (s := .function [] ⟨70⟩) (by decide +kernel)
      (.function .nil (.of_shape (s := .container .array .int) (by decide +kernel) (.container .array hint)))
  have h73 : p.Forms ⟨73⟩ array :=
    .of_shape (s := .container .array ⟨72⟩) (by decide +kernel)
      (.container .array (.of_shape (s := .function [] .int) (by decide +kernel) (.function .nil hint)))
  have hcallback : callback.Plain := by simp [callback, TypeForm.Plain, TypeForm.Regular, TypeForm.isUnion]
  have hreturning : returning.Plain := by simp [returning, TypeForm.Plain, TypeForm.Regular]
  have hfree : returning.UnionFree := by simp [returning, TypeForm.UnionFree, TypeForm.isUnion]
  have harray : array.Plain := by simp [array, TypeForm.Plain, TypeForm.Regular]
  refine ⟨hf, h68, h69, hcallback, h71, hreturning, hfree, h73, harray, ?_, ?_⟩
  · obtain ⟨s, s', hs, hs', he, -⟩ := texts_unambiguous qs names ⟨68⟩ ⟨69⟩ callback callback h68 h69 hcallback hcallback
    obtain rfl := he.mpr rfl
    exact ⟨s, hs, hs'⟩
  · obtain ⟨s, s', hs, hs', -, he⟩ := texts_unambiguous qs names ⟨71⟩ ⟨73⟩ returning array h71 h73 hreturning harray
    exact ⟨s, s', hs, hs', fun hss => absurd ((he hf hfree).mp hss) (by decide)⟩

end CompilerSymbols.Pool
