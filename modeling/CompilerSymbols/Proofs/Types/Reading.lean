import CompilerSymbols.Proofs.Types.Spelling

namespace CompilerSymbols.TypeForm

def Readable (A : TypeForm) : Prop := ∀ B : TypeForm, B.Plain → Reads chars typeStops A B

section Heads

/-- The types whose texts stand in that of a member of a union or an element of an array. -/
def inner (T : TypeForm) : List TypeForm := if T.isUnion then [T] else T.parts

theorem inner_of_union {T : TypeForm} (h : T.isUnion = true) : T.inner = [T] := if_pos h

theorem inner_of_not_union {T : TypeForm} (h : T.isUnion = false) : T.inner = T.parts := by
  rw [inner, h]
  rfl

def isGroup : TypeForm → Bool
  | builtin .nil | tuple _ | union _ => true
  | _ => false

def isArray : TypeForm → Bool
  | container .array _ => true
  | _ => false

inductive Opens : TypeForm → Lead → List Char → Prop
  | group {T : TypeForm} (hT : T.isGroup = true) : Opens T .group (listed T.inner ++ [')'])
  | builtin (b : BuiltinTag) : Opens (.builtin b) (.builtin b) []
  | container (c : ContainerTag) (k : TypeForm) :
      Opens (.container c k) (.container c) (optional (k.isBuiltin .any) ['<'] k.chars ['>'])
  | function (ps : List TypeForm) (r : TypeForm) : Opens (.function ps r) .function
      (listed ps ++ ')' :: optional (r.isBuiltin .nil) " returns (".toList r.chars [')'])

theorem exists_opens {T : TypeForm} (hT : T.isArray = false) : ∃ l r, T.Opens l r ∧ T.wrapped = l.text ++ r := by
  cases T with
  | builtin b =>
      cases b with
      | nil => exact ⟨_, _, .group rfl, rfl⟩
      | _ => exact ⟨_, _, .builtin _, rfl⟩
  | container c k =>
      cases c with
      | array => cases hT
      | _ => exact ⟨_, _, .container _ k, rfl⟩
  | function ps r => exact ⟨_, _, .function ps r, (wrapped_eq_chars rfl).trans (chars_function ps r)⟩
  | tuple es => exact ⟨_, _, .group rfl, (wrapped_eq_chars rfl).trans (chars_tuple es)⟩
  | union ms =>
      refine ⟨_, _, .group rfl, (wrapped_of_union rfl).trans ?_⟩
      rw [listed, inner_of_union rfl, List.map_singleton, List.intercalate_singleton]
      rfl

variable {A B T : TypeForm} {l : Lead} {x y r r' : List Char} {b : BuiltinTag} {c c' : Char} {s s' : List Char}

theorem isBuiltin_iff : T.isBuiltin b = true ↔ T = .builtin b := by
  cases T <;> simp [isBuiltin]

/-- What is left out is read as what it stands for, since nothing else can follow. -/
theorem optional_reads (hAB : Reads chars typeStops A B) (hc : c ∉ baseStops) (hc' : c' ∈ typeStops)
    (hr : Stops baseStops r) (hr' : Stops baseStops r')
    (h : optional (A.isBuiltin b) (c :: s) A.chars (c' :: s') ++ r =
      optional (B.isBuiltin b) (c :: s) B.chars (c' :: s') ++ r') : A = B ∧ r = r' := by
  unfold optional at h
  split at h
  · next hA =>
      split at h
      · next hB => exact ⟨(isBuiltin_iff.mp hA).trans (isBuiltin_iff.mp hB).symm, h⟩
      · exact absurd h (hr.ne_cons hc)
  · split at h
    · exact absurd h.symm (hr'.ne_cons hc)
    · simp only [List.append_assoc, List.append_cancel_left_eq] at h
      obtain ⟨rfl, hrest⟩ := hAB _ _ (stops_cons.mpr hc') (stops_cons.mpr hc') h
      exact ⟨rfl, List.append_cancel_left (List.tail_eq_of_cons_eq hrest)⟩

end Heads

namespace Plain

variable {A B T : TypeForm} {l : Lead} {x y r r' : List Char}

theorem regular (h : T.Plain) : T.Regular := (Throughout.iff_parts.mp h).1

theorem parts (h : T.Plain) : ∀ P ∈ T.parts, P.Plain := (Throughout.iff_parts.mp h).2

theorem inner (h : T.Plain) : ∀ P ∈ T.inner, P.Plain := by
  unfold TypeForm.inner
  split
  · simpa using h
  · exact h.parts

theorem eq_of_inner (hA : A.Plain) (hB : B.Plain) (ha : A.isGroup = true) (hb : B.isGroup = true)
    (h : A.inner = B.inner) : A = B := by
  have hrA := hA.regular
  have hrB := hB.regular
  cases A <;> cases B <;> grind [Regular, TypeForm.inner, isGroup, isUnion, TypeForm.parts]

theorem starts (h : T.Plain) : T.Starts := by
  induction h with
  | @mk T hr hparts ih =>
      cases T with
      | builtin b => cases b <;> exact ⟨_, _, rfl, by decide⟩
      | container c k =>
          cases c with
          | array =>
              cases hu : k.isUnion with
              | true => exact ⟨'(', _, by rw [chars_array, wrapped_of_union hu, List.cons_append], by decide⟩
              | false =>
                  obtain ⟨c, cs, hk, hc⟩ := ih k List.mem_cons_self
                  exact ⟨c, _, by rw [chars_array, wrapped_eq_chars hu, hk, List.cons_append], hc⟩
          | _ => exact ⟨_, _, rfl, by decide⟩
      | function ps r | tuple es => exact ⟨_, _, rfl, by decide⟩
      | union ms =>
          cases ms with
          | nil => cases hr.1
          | cons m ms =>
              obtain ⟨c, cs, hm, hc⟩ := ih m List.mem_cons_self
              exact ⟨c, _, by rw [chars_union, intercalate_map_cons, hm, List.cons_append], hc⟩

theorem opens_reads (hA : A.Plain) (hB : B.Plain) (hx : A.Opens l x) (hy : B.Opens l y)
    (hU : ∀ P ∈ A.inner, P.Readable) (hr : Stops baseStops r) (hr' : Stops baseStops r')
    (h : x ++ r = y ++ r') : A = B ∧ r = r' := by
  have hlisted {Ps Qs : List TypeForm} (hPs : Ps ⊆ A.inner) (hQs : Qs ⊆ B.inner) {r r' : List Char}
      (h : listed Ps ++ ')' :: r = listed Qs ++ ')' :: r') : Ps = Qs ∧ r = r' :=
    listed_reads (fun P hP Q hQ => hU P (hPs hP) Q (hB.inner Q (hQs hQ))) (fun P hP => (hA.inner P (hPs hP)).starts)
      (fun Q hQ => (hB.inner Q (hQs hQ)).starts) h
  cases hx with
  | group ha =>
      cases hy with
      | group hb =>
          simp only [List.append_assoc, List.singleton_append] at h
          obtain ⟨hi, hr⟩ := hlisted (List.Subset.refl _) (List.Subset.refl _) h
          exact ⟨eq_of_inner hA hB ha hb hi, hr⟩
  | builtin b =>
      cases hy
      exact ⟨rfl, h⟩
  | container c k =>
      cases hy with
      | container _ k' =>
          obtain ⟨rfl, hr⟩ := optional_reads (hU k List.mem_cons_self k' (hB.inner k' List.mem_cons_self)) (by decide)
            (by decide) hr hr' h
          exact ⟨rfl, hr⟩
  | function ps ret =>
      cases hy with
      | function ps' ret' =>
          simp only [List.append_assoc, List.cons_append] at h
          obtain ⟨rfl, hrest⟩ := hlisted (List.subset_append_left ..) (List.subset_append_left ..) h
          have hlast {ps : List TypeForm} {ret : TypeForm} : ret ∈ ps ++ [ret] :=
            List.mem_append_right _ List.mem_cons_self
          obtain ⟨rfl, hr⟩ := optional_reads (hU ret hlast ret' (hB.inner ret' hlast)) (by decide) (by decide) hr hr' hrest
          exact ⟨rfl, hr⟩

end Plain

section Suffixes

/-- What is left of an array when all its pairs of square brackets are taken off. -/
def base : TypeForm → TypeForm
  | container .array elem => elem.base
  | T => T

def dims : TypeForm → Nat
  | container .array elem => elem.dims + 1
  | _ => 0

def brackets : Nat → List Char
  | 0 => []
  | n + 1 => '[' :: ']' :: brackets n

variable {A B T : TypeForm} {n m : Nat} {r r' : List Char}

theorem brackets_succ (n : Nat) : brackets (n + 1) = brackets n ++ ['[', ']'] := by
  induction n with
  | zero => rfl
  | succ n ih => exact congrArg (fun r => '[' :: ']' :: r) ih

theorem stops_brackets (hr : Stops memberStops r) : Stops baseStops (brackets n ++ r) := by
  cases n with
  | zero => exact hr.mono (List.subset_cons_self ..)
  | succ n => exact stops_cons.mpr List.mem_cons_self

theorem brackets_reads (hr : Stops memberStops r) (hr' : Stops memberStops r') (h : brackets n ++ r = brackets m ++ r') :
    n = m ∧ r = r' := by
  induction n generalizing m with
  | zero =>
      cases m with
      | zero => exact ⟨rfl, h⟩
      | succ m => exact absurd h (hr.ne_cons (by decide))
  | succ n ih =>
      cases m with
      | zero => exact absurd h.symm (hr'.ne_cons (by decide))
      | succ m =>
          obtain ⟨rfl, hrest⟩ := ih (List.tail_eq_of_cons_eq (List.tail_eq_of_cons_eq h))
          exact ⟨rfl, hrest⟩

theorem base_of_not_array (h : T.isArray = false) : T.base = T ∧ T.dims = 0 := by
  cases T with
  | container c k =>
      cases c with
      | array => cases h
      | _ => exact ⟨rfl, rfl⟩
  | _ => exact ⟨rfl, rfl⟩

theorem eq_array (h : T.isArray = true) : ∃ elem, T = .container .array elem := by
  cases T with
  | container c k =>
      cases c with
      | array => exact ⟨k, rfl⟩
      | _ => cases h
  | _ => cases h

theorem array_induction {P : TypeForm → Prop} (array : ∀ elem, P elem → P (.container .array elem))
    (other : ∀ T, T.isArray = false → P T) (T : TypeForm) : P T := by
  fun_induction base T with
  | case1 elem ih => exact array elem ih
  | case2 T hT => exact other T (Bool.eq_false_iff.mpr fun h => (eq_array h).elim hT)

theorem isArray_base (T : TypeForm) : T.base.isArray = false := by
  induction T using array_induction with
  | array elem ih => exact ih
  | other T hT => rwa [(base_of_not_array hT).1]

theorem iterate_base (T : TypeForm) : (container .array)^[T.dims] T.base = T := by
  induction T using array_induction with
  | array elem ih => rw [dims, base, Function.iterate_succ_apply', ih]
  | other T hT => rw [(base_of_not_array hT).1, (base_of_not_array hT).2, Function.iterate_zero_apply]

theorem wrapped_eq_base (T : TypeForm) : T.wrapped = T.base.wrapped ++ brackets T.dims := by
  induction T using array_induction with
  | array elem ih =>
      rw [wrapped_eq_chars rfl, chars_array, ih, base, dims, brackets_succ, List.append_assoc]
  | other T hT => rw [(base_of_not_array hT).1, (base_of_not_array hT).2, brackets, List.append_nil]

theorem Plain.base (h : T.Plain) : T.base.Plain := by
  induction T using array_induction with
  | array elem ih => exact ih (h.parts elem List.mem_cons_self)
  | other T hT => rwa [(base_of_not_array hT).1]

/-- Without its square brackets, an element or a member is told apart from all plain types. -/
def BaseReadable (A : TypeForm) : Prop := ∀ B : TypeForm, B.Plain → Reads wrapped baseStops A.base B.base

theorem wrapped_reads (h : Reads wrapped baseStops A.base B.base) : Reads wrapped memberStops A B := by
  intro r r' hr hr' he
  rw [A.wrapped_eq_base, B.wrapped_eq_base, List.append_assoc, List.append_assoc] at he
  obtain ⟨hb, he⟩ := h _ _ (stops_brackets hr) (stops_brackets hr') he
  obtain ⟨hd, he⟩ := brackets_reads hr hr' he
  exact ⟨by rw [← A.iterate_base, ← B.iterate_base, hb, hd], he⟩

theorem base_reads (hA : A.base.Plain) (hU : ∀ P ∈ A.base.inner, P.Readable) : A.BaseReadable := by
  intro B hB r r' hr hr' h
  obtain ⟨l, x, hx, hxA⟩ := exists_opens A.isArray_base
  obtain ⟨l', y, hy, hyB⟩ := exists_opens B.isArray_base
  rw [hxA, hyB, List.append_assoc, List.append_assoc] at h
  obtain ⟨rfl, hrest⟩ := Lead.reads h
  exact hA.opens_reads hB.base hx hy hU hr hr' hrest

end Suffixes

section Types

variable {A B T : TypeForm}

def members (T : TypeForm) : List TypeForm := if T.isUnion then T.parts else [T]

theorem eq_union (h : T.isUnion = true) : ∃ ms, T = .union ms := by
  cases T with
  | union ms => exact ⟨ms, rfl⟩
  | _ => cases h

theorem members_of_not_union (h : T.isUnion = false) : T.members = [T] := by
  rw [members, h]
  rfl

theorem Plain.members (h : T.Plain) : ∀ M ∈ T.members, M.Plain := by
  unfold TypeForm.members
  split
  · exact h.parts
  · simpa using h

theorem Plain.two_le_members (h : T.Plain) (hu : T.isUnion = true) : 2 ≤ T.members.length := by
  obtain ⟨ms, rfl⟩ := eq_union hu
  exact h.regular.1

theorem Plain.members_ne_nil (h : T.Plain) : T.members ≠ [] := by
  cases hu : T.isUnion with
  | false => simp [members_of_not_union hu]
  | true => exact List.ne_nil_of_length_pos (Nat.lt_of_lt_of_le Nat.two_pos (h.two_le_members hu))

theorem Plain.eq_of_members (hA : A.Plain) (hB : B.Plain) (h : A.members = B.members) : A = B := by
  cases hu : A.isUnion with
  | true =>
      have hlen := hA.two_le_members hu
      cases hv : B.isUnion with
      | true =>
          obtain ⟨ms, rfl⟩ := eq_union hu
          obtain ⟨ns, rfl⟩ := eq_union hv
          exact congrArg union h
      | false => simp [h, members_of_not_union hv] at hlen
  | false =>
      cases hv : B.isUnion with
      | true =>
          have hlen := hB.two_le_members hv
          simp [← h, members_of_not_union hu] at hlen
      | false => simpa [members_of_not_union hu, members_of_not_union hv] using h

theorem Plain.chars_eq (h : T.Plain) : T.chars = ['|'].intercalate (T.members.map wrapped) := by
  cases hu : T.isUnion with
  | false => rw [members_of_not_union hu, List.map_singleton, List.intercalate_singleton, wrapped_eq_chars hu]
  | true =>
      obtain ⟨ms, rfl⟩ := eq_union hu
      rw [chars_union]
      exact congrArg _ (List.map_congr_left fun m hm => (wrapped_eq_chars (h.regular.2 m hm)).symm)

theorem Plain.readable_of_members (hA : A.Plain) (hM : ∀ M ∈ A.members, M.BaseReadable) : A.Readable := by
  intro B hB r r' hr hr' h
  rw [hA.chars_eq, hB.chars_eq] at h
  obtain ⟨hm, hrest⟩ := intercalate_reads (fun M hM' N hN => wrapped_reads (hM M hM' N (hB.members N hN))) (by decide)
    hA.members_ne_nil hB.members_ne_nil hr hr' h
  exact ⟨hA.eq_of_members hB hm, hrest⟩

/-- A union is read member by member, and only then in brackets. All other types are read from the
beginning of their texts on, and only then as the single member of what could be a union. -/
theorem Plain.reads (h : A.Plain) : A.BaseReadable ∧ A.Readable := by
  induction h with
  | @mk A hr hparts ih =>
      have hA : A.Plain := ⟨hr, hparts⟩
      cases hu : A.isUnion with
      | true =>
          obtain ⟨ms, rfl⟩ := eq_union hu
          have htext : (union ms).Readable := hA.readable_of_members fun M hM => (ih M hM).1
          refine ⟨base_reads hA.base ?_, htext⟩
          change ∀ P ∈ [union ms], P.Readable
          simpa using htext
      | false =>
          have hbase : A.BaseReadable := by
            cases ha : A.isArray with
            | true =>
                obtain ⟨elem, rfl⟩ := eq_array ha
                exact (ih elem List.mem_cons_self).1
            | false =>
                apply base_reads hA.base
                rw [(base_of_not_array ha).1, inner_of_not_union hu]
                exact fun P hP => (ih P hP).2
          refine ⟨hbase, hA.readable_of_members ?_⟩
          simpa [members_of_not_union hu] using hbase

theorem chars_injective (hA : A.Plain) (hB : B.Plain) (h : A.chars = B.chars) : A = B :=
  (hA.reads.2 B hB [] [] .nil .nil (congrArg (· ++ []) h)).1

end Types

end CompilerSymbols.TypeForm
