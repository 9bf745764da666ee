import CompilerSymbols.Proofs.Types.Items
import CompilerSymbols.Proofs.Types.Meaning
import Mathlib.Data.Fintype.Pigeonhole

namespace CompilerSymbols

/-- The structure of a type, without the positions of its parts. -/
inductive TypeForm
  | builtin (b : BuiltinTag)
  | container (c : ContainerTag) (constraint : TypeForm)
  | function (params : List TypeForm) (ret : TypeForm)
  | tuple (elems : List TypeForm)
  | union (members : List TypeForm)

namespace TypeForm

def isBuiltin (b : BuiltinTag) : TypeForm → Bool
  | builtin b' => b' = b
  | _ => false

def isUnion : TypeForm → Bool
  | union _ => true
  | _ => false

def parts : TypeForm → List TypeForm
  | builtin _ => []
  | container _ constraint => [constraint]
  | function params ret => params ++ [ret]
  | tuple elems => elems
  | union members => members

inductive Throughout (P : TypeForm → Prop) : TypeForm → Prop
  | mk {T : TypeForm} (self : P T) (parts : ∀ U ∈ T.parts, Throughout P U) : Throughout P T

namespace Throughout

variable {P : TypeForm → Prop}

theorem iff_parts {T : TypeForm} : T.Throughout P ↔ P T ∧ ∀ U ∈ T.parts, U.Throughout P :=
  ⟨fun ⟨self, parts⟩ => ⟨self, parts⟩, fun ⟨self, parts⟩ => ⟨self, parts⟩⟩

@[simp] theorem builtin {b : BuiltinTag} : (TypeForm.builtin b).Throughout P ↔ P (.builtin b) := by
  rw [iff_parts]
  simp [parts]

@[simp] theorem container {c : ContainerTag} {T : TypeForm} :
    (TypeForm.container c T).Throughout P ↔ P (.container c T) ∧ T.Throughout P := by
  rw [iff_parts]
  simp [parts]

@[simp] theorem function {Ts : List TypeForm} {T : TypeForm} :
    (TypeForm.function Ts T).Throughout P ↔ P (.function Ts T) ∧ (∀ U ∈ Ts, U.Throughout P) ∧ T.Throughout P := by
  rw [iff_parts]
  simp [parts, or_imp, forall_and]

@[simp] theorem tuple {Ts : List TypeForm} :
    (TypeForm.tuple Ts).Throughout P ↔ P (.tuple Ts) ∧ ∀ U ∈ Ts, U.Throughout P :=
  iff_parts

@[simp] theorem union {Ts : List TypeForm} :
    (TypeForm.union Ts).Throughout P ↔ P (.union Ts) ∧ ∀ U ∈ Ts, U.Throughout P :=
  iff_parts

end Throughout

/-- Tuples have two elements at least, and unions two members at least that are no unions. -/
def Regular : TypeForm → Prop
  | tuple elems => 2 ≤ elems.length
  | union members => 2 ≤ members.length ∧ ∀ m ∈ members, m.isUnion = false
  | _ => True

def Plain (T : TypeForm) : Prop := T.Throughout Regular

def UnionFree (T : TypeForm) : Prop := T.Throughout (·.isUnion = false)

end TypeForm

namespace Shape

/-- What form a type of this shape has, when `R` says what forms its parts have. Nominal types and
named unions have none. -/
inductive Formed (R : TypeId → TypeForm → Prop) : Shape → TypeForm → Prop
  | builtin (b : BuiltinTag) : Formed R (.builtin b) (.builtin b)
  | container (c : ContainerTag) {k : TypeId} {K : TypeForm} (hk : R k K) : Formed R (.container c k) (.container c K)
  | function {ps : List TypeId} {r : TypeId} {Ps : List TypeForm} {Ret : TypeForm} (hps : List.Forall₂ R ps Ps)
      (hr : R r Ret) : Formed R (.function ps r) (.function Ps Ret)
  | tuple {es : List TypeId} {Es : List TypeForm} (hes : List.Forall₂ R es Es) : Formed R (.tuple es) (.tuple Es)
  | union {ms : List TypeId} {Ms : List TypeForm} (hms : List.Forall₂ R ms Ms) :
      Formed R (.union ⟨none, ms⟩) (.union Ms)

namespace Formed

variable {R S : TypeId → TypeForm → Prop} {s s' : Shape} {T T' : TypeForm}

theorem imp (h : s.Formed R T) (hRS : ∀ u U, R u U → S u U) : s.Formed S T := by
  cases h with
  | builtin b => exact .builtin b
  | container c hk => exact .container c (hRS _ _ hk)
  | function hps hr => exact .function (hps.imp hRS) (hRS _ _ hr)
  | tuple hes => exact .tuple (hes.imp hRS)
  | union hms => exact .union (hms.imp hRS)

theorem form_eq (h : s.Formed R T) (h' : s.Formed S T') (hRS : ∀ {u U U'}, R u U → S u U' → U = U') : T = T' := by
  have hlist {us : List TypeId} {Us Us' : List TypeForm} (hus : List.Forall₂ R us Us) (hus' : List.Forall₂ S us Us') :
      Us = Us' :=
    eq_of_forall₂ (R := flip R) (S := flip S) (fun hU hU' => hRS hU hU') hus.flip hus'.flip
  cases h with
  | builtin b =>
      cases h'
      rfl
  | container c hk =>
      cases h' with
      | container _ hk' => rw [hRS hk hk']
  | function hps hr =>
      cases h' with
      | function hps' hr' => rw [hRS hr hr', hlist hps hps']
  | tuple hes =>
      cases h' with
      | tuple hes' => rw [hlist hes hes']
  | union hms =>
      cases h' with
      | union hms' => rw [hlist hms hms']

theorem shape_eq (h : s.Formed R T) (h' : s'.Formed S T)
    (hRS : ∀ {u u' U}, U ∈ T.parts → R u U → S u' U → u = u') : s = s' := by
  have hlist {us us' : List TypeId} {Us : List TypeForm} (hsub : Us ⊆ T.parts) (hus : List.Forall₂ R us Us)
      (hus' : List.Forall₂ S us' Us) : us = us' :=
    eq_of_forall₂ (fun ⟨hu, hU⟩ hu' => hRS (hsub hU) hu hu') (forall₂_mem hus) hus'
  cases h with
  | builtin b =>
      cases h'
      rfl
  | container c hk =>
      cases h' with
      | container _ hk' => rw [hRS List.mem_cons_self hk hk']
  | function hps hr =>
      cases h' with
      | function hps' hr' =>
          rw [hRS (List.mem_append_right _ List.mem_cons_self) hr hr', hlist (List.subset_append_left ..) hps hps']
  | tuple hes =>
      cases h' with
      | tuple hes' => rw [hlist (List.Subset.refl _) hes hes']
  | union hms =>
      cases h' with
      | union hms' => rw [hlist (List.Subset.refl _) hms hms']

theorem ne_reserved (h : s.Formed R T) : s ≠ .reserved := by
  rintro rfl
  cases h

theorem key?_eq_some (h : s.Formed R T) (hu : T.isUnion = false) :
    (∃ b, s = .builtin b) ∨ ∃ key, s.key? = some key := by
  cases h with
  | builtin b => exact .inl ⟨b, rfl⟩
  | container c hk | function hps hr | tuple hes => exact .inr ⟨_, rfl⟩
  | union hms => cases hu

theorem isUnion_eq (h : s.Formed R T) : (s.tag == .union) = T.isUnion := by
  cases h <;> rfl

theorem isBuiltin_iff (h : s.Formed R T) (b : BuiltinTag) : T.isBuiltin b = true ↔ s = .builtin b := by
  cases h <;> simp [TypeForm.isBuiltin]

end Formed

end Shape

namespace Pool

variable {p : Pool} {l : Catalog} {depth depth' : Nat} {t u : TypeId} {T U : TypeForm} {s : Shape}

/-- A type has a form, and its parts are nested less than `depth` deep. -/
def FormedWithin (p : Pool) : Nat → TypeId → TypeForm → Prop
  | 0, _, _ => False
  | depth + 1, t, T => ∃ s, p.shape t = .ok s ∧ s.Formed (p.FormedWithin depth) T

def Forms (p : Pool) (t : TypeId) (T : TypeForm) : Prop := ∃ depth, p.FormedWithin depth t T

namespace FormedWithin

theorem exists_shape (h : p.FormedWithin depth t T) : ∃ s, p.shape t = .ok s ∧ s.Formed p.Forms T := by
  cases depth with
  | zero => exact h.elim
  | succ depth =>
      obtain ⟨s, hs, hT⟩ := h
      exact ⟨s, hs, hT.imp fun _ _ hU => ⟨depth, hU⟩⟩

theorem succ (h : p.FormedWithin depth t T) : p.FormedWithin (depth + 1) t T := by
  induction depth generalizing t T with
  | zero => exact h.elim
  | succ depth ih =>
      obtain ⟨s, hs, hT⟩ := h
      exact ⟨s, hs, hT.imp fun _ _ => ih⟩

theorem mono (h : p.FormedWithin depth t T) (hle : depth ≤ depth') : p.FormedWithin depth' t T := by
  induction hle with
  | refl => exact h
  | step _ ih => exact ih.succ

theorem form_eq (h : p.FormedWithin depth t T) (h' : p.FormedWithin depth' t U) : T = U := by
  induction depth generalizing t T U depth' with
  | zero => exact h.elim
  | succ depth ih =>
      obtain ⟨s, hs, hT⟩ := h
      obtain ⟨s', hs', hU⟩ := h'.exists_shape
      cases hs.symm.trans hs'
      exact hT.form_eq hU fun hV ⟨_, hV'⟩ => ih hV hV'

theorem of_stable (hd : ∀ t T, p.FormedWithin (depth + 1) t T → p.FormedWithin depth t T)
    (h : p.FormedWithin depth' t T) : p.FormedWithin depth t T := by
  induction depth' generalizing t T with
  | zero => exact h.elim
  | succ depth' ih =>
      obtain ⟨s, hs, hT⟩ := h
      exact hd t T ⟨s, hs, hT.imp fun _ _ => ih⟩

theorem injective (hr : Represents p l) (ha : p.Arranged) (hT : T.UnionFree) (h : p.FormedWithin depth t T)
    (h' : p.FormedWithin depth' u T) : t = u := by
  induction depth generalizing t u T depth' with
  | zero => exact h.elim
  | succ depth ih =>
      obtain ⟨hu, hparts⟩ := hT
      obtain ⟨s, hs, hT⟩ := h
      obtain ⟨s', hs', hT'⟩ := h'.exists_shape
      obtain rfl := hT.shape_eq hT' fun hU hv ⟨_, hv'⟩ => ih (hparts _ hU) hv hv'
      rcases hT.key?_eq_some hu with ⟨b, rfl⟩ | ⟨key, hk⟩
      · exact TypeId.toNat_injective ((ha.shape_builtin_iff.mp hs).trans (ha.shape_builtin_iff.mp hs').symm)
      · exact hr.eq_of_shape hs hs' hk

theorem lt_size (h : p.FormedWithin depth t T) : t.raw.toNat < p.size := by
  obtain ⟨s, hs, -⟩ := h.exists_shape
  obtain ⟨i, hi, -⟩ := shape_eq_ok.mp hs
  exact (Array.getElem?_eq_some_iff.mp hi).1

end FormedWithin

/-- At every depth at which the types with forms are not complete yet another one is added, and there
are not that many. -/
theorem exists_stable (p : Pool) :
    ∃ depth ≤ p.size, ∀ t T, p.FormedWithin (depth + 1) t T → p.FormedWithin depth t T := by
  by_contra hno
  push Not at hno
  choose! t T hnew hold using hno
  have hfirst {i j : Fin (p.size + 1)} (hij : t i = t j) : ¬ i.val < j.val := by
    intro hlt
    have hi := hnew i (Nat.le_of_lt_succ i.isLt)
    have hj := hnew j (Nat.le_of_lt_succ j.isLt)
    apply hold j (Nat.le_of_lt_succ j.isLt)
    rw [← hij] at hj ⊢
    rw [← hi.form_eq hj]
    exact hi.mono hlt
  obtain ⟨i, j, hne, hij⟩ := Fintype.exists_ne_map_eq_of_card_lt
    (fun i : Fin (p.size + 1) => (⟨_, (hnew i (Nat.le_of_lt_succ i.isLt)).lt_size⟩ : Fin p.size)) (by simp)
  have hij : t i = t j := TypeId.toNat_injective (Fin.mk.inj hij)
  exact hne (Fin.ext (Nat.le_antisymm (Nat.not_lt.mp (hfirst hij.symm)) (Nat.not_lt.mp (hfirst hij))))

namespace Forms

theorem within_size (h : p.Forms t T) : p.FormedWithin p.size t T := by
  obtain ⟨depth, hle, hd⟩ := p.exists_stable
  obtain ⟨_, h⟩ := h
  exact (h.of_stable hd).mono hle

theorem of_shape (hs : p.shape t = .ok s) (hT : s.Formed p.Forms T) : p.Forms t T :=
  ⟨p.size + 1, s, hs, hT.imp fun _ _ => within_size⟩

theorem exists_shape (h : p.Forms t T) : ∃ s, p.shape t = .ok s ∧ s.Formed p.Forms T :=
  h.within_size.exists_shape

theorem form_eq (h : p.Forms t T) (h' : p.Forms t U) : T = U := h.within_size.form_eq h'.within_size

theorem isBuiltin_iff (h : p.Forms t T) (b : BuiltinTag) : T.isBuiltin b = true ↔ p.shape t = .ok (.builtin b) := by
  obtain ⟨s, hs, hT⟩ := h.exists_shape
  rw [hs, hT.isBuiltin_iff, Except.ok.injEq]

theorem isUnion (h : p.Forms t T) : p.isUnion t = .ok T.isUnion := by
  obtain ⟨s, hs, hT⟩ := h.exists_shape
  rw [isUnion_of_tag (tag_of_shape hs), hT.isUnion_eq]

end Forms

end Pool

end CompilerSymbols
