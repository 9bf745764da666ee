import CompilerSymbols.Text.Blank
import CompilerSymbols.Text.Hex
import Mathlib.Data.List.TakeWhile

namespace CompilerSymbols.Text

section Hex

variable {c : Char} {d n : Nat} {cs ds : List Char}

theorem hexDigitValue?_hexDigit (h : d < 16) : hexDigitValue? (hexDigit d) = some d := by
  have hall : ∀ d < 16, hexDigitValue? (hexDigit d) = some d := by decide +kernel
  exact hall d h

theorem hexValueFrom?_append (n : Nat) (cs ds : List Char) :
    hexValueFrom? n (cs ++ ds) = (hexValueFrom? n cs).bind (hexValueFrom? · ds) := by
  induction cs generalizing n with
  | nil => rfl
  | cons c cs ih =>
      rw [List.cons_append, hexValueFrom?, hexValueFrom?]
      cases hexDigitValue? c with
      | none => rfl
      | some d => exact ih _

theorem hexValueFrom?_hexDigits (n : Nat) : hexValueFrom? 0 (hexDigits n) = some n := by
  fun_induction hexDigits n with
  | case1 n h => simp [hexValueFrom?, hexDigitValue?_hexDigit h]
  | case2 n h ih =>
      have hd : n % 16 < 16 := Nat.mod_lt _ (by decide)
      rw [hexValueFrom?_append, ih]
      simp [hexValueFrom?, hexDigitValue?_hexDigit hd, Nat.div_add_mod]

theorem hexDigits_ne_nil (n : Nat) : hexDigits n ≠ [] := by
  unfold hexDigits
  split <;> simp

theorem exists_hexDigit_of_mem (h : c ∈ hexDigits n) : ∃ d < 16, c = hexDigit d := by
  fun_induction hexDigits n with
  | case1 n hn => exact ⟨n, hn, List.mem_singleton.mp h⟩
  | case2 n hn ih =>
      rcases List.mem_append.mp h with h | h
      · exact ih h
      · exact ⟨n % 16, Nat.mod_lt _ (by decide), List.mem_singleton.mp h⟩

theorem hexValue?_of_head (hne : cs ≠ []) (hp : cs.head? ≠ some '+') : hexValue? cs = hexValueFrom? 0 cs := by
  unfold hexValue?
  split <;> simp_all

theorem hexValue?_hexDigits (n : Nat) : hexValue? (hexDigits n) = some n := by
  have hplus : ∀ d < 16, hexDigit d ≠ '+' := by decide +kernel
  have hhead : (hexDigits n).head? ≠ some '+' := by
    intro h
    obtain ⟨d, hd, he⟩ := exists_hexDigit_of_mem (List.mem_of_head? h)
    exact hplus d hd he.symm
  rw [hexValue?_of_head (hexDigits_ne_nil n) hhead, hexValueFrom?_hexDigits]

end Hex

section Pieces

variable {l r cs : List Char} {p q : List Char} {ps : List (List Char)}

/-- What can be told apart from the blanks and the bars around it. -/
def Solid (p : List Char) : Prop := p ≠ [] ∧ ∀ c ∈ p, c ≠ '|' ∧ isBlank c = false

instance : Decidable (Solid p) :=
  decidable_of_iff (p ≠ [] ∧ p.all fun c => c != '|' && !isBlank c) (by simp [Solid])

theorem Solid.reverse (hp : Solid p) : Solid p.reverse := by
  rw [Solid, List.reverse_ne_nil_iff]
  exact ⟨hp.1, fun c hc => hp.2 c (List.mem_reverse.mp hc)⟩

theorem Solid.dropWhile (hp : Solid p) (r : List Char) : (p ++ r).dropWhile isBlank = p ++ r := by
  obtain ⟨c, p, rfl⟩ := List.exists_cons_of_ne_nil hp.1
  exact List.dropWhile_cons_of_neg (by simp [(hp.2 c List.mem_cons_self).2])

theorem Solid.trim_eq (hp : Solid p) (hl : ∀ c ∈ l, isBlank c) (hr : ∀ c ∈ r, isBlank c) : trim (l ++ p ++ r) = p := by
  have hr' : ∀ c ∈ r.reverse, isBlank c := fun c hc => hr c (List.mem_reverse.mp hc)
  have hreverse := hp.reverse.dropWhile []
  rw [List.append_nil] at hreverse
  rw [trim, List.append_assoc, List.dropWhile_append_of_pos hl, hp.dropWhile, List.reverse_append,
    List.dropWhile_append_of_pos hr', hreverse, List.reverse_reverse]

theorem Solid.padded (hp : Solid p) (hl : ∀ c ∈ l, c = ' ') (hr : ∀ c ∈ r, c = ' ') :
    '|' ∉ l ++ p ++ r ∧ trim (l ++ p ++ r) = p := by
  constructor
  · intro hm
    rcases List.mem_append.mp hm with hm | hm
    · rcases List.mem_append.mp hm with hm | hm
      · exact absurd (hl _ hm) (by decide)
      · exact (hp.2 _ hm).1 rfl
    · exact absurd (hr _ hm) (by decide)
  · exact hp.trim_eq (fun c hc => hl c hc ▸ by decide) (fun c hc => hr c hc ▸ by decide)

theorem trim_ne_nil {c : Char} (hc : c ∈ cs) (hb : isBlank c = false) : trim cs ≠ [] := by
  intro h
  rw [trim, List.reverse_eq_nil_iff, List.dropWhile_eq_nil_iff] at h
  have hblank : isBlank c := by
    rw [← List.takeWhile_append_dropWhile (p := isBlank) (l := cs)] at hc
    rcases List.mem_append.mp hc with hc | hc
    · exact List.mem_takeWhile_imp hc
    · exact h c (List.mem_reverse.mpr hc)
  exact Bool.false_ne_true (hb.symm.trans hblank)

theorem Solid.trim_joined (hp : Solid p) (s : List Char) (ps : List (List Char)) : trim (s.intercalate (p :: ps)) ≠ [] := by
  obtain ⟨c, p, rfl⟩ := List.exists_cons_of_ne_nil hp.1
  have hc : c ∈ s.intercalate ((c :: p) :: ps) := by
    cases ps <;> simp [List.intercalate_cons_cons]
  exact trim_ne_nil hc (hp.2 c List.mem_cons_self).2

theorem splitOn_joined (hl : ∀ c ∈ l, c = ' ') (hs : ∀ q ∈ p :: ps, Solid q) :
    ((l ++ [' ', '|', ' '].intercalate (p :: ps)).splitOn '|').map trim = p :: ps := by
  have hp : Solid p := hs p List.mem_cons_self
  induction ps generalizing l p with
  | nil =>
      obtain ⟨hbar, htrim⟩ := hp.padded hl (r := []) (by simp)
      rw [List.append_nil] at hbar htrim
      rw [List.intercalate_singleton, List.splitOn_eq_singleton hbar, List.map_singleton, htrim]
  | cons q ps ih =>
      -- What is left after the first bar starts with a blank.
      have hjoined : l ++ [' ', '|', ' '].intercalate (p :: q :: ps) =
          (l ++ p ++ [' ']) ++ '|' :: ([' '] ++ [' ', '|', ' '].intercalate (q :: ps)) := by
        simp [List.intercalate_cons_cons]
      obtain ⟨hbar, htrim⟩ := hp.padded hl (r := [' ']) (by simp)
      have hfirst : ∀ c ∈ l ++ p ++ [' '], (c == '|') = false :=
        fun c hc => beq_false_of_ne fun he => hbar (he ▸ hc)
      have hs' : ∀ q' ∈ q :: ps, Solid q' := fun q' hq => hs q' (List.mem_cons_of_mem _ hq)
      rw [hjoined, List.splitOn_eq_splitOnP, List.splitOnP_append_cons_of_forall_mem hfirst _ rfl,
        ← List.splitOn_eq_splitOnP, List.map_cons, htrim, ih (by simp) hs' (hs' q List.mem_cons_self)]

end Pieces

end CompilerSymbols.Text
