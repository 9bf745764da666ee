import CompilerSymbols.Heap.Cells

namespace CompilerSymbols.Cells

variable {α : Type} {cells : Cells α}

theorem lt_of_cell? {i : Nat} {x : Counted α} (h : cells.cell? i = some x) : i < cells.size := by
  apply Decidable.byContradiction
  intro hi
  rw [cell?, Array.getElem?_eq_none (Nat.le_of_not_lt hi)] at h
  cases h

theorem cell?_size (cells : Cells α) {i : Nat} (hi : cells.size ≤ i) : cells.cell? i = none := by
  rw [cell?, Array.getElem?_eq_none hi]
  rfl

theorem cell?_push (cells : Cells α) (x : Counted α) (i : Nat) :
    cell? (cells.push (some x)) i = if i = cells.size then some x else cells.cell? i := by
  rw [cell?, Array.getElem?_push]
  by_cases hi : i = cells.size <;> simp [hi, cell?]

theorem cell?_put {i : Nat} {x : Counted α} (h : cells.cell? i = some x) (o : Option (Counted α)) (j : Nat) :
    (cells.put i o).cell? j = if j = i then o else cells.cell? j := by
  rw [put, cell?, Array.getElem?_setIfInBounds]
  by_cases hj : j = i
  · subst j
    simp [lt_of_cell? h]
  · simp [hj, Ne.symm hj, cell?]

theorem cell?_setStrong (cells : Cells α) (i n j : Nat) : (cells.setStrong i n).cell? j =
    if j = i then (cells.cell? i).map fun x => { x with strong := n } else cells.cell? j := by
  unfold setStrong
  split
  · next x h => rw [cell?_put h, h, Option.map_some]
  · next h =>
      split
      · next hj => rw [hj, h, Option.map_none]
      · rfl

theorem cell?_setValue (cells : Cells α) (i : Nat) (a : α) (j : Nat) : (cells.setValue i a).cell? j =
    if j = i then (cells.cell? i).map fun x => { x with value := a } else cells.cell? j := by
  unfold setValue
  split
  · next x h => rw [cell?_put h, h, Option.map_some]
  · next h =>
      split
      · next hj => rw [hj, h, Option.map_none]
      · rfl

theorem cell?_free (cells : Cells α) (i j : Nat) :
    (cells.free i).cell? j = if j = i then none else cells.cell? j := by
  rw [free, put, cell?, Array.getElem?_setIfInBounds]
  by_cases hj : j = i
  · subst j
    rw [if_pos rfl, if_pos rfl]
    split <;> rfl
  · simp [hj, Ne.symm hj, cell?]

theorem value?_push (cells : Cells α) (x : Counted α) (i : Nat) :
    value? (cells.push (some x)) i = if i = cells.size then some x.value else cells.value? i := by
  rw [value?, cell?_push]
  split <;> rfl

theorem strong_push (cells : Cells α) (x : Counted α) (i : Nat) :
    strong (cells.push (some x)) i = if i = cells.size then x.strong else cells.strong i := by
  rw [strong, cell?_push]
  split <;> rfl

@[simp]
theorem value?_setStrong (cells : Cells α) (i n j : Nat) : (cells.setStrong i n).value? j = cells.value? j := by
  rw [value?, cell?_setStrong]
  split
  · next hj => simp [hj, value?, Function.comp_def]
  · rfl

theorem strong_setStrong {i : Nat} (h : (cells.value? i).isSome) (n j : Nat) :
    (cells.setStrong i n).strong j = if j = i then n else cells.strong j := by
  obtain ⟨a, ha⟩ := Option.isSome_iff_exists.mp h
  obtain ⟨x, hx, -⟩ := Option.map_eq_some_iff.mp ha
  rw [strong, cell?_setStrong]
  split
  · rw [hx]
    rfl
  · rfl

theorem value?_setValue {i : Nat} (h : (cells.value? i).isSome) (a : α) (j : Nat) :
    (cells.setValue i a).value? j = if j = i then some a else cells.value? j := by
  obtain ⟨b, hb⟩ := Option.isSome_iff_exists.mp h
  obtain ⟨x, hx, -⟩ := Option.map_eq_some_iff.mp hb
  rw [value?, cell?_setValue]
  split
  · rw [hx]
    rfl
  · rfl

@[simp]
theorem strong_setValue (cells : Cells α) (i : Nat) (a : α) (j : Nat) :
    (cells.setValue i a).strong j = cells.strong j := by
  rw [strong, cell?_setValue]
  split
  · next hj => simp [hj, strong, Function.comp_def]
  · rfl

@[simp]
theorem size_setStrong (cells : Cells α) (i n : Nat) : Array.size (cells.setStrong i n) = Array.size cells := by
  unfold setStrong
  split
  · exact Array.size_setIfInBounds
  · rfl

@[simp]
theorem size_setValue (cells : Cells α) (i : Nat) (a : α) : Array.size (cells.setValue i a) = Array.size cells := by
  unfold setValue
  split
  · exact Array.size_setIfInBounds
  · rfl

theorem value?_free (cells : Cells α) (i j : Nat) :
    (cells.free i).value? j = if j = i then none else cells.value? j := by
  rw [value?, cell?_free]
  split <;> rfl

theorem strong_free (cells : Cells α) (i j : Nat) :
    (cells.free i).strong j = if j = i then 0 else cells.strong j := by
  rw [strong, cell?_free]
  split <;> rfl

theorem links_push (out : α → Nat) (cells : Cells α) (x : Counted α) :
    links out (cells.push (some x)) = links out cells + out x.value := by
  have h (l : List (Option (Counted α))) (b : Nat) :
      l.foldr (fun o n => (o.map fun x => out x.value).getD 0 + n) b =
        l.foldr (fun o n => (o.map fun x => out x.value).getD 0 + n) 0 + b := by
    induction l with
    | nil => simp
    | cons o l ih => rw [List.foldr_cons, List.foldr_cons, ih, Nat.add_assoc]
  simp only [links, Array.toList_push, List.foldr_append, List.foldr_cons, List.foldr_nil, Option.map_some,
    Option.getD_some, Nat.add_zero]
  exact h cells.toList (out x.value)

theorem links_setValue (out : α → Nat) (cells : Cells α) {i : Nat} {x : Counted α} (h : cells.cell? i = some x)
    (a : α) : links out (cells.setValue i a) + out x.value = links out cells + out a := by
  simp only [setValue, h]
  exact links_put out cells h (some { x with value := a })

theorem links_ne_zero_iff (out : α → Nat) (cells : Cells α) :
    links out cells ≠ 0 ↔ ∃ i x, cells.cell? i = some x ∧ out x.value ≠ 0 := by
  have h (l : List (Option (Counted α))) :
      l.foldr (fun o n => (o.map fun x => out x.value).getD 0 + n) 0 ≠ 0 ↔ ∃ x, some x ∈ l ∧ out x.value ≠ 0 := by
    induction l with
    | nil => simp
    | cons o l ih =>
        have hs (a b : Nat) : a + b ≠ 0 ↔ a ≠ 0 ∨ b ≠ 0 := by omega
        rw [List.foldr_cons, hs, ih]
        cases o <;> simp
  rw [links, h]
  constructor
  · rintro ⟨x, hx, ho⟩
    obtain ⟨i, hi⟩ := List.getElem?_of_mem hx
    refine ⟨i, x, ?_, ho⟩
    rw [cell?, ← Array.getElem?_toList, hi]
    rfl
  · rintro ⟨i, x, hx, ho⟩
    refine ⟨x, ?_, ho⟩
    rw [cell?, Option.join_eq_some_iff] at hx
    exact List.mem_of_getElem? (Array.getElem?_toList ▸ hx)

end CompilerSymbols.Cells
