namespace CompilerSymbols

structure Counted (α : Type) where
  value : α
  strong : Nat

/-- Objects of one type in the order of creation. What nothing holds any more is gone, and its
place is not used again. -/
abbrev Cells (α : Type) := Array (Option (Counted α))

namespace Cells

variable {α : Type}

def cell? (cells : Cells α) (i : Nat) : Option (Counted α) := cells[i]?.join

def value? (cells : Cells α) (i : Nat) : Option α := (cells.cell? i).map (·.value)

def strong (cells : Cells α) (i : Nat) : Nat := ((cells.cell? i).map (·.strong)).getD 0

def put (cells : Cells α) (i : Nat) (o : Option (Counted α)) : Cells α := cells.setIfInBounds i o

def setStrong (cells : Cells α) (i n : Nat) : Cells α :=
  match cells.cell? i with
  | some x => cells.put i (some { x with strong := n })
  | none => cells

def setValue (cells : Cells α) (i : Nat) (a : α) : Cells α :=
  match cells.cell? i with
  | some x => cells.put i (some { x with value := a })
  | none => cells

def free (cells : Cells α) (i : Nat) : Cells α := cells.put i none

def links (out : α → Nat) (cells : Cells α) : Nat :=
  cells.toList.foldr (fun o n => (o.map fun x => out x.value).getD 0 + n) 0

theorem foldr_set {β : Type} (w : β → Nat) (l : List β) (i : Nat) (h : i < l.length) (b : β) :
    (l.set i b).foldr (fun a n => w a + n) 0 + w l[i] = l.foldr (fun a n => w a + n) 0 + w b := by
  induction l generalizing i with
  | nil => simp at h
  | cons a l ih =>
      cases i with
      | zero => simp; omega
      | succ i =>
          have hi := ih i (by simpa using h)
          simp only [List.set_cons_succ, List.foldr_cons, List.getElem_cons_succ]
          omega

theorem links_put (out : α → Nat) (cells : Cells α) {i : Nat} {x : Counted α} (h : cells.cell? i = some x)
    (o : Option (Counted α)) :
    links out (cells.put i o) + out x.value = links out cells + (o.map fun y => out y.value).getD 0 := by
  have hc : cells[i]? = some (some x) := by
    cases hi : cells[i]? with
    | none => simp [cell?, hi] at h
    | some y => simpa [cell?, hi] using h
  have hl : cells.toList[i]? = some (some x) := by simpa using hc
  obtain ⟨hlt, hx⟩ := List.getElem?_eq_some_iff.mp hl
  have hs := foldr_set (fun o : Option (Counted α) => (o.map fun y => out y.value).getD 0) cells.toList i hlt o
  rw [hx] at hs
  rw [links, put, Array.toList_setIfInBounds]
  exact hs

theorem links_free (out : α → Nat) (cells : Cells α) {i : Nat} {x : Counted α} (h : cells.cell? i = some x) :
    links out (cells.free i) + out x.value = links out cells := by
  simpa [free] using links_put out cells h none

theorem links_setStrong (out : α → Nat) (cells : Cells α) (i n : Nat) :
    links out (cells.setStrong i n) = links out cells := by
  unfold setStrong
  split
  · next x h => simpa using links_put out cells h (some { x with strong := n })
  · rfl

end Cells

end CompilerSymbols
