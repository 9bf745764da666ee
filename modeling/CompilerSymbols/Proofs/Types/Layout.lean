import CompilerSymbols.Types.Build
import Mathlib.Data.List.Basic
import Mathlib.Order.Basic

namespace CompilerSymbols.Pool

theorem counted?_eq_some {p : Pool} {start stop : Nat} {ts : List TypeId} :
    p.counted? start = some (ts, stop) ↔ ∃ n, p.words[start]? = some n ∧ stop = start + 1 + n.toNat ∧
      stop ≤ p.words.size ∧ ts = ((p.words.toList.drop (start + 1)).take n.toNat).map .mk := by
  unfold counted?
  cases hn : p.words[start]? with
  | none => simp
  | some n =>
      have hx : start + 1 + n.toNat - (start + 1) = n.toNat := by omega
      by_cases hs : start + 1 + n.toNat ≤ p.words.size
      · simp only [hs, if_true, Option.some.injEq, Prod.mk.injEq, exists_eq_left', Array.toList_extract,
          List.extract_eq_take_drop, hx]
        constructor
        · rintro ⟨rfl, rfl⟩
          exact ⟨rfl, hs, rfl⟩
        · rintro ⟨rfl, -, rfl⟩
          exact ⟨rfl, rfl⟩
      · simp only [hs, if_false, reduceCtorEq, false_iff, Option.some.injEq, exists_eq_left', not_and]
        rintro rfl h
        exact absurd h hs

/-- The words that `counted` writes are read back by `counted?`, whatever stands before and after
them. -/
theorem counted?_counted {p : Pool} {before after : List UInt32} {ts : List TypeId}
    (hw : p.words.toList = before ++ (counted ts ++ after)) (ht : ts.length < UInt32.size) :
    p.counted? before.length = some (ts, before.length + (counted ts).length) := by
  have hn : ts.length.toUInt32.toNat = ts.length := by
    simp only [Nat.toUInt32_eq, UInt32.toNat_ofNat']
    exact Nat.mod_eq_of_lt ht
  have hs : p.words.size = before.length + ((counted ts).length + after.length) := by
    rw [← Array.length_toList, hw, List.length_append, List.length_append]
  rw [counted?_eq_some]
  refine ⟨ts.length.toUInt32, ?_, ?_, ?_, ?_⟩
  · rw [← Array.getElem?_toList, hw]
    simp [counted]
  · simp only [counted, List.length_cons, List.length_map, hn]
    omega
  · omega
  · have hd : (before ++ (counted ts ++ after)).drop (before.length + 1) = ts.map (·.raw) ++ after := by
      rw [List.drop_append, List.drop_eq_nil_of_le (Nat.le_succ _)]
      simp [counted]
    rw [hw, hd, hn, List.take_append_of_le_length (by simp), List.take_of_length_le (by simp), List.map_map]
    simp [Function.comp_def]

structure LayoutPrefix (p q : Pool) : Prop where
  words : p.words.toList <+: q.words.toList
  unions : p.unions.toList <+: q.unions.toList
  nominals : p.nominals.toList <+: q.nominals.toList

theorem getElem?_of_prefix {α : Type} {a b : Array α} (h : a.toList <+: b.toList) {i : Nat} {x : α}
    (hx : a[i]? = some x) : b[i]? = some x := by
  obtain ⟨t, ht⟩ := h
  obtain ⟨hi, -⟩ := Array.getElem?_eq_some_iff.mp hx
  rw [← Array.getElem?_toList, ← ht, List.getElem?_append_left (by simpa using hi), Array.getElem?_toList, hx]

theorem counted?_mono {p q : Pool} (h : p.words.toList <+: q.words.toList) {start : Nat}
    {r : List TypeId × Nat} (hr : p.counted? start = some r) : q.counted? start = some r := by
  obtain ⟨ts, stop⟩ := r
  obtain ⟨n, hn, hs, hle, ht⟩ := counted?_eq_some.mp hr
  refine counted?_eq_some.mpr ⟨n, getElem?_of_prefix h hn, hs, Nat.le_trans hle (by simpa using h.length_le), ?_⟩
  obtain ⟨w, hw⟩ := h
  have hl : n.toNat ≤ (p.words.toList.drop (start + 1)).length := by
    simp only [List.length_drop, Array.length_toList]
    omega
  have hd : start + 1 ≤ p.words.toList.length := by
    simp only [Array.length_toList]
    omega
  rw [ht, ← hw, List.drop_append_of_le_length hd, List.take_append_of_le_length hl]

theorem shapeOf?_mono {p q : Pool} (h : LayoutPrefix p q) {i : Item} {s : Shape}
    (hs : p.shapeOf? i = some s) : q.shapeOf? i = some s := by
  cases i with
  | builtin b | container c t | reserved => exact hs
  | function start =>
      obtain ⟨⟨ps, next⟩, hc, hr⟩ := Option.bind_eq_some_iff.mp hs
      obtain ⟨ret, hw, rfl⟩ := Option.map_eq_some_iff.mp hr
      simp only [shapeOf?, counted?_mono h.words hc, Option.bind_some, getElem?_of_prefix h.words hw,
        Option.map_some]
  | tuple start =>
      obtain ⟨⟨es, next⟩, hc, rfl⟩ := Option.map_eq_some_iff.mp hs
      simp only [shapeOf?, counted?_mono h.words hc, Option.map_some]
  | union slot =>
      obtain ⟨u, hu, rfl⟩ := Option.map_eq_some_iff.mp hs
      simp only [shapeOf?, getElem?_of_prefix h.unions hu, Option.map_some]
  | nominal n slot =>
      obtain ⟨name, hn, rfl⟩ := Option.map_eq_some_iff.mp hs
      simp only [shapeOf?, getElem?_of_prefix h.nominals hn, Option.map_some]

theorem shapeOf?_function {p q : Pool} {params : List TypeId} {ret : TypeId}
    (hq : q.words = p.words ++ (counted params ++ [ret.raw])) (hl : params.length < UInt32.size) :
    q.shapeOf? (.function p.words.size) = some (.function params ret) := by
  have hw : q.words.toList = p.words.toList ++ (counted params ++ [ret.raw]) := by simp [hq]
  have hc := counted?_counted hw hl
  have hr : q.words[p.words.size + (counted params).length]? = some ret.raw := by
    rw [← Array.getElem?_toList, hw, List.getElem?_append_right (by simp)]
    simp
  simp only [Array.length_toList] at hc
  simp only [shapeOf?, hc, Option.bind_some, hr, Option.map_some]

theorem shapeOf?_tuple {p q : Pool} {elems : List TypeId} (hq : q.words = p.words ++ counted elems)
    (hl : elems.length < UInt32.size) : q.shapeOf? (.tuple p.words.size) = some (.tuple elems) := by
  have hc := @counted?_counted q p.words.toList [] elems (by simp [hq]) hl
  simp only [Array.length_toList] at hc
  simp only [shapeOf?, hc, Option.map_some]

end CompilerSymbols.Pool
