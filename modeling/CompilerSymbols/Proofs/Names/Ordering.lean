import CompilerSymbols.PackageId
import CompilerSymbols.Proofs.Names.Packing

namespace CompilerSymbols

namespace Name

theorem compare_toNat (a b : UInt32) : compare a b = compare a.toNat b.toNat := by
  change compareOfLessAndEq a b = compareOfLessAndEq a.toNat b.toNat
  simp only [compareOfLessAndEq, UInt32.lt_iff_toNat_lt, UInt32.toNat_inj]

/-- The high digit decides, and the low one when the high ones are equal. -/
theorem compare_mul_add {m k l i j : Nat} (hi : i < m) (hj : j < m) :
    compare (k * m + i) (l * m + j) = (compare k l).then (compare i j) := by
  have hlow {k l i : Nat} (j : Nat) (hi : i < m) (hkl : k < l) : k * m + i < l * m + j := by
    calc k * m + i < (k + 1) * m := by rw [Nat.succ_mul]; omega
      _ ≤ l * m := Nat.mul_le_mul_right m hkl
      _ ≤ l * m + j := Nat.le_add_right ..
  rcases Nat.lt_trichotomy k l with hlt | rfl | hgt
  · rw [Nat.compare_eq_lt.mpr hlt, Nat.compare_eq_lt.mpr (hlow j hi hlt)]
    rfl
  · rw [Nat.compare_eq_eq.mpr rfl, Ordering.eq_then, Nat.compare_eq_ite_lt, Nat.compare_eq_ite_lt]
    simp only [Nat.add_lt_add_iff_left]
  · rw [Nat.compare_eq_gt.mpr hgt, Nat.compare_eq_gt.mpr (hlow i hj hgt)]
    rfl

theorem compare_eq_parts (a b : Name) :
    compare a b = compareLex (compareOn (·.shard.val)) (compareOn slot) a b := by
  change compare a.raw b.raw = (compare a.shard.val b.shard.val).then (compare a.slot b.slot)
  rw [compare_toNat, toNat_raw, toNat_raw, compare_mul_add a.slot_lt b.slot_lt]

end Name

namespace PackageId

def numbers (p : PackageId) : List Nat :=
  [p.org.shard, p.org.slot, p.name.shard, p.name.slot, p.version.shard, p.version.slot]

theorem compare_eq_then (p q : PackageId) :
    compare p q = (compare p.org q.org).then ((compare p.name q.name).then (compare p.version q.version)) := rfl

theorem compare_eq_numbers (p q : PackageId) : compare p q = List.compareLex compare p.numbers q.numbers := by
  simp only [compare_eq_then, Name.compare_eq_parts, compareLex, compareOn, numbers, List.compareLex_cons_cons,
    List.compareLex_nil_nil, Ordering.then_assoc, Ordering.then_eq]

instance : Std.TransOrd PackageId :=
  inferInstanceAs (Std.TransCmp (compareLex (compareOn org) (compareLex (compareOn name) (compareOn version))))

instance : Std.LawfulEqOrd PackageId where
  eq_of_compare {p q} h := by
    rw [compare_eq_then, Ordering.then_eq_eq, Ordering.then_eq_eq] at h
    obtain ⟨ho, hn, hv⟩ := h
    cases p
    cases q
    cases Std.compare_eq_iff_eq.mp ho
    cases Std.compare_eq_iff_eq.mp hn
    cases Std.compare_eq_iff_eq.mp hv
    rfl

end PackageId

/-- Packing puts a shard and a slot into one number and keeps their order. So packages are in the
order of six numbers. -/
theorem names_packed_in_order :
    (∀ (k : Fin 16) (i : Fin (2 ^ 28)), ∃ n, Name.ofParts? k i = some n ∧ n.shard = k ∧ n.slot = i) ∧
      (∀ raw : UInt32, Name.ofParts? (Name.mk raw).shard (Name.mk raw).slot = some ⟨raw⟩) ∧
      (∀ k i, Name.ofParts? k i = none ↔ 16 ≤ k ∨ 2 ^ 28 ≤ i) ∧
      (∀ a b : Name, compare a b = compareLex (compareOn (·.shard.val)) (compareOn Name.slot) a b) ∧
      (∀ p q : PackageId, compare p q = List.compareLex compare p.numbers q.numbers) ∧
      Std.TransOrd PackageId ∧ Std.LawfulEqOrd PackageId := by
  refine ⟨?_, ?_, ?_, Name.compare_eq_parts, PackageId.compare_eq_numbers, inferInstance, inferInstance⟩
  · intro k i
    obtain ⟨n, hn⟩ := Option.isSome_iff_exists.mp (Name.ofParts?_isSome.mpr ⟨k.isLt, i.isLt⟩)
    obtain ⟨hk, hi⟩ := Name.parts_of_ofParts? hn
    exact ⟨n, hn, Fin.ext hk, hi⟩
  · intro raw
    exact Name.ofParts?_parts ⟨raw⟩
  · intro k i
    exact Name.ofParts?_eq_none_iff

example : compare (⟨⟨0x10000000⟩, ⟨1⟩, ⟨0⟩⟩ : PackageId) ⟨⟨0x0fffffff⟩, ⟨2⟩, ⟨0⟩⟩ = .gt := by decide

end CompilerSymbols
