import CompilerSymbols.Name
import Mathlib.Algebra.Group.Nat.Defs

namespace CompilerSymbols.Name

theorem toNat_maxSlot : maxSlot.toNat = 2 ^ 28 - 1 := by decide

theorem shard_val (n : Name) : n.shard.val = n.raw.toNat / 2 ^ 28 := by
  rw [← Nat.shiftRight_eq_div_pow]
  exact toNat_shift n.raw

theorem slot_eq (n : Name) : n.slot = n.raw.toNat % 2 ^ 28 := by
  rw [slot, UInt32.toNat_and, toNat_maxSlot, Nat.and_two_pow_sub_one_eq_mod]

theorem slot_lt (n : Name) : n.slot < 2 ^ 28 := by
  rw [slot_eq]
  exact Nat.mod_lt _ (by decide)

theorem toNat_raw (n : Name) : n.raw.toNat = n.shard.val * 2 ^ 28 + n.slot := by
  rw [shard_val, slot_eq]
  omega

theorem toNat_pack {k i : Nat} (hk : k < 2 ^ 4) (hi : i < 2 ^ 28) :
    (k.toUInt32 <<< slotBits ||| i.toUInt32).toNat = k * 2 ^ 28 + i := by
  have hbits : slotBits.toNat % 32 = 28 := by decide
  have hkn : k.toUInt32.toNat = k := Nat.mod_eq_of_lt (by omega)
  have hin : i.toUInt32.toNat = i := Nat.mod_eq_of_lt (by omega)
  have hlt : k <<< 28 < 2 ^ 32 := by
    rw [Nat.shiftLeft_eq]
    omega
  rw [UInt32.toNat_or, UInt32.toNat_shiftLeft, hbits, hkn, hin, Nat.mod_eq_of_lt hlt,
    ← Nat.shiftLeft_add_eq_or_of_lt hi, Nat.shiftLeft_eq]

theorem ofParts?_isSome {k i : Nat} : (ofParts? k i).isSome ↔ k < shardCount ∧ i < 2 ^ 28 := by
  have hm : i ≤ maxSlot.toNat ↔ i < 2 ^ 28 := by
    rw [toNat_maxSlot]
    omega
  by_cases h : k < shardCount ∧ i ≤ maxSlot.toNat
  · rw [ofParts?, if_pos h]
    exact iff_of_true rfl ⟨h.1, hm.mp h.2⟩
  · rw [ofParts?, if_neg h]
    exact iff_of_false Bool.false_ne_true fun hs => h ⟨hs.1, hm.mpr hs.2⟩

theorem ofParts?_eq_none_iff {k i : Nat} : ofParts? k i = none ↔ shardCount ≤ k ∨ 2 ^ 28 ≤ i := by
  rw [← Option.not_isSome_iff_eq_none, ofParts?_isSome]
  omega

theorem parts_of_ofParts? {k i : Nat} {n : Name} (h : ofParts? k i = some n) :
    n.shard.val = k ∧ n.slot = i := by
  obtain ⟨hk, hi⟩ := ofParts?_isSome.mp (Option.isSome_of_eq_some h)
  have hr : n.raw.toNat = k * 2 ^ 28 + i := by
    unfold ofParts? at h
    split at h
    · cases h
      exact toNat_pack hk hi
    · cases h
  rw [shard_val, slot_eq, hr]
  omega

theorem ofParts?_parts (n : Name) : ofParts? n.shard n.slot = some n := by
  obtain ⟨m, hm⟩ := Option.isSome_iff_exists.mp (ofParts?_isSome.mpr ⟨n.shard.isLt, n.slot_lt⟩)
  obtain ⟨hk, hs⟩ := parts_of_ofParts? hm
  rw [hm]
  have hr : m.raw.toNat = n.raw.toNat := by rw [toNat_raw, toNat_raw, hk, hs]
  obtain ⟨a⟩ := m
  obtain ⟨b⟩ := n
  cases UInt32.toNat_inj.mp hr
  rfl

end CompilerSymbols.Name
