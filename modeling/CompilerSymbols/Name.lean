import Std.Data.TreeMap

namespace CompilerSymbols

/-- A handle to an interned text. The top four bits say which of the interner's sixteen shards
holds the text, the other twenty-eight at which slot. -/
structure Name where
  raw : UInt32
deriving DecidableEq

namespace Name

def empty : Name := ⟨0⟩

instance : Inhabited Name := ⟨empty⟩

abbrev shardCount : Nat := 16

def slotBits : UInt32 := 28

def maxSlot : UInt32 := (1 <<< slotBits) - 1

def isEmpty (n : Name) : Bool := n.raw == 0

theorem toNat_shift (raw : UInt32) : (raw >>> slotBits).toNat = raw.toNat >>> 28 := by
  rw [UInt32.toNat_shiftRight]
  rfl

theorem shift_lt (raw : UInt32) : (raw >>> slotBits).toNat < shardCount := by
  have h := raw.toNat_lt
  rw [toNat_shift, shardCount, Nat.shiftRight_eq_div_pow]
  omega

def shard (n : Name) : Fin shardCount := ⟨(n.raw >>> slotBits).toNat, shift_lt n.raw⟩

def slot (n : Name) : Nat := (n.raw &&& maxSlot).toNat

def ofParts? (shard slot : Nat) : Option Name :=
  if shard < shardCount ∧ slot ≤ maxSlot.toNat then
    some ⟨shard.toUInt32 <<< slotBits ||| slot.toUInt32⟩
  else none

def inspect (n : Name) : String :=
  if n.isEmpty then "Name::EMPTY" else "Name(" ++ toString n.shard.val ++ ":" ++ toString n.slot ++ ")"

instance : Ord Name := ⟨compareOn raw⟩

instance : Std.TransOrd Name := inferInstanceAs (Std.TransCmp (compareOn raw))

instance : Std.LawfulEqOrd Name where
  eq_of_compare {a b} h := by
    have hr : a.raw = b.raw := Std.LawfulEqOrd.eq_of_compare h
    cases a
    cases b
    simp_all

end Name

end CompilerSymbols
