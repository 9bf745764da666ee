import CompilerSymbols.Proofs.Types.Catalog
import CompilerSymbols.Proofs.Types.Layout
import Mathlib.Logic.Function.Basic

namespace CompilerSymbols

theorem TypeTag.find_code (t : TypeTag) : all.find? (·.code == t.code) = some t := by
  rcases t with b | c | _ | _ | _ | n | _
  · cases b <;> rfl
  · cases c <;> rfl
  · rfl
  · rfl
  · rfl
  · cases n <;> rfl
  · rfl

theorem TypeTag.code_injective : Function.Injective code := by
  intro t u h
  have ht := find_code t
  rw [h, find_code u] at ht
  exact (Option.some.inj ht).symm

theorem TypeId.raw_injective : Function.Injective raw := by
  rintro ⟨a⟩ ⟨b⟩ rfl
  rfl

theorem TypeId.toNat_injective : Function.Injective fun t : TypeId => t.raw.toNat :=
  fun _ _ h => raw_injective (UInt32.toNat_inj.mp h)

theorem Pool.sharedKey_injective {t u : TypeTag} {a b : List UInt32} (h : sharedKey t a = sharedKey u b) :
    t = u ∧ a = b := by
  obtain ⟨hc, hab⟩ := List.cons.inj h
  refine ⟨TypeTag.code_injective ?_, hab⟩
  simpa [← UInt8.toNat_inj, ← UInt32.toNat_inj] using hc

namespace Shape

/-- The words of a type that can be shared. Builtin types, unions and nominal types have none. -/
def layout? : Shape → Option (List UInt32)
  | container _ constraint => some [constraint.raw]
  | function params ret => some (Pool.counted params ++ [ret.raw])
  | tuple elems => some (Pool.counted elems)
  | _ => none

def key? (s : Shape) : Option (List UInt32) := s.layout?.map (Pool.sharedKey s.tag)

theorem counted_injective : Function.Injective Pool.counted := by
  intro ts us h
  exact List.map_injective_iff.mpr TypeId.raw_injective (List.cons.inj h).2

theorem layout?_injective {s s' : Shape} {layout : List UInt32} (ht : s.tag = s'.tag)
    (h : s.layout? = some layout) (h' : s'.layout? = some layout) : s = s' := by
  cases s with
  | builtin b | union u | nominal n name | reserved => simp [layout?] at h
  | container c t =>
      cases s' with
      | container c' t' =>
          cases ht
          have hr := (List.cons.inj (Option.some.inj (h.trans h'.symm))).1
          rw [TypeId.raw_injective hr]
      | _ => simp [tag] at ht
  | function ps r =>
      cases s' with
      | function ps' r' =>
          obtain ⟨hp, hr⟩ := List.append_inj' (Option.some.inj (h.trans h'.symm)) rfl
          rw [counted_injective hp, TypeId.raw_injective (List.cons.inj hr).1]
      | _ => simp [tag] at ht
  | tuple es =>
      cases s' with
      | tuple es' => rw [counted_injective (Option.some.inj (h.trans h'.symm))]
      | _ => simp [tag] at ht

theorem key?_injective {s s' : Shape} {key : List UInt32} (h : s.key? = some key)
    (h' : s'.key? = some key) : s = s' := by
  obtain ⟨a, ha, hk⟩ := Option.map_eq_some_iff.mp h
  obtain ⟨b, hb, hk'⟩ := Option.map_eq_some_iff.mp h'
  obtain ⟨ht, hab⟩ := Pool.sharedKey_injective (hk.trans hk'.symm)
  exact layout?_injective ht ha (hab ▸ hb)

end Shape

end CompilerSymbols
