import CompilerSymbols.Proofs.Types.Representation
import Mathlib.Logic.Basic

namespace CompilerSymbols

theorem Catalog.addMember_other {l : Catalog} {t : TypeId} {s : Shape} (hs : l[t.raw.toNat]? = some s)
    (hn : s.tag ≠ .union) (member : TypeId) : l.addMember t member = (.added false [], l) := by
  rw [addMember, hs]
  cases s with
  | union u => exact absurd rfl hn
  | _ => rfl

namespace Pool

theorem tag_of_shapeOf? {p : Pool} {i : Item} {s : Shape} (h : p.shapeOf? i = some s) : s.tag = i.tag := by
  cases i with
  | builtin b | container c d | reserved =>
      cases h
      rfl
  | function start =>
      obtain ⟨r, -, hr⟩ := Option.bind_eq_some_iff.mp h
      obtain ⟨ret, -, rfl⟩ := Option.map_eq_some_iff.mp hr
      rfl
  | tuple start | union slot | nominal n slot =>
      obtain ⟨r, -, rfl⟩ := Option.map_eq_some_iff.mp h
      rfl

theorem addMember_union {p : Pool} {t : TypeId} {slot : Nat} {u : UnionType}
    (hi : p.items[t.raw.toNat]? = some (.union slot)) (hu : p.unions[slot]? = some u) (member : TypeId) :
    p.addMember t member = .ok (
      if member = t then ⟨(false, p), [.selfMember t]⟩
      else if member ∈ u.members then ⟨(false, p), []⟩
      else ⟨(true, { p with unions := p.unions.setIfInBounds slot (u.insert member) }), []⟩) := by
  have hi' : p.item t = .ok (.union slot) := by rw [item, item?, hi]
  rw [addMember, hi']
  by_cases hm : member = t
  · simp [hm, bind, Except.bind, pure, Except.pure]
  · by_cases hx : member ∈ u.members
    · simp [hm, hu, hx, bind, Except.bind, pure, Except.pure]
    · simp [hm, hu, hx, bind, Except.bind, pure, Except.pure]

theorem addMember_other {p : Pool} {t : TypeId} {i : Item} (hi : p.items[t.raw.toNat]? = some i)
    (hn : ∀ slot, i ≠ .union slot) (member : TypeId) : p.addMember t member = .ok ⟨(false, p), []⟩ := by
  have hi' : p.item t = .ok i := by rw [item, item?, hi]
  rw [addMember, hi']
  cases i with
  | union slot => exact absurd rfl (hn slot)
  | _ => rfl

theorem addMember_cases {p : Pool} {t member : TypeId} {a : Reported (Bool × Pool)} (h : p.addMember t member = .ok a) :
    a.value.2 = p ∨ ∃ slot u, p.items[t.raw.toNat]? = some (.union slot) ∧ p.unions[slot]? = some u ∧ member ≠ t ∧
      member ∉ u.members ∧ a.value.2 = { p with unions := p.unions.setIfInBounds slot (u.insert member) } := by
  obtain ⟨i, hi, h⟩ := bind_ok h
  cases hx : p.items[t.raw.toNat]? with
  | none => simp [item, item?, hx] at hi
  | some j =>
      simp only [item, item?, hx, Except.ok.injEq] at hi
      subst hi
      cases j with
      | union slot =>
          simp only at h
          split at h
          · cases h
            exact .inl rfl
          · next hne =>
              split at h
              · cases h
              · next u hu =>
                  split at h
                  · cases h
                    exact .inl rfl
                  · next hm =>
                      cases h
                      exact .inr ⟨slot, u, rfl, hu, hne, hm, rfl⟩
      | _ =>
          cases h
          exact .inl rfl

theorem addMember_frame {p : Pool} {t member : TypeId} {a : Reported (Bool × Pool)}
    (h : p.addMember t member = .ok a) : a.value.2.items = p.items ∧ a.value.2.words = p.words := by
  rcases addMember_cases h with hp | ⟨slot, u, -, -, -, -, hp⟩ <;> rw [hp] <;> exact ⟨rfl, rfl⟩

theorem size_le_serve (p : Pool) (r : TypeRequest) :
    p.size ≤ (p.serve r).2.size ∧ p.words.size ≤ (p.serve r).2.words.size := by
  cases r with
  | container tag constraint | function params ret =>
      exact ⟨size_le_share .., words_le_share ..⟩
  | tuple elems =>
      cases elems with
      | nil => exact ⟨Nat.le_refl _, Nat.le_refl _⟩
      | cons e es => exact ⟨size_le_share .., words_le_share ..⟩
  | union name members => simp [serve, union, push, size]
  | declare tag name => cases tag <;> simp [serve, declare, push, size]
  | addMember t member =>
      simp only [serve]
      cases h : p.addMember t member with
      | error f => exact ⟨Nat.le_refl _, Nat.le_refl _⟩
      | ok r =>
          obtain ⟨hi, hw⟩ := addMember_frame h
          simp [size, hi, hw]

theorem fits_of_serve {p : Pool} {r : TypeRequest} (h : (p.serve r).2.Fits) : p.Fits :=
  have hle := size_le_serve p r
  ⟨Nat.lt_of_le_of_lt hle.1 h.1, Nat.lt_of_le_of_lt hle.2 h.2⟩

theorem fits_of_serveAll {p : Pool} {rs : List TypeRequest} (h : (p.serveAll rs).2.Fits) : p.Fits := by
  induction rs generalizing p with
  | nil => exact h
  | cons r rs ih => exact fits_of_serve (ih h)

namespace Represents

variable {p : Pool} {l : Catalog}

theorem serve_addMember (h : Represents p l) (t member : TypeId) :
    (p.serve (.addMember t member)).1 = (l.addMember t member).1 ∧
      Represents (p.serve (.addMember t member)).2 (l.addMember t member).2 := by
  have hl := h.shapes t.raw.toNat
  cases hi : p.items[t.raw.toNat]? with
  | none =>
      rw [hi, Option.bind_none] at hl
      have hp : p.addMember t member = .error (.unknownType t) := by
        simp [Pool.addMember, item, item?, hi, bind, Except.bind]
      rw [Catalog.addMember, ← hl, Pool.serve, hp]
      exact ⟨rfl, h⟩
  | some i =>
      obtain ⟨s, hs⟩ : ∃ s, l[t.raw.toNat]? = some s := ⟨_, List.getElem?_eq_getElem (h.lt_of_item hi)⟩
      rw [hi, Option.bind_some, hs] at hl
      cases i with
      | union slot =>
          obtain ⟨⟨name, members⟩, hu, rfl⟩ := Option.map_eq_some_iff.mp hl
          rw [Pool.serve, addMember_union hi hu, Catalog.addMember, hs]
          by_cases hm : member = t
          · simp only [hm, if_true]
            exact ⟨trivial, h⟩
          · by_cases hx : member ∈ members
            · simp only [hm, hx, if_true, if_false]
              exact ⟨trivial, h⟩
            · simp only [hm, hx, if_false, UnionType.insert]
              exact ⟨trivial, h.set_union hi ⟨name, members ++ [member]⟩⟩
      | _ =>
          have ht := tag_of_shapeOf? hl
          have hn : s.tag ≠ .union := by simp [ht, Item.tag]
          rw [Pool.serve, addMember_other hi (by simp), Catalog.addMember_other hs hn]
          exact ⟨rfl, h⟩

theorem serve (h : Represents p l) {r : TypeRequest} (hf : (p.serve r).2.Fits) :
    (p.serve r).1 = (l.serve r).1 ∧ Represents (p.serve r).2 (l.serve r).2 := by
  cases r with
  | container tag constraint =>
      have hp : p.size < UInt32.size := Nat.lt_of_le_of_lt (size_le_share ..) hf.1
      obtain ⟨ht, hr⟩ := h.container hp tag constraint
      exact ⟨congrArg TypeAnswer.type ht, hr⟩
  | function params ret =>
      obtain ⟨ht, hr⟩ := h.function hf
      exact ⟨congrArg TypeAnswer.type ht, hr⟩
  | tuple elems =>
      cases elems with
      | nil => exact ⟨rfl, h⟩
      | cons e es =>
          obtain ⟨ht, hr⟩ := h.tuple (List.cons_ne_nil e es) hf
          exact ⟨congrArg TypeAnswer.type ht, hr⟩
  | union name members =>
      obtain ⟨ht, hr⟩ := h.union name members
      exact ⟨congrArg TypeAnswer.type ht, hr⟩
  | declare tag name =>
      cases tag with
      | nominal n =>
          obtain ⟨q, hq, hr⟩ := h.declare n name
          simp only [Pool.serve, hq]
          exact ⟨rfl, hr⟩
      | _ => exact ⟨rfl, h⟩
  | addMember t member => exact h.serve_addMember t member

theorem serveAll (h : Represents p l) {rs : List TypeRequest} (hf : (p.serveAll rs).2.Fits) :
    (p.serveAll rs).1 = (l.serveAll rs).1 ∧ Represents (p.serveAll rs).2 (l.serveAll rs).2 := by
  induction rs generalizing p l with
  | nil => exact ⟨rfl, h⟩
  | cons r rs ih =>
      obtain ⟨ha, hr⟩ := h.serve (r := r) (fits_of_serveAll hf)
      obtain ⟨has, hrs⟩ := ih hr hf
      exact ⟨congrArg₂ List.cons ha has, hrs⟩

theorem shapes_initial : initialItems.map Pool.initial.shapeOf? = Catalog.initial.map some := rfl

theorem getElem?_foldl_insert {α β : Type} (k : α → List UInt32) (v : α → β) {cs : List α}
    {m : Std.TreeMap (List UInt32) β} (hn : (cs.map k).Nodup) (hm : ∀ c ∈ cs, m[k c]? = none)
    {key : List UInt32} {b : β} :
    (cs.foldl (fun m c => m.insert (k c) (v c)) m)[key]? = some b ↔
      m[key]? = some b ∨ ∃ c ∈ cs, k c = key ∧ v c = b := by
  induction cs generalizing m with
  | nil => simp
  | cons c cs ih =>
      obtain ⟨hc, hcs⟩ := List.nodup_cons.mp hn
      have hne (d : α) (hd : d ∈ cs) : k c ≠ k d := fun he => hc (he ▸ List.mem_map_of_mem hd)
      rw [List.foldl_cons, ih hcs]
      · rw [Std.TreeMap.getElem?_insert]
        by_cases he : k c = key
        · subst key
          have hx : ¬ ∃ d ∈ cs, k d = k c ∧ v d = b := by
            rintro ⟨d, hd, hk, -⟩
            exact hne d hd hk.symm
          simp [hm, hx]
        · simp [he]
      · intro d hd
        rw [Std.TreeMap.getElem?_insert, if_neg (by simpa using hne d hd)]
        exact hm d (List.mem_cons_of_mem c hd)

theorem key?_initial : ∀ i : Fin 64, ∀ key ∈ Catalog.initial[i.val]?.bind Shape.key?,
    ∃ c ∈ builtinContainers, sharedKey (.container c.1) [TypeId.any.raw] = key ∧ c.2.raw.toNat = i.val := by
  decide

theorem shape?_initial : ∀ c ∈ builtinContainers, Catalog.initial[c.2.raw.toNat]? = some (.container c.1 .any) := by
  decide

theorem initial : Represents .initial .initial where
  size := rfl
  shapes := by
    intro i
    have h : (initialItems.map Pool.initial.shapeOf?)[i]? = (Catalog.initial.map some)[i]? := by
      rw [shapes_initial]
    have hi : Pool.initial.items[i]? = initialItems[i]? := by simp [Pool.initial]
    rw [List.getElem?_map, List.getElem?_map] at h
    rw [hi]
    cases hx : initialItems[i]? <;> cases hy : Catalog.initial[i]? <;> simp_all
  shared := by
    intro key t
    rw [Pool.initial, getElem?_foldl_insert _ _ (by decide) (by simp)]
    simp only [Std.TreeMap.getElem?_emptyc, reduceCtorEq, false_or]
    constructor
    · rintro ⟨c, hc, rfl, rfl⟩
      exact ⟨_, shape?_initial c hc, rfl⟩
    · rintro ⟨s, hs, hk⟩
      have hi : t.raw.toNat < 64 := (List.getElem?_eq_some_iff.mp hs).1
      obtain ⟨c, hc, hkey, ht⟩ := key?_initial ⟨t.raw.toNat, hi⟩ key (by simp [hs, hk])
      exact ⟨c, hc, hkey, TypeId.toNat_injective ht⟩
  unionSlots := by
    intro i j slot hi
    have hm : Item.union slot ∈ initialItems := List.mem_of_getElem? (by simpa [Pool.initial] using hi)
    simp [initialItems, BuiltinTag.all, builtinContainers] at hm

end Represents

end Pool

end CompilerSymbols
