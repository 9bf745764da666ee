import CompilerSymbols.Proofs.Types.Run

namespace CompilerSymbols

theorem BuiltinTag.item_initial (b : BuiltinTag) (i : Nat) :
    Pool.initial.items[i]? = some (.builtin b) ↔ i = b.code.toNat := by
  have hi : Pool.initial.items[i]? = Pool.initialItems[i]? := by simp [Pool.initial]
  rw [hi]
  constructor
  · intro h
    have hlt : i < 64 := (List.getElem?_eq_some_iff.mp h).1
    have hall : ∀ i : Fin 64, ∀ b ∈ all, Pool.initialItems[i.val]? = some (.builtin b) → i.val = b.code.toNat := by
      decide
    exact hall ⟨i, hlt⟩ b (by cases b <;> decide) h
  · rintro rfl
    cases b <;> rfl

namespace Pool

variable {p q : Pool} {r : TypeRequest} {t u : TypeId} {s : Shape} {g : TypeTag}

/-- What making a type stores: nothing when the type is there, or one more item with all its parts. -/
inductive Makes (p : Pool) : Pool → Prop
  | found : Makes p p
  | item {q : Pool} {i : Item} (hl : LayoutPrefix p q) (hi : q.items = p.items.push i) (hu : q.unions = p.unions)
      (hn : ∀ slot, i ≠ .union slot) (hb : ∀ b, i ≠ .builtin b) : Makes p q
  | union {q : Pool} (hl : LayoutPrefix p q) (hi : q.items = p.items.push (.union p.unions.size))
      (hu : q.unions.size = p.unions.size + 1) : Makes p q

theorem share_makes (p : Pool) (key words : List UInt32) {i : Item} (hn : ∀ slot, i ≠ .union slot)
    (hb : ∀ b, i ≠ .builtin b) : p.Makes (p.share key words i).2 := by
  unfold share
  split
  · exact .found
  · exact .item ⟨by simp [push], List.prefix_rfl, List.prefix_rfl⟩ rfl rfl hn hb

theorem serve_makes (p : Pool) (hr : r.makes = true) : p.Makes (p.serve r).2 := by
  cases r with
  | container tag constraint | function params ret => exact share_makes p _ _ (by simp) (by simp)
  | tuple elems =>
      cases elems with
      | nil => exact .found
      | cons e es => exact share_makes p _ _ (by simp) (by simp)
  | union name members =>
      exact .union ⟨List.prefix_rfl, by simp [serve, union, push], List.prefix_rfl⟩ rfl (by simp [serve, union, push])
  | declare tag name =>
      cases tag with
      | nominal n =>
          exact .item ⟨List.prefix_rfl, List.prefix_rfl, by simp [serve, declare, push]⟩ rfl rfl (by simp) (by simp)
      | _ => exact .found
  | addMember t member => cases hr

theorem shape_eq_ok : p.shape t = .ok s ↔ ∃ i, p.items[t.raw.toNat]? = some i ∧ p.shapeOf? i = some s := by
  unfold shape item item?
  cases p.items[t.raw.toNat]? with
  | none => simp [bind, Except.bind]
  | some i => cases hs : p.shapeOf? i <;> simp [bind, Except.bind, pure, Except.pure, throw, throwThe, MonadExceptOf.throw, hs]

theorem tag_eq_ok : p.tag t = .ok g ↔ ∃ i, p.items[t.raw.toNat]? = some i ∧ i.tag = g := by
  unfold Pool.tag item item?
  cases p.items[t.raw.toNat]? <;> simp [Except.map]

theorem tag_of_shape (hs : p.shape t = .ok s) : p.tag t = .ok s.tag := by
  obtain ⟨i, hi, his⟩ := shape_eq_ok.mp hs
  exact tag_eq_ok.mpr ⟨i, hi, (tag_of_shapeOf? his).symm⟩

theorem isUnion_of_tag (ht : p.tag t = .ok g) : p.isUnion t = .ok (g == .union) := by
  rw [isUnion, ht]
  rfl

theorem shape_union_iff {v : UnionType} : p.shape t = .ok (.union v) ↔
    ∃ slot, p.items[t.raw.toNat]? = some (.union slot) ∧ p.unions[slot]? = some v := by
  rw [shape_eq_ok]
  constructor
  · rintro ⟨i, hi, hs⟩
    have ht := tag_of_shapeOf? hs
    cases i with
    | union slot =>
        obtain ⟨w, hw, he⟩ := Option.map_eq_some_iff.mp hs
        exact ⟨slot, hi, Shape.union.inj he ▸ hw⟩
    | _ => cases ht
  · rintro ⟨slot, hi, hv⟩
    exact ⟨_, hi, congrArg (Option.map Shape.union) hv⟩

namespace Makes

theorem getElem? (h : p.Makes q) {n : Nat} {i : Item} (hi : p.items[n]? = some i) : q.items[n]? = some i := by
  cases h with
  | found => exact hi
  | item hl hq | union hl hq =>
      rw [hq, Array.getElem?_push_lt (Array.getElem?_eq_some_iff.mp hi).1]
      exact congrArg some (Array.getElem?_eq_some_iff.mp hi).2

theorem shape (h : p.Makes q) (hs : p.shape t = .ok s) : q.shape t = .ok s := by
  obtain ⟨i, hi, his⟩ := shape_eq_ok.mp hs
  refine shape_eq_ok.mpr ⟨i, h.getElem? hi, ?_⟩
  cases h with
  | found => exact his
  | item hl | union hl => exact shapeOf?_mono hl his

theorem tag (h : p.Makes q) (ht : p.tag t = .ok g) : q.tag t = .ok g := by
  obtain ⟨i, hi, hit⟩ := tag_eq_ok.mp ht
  exact tag_eq_ok.mpr ⟨i, h.getElem? hi, hit⟩

end Makes

/-- Every union has members of its own, and the builtin types are in their places and nowhere else. -/
structure Arranged (p : Pool) : Prop where
  slot_lt : ∀ i slot : Nat, p.items[i]? = some (.union slot) → slot < p.unions.size
  slot_inj : ∀ i j slot : Nat, p.items[i]? = some (.union slot) → p.items[j]? = some (.union slot) → i = j
  builtin : ∀ (b : BuiltinTag) (i : Nat), p.items[i]? = some (.builtin b) ↔ i = b.code.toNat

theorem arranged_initial : initial.Arranged := by
  have hn (i slot : Nat) : initial.items[i]? ≠ some (.union slot) := by
    intro hi
    have hm : Item.union slot ∈ initialItems := List.mem_of_getElem? (by simpa [initial] using hi)
    simp [initialItems, BuiltinTag.all, builtinContainers] at hm
  exact ⟨fun i slot hi => absurd hi (hn i slot), fun i j slot hi => absurd hi (hn i slot), BuiltinTag.item_initial⟩

namespace Arranged

theorem push_builtin (h : p.Arranged) {i : Item} (hq : q.items = p.items.push i) (hb : ∀ b, i ≠ .builtin b)
    (b : BuiltinTag) (n : Nat) : q.items[n]? = some (.builtin b) ↔ n = b.code.toNat := by
  rw [hq, Array.getElem?_push]
  split
  · next hn =>
      subst hn
      refine iff_of_false (fun he => hb b (Option.some.inj he)) fun he => ?_
      have hs := (h.builtin b _).mpr he
      simp at hs
  · exact h.builtin b n

theorem makes (h : p.Arranged) (hq : p.Makes q) : q.Arranged := by
  cases hq with
  | found => exact h
  | @item _ i hl hi hu hn hb =>
      have hold {n slot : Nat} (hs : q.items[n]? = some (.union slot)) : p.items[n]? = some (.union slot) := by
        rw [hi, Array.getElem?_push] at hs
        split at hs
        · exact absurd (Option.some.inj hs) (hn slot)
        · exact hs
      refine ⟨fun n slot hs => hu ▸ h.slot_lt n slot (hold hs), ?_, h.push_builtin hi hb⟩
      exact fun n m slot hs hs' => h.slot_inj n m slot (hold hs) (hold hs')
  | union hl hi hu =>
      have hold {n slot : Nat} (hs : q.items[n]? = some (.union slot)) :
          n = p.items.size ∧ slot = p.unions.size ∨ p.items[n]? = some (.union slot) ∧ slot < p.unions.size := by
        rw [hi, Array.getElem?_push] at hs
        split at hs
        · next hn => exact .inl ⟨hn, (Item.union.inj (Option.some.inj hs)).symm⟩
        · exact .inr ⟨hs, h.slot_lt n slot hs⟩
      refine ⟨?_, ?_, h.push_builtin hi (by simp)⟩
      · intro n slot hs
        rcases hold hs with ⟨-, hslot⟩ | ⟨-, hslot⟩ <;> omega
      · intro n m slot hs hs'
        rcases hold hs with ⟨hn, hslot⟩ | ⟨hs, hslot⟩ <;> rcases hold hs' with ⟨hn', hslot'⟩ | ⟨hs', hslot'⟩
        · exact hn.trans hn'.symm
        · omega
        · omega
        · exact h.slot_inj n m slot hs hs'

theorem of_frame (h : p.Arranged) (hi : q.items = p.items) (hu : q.unions.size = p.unions.size) : q.Arranged :=
  ⟨fun i slot hs => hu ▸ h.slot_lt i slot (hi ▸ hs), fun i j slot hs hs' => h.slot_inj i j slot (hi ▸ hs) (hi ▸ hs'),
    fun b i => hi ▸ h.builtin b i⟩

theorem exists_union (h : p.Arranged) (hu : p.isUnion t = .ok true) : ∃ u, p.shape t = .ok (.union u) := by
  obtain ⟨g, ht, hu⟩ := map_ok hu
  obtain ⟨i, hi, rfl⟩ := tag_eq_ok.mp ht
  cases i with
  | union slot => exact ⟨_, shape_union_iff.mpr ⟨slot, hi, Array.getElem?_eq_getElem (h.slot_lt _ slot hi)⟩⟩
  | _ => simp [Item.tag] at hu

/-- Two unions with one slot would change together. -/
theorem shape_set (h : p.Arranged) {slot : Nat} (hi : p.items[t.raw.toNat]? = some (.union slot)) (w : UnionType)
    {v : UnionType} (hv : p.shape u = .ok (.union v)) :
    { p with unions := p.unions.setIfInBounds slot w }.shape u = .ok (.union (if t = u then w else v)) := by
  obtain ⟨slot', hi', hv⟩ := shape_union_iff.mp hv
  refine shape_union_iff.mpr ⟨slot', hi', ?_⟩
  rw [Array.getElem?_setIfInBounds]
  by_cases ht : t = u
  · subst ht
    cases hi.symm.trans hi'
    rw [if_pos rfl, if_pos rfl, if_pos (h.slot_lt _ slot hi)]
  · have hne : slot ≠ slot' := by
      rintro rfl
      exact ht (TypeId.toNat_injective (h.slot_inj _ _ slot hi hi'))
    rw [if_neg ht, if_neg hne, hv]

theorem shape_builtin_iff (h : p.Arranged) {b : BuiltinTag} :
    p.shape t = .ok (.builtin b) ↔ t.raw.toNat = b.code.toNat := by
  rw [shape_eq_ok, ← h.builtin b]
  constructor
  · rintro ⟨i, hi, hs⟩
    have ht := tag_of_shapeOf? hs
    cases i with
    | builtin b' =>
        cases ht
        exact hi
    | _ => cases ht
  · intro hi
    exact ⟨_, hi, rfl⟩

end Arranged

theorem Arranged.serve (h : p.Arranged) (r : TypeRequest) : (p.serve r).2.Arranged := by
  cases hr : r.makes with
  | true => exact h.makes (serve_makes p hr)
  | false =>
      cases r with
      | addMember t m =>
          rw [Pool.serve]
          cases ha : p.addMember t m with
          | error f => exact h
          | ok a =>
              rcases addMember_cases ha with hp | ⟨slot, u, -, -, -, -, hp⟩
              · exact h.of_frame (by rw [hp]) (by rw [hp])
              · exact h.of_frame (by rw [hp]) (by rw [hp, Array.size_setIfInBounds])
      | _ => cases hr

theorem Arranged.step (h : p.Arranged) (q : PoolRequest) : (p.step q).Arranged := by
  obtain ⟨rs, hp⟩ := exists_plays p q
  rw [hp.step]
  clear hp
  induction rs generalizing p with
  | nil => exact h
  | cons r rs ih => exact ih (h.serve r)

theorem arranged_run (qs : List PoolRequest) : (Pool.initial.run qs).Arranged := by
  induction qs using List.reverseRecOn with
  | nil => exact arranged_initial
  | append_singleton qs q ih =>
      rw [run_concat]
      exact ih.step q

end Pool

end CompilerSymbols
