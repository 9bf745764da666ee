import CompilerSymbols.Proofs.Sequence
import CompilerSymbols.Proofs.Types.Key

namespace CompilerSymbols.Pool

/-- Every position of the pool, followed into the side tables, has the shape that the list has
there. What is shared is found under its key and nothing else is, and no two unions grow together. -/
structure Represents (p : Pool) (l : Catalog) : Prop where
  shapes : ∀ i : Nat, p.items[i]?.bind p.shapeOf? = l[i]?
  size : p.size = l.length
  shared : ∀ (key : List UInt32) (t : TypeId), p.shared[key]? = some t ↔ ∃ s, l[t.raw.toNat]? = some s ∧ s.key? = some key
  unionSlots : ∀ i j slot : Nat, p.items[i]? = some (.union slot) → p.items[j]? = some (.union slot) → i = j

/-- There are positions for all types, and lengths for all layouts. -/
def Fits (p : Pool) : Prop := p.size < UInt32.size ∧ p.words.size < UInt32.size

instance (p : Pool) : Decidable p.Fits := inferInstanceAs (Decidable (_ ∧ _))

theorem toNat_position {n : Nat} (h : n < UInt32.size) : (TypeId.mk n.toUInt32).raw.toNat = n := by
  simp only [Nat.toUInt32_eq, UInt32.toNat_ofNat']
  exact Nat.mod_eq_of_lt h

theorem position_toNat (t : TypeId) : TypeId.mk t.raw.toNat.toUInt32 = t := by
  cases t
  simp

theorem getElem?_concat_eq_some {α : Type} {l : List α} {a b : α} {n : Nat} :
    (l ++ [a])[n]? = some b ↔ l[n]? = some b ∨ n = l.length ∧ a = b := by
  rcases Nat.lt_trichotomy n l.length with hn | rfl | hn
  · simp [List.getElem?_append_left hn, Nat.ne_of_lt hn]
  · simp
  · rw [List.getElem?_eq_none (by rw [List.length_append, List.length_singleton]; omega),
      List.getElem?_eq_none (Nat.le_of_lt hn)]
    simp [Nat.ne_of_gt hn]

theorem size_le_share (p : Pool) (key words : List UInt32) (i : Item) :
    p.size ≤ (p.share key words i).2.size := by
  unfold share
  split
  · exact Nat.le_refl _
  · simp [push, size]

theorem words_le_share (p : Pool) (key words : List UInt32) (i : Item) :
    p.words.size ≤ (p.share key words i).2.words.size := by
  unfold share
  split
  · exact Nat.le_refl _
  · simp [push, ← Array.length_toList]

theorem length_lt_of_share {p : Pool} {key words : List UInt32} {i : Item} (hn : p.shared[key]? = none)
    (hf : (p.share key words i).2.Fits) : words.length < UInt32.size := by
  have h := hf.2
  rw [share, hn] at h
  simp only [push, ← Array.length_toList, Array.toList_appendList, List.length_append] at h
  omega

namespace Represents

variable {p q : Pool} {l : Catalog}

theorem shapeOf?_item (h : Represents p l) {i : Nat} {item : Item} (hi : p.items[i]? = some item) :
    p.shapeOf? item = l[i]? := by
  rw [← h.shapes i, hi, Option.bind_some]

theorem item?_of_shape (h : Represents p l) {i : Nat} {s : Shape} (hs : l[i]? = some s) :
    ∃ item, p.items[i]? = some item ∧ p.shapeOf? item = some s :=
  Option.bind_eq_some_iff.mp ((h.shapes i).trans hs)

theorem lt_of_item (h : Represents p l) {i : Nat} {item : Item} (hi : p.items[i]? = some item) :
    i < l.length := by
  rw [← h.size]
  exact (Array.getElem?_eq_some_iff.mp hi).1

theorem slot_lt (h : Represents p l) {i slot : Nat} (hi : p.items[i]? = some (.union slot)) :
    slot < p.unions.size := by
  have hs := h.shapeOf?_item hi
  rw [List.getElem?_eq_getElem (h.lt_of_item hi)] at hs
  obtain ⟨u, hu, -⟩ := Option.map_eq_some_iff.mp hs
  exact (Array.getElem?_eq_some_iff.mp hu).1

theorem push (h : Represents p l) (hl : LayoutPrefix p q) {i : Item} (hi : q.items = p.items.push i)
    {s : Shape} (hs : q.shapeOf? i = some s)
    (hslot : ∀ slot, i = .union slot → p.unions.size ≤ slot)
    (hshared : ∀ (key : List UInt32) (t : TypeId), q.shared[key]? = some t ↔
      ∃ s', (l ++ [s])[t.raw.toNat]? = some s' ∧ s'.key? = some key) :
    Represents q (l ++ [s]) where
  size := by rw [Pool.size, hi, Array.size_push, List.length_append, ← h.size]; rfl
  shared := hshared
  shapes := by
    intro j
    have hsize : p.items.size = l.length := h.size
    rw [hi]
    rcases Nat.lt_trichotomy j l.length with hj | rfl | hj
    · obtain ⟨item, hp, hps⟩ := h.item?_of_shape (List.getElem?_eq_getElem hj)
      rw [Array.getElem?_push_lt (hsize ▸ hj), ← Array.getElem?_eq_getElem, hp, Option.bind_some,
        shapeOf?_mono hl hps, List.getElem?_append_left hj, List.getElem?_eq_getElem hj]
    · rw [← hsize, Array.getElem?_push_size, Option.bind_some, hs, hsize, List.getElem?_concat_length]
    · rw [Array.getElem?_eq_none (by rw [Array.size_push]; omega), Option.bind_none,
        List.getElem?_eq_none (by rw [List.length_append, List.length_singleton]; omega)]
  unionSlots := by
    intro j k slot hj hk
    rw [hi, Array.getElem?_push] at hj hk
    split at hj
    · next he =>
        split at hk
        · next he' => exact he.trans he'.symm
        · have := h.slot_lt hk
          have := hslot slot (Option.some.inj hj)
          omega
    · split at hk
      · have := h.slot_lt hj
        have := hslot slot (Option.some.inj hk)
        omega
      · exact h.unionSlots j k slot hj hk

theorem push_unshared (h : Represents p l) (hl : LayoutPrefix p q) {i : Item}
    (hi : q.items = p.items.push i) (hq : q.shared = p.shared) {s : Shape} (hs : q.shapeOf? i = some s)
    (hslot : ∀ slot, i = .union slot → p.unions.size ≤ slot) (hk : s.key? = none) :
    Represents q (l ++ [s]) := by
  apply h.push hl hi hs hslot
  intro key t
  rw [hq, h.shared]
  constructor
  · rintro ⟨s', hs', hk'⟩
    exact ⟨s', getElem?_concat_eq_some.mpr (.inl hs'), hk'⟩
  · rintro ⟨s', hs', hk'⟩
    rcases getElem?_concat_eq_some.mp hs' with hs' | ⟨-, rfl⟩
    · exact ⟨s', hs', hk'⟩
    · simp [hk] at hk'

theorem push_shared (h : Represents p l) (hf : p.size < UInt32.size) (hl : LayoutPrefix p q) {i : Item}
    (hi : q.items = p.items.push i) {s : Shape} (hs : q.shapeOf? i = some s)
    (hslot : ∀ slot, i ≠ .union slot) {key : List UInt32} (hk : s.key? = some key)
    (hn : p.shared[key]? = none) (hq : q.shared = p.shared.insert key p.next) :
    Represents q (l ++ [s]) := by
  have hpos : p.next.raw.toNat = l.length := (toNat_position hf).trans h.size
  apply h.push hl hi hs fun slot he => absurd he (hslot slot)
  intro key' t
  rw [hq, Std.TreeMap.getElem?_insert]
  by_cases he : key = key'
  · subst key'
    rw [if_pos (by simp)]
    constructor
    · intro ht
      obtain rfl := Option.some.inj ht
      exact ⟨s, getElem?_concat_eq_some.mpr (.inr ⟨hpos, rfl⟩), hk⟩
    · rintro ⟨s', hs', hk'⟩
      rcases getElem?_concat_eq_some.mp hs' with hs' | ⟨ht, -⟩
      · -- An equal type that was there before would have been found.
        have hp := (h.shared key t).mpr ⟨s', hs', hk'⟩
        simp [hn] at hp
      · rw [← position_toNat t, ht, ← hpos, position_toNat]
  · rw [if_neg (by simpa using he), h.shared]
    constructor
    · rintro ⟨s', hs', hk'⟩
      exact ⟨s', getElem?_concat_eq_some.mpr (.inl hs'), hk'⟩
    · rintro ⟨s', hs', hk'⟩
      rcases getElem?_concat_eq_some.mp hs' with hs' | ⟨-, rfl⟩
      · exact ⟨s', hs', hk'⟩
      · exact absurd (Option.some.inj (hk.symm.trans hk')) he

theorem shared_position (h : Represents p l) (hf : p.size < UInt32.size) {s : Shape} {key : List UInt32}
    (hk : s.key? = some key) {n : Nat} (hn : l[n]? = some s) : p.shared[key]? = some ⟨n.toUInt32⟩ := by
  have hlt : n < l.length := (List.getElem?_eq_some_iff.mp hn).1
  have hsize := h.size
  exact (h.shared key _).mpr ⟨s, by rw [toNat_position (by omega), hn], hk⟩

theorem place_of_found (h : Represents p l) (hf : p.size < UInt32.size) {s : Shape} {key : List UInt32}
    {t : TypeId} (hk : s.key? = some key) (ht : p.shared[key]? = some t) : l.place s = (t, l) := by
  obtain ⟨s', hl, hk'⟩ := (h.shared key t).mp ht
  obtain rfl := Shape.key?_injective hk' hk
  unfold Catalog.place
  cases hx : l.idxOf? s' with
  | none => exact absurd (List.mem_of_getElem? hl) (List.idxOf?_eq_none_iff.mp hx)
  | some n =>
      obtain ⟨hlt, he, -⟩ := List.idxOf?_eq_some_iff.mp hx
      have hp := h.shared_position hf hk (List.getElem?_eq_some_iff.mpr ⟨hlt, he⟩)
      rw [Option.some.inj (ht.symm.trans hp)]

theorem place_of_missing (h : Represents p l) (hf : p.size < UInt32.size) {s : Shape} {key : List UInt32}
    (hk : s.key? = some key) (hn : p.shared[key]? = none) : l.place s = (p.next, l ++ [s]) := by
  have hx : l.idxOf? s = none := by
    rw [List.idxOf?_eq_none_iff]
    intro hm
    obtain ⟨n, hl⟩ := List.getElem?_of_mem hm
    have hp := h.shared_position hf hk hl
    simp [hn] at hp
  rw [Catalog.place, hx]
  exact congrArg (fun n => (TypeId.mk (Nat.toUInt32 n), l ++ [s])) h.size.symm

/-- A shared type is found where the list has it, or added to both. Its item has to be readable
only when it is new. -/
theorem share (h : Represents p l) (hf : p.size < UInt32.size) {s : Shape} {key words : List UInt32} {i : Item}
    (hk : s.key? = some key) (hslot : ∀ slot, i ≠ .union slot)
    (hi : p.shared[key]? = none → { p with words := p.words ++ words }.shapeOf? i = some s) :
    (p.share key words i).1 = (l.place s).1 ∧ Represents (p.share key words i).2 (l.place s).2 := by
  unfold Pool.share
  cases hs : p.shared[key]? with
  | some t =>
      rw [h.place_of_found hf hk hs]
      exact ⟨rfl, h⟩
  | none =>
      rw [h.place_of_missing hf hk hs]
      simp only [Pool.push]
      refine ⟨rfl, h.push_shared hf ⟨?_, ?_, ?_⟩ (i := i) ?_ ?_ hslot hk hs ?_⟩
      · simp
      · exact List.prefix_rfl
      · exact List.prefix_rfl
      · rfl
      · exact shapeOf?_mono ⟨List.prefix_rfl, List.prefix_rfl, List.prefix_rfl⟩ (hi hs)
      · rfl

theorem container (h : Represents p l) (hf : p.size < UInt32.size) (tag : ContainerTag) (constraint : TypeId) :
    (p.container tag constraint).1 = (l.place (.container tag constraint)).1 ∧
      Represents (p.container tag constraint).2 (l.place (.container tag constraint)).2 :=
  h.share hf rfl (by simp) fun _ => rfl

theorem function (h : Represents p l) {params : List TypeId} {ret : TypeId}
    (hf : (p.function params ret).2.Fits) :
    (p.function params ret).1 = (l.place (.function params ret)).1 ∧
      Represents (p.function params ret).2 (l.place (.function params ret)).2 := by
  have hp : p.size < UInt32.size := Nat.lt_of_le_of_lt (size_le_share ..) hf.1
  refine h.share hp rfl (by simp) fun hn => shapeOf?_function rfl ?_
  have hw := length_lt_of_share hn hf
  simp only [counted, List.length_append, List.length_cons, List.length_map] at hw
  omega

theorem tuple (h : Represents p l) {elems : List TypeId} (he : elems ≠ [])
    (hf : (p.tuple elems).2.Fits) :
    (p.tuple elems).1 = (l.place (.tuple elems)).1 ∧
      Represents (p.tuple elems).2 (l.place (.tuple elems)).2 := by
  have hs : p.tuple elems = p.share (sharedKey .tuple (counted elems)) (counted elems) (.tuple p.words.size) := by
    simp [Pool.tuple, he]
  rw [hs] at hf ⊢
  have hp : p.size < UInt32.size := Nat.lt_of_le_of_lt (size_le_share ..) hf.1
  refine h.share hp rfl (by simp) fun hn => shapeOf?_tuple rfl ?_
  have hw := length_lt_of_share hn hf
  simp only [counted, List.length_cons, List.length_map] at hw
  omega

end Represents

end CompilerSymbols.Pool

namespace CompilerSymbols

theorem UnionType.foldl_insert (u : UnionType) (es : List TypeId) :
    es.foldl insert u = ⟨u.name, u.members ++ (es.filter (· ∉ u.members)).eraseDups⟩ := by
  induction es using List.reverseRecOn with
  | nil => simp
  | append_singleton es e ih =>
      rw [List.foldl_concat, ih, insert, List.filter_append]
      by_cases hu : e ∈ u.members
      · simp [hu]
      · simp only [hu, not_false_eq_true, decide_true, List.filter_cons_of_pos, List.filter_nil, eraseDups_concat]
        by_cases he : e ∈ es <;> simp [hu, he]

theorem UnionType.ofList_eq (name : Option Name) (ms : List TypeId) : ofList name ms = ⟨name, ms.eraseDups⟩ := by
  rw [ofList, foldl_insert]
  simp

namespace Pool.Represents

variable {p q : Pool} {l : Catalog}

theorem union (h : Represents p l) (name : Option Name) (members : List TypeId) :
    (p.union name members).1 = (l.add (.union ⟨name, members.eraseDups⟩)).1 ∧
      Represents (p.union name members).2 (l.add (.union ⟨name, members.eraseDups⟩)).2 := by
  refine ⟨congrArg (fun n => TypeId.mk (Nat.toUInt32 n)) h.size, ?_⟩
  refine h.push_unshared (q := (p.union name members).2) ⟨List.prefix_rfl, ?_, List.prefix_rfl⟩
    (i := .union p.unions.size) (s := .union ⟨name, members.eraseDups⟩) rfl rfl ?_ ?_ rfl
  · simp [Pool.union, Pool.push]
  · simp [Pool.union, Pool.push, shapeOf?, UnionType.ofList_eq]
  · intro slot he
    cases he
    exact Nat.le_refl _

theorem declare (h : Represents p l) (n : NominalTag) (name : Name) :
    ∃ q, p.declare (.nominal n) name = .ok ((l.add (.nominal n name)).1, q) ∧
      Represents q (l.add (.nominal n name)).2 := by
  let q := ({ p with nominals := p.nominals.push name }.push (.nominal n p.nominals.size)).2
  refine ⟨q, congrArg Except.ok (Prod.ext (congrArg (fun n => TypeId.mk (Nat.toUInt32 n)) h.size) rfl), ?_⟩
  refine h.push_unshared (q := q) ⟨List.prefix_rfl, List.prefix_rfl, ?_⟩
    (i := .nominal n p.nominals.size) (s := .nominal n name) rfl rfl ?_ ?_ rfl
  · simp [q, Pool.push]
  · simp [q, Pool.push, shapeOf?]
  · intro slot he
    cases he

theorem set_union (h : Represents p l) {n slot : Nat} (hi : p.items[n]? = some (.union slot)) (u : UnionType) :
    Represents { p with unions := p.unions.setIfInBounds slot u } (l.set n (.union u)) where
  size := by rw [List.length_set]; exact h.size
  unionSlots := h.unionSlots
  shapes := by
    intro j
    rw [List.getElem?_set]
    by_cases hj : n = j
    · subst j
      simp [hi, shapeOf?, h.slot_lt hi, h.lt_of_item hi]
    · rw [if_neg hj, ← h.shapes j]
      cases hx : p.items[j]? with
      | none => rfl
      | some item =>
          cases item with
          | union slot' =>
              -- Two unions with one slot would change together.
              have hne : slot ≠ slot' := by
                rintro rfl
                exact hj (h.unionSlots n j slot hi hx)
              simp [shapeOf?, hne]
          | _ => rfl
  shared := by
    intro key t
    rw [h.shared]
    constructor
    · rintro ⟨s, hs, hk⟩
      have hn : n ≠ t.raw.toNat := by
        rintro rfl
        rw [← h.shapeOf?_item hi] at hs
        obtain ⟨v, -, rfl⟩ := Option.map_eq_some_iff.mp hs
        cases hk
      exact ⟨s, by rw [List.getElem?_set_ne hn, hs], hk⟩
    · rintro ⟨s, hs, hk⟩
      have hn : n ≠ t.raw.toNat := by
        rintro rfl
        rw [List.getElem?_set_self (h.lt_of_item hi)] at hs
        cases hs
        cases hk
      exact ⟨s, by rw [List.getElem?_set_ne hn] at hs; exact hs, hk⟩

end Pool.Represents

end CompilerSymbols
