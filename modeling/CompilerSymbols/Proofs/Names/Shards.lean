import CompilerSymbols.Proofs.Names.Growth
import CompilerSymbols.Proofs.Names.Packing
import CompilerSymbols.Proofs.Sequence
import Mathlib.Algebra.BigOperators.Fin

namespace CompilerSymbols

structure Shard.Lists (d : Shard) (ts : List String) : Prop where
  texts : d.texts.toList = ts
  slots : Indexes d.slots ts

namespace Shard.Lists

variable {d : Shard} {ts : List String}

theorem empty : Shard.empty.Lists [] := ⟨rfl, .empty⟩

theorem size_eq (h : d.Lists ts) : d.texts.size = ts.length := by
  rw [← h.texts, Array.length_toList]

theorem push (h : d.Lists ts) {text : String} (hn : text ∉ ts) :
    (d.push text).Lists (ts ++ [text]) where
  texts := by rw [Shard.push, Array.toList_push, h.texts]
  slots := by
    rw [Shard.push, h.size_eq]
    exact h.slots.insert hn

end Shard.Lists

namespace Interner

variable {n n' : Interner} {texts : List String} {text t : String} {name : Name}

def place (shardOf : String → Fin Name.shardCount) (text : String) : Fin Name.shardCount :=
  if text.isEmpty then 0 else shardOf text

def inShard (shardOf : String → Fin Name.shardCount) (texts : List String) (k : Fin Name.shardCount) :
    List String :=
  texts.filter fun t => place shardOf t = k

/-- The interner holds these texts and no others, and every shard those that belong to it, in the
order in which they came. -/
structure Holds (n : Interner) (texts : List String) : Prop where
  head : texts.head? = some ""
  shards : ∀ k : Fin Name.shardCount, n.shards[k].Lists (inShard n.shardOf texts k)
  size_eq : n.size = texts.length

theorem place_empty (shardOf : String → Fin Name.shardCount) : place shardOf "" = 0 := rfl

theorem place_of_ne (shardOf : String → Fin Name.shardCount) (h : text ≠ "") : place shardOf text = shardOf text :=
  if_neg (by simpa using h)

theorem mem_inShard {shardOf : String → Fin Name.shardCount} {k : Fin Name.shardCount} :
    text ∈ inShard shardOf texts k ↔ text ∈ texts ∧ place shardOf text = k := by
  simp [inShard]

theorem inShard_concat (shardOf : String → Fin Name.shardCount) (texts : List String) (text : String)
    (k : Fin Name.shardCount) : inShard shardOf (texts ++ [text]) k =
      inShard shardOf texts k ++ if place shardOf text = k then [text] else [] := by
  rw [inShard, List.filter_append]
  by_cases h : place shardOf text = k <;> simp [inShard, h]

theorem sum_inShard (shardOf : String → Fin Name.shardCount) (texts : List String) :
    ∑ k, (inShard shardOf texts k).length = texts.length := by
  induction texts with
  | nil => simp [inShard]
  | cons text texts ih =>
      have h (k : Fin Name.shardCount) : (inShard shardOf (text :: texts) k).length =
          (if place shardOf text = k then 1 else 0) + (inShard shardOf texts k).length := by
        by_cases hk : place shardOf text = k
        · simp [inShard, hk, Nat.add_comm]
        · simp [inShard, hk]
      simp only [h, Finset.sum_add_distrib, ih, Finset.sum_ite_eq, Finset.mem_univ, if_true]
      exact Nat.add_comm 1 texts.length

theorem getElem_set (v : Vector Shard Name.shardCount) (j k : Fin Name.shardCount) (d : Shard) :
    (v.set j d)[k] = if j = k then d else v[k] := by
  simp only [Fin.getElem_fin, Vector.getElem_set, Fin.ext_iff]

namespace Holds

theorem mem_empty (h : n.Holds texts) : "" ∈ texts := List.mem_of_head? h.head

theorem size_eq_sum (h : n.Holds texts) : n.size = ∑ k : Fin Name.shardCount, n.shards[k].texts.size := by
  rw [h.size_eq, ← sum_inShard n.shardOf texts]
  exact Finset.sum_congr rfl fun k _ => (h.shards k).size_eq.symm

theorem head_inShard (h : n.Holds texts) : (inShard n.shardOf texts 0)[0]? = some "" := by
  obtain ⟨rest, rfl⟩ := List.head?_eq_some_iff.mp h.head
  simp [inShard, place_empty]

theorem lookup_eq_ok (h : n.Holds texts) :
    n.lookup name = .ok text ↔ (inShard n.shardOf texts name.shard)[name.slot]? = some text := by
  rw [← (h.shards name.shard).texts, Array.getElem?_toList, lookup]
  cases n.shards[name.shard].texts[name.slot]? <;> simp

/-- A text and a name belong together in both directions. -/
theorem lookup_iff (h : n.Holds texts) : n.lookup name = .ok text ↔ n.get? text = some name := by
  rw [h.lookup_eq_ok]
  by_cases he : text = ""
  · subst he
    have hz : Name.ofParts? (0 : Fin Name.shardCount) 0 = some .empty := rfl
    constructor
    · intro hs
      obtain ⟨-, hk⟩ := mem_inShard.mp (List.mem_of_getElem? hs)
      rw [← hk] at hs
      have hslot : name.slot = 0 := (h.shards _).slots.inj hs h.head_inShard
      have hp := name.ofParts?_parts
      rw [hslot, ← hk, place_empty, hz] at hp
      exact hp
    · intro hs
      cases hs
      exact h.head_inShard
  · rw [get?, if_neg (by simpa using he)]
    have hk := place_of_ne n.shardOf he
    constructor
    · intro hs
      obtain ⟨-, hk'⟩ := mem_inShard.mp (List.mem_of_getElem? hs)
      rw [hk] at hk'
      refine Option.bind_eq_some_iff.mpr ⟨name.slot, ((h.shards _).slots ..).mpr (hk' ▸ hs), ?_⟩
      rw [hk']
      exact name.ofParts?_parts
    · intro hs
      obtain ⟨i, hi, hp⟩ := Option.bind_eq_some_iff.mp hs
      obtain ⟨hk', hi'⟩ := Name.parts_of_ofParts? hp
      rw [Fin.ext hk', hi']
      exact ((h.shards _).slots ..).mp hi

theorem mem_of_get? (h : n.Holds texts) (hs : n.get? text = some name) : text ∈ texts :=
  (mem_inShard.mp (List.mem_of_getElem? (h.lookup_eq_ok.mp (h.lookup_iff.mpr hs)))).1

theorem get?_empty_iff (h : n.Holds texts) : n.get? text = some .empty ↔ text = "" := by
  constructor
  · intro hs
    have he : n.lookup .empty = .ok "" := h.lookup_iff.mpr rfl
    exact Except.ok.inj ((h.lookup_iff.mpr hs).symm.trans he)
  · rintro rfl
    rfl

theorem add (h : n.Holds texts) (ht : text ∉ texts) : (n.add text).Holds (texts ++ [text]) := by
  have hne : text ≠ "" := fun he => ht (he ▸ h.mem_empty)
  refine ⟨?_, ?_, ?_⟩
  · rw [List.head?_append, h.head]
    rfl
  · intro k
    change ((n.shards.set (n.shardOf text) _)[k]).Lists (inShard n.shardOf (texts ++ [text]) k)
    rw [inShard_concat, place_of_ne _ hne, getElem_set]
    by_cases hk : n.shardOf text = k
    · subst hk
      rw [if_pos rfl, if_pos rfl]
      exact (h.shards _).push fun hm => ht (mem_inShard.mp hm).1
    · rw [if_neg hk, if_neg hk, List.append_nil]
      exact h.shards k
  · rw [List.length_append, List.length_singleton, ← h.size_eq]
    rfl

theorem size_get (h : n.Holds texts) (k : Fin Name.shardCount) :
    (n.shards.get k).texts.size = (inShard n.shardOf texts k).length := (h.shards k).size_eq

theorem lookup_added (h : n.Holds texts) (ht : text ∉ texts)
    (hp : Name.ofParts? (n.shardOf text) (n.shards.get (n.shardOf text)).texts.size = some name) :
    (n.add text).lookup name = .ok text := by
  have hne : text ≠ "" := fun he => ht (he ▸ h.mem_empty)
  obtain ⟨hshard, hslot⟩ := Name.parts_of_ofParts? hp
  rw [(h.add ht).lookup_eq_ok, Fin.ext hshard, hslot]
  change (inShard n.shardOf (texts ++ [text]) _)[_]? = _
  rw [inShard_concat, place_of_ne _ hne, if_pos rfl, h.size_get, List.getElem?_concat_length]

/-- As long as a shard has a slot left, all its texts have names. -/
theorem not_mem_of_room (h : n.Holds texts) (hn : n.get? text = none)
    (hp : Name.ofParts? (n.shardOf text) (n.shards.get (n.shardOf text)).texts.size = some name) : text ∉ texts := by
  intro hm
  have hne : text ≠ "" := by
    rintro rfl
    cases hn
  obtain ⟨i, hi⟩ := List.getElem?_of_mem (mem_inShard.mpr ⟨hm, place_of_ne n.shardOf hne⟩)
  have hlt : i < 2 ^ 28 := by
    have hsize := (Name.ofParts?_isSome.mp (Option.isSome_of_eq_some hp)).2
    rw [h.size_get] at hsize
    exact Nat.lt_trans (List.getElem?_eq_some_iff.mp hi).1 hsize
  obtain ⟨made, hmade⟩ := Option.isSome_iff_exists.mp (Name.ofParts?_isSome.mpr ⟨Fin.isLt (n.shardOf text), hlt⟩)
  have hs : n.shards[n.shardOf text].slots[text]? = some i := ((h.shards _).slots ..).mpr hi
  rw [get?, if_neg (by simpa using hne)] at hn
  simp only [hs, Option.bind_some, hmade, reduceCtorEq] at hn

theorem intern_ok (h : n.Holds texts) (hi : n.intern text = .ok (name, n')) :
    ∃ texts', n'.Holds texts' ∧ n'.lookup name = .ok text := by
  unfold Interner.intern at hi
  split at hi
  · next hn =>
      cases hi
      exact ⟨texts, h, h.lookup_iff.mpr hn⟩
  · next hn =>
      dsimp only at hi
      split at hi
      · next hp =>
          cases hi
          have ht := h.not_mem_of_room hn hp
          exact ⟨_, h.add ht, h.lookup_added ht hp⟩
      · cases hi

theorem addAll (h : n.Holds texts) {ts : List String} (hn : (texts ++ ts).Nodup) :
    (ts.foldl Interner.add n).Holds (texts ++ ts) := by
  induction ts generalizing n texts with
  | nil => simpa using h
  | cons t ts ih =>
      have ht : t ∉ texts := fun hm => (List.nodup_append.mp hn).2.2 t hm t List.mem_cons_self rfl
      rw [List.append_cons] at hn ⊢
      exact ih (h.add ht) hn

theorem onlyEmpty (shardOf : String → Fin Name.shardCount) : (onlyEmpty shardOf).Holds [""] := by
  refine ⟨rfl, ?_, rfl⟩
  intro k
  let shards := Vector.replicate Name.shardCount Shard.empty
  change Shard.Lists (shards.set (0 : Fin Name.shardCount) (Shard.empty.push ""))[k] (inShard shardOf ([] ++ [""]) k)
  rw [inShard_concat, place_empty, getElem_set]
  split
  · exact Shard.Lists.empty.push List.not_mem_nil
  · simpa [shards, inShard] using Shard.Lists.empty

theorem initial (shardOf : String → Fin Name.shardCount) : (initial shardOf).Holds ("" :: builtinTexts) :=
  (onlyEmpty shardOf).addAll (by decide +kernel)

end Holds

end Interner

end CompilerSymbols
