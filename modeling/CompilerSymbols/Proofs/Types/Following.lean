import CompilerSymbols.Proofs.Types.Readable
import CompilerSymbols.Proofs.Types.Writing

namespace CompilerSymbols

/-- The types whose texts are part of the text of a type. Named unions and nominal types are written
by name, and what may be left out is left out. -/
inductive Shape.Follows : Shape → TypeId → Prop
  | element (t : TypeId) : Follows (.container .array t) t
  | constraint {c : ContainerTag} {t : TypeId} (hc : c ≠ .array) (ht : t ≠ .any) : Follows (.container c t) t
  | param {ps : List TypeId} {t : TypeId} (ret : TypeId) (ht : t ∈ ps) : Follows (.function ps ret) t
  | returned (ps : List TypeId) {ret : TypeId} (hr : ret ≠ .nil) : Follows (.function ps ret) ret
  | elem {es : List TypeId} {t : TypeId} (ht : t ∈ es) : Follows (.tuple es) t
  | member {ms : List TypeId} {t : TypeId} (ht : t ∈ ms) : Follows (.union ⟨none, ms⟩) t

theorem Shape.Follows.mem_mentions {s : Shape} {u : TypeId} (h : s.Follows u) : u ∈ s.mentions := by
  cases h with
  | element | constraint => exact List.mem_cons_self
  | param ret ht => exact List.mem_append_left _ ht
  | returned => exact List.mem_append_right _ List.mem_cons_self
  | elem ht | member ht => exact ht

theorem Piece.mem_separated {sep : String} {ts : List TypeId} {u : TypeId} : part u ∈ separated sep ts ↔ u ∈ ts := by
  induction ts with
  | nil => simp [separated]
  | cons t ts ih =>
      cases ts with
      | nil => simp [separated]
      | cons t' ts =>
          rw [List.mem_cons, ← ih]
          simp [separated]

theorem PoolRequest.Adds.mem_types {q : PoolRequest} {t m : TypeId} (h : q.Adds t m) : m ∈ q.types := by
  cases h <;> simp [types, TypeRequest.types]

namespace Pool

open Piece

variable {p : Pool} {q : PoolRequest} {qs : List PoolRequest} {t u : TypeId} {s : Shape} {names : Interner}
  {ps : List Piece}

def Follows (p : Pool) (t u : TypeId) : Prop := ∃ s, p.shape t = .ok s ∧ s.Follows u

theorem Follows.lt_size (h : p.Follows t u) : t.raw.toNat < p.size :=
  have ⟨_, hs, _⟩ := h
  lt_of_shape hs

theorem part_mem_shapePieces (hps : p.shapePieces names s = .ok ps) : part u ∈ ps ↔ s.Follows u := by
  cases s with
  | builtin b =>
      refine iff_of_false ?_ (by rintro ⟨⟩)
      cases b <;> cases hps <;> simp
  | container c k =>
      by_cases hc : c = .array
      · subst hc
        obtain ⟨b, -, hps⟩ := bind_ok hps
        have hk : part u ∈ ps ↔ u = k := by cases b <;> cases hps <;> simp
        rw [hk]
        constructor
        · rintro rfl
          exact .element u
        · rintro (_ | ⟨hne, -⟩)
          · rfl
          · exact absurd rfl hne
      · rw [shapePieces_container hc] at hps
        by_cases hk : k = .any
        · rw [if_pos hk] at hps
          cases hps
          refine iff_of_false (by simp) ?_
          rintro (_ | ⟨-, hne⟩)
          · exact hc rfl
          · exact hne hk
        · rw [if_neg hk] at hps
          cases hps
          constructor
          · intro hu
            obtain rfl : u = k := by simpa using hu
            exact .constraint hc hk
          · rintro (_ | ⟨-, -⟩) <;> simp
  | function params ret =>
      by_cases hr : ret = .nil
      · obtain rfl : letters "function (" :: separated ", " params ++ [letters ")"] = ps := by
          simpa [shapePieces, hr] using hps
        have hu : part u ∈ letters "function (" :: separated ", " params ++ [letters ")"] ↔ u ∈ params := by
          simp [mem_separated]
        rw [hu]
        constructor
        · exact .param ret
        · rintro (_ | _ | ⟨_, hu⟩ | ⟨_, hne⟩)
          · exact hu
          · exact absurd hr hne
      · obtain rfl : letters "function (" :: separated ", " params ++ [letters ")"] ++
            [letters " returns (", part ret, letters ")"] = ps := by simpa [shapePieces, hr] using hps
        have hu : part u ∈ letters "function (" :: separated ", " params ++ [letters ")"] ++
            [letters " returns (", part ret, letters ")"] ↔ u ∈ params ∨ u = ret := by simp [mem_separated]
        rw [hu]
        constructor
        · rintro (hu | rfl)
          · exact .param ret hu
          · exact .returned params hr
        · rintro (_ | _ | ⟨_, hu⟩ | ⟨_, hne⟩)
          · exact .inl hu
          · exact .inr rfl
  | tuple elems =>
      cases hps
      have hu : part u ∈ letters "(" :: separated ", " elems ++ [letters ")"] ↔ u ∈ elems := by simp [mem_separated]
      rw [hu]
      constructor
      · exact .elem
      · rintro ⟨⟩
        assumption
  | union v =>
      obtain ⟨name, ms⟩ := v
      cases name with
      | some name =>
          obtain ⟨text, -, rfl⟩ := map_ok hps
          exact iff_of_false (by simp) (by rintro ⟨⟩)
      | none =>
          cases hps
          rw [mem_separated]
          constructor
          · exact .member
          · rintro ⟨⟩
            assumption
  | nominal k name =>
      obtain ⟨text, -, rfl⟩ := map_ok hps
      exact iff_of_false (by simp) (by rintro ⟨⟩)
  | reserved =>
      cases hps
      exact iff_of_false (by simp [invalidPieces]) (by rintro ⟨⟩)

theorem part_mem_pieces (h : p.Readable) (hps : p.pieces names t = .ok ps) : part u ∈ ps ↔ p.Follows t u := by
  unfold pieces at hps
  split at hps
  · obtain ⟨s, hs, hps⟩ := bind_ok hps
    rw [part_mem_shapePieces hps]
    constructor
    · intro hu
      exact ⟨s, hs, hu⟩
    · rintro ⟨s', hs', hu⟩
      cases hs.symm.trans hs'
      exact hu
  · next hc =>
      cases hps
      refine iff_of_false (by simp [invalidPieces]) ?_
      rintro ⟨s, hs, hu⟩
      refine hc (h.contains_iff.mpr ⟨s, hs, ?_⟩)
      rintro rfl
      cases hu

/-- All types that stand in another one are in the pool. -/
def Linked (p : Pool) : Prop := ∀ (t : TypeId) (s : Shape), p.shape t = .ok s → ∀ u ∈ s.mentions, u.raw.toNat < p.size

def Ordered (p : Pool) : Prop := ∀ t u, p.Follows t u → u.raw < t.raw

/-- Every member that comes into an unnamed union during a run is let in. -/
def ExtendsUnnamed (lets : PoolRequest → TypeId → TypeId → Prop) : Pool → List PoolRequest → Prop
  | _, [] => True
  | p, q :: qs => (∀ t m ms, q.Adds t m → p.shape t = .ok (.union ⟨none, ms⟩) → m ≠ t → m ∉ ms → lets q t m) ∧
    ExtendsUnnamed lets (p.step q) qs

def LetsEarlier (_ : PoolRequest) (t m : TypeId) : Prop := m.raw < t.raw

def LetsBuiltin (q : PoolRequest) (_ m : TypeId) : Prop := (∀ r, q ≠ .type r) ∧ m.isBuiltin = true

theorem size_le_serveAll (p : Pool) (rs : List TypeRequest) : p.size ≤ (p.serveAll rs).2.size := by
  induction rs generalizing p with
  | nil => exact Nat.le_refl _
  | cons r rs ih => exact Nat.le_trans (size_le_serve p r).1 (ih _)

theorem size_le_step (p : Pool) (q : PoolRequest) : p.size ≤ (p.step q).size := by
  obtain ⟨rs, hp⟩ := exists_plays p q
  rw [hp.step]
  exact size_le_serveAll p rs

theorem linked_initial : initial.Linked := by
  intro t s hs u hu
  have hall : ∀ s ∈ Catalog.initial, ∀ u ∈ s.mentions, u.raw.toNat < initial.size := by decide
  exact hall s (mem_of_shape_initial hs) u hu

theorem Sound.linked_step (h : p.Sound) (hl : p.Linked) (ha : ∀ t ∈ q.types, p.contains t = true) :
    (p.step q).Linked := by
  intro t s hs u hu
  have hsize := size_le_step p q
  have hold {u : TypeId} (hu : u ∈ q.types) : u.raw.toNat < p.size := h.readable.lt_of_contains (ha u hu)
  have ht := lt_of_shape hs
  cases h.origin_step hs with
  | old hp => exact Nat.lt_of_lt_of_le (hl t s hp u hu) hsize
  | new _ hm =>
      rcases hm u hu with hq | hlt
      · exact Nat.lt_of_lt_of_le (hold hq) hsize
      · exact Nat.lt_trans hlt ht
  | grown hp hadd =>
      rcases List.mem_append.mp hu with hu | hu
      · exact Nat.lt_of_lt_of_le (hl t _ hp u hu) hsize
      · cases List.mem_singleton.mp hu
        exact Nat.lt_of_lt_of_le (hold hadd.mem_types) hsize

theorem linked_run (h : p.Sound) (hl : p.Linked) (ha : p.AdmitsAll qs) : (p.run qs).Linked := by
  induction qs generalizing p with
  | nil => exact hl
  | cons q qs ih => exact ih (h.step q) (h.linked_step hl ha.1) ha.2

theorem not_follows_initial : ¬ initial.Follows t u := by
  rintro ⟨s, hs, hu⟩
  have hm := mem_of_shape_initial hs
  simp only [Catalog.initial, builtinContainers, List.mem_append, List.mem_map, List.mem_cons, List.mem_replicate,
    List.not_mem_nil, or_false] at hm
  rcases hm with (⟨b, -, rfl⟩ | ⟨c, hc, rfl⟩) | ⟨-, rfl⟩
  · cases hu
  · rcases hc with rfl | rfl | rfl | rfl <;>
      · cases hu with
        | constraint _ hne => exact absurd rfl hne
  · cases hu

theorem ordered_initial : initial.Ordered := fun _ _ h => absurd h not_follows_initial

/-- A new type comes after those that it is made of, so only a union that grows can come to lead to
a later one. -/
theorem Sound.ordered_step (h : p.Sound) (ho : p.Ordered) (ha : ∀ t ∈ q.types, p.contains t = true)
    (hq : ∀ t m ms, q.Adds t m → p.shape t = .ok (.union ⟨none, ms⟩) → m ≠ t → m ∉ ms → LetsEarlier q t m) :
    (p.step q).Ordered := by
  rintro t u ⟨s, hs, hu⟩
  cases h.origin_step hs with
  | old hp => exact ho t u ⟨s, hp, hu⟩
  | new ht hm =>
      rw [UInt32.lt_iff_toNat_lt]
      rcases hm u hu.mem_mentions with hu | hlt
      · exact Nat.lt_of_lt_of_le (h.readable.lt_of_contains (ha u hu)) ht
      · exact hlt
  | @grown name ms m hp hadd hne hm =>
      generalize hv : Shape.union ⟨name, ms ++ [m]⟩ = s at hu
      cases hu with
      | member hu =>
          cases hv
          rcases List.mem_append.mp hu with hu | hu
          · exact ho t u ⟨_, hp, .member hu⟩
          · cases List.mem_singleton.mp hu
            exact hq t u ms hadd hp hne hm
      | _ => cases hv

theorem ordered_run (h : p.Sound) (ho : p.Ordered) (ha : p.AdmitsAll qs) (hq : ExtendsUnnamed LetsEarlier p qs) :
    (p.run qs).Ordered := by
  induction qs generalizing p with
  | nil => exact ho
  | cons q qs ih => exact ih (h.step q) (h.ordered_step ho ha.1 hq.1) ha.2 hq.2

def UnionsLast (p : Pool) : Prop :=
  TypeId.firstDynamic.toNat ≤ p.size ∧ ∀ t v, p.shape t = .ok (.union v) → TypeId.firstDynamic ≤ t.raw

theorem unionsLast_initial : initial.UnionsLast := by
  refine ⟨by decide, fun t v hv => ?_⟩
  rw [Represents.initial.shape_eq] at hv
  exact absurd hv (Catalog.shape_initial_ne_union t v)

theorem Sound.unionsLast_step (h : p.Sound) (hu : p.UnionsLast) (q : PoolRequest) : (p.step q).UnionsLast := by
  refine ⟨Nat.le_trans hu.1 (size_le_step p q), fun t v hv => ?_⟩
  cases h.origin_step hv with
  | old hp | grown hp => exact hu.2 t _ hp
  | new ht => exact UInt32.le_iff_toNat_le.mpr (Nat.le_trans hu.1 ht)

theorem ExtendsUnnamed.earlier (h : p.Sound) (hu : p.UnionsLast) (hq : ExtendsUnnamed LetsBuiltin p qs) :
    ExtendsUnnamed LetsEarlier p qs := by
  induction qs generalizing p with
  | nil => trivial
  | cons q qs ih =>
      refine ⟨fun t m ms hadd hs hne hm => ?_, ih (h.step q) (h.unionsLast_step hu q) hq.2⟩
      obtain ⟨-, hb⟩ := hq.1 t m ms hadd hs hne hm
      exact UInt32.lt_of_lt_of_le (of_decide_eq_true hb) (hu.2 t _ hs)

end Pool

end CompilerSymbols
