import CompilerSymbols.Proofs.Types.Items

namespace CompilerSymbols

def Shape.mentions : Shape → List TypeId
  | container _ constraint => [constraint]
  | function params ret => params ++ [ret]
  | tuple elems => elems
  | union u => u.members
  | builtin _ | nominal _ _ | reserved => []

theorem map_eq_error {α β : Type} {x : Except Fault α} {g : α → β} {f : Fault} :
    x.map g = .error f ↔ x = .error f := by
  cases x <;> simp [Except.map]

namespace Pool

variable {p q : Pool} {r : TypeRequest} {t u m : TypeId} {s : Shape} {n : Nat} {i : Item} {f : Fault}

/-- Every item leads to a shape: what it points to in the side tables is there. -/
def Readable (p : Pool) : Prop := ∀ (n : Nat) (i : Item), p.items[n]? = some i → ∃ s, p.shapeOf? i = some s

theorem length_toUInt32_le {α : Type} (l : List α) : l.length.toUInt32.toNat ≤ l.length := by
  simp only [Nat.toUInt32_eq, UInt32.toNat_ofNat']
  exact Nat.mod_le ..

/-- A length that has become too small, since it did not fit into a word, is still that of a layout
that can be read. -/
theorem counted?_layout {start : Nat} {before : List UInt32} {k : UInt32} {rest : List TypeId}
    (hw : p.words.toList = before ++ k :: rest.map (·.raw)) (hb : before.length = start) (hk : k.toNat ≤ rest.length) :
    p.counted? start = some (rest.take k.toNat, start + 1 + k.toNat) := by
  subst hb
  have hs : p.words.size = before.length + (rest.length + 1) := by
    rw [← Array.length_toList, hw, List.length_append, List.length_cons, List.length_map]
  refine counted?_eq_some.mpr ⟨k, ?_, rfl, by omega, ?_⟩
  · rw [← Array.getElem?_toList, hw, List.getElem?_append_right (Nat.le_refl _), Nat.sub_self, List.getElem?_cons_zero]
  · rw [hw, List.drop_append, List.drop_eq_nil_of_le (Nat.le_succ _), Nat.add_sub_cancel_left]
    simp [← List.map_take, Function.comp_def]

theorem exists_shapeOf?_function {params : List TypeId} {ret : TypeId}
    (hq : q.words = p.words ++ (counted params ++ [ret.raw])) :
    ∃ s, q.shapeOf? (.function p.words.size) = some s ∧ ∀ u ∈ s.mentions, u ∈ params ++ [ret] := by
  have hle : params.length.toUInt32.toNat < (params ++ [ret]).length := by
    rw [List.length_append, List.length_singleton]
    exact Nat.lt_succ_of_le (length_toUInt32_le params)
  have hw : q.words.toList = p.words.toList ++ params.length.toUInt32 :: (params ++ [ret]).map (·.raw) := by
    simp [hq, counted]
  have hc := counted?_layout hw Array.length_toList (Nat.le_of_lt hle)
  generalize params.length.toUInt32.toNat = k at hc hle
  obtain ⟨r, hr⟩ : ∃ r, (params ++ [ret])[k]? = some r := ⟨_, List.getElem?_eq_getElem hle⟩
  have hk : p.words.size + 1 + k - p.words.toList.length = k + 1 := by
    rw [Array.length_toList]
    omega
  have hret : q.words[p.words.size + 1 + k]? = some r.raw := by
    rw [← Array.getElem?_toList, hw, List.getElem?_append_right (by rw [Array.length_toList]; omega), hk,
      List.getElem?_cons_succ, List.getElem?_map, hr, Option.map_some]
  refine ⟨.function ((params ++ [ret]).take k) r, by simp only [shapeOf?, hc, Option.bind_some, hret, Option.map_some], ?_⟩
  intro u hu
  rcases List.mem_append.mp hu with hu | hu
  · exact List.mem_of_mem_take hu
  · cases List.mem_singleton.mp hu
    exact List.mem_of_getElem? hr

theorem exists_shapeOf?_tuple {elems : List TypeId} (hq : q.words = p.words ++ counted elems) :
    ∃ s, q.shapeOf? (.tuple p.words.size) = some s ∧ ∀ u ∈ s.mentions, u ∈ elems := by
  have hw : q.words.toList = p.words.toList ++ elems.length.toUInt32 :: elems.map (·.raw) := by simp [hq, counted]
  have hc := counted?_layout hw Array.length_toList (length_toUInt32_le elems)
  refine ⟨.tuple (elems.take elems.length.toUInt32.toNat), by simp only [shapeOf?, hc, Option.map_some], ?_⟩
  intro u hu
  exact List.mem_of_mem_take hu

theorem getElem?_push_cases {items : Array Item} {j : Item} (h : (items.push j)[n]? = some i) :
    items[n]? = some i ∨ n = items.size ∧ i = j := by
  rw [Array.getElem?_push] at h
  split at h
  · next hn => exact .inr ⟨hn, (Option.some.inj h).symm⟩
  · exact .inl h

theorem share_item {key words : List UInt32} {j : Item} {P : Shape → Prop}
    (hj : p.shared[key]? = none → ∃ s, { p with words := p.words ++ words }.shapeOf? j = some s ∧ P s)
    (hi : (p.share key words j).2.items[n]? = some i) :
    p.items[n]? = some i ∨ n = p.size ∧ ∃ s, (p.share key words j).2.shapeOf? i = some s ∧ P s := by
  unfold share at hi ⊢
  split at hi
  · exact .inl hi
  · next hk =>
      refine (getElem?_push_cases hi).imp id ?_
      rintro ⟨rfl, rfl⟩
      obtain ⟨s, hs, hP⟩ := hj hk
      refine ⟨rfl, s, ?_, hP⟩
      exact shapeOf?_mono ⟨List.prefix_rfl, List.prefix_rfl, List.prefix_rfl⟩ hs

theorem serve_item (hi : (p.serve r).2.items[n]? = some i) : p.items[n]? = some i ∨
    n = p.size ∧ ∃ s, (p.serve r).2.shapeOf? i = some s ∧ ∀ u ∈ s.mentions, u ∈ r.types := by
  cases r with
  | container tag constraint => exact share_item (fun _ => ⟨_, rfl, fun u hu => hu⟩) hi
  | function params ret => exact share_item (fun _ => exists_shapeOf?_function rfl) hi
  | tuple elems =>
      cases elems with
      | nil => exact .inl hi
      | cons e es => exact share_item (fun _ => exists_shapeOf?_tuple rfl) hi
  | union name members =>
      refine (getElem?_push_cases hi).imp id ?_
      rintro ⟨rfl, rfl⟩
      refine ⟨rfl, .union ⟨name, members.eraseDups⟩, by simp [serve, union, push, shapeOf?, UnionType.ofList_eq], ?_⟩
      intro u hu
      exact List.mem_eraseDups.mp hu
  | declare tag name =>
      cases tag with
      | nominal k =>
          refine (getElem?_push_cases hi).imp id ?_
          rintro ⟨rfl, rfl⟩
          exact ⟨rfl, .nominal k name, by simp [serve, declare, push, shapeOf?], by simp [Shape.mentions]⟩
      | _ => exact .inl hi
  | addMember t m =>
      rw [serve] at hi
      cases ha : p.addMember t m with
      | error f =>
          rw [ha] at hi
          exact .inl hi
      | ok a =>
          rw [ha] at hi
          exact .inl ((addMember_frame ha).1 ▸ hi)

theorem shapeOf?_set_other {slot : Nat} {w : UnionType} (hi : ∀ slot, i ≠ .union slot) :
    { p with unions := p.unions.setIfInBounds slot w }.shapeOf? i = p.shapeOf? i := by
  cases i with
  | union slot => exact absurd rfl (hi slot)
  | _ => rfl

theorem Arranged.shape_addMember (h : p.Arranged) {a : Reported (Bool × Pool)} (ha : p.addMember t m = .ok a)
    (hs : p.shape u = .ok s) : a.value.2.shape u = .ok s ∨ ∃ name ms, u = t ∧ s = .union ⟨name, ms⟩ ∧ m ≠ t ∧ m ∉ ms ∧
      a.value.2.shape u = .ok (.union ⟨name, ms ++ [m]⟩) := by
  rcases addMember_cases ha with hp | ⟨slot, ⟨name, ms⟩, hi, hv, hne, hm, hp⟩
  · exact .inl (hp ▸ hs)
  · rw [hp]
    by_cases hu : ∃ v, s = .union v
    · obtain ⟨v, rfl⟩ := hu
      rw [h.shape_set hi _ hs]
      by_cases ht : t = u
      · subst ht
        cases (shape_union_iff.mpr ⟨slot, hi, hv⟩).symm.trans hs
        exact .inr ⟨name, ms, rfl, rfl, hne, hm, by rw [if_pos rfl, UnionType.insert, if_neg hm]⟩
      · exact .inl (by rw [if_neg ht])
    · left
      obtain ⟨i, hui, his⟩ := shape_eq_ok.mp hs
      refine shape_eq_ok.mpr ⟨i, hui, ?_⟩
      rw [shapeOf?_set_other, his]
      rintro slot rfl
      obtain ⟨v, -, rfl⟩ := Option.map_eq_some_iff.mp his
      exact hu ⟨v, rfl⟩

theorem Arranged.readable_addMember (h : p.Arranged) (hr : p.Readable) {a : Reported (Bool × Pool)}
    (ha : p.addMember t m = .ok a) : a.value.2.Readable := by
  intro n i hi
  rw [(addMember_frame ha).1] at hi
  obtain ⟨s, hs⟩ := hr n i hi
  rcases addMember_cases ha with hp | ⟨slot, u, -, -, -, -, hp⟩
  · exact ⟨s, hp ▸ hs⟩
  · rw [hp]
    cases i with
    | union slot' =>
        have hlt : slot' < (p.unions.setIfInBounds slot (u.insert m)).size := by
          rw [Array.size_setIfInBounds]
          exact h.slot_lt n slot' hi
        exact ⟨_, congrArg (Option.map Shape.union) (Array.getElem?_eq_getElem hlt)⟩
    | _ => exact ⟨s, hs⟩

theorem Readable.makes (h : p.Readable) (hq : p.Makes q)
    (hnew : ∀ {n : Nat} {i : Item}, q.items[n]? = some i → p.items[n]? = some i ∨ ∃ s, q.shapeOf? i = some s) :
    q.Readable := by
  intro n i hi
  rcases hnew hi with hp | hs
  · obtain ⟨s, hs⟩ := h n i hp
    cases hq with
    | found => exact ⟨s, hs⟩
    | item hl | union hl => exact ⟨s, shapeOf?_mono hl hs⟩
  · exact hs

theorem Readable.serve (h : p.Readable) (ha : p.Arranged) (r : TypeRequest) : (p.serve r).2.Readable := by
  cases hr : r.makes with
  | true => exact h.makes (serve_makes p hr) fun hi => (serve_item hi).imp id fun ⟨_, s, hs, _⟩ => ⟨s, hs⟩
  | false =>
      cases r with
      | addMember t m =>
          rw [Pool.serve]
          cases hm : p.addMember t m with
          | error f => exact h
          | ok a => exact ha.readable_addMember h hm
      | _ => cases hr

theorem lt_of_shape (hs : p.shape t = .ok s) : t.raw.toNat < p.size := by
  obtain ⟨i, hi, -⟩ := shape_eq_ok.mp hs
  exact (Array.getElem?_eq_some_iff.mp hi).1

theorem Readable.exists_shape (h : p.Readable) (ht : t.raw.toNat < p.size) : ∃ s, p.shape t = .ok s := by
  obtain ⟨s, hs⟩ := h _ _ (Array.getElem?_eq_getElem ht)
  exact ⟨s, shape_eq_ok.mpr ⟨_, Array.getElem?_eq_getElem ht, hs⟩⟩

theorem Readable.contains_iff (h : p.Readable) : p.contains t = true ↔ ∃ s, p.shape t = .ok s ∧ s ≠ .reserved := by
  rw [contains_eq_tag]
  constructor
  · intro ht
    cases hg : p.tag t with
    | error f => simp [hg] at ht
    | ok g =>
        obtain ⟨i, hi, -⟩ := tag_eq_ok.mp hg
        obtain ⟨s, hs⟩ := h.exists_shape (Array.getElem?_eq_some_iff.mp hi).1
        refine ⟨s, hs, ?_⟩
        rintro rfl
        cases (tag_of_shape hs).symm.trans hg
        simp [hg, Shape.tag] at ht
  · rintro ⟨s, hs, hr⟩
    rw [tag_of_shape hs]
    cases s with
    | reserved => exact absurd rfl hr
    | _ => rfl

theorem Readable.lt_of_contains (h : p.Readable) (ht : p.contains t = true) : t.raw.toNat < p.size :=
  have ⟨_, hs, _⟩ := h.contains_iff.mp ht
  lt_of_shape hs

theorem item_eq_error : p.item t = .error f ↔ f = .unknownType t ∧ p.size ≤ t.raw.toNat := by
  unfold item item?
  cases hi : p.items[t.raw.toNat]? with
  | none => simp [Array.getElem?_eq_none_iff.mp hi, size, eq_comm]
  | some i =>
      have hlt : t.raw.toNat < p.size := (Array.getElem?_eq_some_iff.mp hi).1
      simp [hlt]

theorem tag_eq_error : p.tag t = .error f ↔ f = .unknownType t ∧ p.size ≤ t.raw.toNat := by
  rw [Pool.tag, map_eq_error, item_eq_error]

theorem isUnion_eq_error : p.isUnion t = .error f ↔ f = .unknownType t ∧ p.size ≤ t.raw.toNat := by
  rw [isUnion, map_eq_error, tag_eq_error]

theorem Readable.shape_eq_error (h : p.Readable) :
    p.shape t = .error f ↔ f = .unknownType t ∧ p.size ≤ t.raw.toNat := by
  by_cases hlt : t.raw.toNat < p.size
  · obtain ⟨s, hs⟩ := h.exists_shape hlt
    simp [hs, hlt]
  · have hi : p.item t = .error (.unknownType t) := item_eq_error.mpr ⟨rfl, Nat.le_of_not_lt hlt⟩
    have hs : p.shape t = .error (.unknownType t) := by
      rw [shape, hi]
      rfl
    simp [hs, Nat.le_of_not_lt hlt, eq_comm]

structure Sound (p : Pool) : Prop where
  arranged : p.Arranged
  readable : p.Readable

theorem mem_of_shape_initial (hs : initial.shape t = .ok s) : s ∈ Catalog.initial := by
  rw [Represents.initial.shape_eq, Catalog.shape_eq_ok] at hs
  exact List.mem_of_getElem? hs

theorem sound_initial : initial.Sound where
  arranged := arranged_initial
  readable n i hi := by
    have hs : initial.items[n]?.bind initial.shapeOf? = Catalog.initial[n]? := Represents.initial.shapes n
    rw [hi, Option.bind_some] at hs
    exact ⟨_, hs.trans (List.getElem?_eq_getElem (Represents.initial.lt_of_item hi))⟩

namespace Sound

theorem serve (h : p.Sound) (r : TypeRequest) : (p.serve r).2.Sound :=
  ⟨h.arranged.serve r, h.readable.serve h.arranged r⟩

theorem serveAll (h : p.Sound) (rs : List TypeRequest) : (p.serveAll rs).2.Sound := by
  induction rs generalizing p with
  | nil => exact h
  | cons r rs ih => exact ih (h.serve r)

theorem step (h : p.Sound) (q : PoolRequest) : (p.step q).Sound := by
  obtain ⟨rs, hp⟩ := exists_plays p q
  rw [hp.step]
  exact h.serveAll rs

theorem run (h : p.Sound) (qs : List PoolRequest) : (p.run qs).Sound := by
  induction qs generalizing p with
  | nil => exact h
  | cons q qs ih => exact ih (h.step q)

theorem shape_serve (h : p.Sound) (hs : (p.serve r).2.shape t = .ok s) : p.shape t = .ok s ∨
    (t.raw.toNat = p.size ∧ ∀ u ∈ s.mentions, u ∈ r.types) ∨
      ∃ name ms m, r = .addMember t m ∧ p.shape t = .ok (.union ⟨name, ms⟩) ∧ m ≠ t ∧ m ∉ ms ∧
        s = .union ⟨name, ms ++ [m]⟩ := by
  obtain ⟨i, hi, his⟩ := shape_eq_ok.mp hs
  rcases serve_item hi with hi | ⟨ht, s', hs', hm⟩
  · obtain ⟨s', hs'⟩ := h.readable _ _ hi
    have hp : p.shape t = .ok s' := shape_eq_ok.mpr ⟨i, hi, hs'⟩
    cases hr : r.makes with
    | true =>
        cases ((serve_makes p hr).shape hp).symm.trans hs
        exact .inl hp
    | false =>
        cases r with
        | addMember t' m =>
            cases ha : p.addMember t' m with
            | error f =>
                rw [Pool.serve, ha] at hs
                exact .inl hs
            | ok a =>
                rw [serve_addMember ha] at hs
                rcases h.arranged.shape_addMember ha hp with ha | ⟨name, ms, rfl, rfl, hne, hm, ha⟩
                · cases ha.symm.trans hs
                  exact .inl hp
                · cases ha.symm.trans hs
                  exact .inr (.inr ⟨name, ms, m, rfl, hp, hne, hm, rfl⟩)
        | _ => cases hr
  · cases hs'.symm.trans his
    exact .inr (.inl ⟨ht, hm⟩)

end Sound

theorem next_le_size (p : Pool) : p.next.raw.toNat ≤ p.size := by
  simp only [next, Nat.toUInt32_eq, UInt32.toNat_ofNat']
  exact Nat.mod_le ..

/-- Where the shape of a type comes from that is there after a request. The members that are added are
new, and new types come after the types that they mention. -/
inductive Origin (p : Pool) (q : PoolRequest) (t : TypeId) : Shape → Prop
  | old {s : Shape} (hs : p.shape t = .ok s) : Origin p q t s
  | new {s : Shape} (ht : p.size ≤ t.raw.toNat) (hm : ∀ u ∈ s.mentions, u ∈ q.types ∨ u.raw.toNat < t.raw.toNat) :
      Origin p q t s
  | grown {name : Option Name} {ms : List TypeId} {m : TypeId} (hs : p.shape t = .ok (.union ⟨name, ms⟩))
      (ha : q.Adds t m) (hne : m ≠ t) (hm : m ∉ ms) : Origin p q t (.union ⟨name, ms ++ [m]⟩)

variable {c : PoolRequest}

theorem Sound.origin_serve (h : p.Sound) (hs : (p.serve r).2.shape t = .ok s) (ht : ∀ u ∈ r.types, u ∈ c.types)
    (ha : ∀ t m, r = .addMember t m → c.Adds t m) : p.Origin c t s := by
  rcases h.shape_serve hs with hp | ⟨hn, hm⟩ | ⟨name, ms, m, rfl, hp, hne, hm, rfl⟩
  · exact .old hp
  · exact .new (Nat.le_of_eq hn.symm) fun u hu => .inl (ht u (hm u hu))
  · exact .grown hp (ha t m rfl) hne hm

theorem Sound.origin_return (h : p.Sound) {target error : TypeId} {safe : Bool} {ret : Reported (TypeId × Pool)}
    (hret : p.conversionReturn target error safe = .ok ret) (hs : ret.value.2.shape t = .ok s)
    (hc : target ∈ c.types ∧ error ∈ c.types) (ha : safe = false → c.Adds target error) : p.Origin c t s := by
  have htypes : ∀ u ∈ [target, error], u ∈ c.types := by simp [hc]
  rcases conversionReturn_cases hret with ⟨-, hr⟩ | ⟨hsafe, -, a, hadd, hr⟩ | ⟨-, -, hr⟩
  · rw [hr] at hs
    exact .old hs
  · rw [hr, ← serve_addMember hadd] at hs
    refine h.origin_serve hs htypes ?_
    rintro t m he
    cases he
    exact ha hsafe
  · rw [hr] at hs
    exact h.origin_serve (r := .union none [target, error]) hs htypes (by simp)

/-- What a conversion returns is its target, or has been made before the operator's own type. -/
theorem returned_before {target error : TypeId} {safe : Bool} {ret : Reported (TypeId × Pool)}
    (hret : p.conversionReturn target error safe = .ok ret) :
    p.size ≤ ret.value.2.size ∧ (ret.value.1 = target ∨ ret.value.1.raw.toNat < ret.value.2.size) := by
  rcases conversionReturn_cases hret with ⟨-, hr⟩ | ⟨-, -, a, hadd, hr⟩ | ⟨-, -, hr⟩
  · rw [hr]
    exact ⟨Nat.le_refl _, .inl rfl⟩
  · rw [hr, ← serve_addMember hadd]
    exact ⟨(size_le_serve p _).1, .inl rfl⟩
  · have hsize : (p.union none [target, error]).2.size = p.size + 1 := by simp [union, push, size]
    rw [hr, hsize]
    exact ⟨Nat.le_succ _, .inr (Nat.lt_succ_of_le p.next_le_size)⟩

theorem Sound.origin_step (h : p.Sound) (hs : (p.step c).shape t = .ok s) : p.Origin c t s := by
  cases c with
  | type r => exact h.origin_serve hs (fun u hu => hu) (by rintro t m rfl; exact .direct t m)
  | conversionReturn target error safe =>
      rw [Pool.step] at hs
      cases hret : p.conversionReturn target error safe with
      | error f =>
          rw [hret] at hs
          exact .old hs
      | ok ret =>
          rw [hret] at hs
          exact h.origin_return hret hs (by simp [PoolRequest.types]) (by rintro rfl; exact .returned target error)
  | conversion c error =>
      rw [Pool.step] at hs
      cases hc : p.conversionType c error with
      | error f =>
          rw [hc] at hs
          exact .old hs
      | ok made =>
          obtain ⟨ret, hret, hmade⟩ := conversionType_eq hc
          have hsound : ret.value.2.Sound := by
            have hq := h.step (.conversionReturn c.target error c.safe)
            rwa [Pool.step, hret] at hq
          simp only [hc, hmade] at hs
          have hnew := hsound.shape_serve (r := .function [c.source, c.target] ret.value.1) hs
          rcases hnew with hs | ⟨ht, hm⟩ | ⟨_, _, _, he, _⟩
          · exact h.origin_return hret hs (by simp [PoolRequest.types]) fun hsafe => .converted hsafe error
          · obtain ⟨hsize, hbefore⟩ := returned_before hret
            refine .new (by omega) fun u hu => ?_
            rcases List.mem_append.mp (hm u hu) with hu | hu
            · exact .inl (List.mem_append_left [error] hu)
            · cases List.mem_singleton.mp hu
              rcases hbefore with htarget | hlt
              · exact .inl (htarget ▸ by simp [PoolRequest.types])
              · exact .inr (by omega)
          · cases he
  | unboxing source target =>
      rw [Pool.step] at hs
      cases hu : p.unboxingType source target with
      | error f =>
          rw [hu] at hs
          exact .old hs
      | ok made =>
          obtain ⟨i, hi⟩ := unboxingType_cases hu
          simp only [hu, hi] at hs
          refine h.origin_serve (r := .function [source, target] target) hs ?_ (by simp)
          simp [TypeRequest.types, PoolRequest.types]

end Pool

end CompilerSymbols
