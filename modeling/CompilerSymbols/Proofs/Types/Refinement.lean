import CompilerSymbols.Proofs.Types.Service

namespace CompilerSymbols

theorem Catalog.contains_eq_tag (l : Catalog) (t : TypeId) :
    l.contains t = match l.tag t with
      | .error _ | .ok .reserved => false
      | .ok _ => true := by
  unfold contains tag shape
  cases l[t.raw.toNat]? with
  | none => rfl
  | some s => cases s <;> rfl

namespace Pool

theorem contains_eq_tag (p : Pool) (t : TypeId) :
    p.contains t = match p.tag t with
      | .error _ | .ok .reserved => false
      | .ok _ => true := by
  unfold contains tag item
  cases p.item? t with
  | none => rfl
  | some i => cases i <;> rfl

namespace Represents

variable {p : Pool} {l : Catalog}

theorem shape_eq (h : Represents p l) (t : TypeId) : p.shape t = l.shape t := by
  have hl := h.shapes t.raw.toNat
  unfold shape item item? Catalog.shape
  cases hi : p.items[t.raw.toNat]? with
  | none =>
      rw [hi, Option.bind_none] at hl
      rw [← hl]
      rfl
  | some i =>
      obtain ⟨s, hs⟩ : ∃ s, l[t.raw.toNat]? = some s := ⟨_, List.getElem?_eq_getElem (h.lt_of_item hi)⟩
      rw [hi, hs, Option.bind_some] at hl
      simp [hl, hs, bind, Except.bind, pure, Except.pure]

theorem tag_eq (h : Represents p l) (t : TypeId) : p.tag t = l.tag t := by
  have hl := h.shapes t.raw.toNat
  unfold tag item item? Catalog.tag Catalog.shape
  cases hi : p.items[t.raw.toNat]? with
  | none =>
      rw [hi, Option.bind_none] at hl
      rw [← hl]
      rfl
  | some i =>
      obtain ⟨s, hs⟩ : ∃ s, l[t.raw.toNat]? = some s := ⟨_, List.getElem?_eq_getElem (h.lt_of_item hi)⟩
      rw [hi, hs, Option.bind_some] at hl
      rw [hs]
      exact congrArg Except.ok (tag_of_shapeOf? hl).symm

theorem describes (h : Represents p l) : l.Describes p where
  size := h.size
  contains t := by rw [contains_eq_tag, Catalog.contains_eq_tag, h.tag_eq]
  shape := h.shape_eq
  tag := h.tag_eq
  isUnion t := congrArg (Except.map (· == TypeTag.union)) (h.tag_eq t)
  constraint t := by
    rw [constraint, h.shape_eq]
    rfl
  params t := by
    rw [params, h.shape_eq]
    rfl
  returnType t := by
    rw [returnType, h.shape_eq]
    rfl
  elements t := by
    rw [elements, h.shape_eq]
    rfl
  union? t := congrArg (Except.map Shape.union?) (h.shape_eq t)
  members t := congrArg (Except.map Shape.members) (h.shape_eq t)
  nominal? t := congrArg (Except.map Shape.nominal?) (h.shape_eq t)
  typeName? t := congrArg (Except.map Shape.name?) (h.shape_eq t)

end Represents

/-- Whatever is asked of a new pool, dangling positions included, it answers as the list of plain
descriptions does, and afterwards no question tells the two apart. -/
theorem serveAll_refines (rs : List TypeRequest) (hf : (Pool.initial.serveAll rs).2.Fits) :
    (Pool.initial.serveAll rs).1 = (Catalog.initial.serveAll rs).1 ∧
      (Catalog.initial.serveAll rs).2.Describes (Pool.initial.serveAll rs).2 := by
  obtain ⟨ha, hr⟩ := Represents.initial.serveAll hf
  exact ⟨ha, hr.describes⟩

/-- Two requests for one function type with a dangling parameter, and a union that grows, refuses
itself and takes a position that is not in use yet. -/
def mixedRequests : List TypeRequest :=
  [.container .map .any, .container .array .string, .function [.any, ⟨900⟩] ⟨64⟩, .tuple [],
    .tuple [.int, ⟨64⟩], .function [.any, ⟨900⟩] ⟨64⟩, .union none [.int, .error, .int],
    .addMember ⟨67⟩ ⟨67⟩, .addMember ⟨67⟩ ⟨12345⟩, .addMember ⟨67⟩ ⟨12345⟩,
    .declare (.nominal .record) ⟨5⟩, .addMember ⟨68⟩ .int]

theorem serveAll_mixedRequests :
    (Pool.initial.serveAll mixedRequests).2.Fits ∧
      (Pool.initial.serveAll mixedRequests).1 = [.type .map, .type ⟨64⟩, .type ⟨65⟩, .type .nil, .type ⟨66⟩,
        .type ⟨65⟩, .type ⟨67⟩, .added false [.selfMember ⟨67⟩], .added true [], .added false [], .type ⟨68⟩,
        .added false []] ∧
      (Pool.initial.serveAll mixedRequests).2.members ⟨67⟩ = .ok [.int, .error, ⟨12345⟩] := by
  have hf : (Pool.initial.serveAll mixedRequests).2.Fits := by decide +kernel
  obtain ⟨ha, hd⟩ := serveAll_refines mixedRequests hf
  refine ⟨hf, ha.trans (by decide +kernel), (hd.members ⟨67⟩).trans ?_⟩
  decide +kernel

end Pool

end CompilerSymbols
