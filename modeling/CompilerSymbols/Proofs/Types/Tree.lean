import CompilerSymbols.Proofs.Types.Meaning

namespace CompilerSymbols

/-- A type with its parts, their parts and so on. Unions and nominal types are not looked into. -/
inductive TypeTree
  | leaf (t : TypeId)
  | node (tag : TypeTag) (parts : List TypeTree)

/-- The types of which a type is made. The last part of a function type is what it returns. -/
def Shape.parts? : Shape → Option (List TypeId)
  | container _ constraint => some [constraint]
  | function params ret => some (params ++ [ret])
  | tuple elems => some elems
  | builtin _ | union _ | nominal _ _ | reserved => none

inductive Pool.Unfolds (p : Pool) : TypeId → TypeTree → Prop
  | leaf {t : TypeId} {s : Shape} (hs : p.shape t = .ok s) (hp : s.parts? = none) (hr : s ≠ .reserved) :
      Unfolds p t (.leaf t)
  | node {t : TypeId} {s : Shape} {ts : List TypeId} {Ts : List TypeTree} (hs : p.shape t = .ok s)
      (hp : s.parts? = some ts) (hts : List.Forall₂ (Unfolds p) ts Ts) : Unfolds p t (.node s.tag Ts)

namespace Shape

variable {s s' : Shape} {ts : List TypeId}

theorem eq_of_parts? (ht : s.tag = s'.tag) (h : s.parts? = some ts) (h' : s'.parts? = some ts) : s = s' := by
  cases s with
  | container c t =>
      cases s' with
      | container c' t' =>
          cases ht
          cases h
          cases h'
          rfl
      | _ => cases ht
  | function ps r =>
      cases s' with
      | function ps' r' =>
          cases h
          obtain ⟨rfl, hr⟩ := List.append_inj' (Option.some.inj h') rfl
          cases hr
          rfl
      | _ => cases ht
  | tuple es =>
      cases s' with
      | tuple es' =>
          cases h
          cases h'
          rfl
      | _ => cases ht
  | _ => cases h

theorem key?_of_parts? (h : s.parts? = some ts) : ∃ key, s.key? = some key := by
  cases s with
  | container c t | function ps r | tuple es => exact ⟨_, rfl⟩
  | _ => cases h

theorem Grows.parts? (h : s.Grows s') : s'.parts? = s.parts? := by
  cases h <;> rfl

theorem tag_of_parts? (h : s.parts? = some ts) : s.tag ≠ .union := by
  cases s with
  | union u => cases h
  | _ => simp [tag]

end Shape

namespace Catalog

variable {l l' : Catalog} {r : TypeRequest} {t : TypeId} {s : Shape} {ts : List TypeId}

def Descends (l : Catalog) : Prop :=
  ∀ t s ts, l.shape t = .ok s → s.parts? = some ts → ∀ c ∈ ts, l.contains c = true ∧ c.raw.toNat < t.raw.toNat

theorem parts_initial : ∀ i : Fin 64, ∀ ts ∈ Catalog.initial[i.val]?.bind Shape.parts?,
    ∀ c ∈ ts, Catalog.initial.contains c = true ∧ c.raw.toNat < i.val := by
  decide

theorem descends_initial : initial.Descends := by
  intro t s ts hs hp
  have ht : t.raw.toNat < 64 := lt_of_shape hs
  exact parts_initial ⟨t.raw.toNat, ht⟩ ts (by simp [shape_eq_ok.mp hs, hp])

theorem types_eq_parts (hs : r.shape? = some s) (hp : s.parts? = some ts) : r.types = ts := by
  cases r with
  | container tag c | function ps r | tuple es =>
      cases hs
      cases hp
      rfl
  | union name ms =>
      cases hs
      cases hp
  | declare tag name =>
      cases tag <;> cases hs
      cases hp
  | addMember t m => cases hs

theorem Step.descends (h : l.Step r l') (hg : l.Grows l') (ha : l.Admits r.types) (hd : l.Descends) : l'.Descends := by
  intro t s ts hs hp c hc
  rcases h.shape_before hs with hs | ⟨ht, hr⟩ | ⟨m, name, ms, -, -, -, rfl⟩
  · obtain ⟨hl, hlt⟩ := hd t s ts hs hp c hc
    exact ⟨hg.contains hl, hlt⟩
  · have hl := ha c (types_eq_parts hr hp ▸ hc)
    obtain ⟨s', hs', -⟩ := contains_iff.mp hl
    exact ⟨hg.contains hl, ht ▸ lt_of_shape hs'⟩
  · cases hp

theorem descends_serve (ha : l.Admits r.types) (hd : l.Descends) : (l.serve r).2.Descends :=
  (l.serve_step r).descends (l.serve_grows r) ha hd

theorem shape_of_builtin {b : BuiltinTag} (h : l.tag t = .ok (.builtin b)) : l.shape t = .ok (.builtin b) := by
  obtain ⟨s, hs, ht⟩ := map_ok h
  cases s with
  | builtin b' =>
      cases ht
      exact hs
  | _ => cases ht

def BuiltinsFirst (l : Catalog) : Prop := ∀ t b, l.shape t = .ok (.builtin b) → t.raw.toNat = b.code.toNat

theorem builtins_initial : ∀ i : Fin 64, ∀ b ∈ BuiltinTag.all, Catalog.initial[i.val]? = some (.builtin b) →
    i.val = b.code.toNat := by
  decide

theorem builtinsFirst_initial : initial.BuiltinsFirst := by
  intro t b hb
  have ht : t.raw.toNat < 64 := lt_of_shape hb
  exact builtins_initial ⟨t.raw.toNat, ht⟩ b (by cases b <;> decide) (shape_eq_ok.mp hb)

theorem Step.builtinsFirst (h : l.Step r l') (hl : l.BuiltinsFirst) : l'.BuiltinsFirst := by
  intro t b hb
  rcases h.shape_before hb with hb | ⟨-, hr⟩ | ⟨m, name, ms, -, -, -, hs⟩
  · exact hl t b hb
  · cases r with
    | declare tag name => cases tag <;> cases hr
    | _ => cases hr
  · cases hs

end Catalog

namespace Pool

variable {p p' : Pool} {l l' : Catalog} {t t' : TypeId} {T T' : TypeTree}

/-- In the induction on a tree, the hypothesis is about every part. -/
@[elab_as_elim]
theorem Unfolds.induction {motive : ∀ {t T}, p.Unfolds t T → Prop}
    (leaf : ∀ {t s} (hs : p.shape t = .ok s) (hp : s.parts? = none) (hr : s ≠ .reserved), motive (.leaf hs hp hr))
    (node : ∀ {t s ts Ts} (hs : p.shape t = .ok s) (hp : s.parts? = some ts) (hts : List.Forall₂ p.Unfolds ts Ts),
      List.Forall₂ (fun c C => ∃ hc : p.Unfolds c C, motive hc) ts Ts → motive (.node hs hp hts))
    (h : p.Unfolds t T) : motive h :=
  @Unfolds.rec p (fun _ _ h => motive h) (fun ts Ts _ => List.Forall₂ (fun c C => ∃ hc : p.Unfolds c C, motive hc) ts Ts)
    leaf node .nil (fun hc _ hC hts => .cons ⟨hc, hC⟩ hts) t T h

namespace Unfolds

theorem unique (h : p.Unfolds t T) (h' : p.Unfolds t T') : T = T' := by
  induction h using Unfolds.induction generalizing T' with
  | leaf hs hp hr =>
      cases h' with
      | leaf => rfl
      | node hs' hp' =>
          cases hs.symm.trans hs'
          cases hp.symm.trans hp'
  | node hs hp hts ih =>
      cases h' with
      | leaf hs' hp' =>
          cases hs.symm.trans hs'
          cases hp.symm.trans hp'
      | node hs' hp' hts' =>
          cases hs.symm.trans hs'
          cases hp.symm.trans hp'
          exact congrArg _ (eq_of_forall₂ (fun ⟨_, hC⟩ hc => hC hc) ih.flip hts'.flip)

/-- Equal trees are trees of one type, since a type with parts is there only once. -/
theorem injective (hr : Represents p l) (h : p.Unfolds t T) (h' : p.Unfolds t' T) : t = t' := by
  induction h using Unfolds.induction generalizing t' with
  | leaf =>
      cases h'
      rfl
  | @node t s ts Ts hs hp hts ih =>
      generalize hT : TypeTree.node s.tag Ts = T at h'
      cases h' with
      | leaf => cases hT
      | node hs' hp' hts' =>
          obtain ⟨htag, rfl⟩ := TypeTree.node.inj hT
          cases eq_of_forall₂ (fun ⟨_, hc⟩ hc' => hc hc') ih hts'
          obtain rfl := Shape.eq_of_parts? htag hp hp'
          obtain ⟨key, hk⟩ := Shape.key?_of_parts? hp
          exact hr.eq_of_shape hs hs' hk

theorem mono (hr : Represents p l) (hr' : Represents p' l') (hg : l.Grows l') (h : p.Unfolds t T) : p'.Unfolds t T := by
  induction h using Unfolds.induction with
  | leaf hs hp hn =>
      rw [hr.shape_eq] at hs
      obtain ⟨s', hs', hgs⟩ := hg.shape hs
      refine .leaf ((hr'.shape_eq _).trans hs') (hgs.parts?.trans hp) ?_
      cases hgs with
      | same => exact hn
      | union => simp
  | node hs hp hts ih =>
      rw [hr.shape_eq] at hs
      exact .node ((hr'.shape_eq _).trans (hg.shape_eq hs (Shape.tag_of_parts? hp))) hp (ih.imp fun _ _ ⟨_, hc⟩ => hc)

end Unfolds

theorem Represents.exists_unfolds (h : Represents p l) (hd : l.Descends) (ht : l.contains t = true) :
    ∃ T, p.Unfolds t T := by
  induction hn : t.raw.toNat using Nat.strongRecOn generalizing t with
  | ind n ih =>
      subst hn
      obtain ⟨s, hs, hr⟩ := Catalog.contains_iff.mp ht
      have hs' : p.shape t = .ok s := (h.shape_eq t).trans hs
      cases hp : s.parts? with
      | none => exact ⟨_, .leaf hs' hp hr⟩
      | some ts =>
          have hlt := hd t s ts hs hp
          obtain ⟨Ts, hts⟩ := exists_forall₂ fun c hc => ih _ (hlt c hc).2 (hlt c hc).1 rfl
          exact ⟨_, .node hs' hp hts⟩

theorem unfolds_initial {c : ContainerTag × TypeId} (hc : c ∈ builtinContainers) :
    Pool.initial.Unfolds c.2 (.node (.container c.1) [.leaf .any]) := by
  have hs : Pool.initial.shape c.2 = .ok (.container c.1 .any) :=
    (Represents.initial.shape_eq _).trans (Catalog.shape_eq_ok.mpr (Represents.shape?_initial c hc))
  have hany : Pool.initial.shape .any = .ok (.builtin .any) := Represents.initial.shape_eq _
  exact .node hs rfl (.cons (.leaf hany rfl (by simp)) .nil)

/-- The types of a pool have trees, types with equal trees are one type, and all this holds in the
later pool too and between the two. -/
structure Canonical (p p' : Pool) : Prop where
  tree : ∀ t, p.contains t = true → ∃! T, p.Unfolds t T
  kept : ∀ t T, p.Unfolds t T → p'.Unfolds t T
  eq_iff : ∀ t t' T T', p.Unfolds t T → p'.Unfolds t' T' → (t = t' ↔ T = T')
  builtin : ∀ t t' b, p.tag t = .ok (.builtin b) → p.tag t' = .ok (.builtin b) → t = t'
  container : ∀ c ∈ builtinContainers, p.Unfolds c.2 (.node (.container c.1) [.leaf .any])

theorem canonical_trees (qs qs' : List PoolRequest) (hf : (Pool.initial.run (qs ++ qs')).Fits)
    (ha : Pool.initial.AdmitsAll (qs ++ qs')) : (Pool.initial.run qs).Canonical (Pool.initial.run (qs ++ qs')) := by
  rw [run_append] at hf ⊢
  obtain ⟨rs, h, hadmits⟩ := Represents.initial.run (fits_of_run hf)
  obtain ⟨rs', h', -⟩ := h.run hf
  have hd := Catalog.serveAll_invariant Catalog.descends_serve Catalog.descends_initial (hadmits ha.of_append)
  have hg := Catalog.serveAll_grows (Catalog.initial.serveAll rs).2 rs'
  have hb := Catalog.serveAll_invariant (fun _ => (Catalog.serve_step ..).builtinsFirst) Catalog.builtinsFirst_initial
    (hadmits ha.of_append)
  refine ⟨?_, fun t T => Unfolds.mono h h' hg, ?_, ?_, ?_⟩
  · intro t ht
    obtain ⟨T, hT⟩ := h.exists_unfolds hd (h.describes.contains t ▸ ht)
    exact ⟨T, hT, fun T' hT' => hT'.unique hT⟩
  · intro t t' T T' hT hT'
    have hT := Unfolds.mono h h' hg hT
    constructor
    · rintro rfl
      exact hT.unique hT'
    · rintro rfl
      exact hT.injective h' hT'
  · intro t t' b ht ht'
    have hat {u : TypeId} (hu : (Pool.initial.run qs).tag u = .ok (.builtin b)) : u.raw.toNat = b.code.toNat :=
      hb u b (Catalog.shape_of_builtin ((h.describes.tag u).symm.trans hu))
    exact TypeId.raw_injective (UInt32.toNat_inj.mp ((hat ht).trans (hat ht').symm))
  · intro c hc
    exact Unfolds.mono Represents.initial h (Catalog.serveAll_grows _ rs) (unfolds_initial hc)

/-- A tuple whose parts are an array and a builtin map, before and after a union grows and the array
and the tuple are asked for again. -/
theorem canonical_trees_nested :
    let qs : List PoolRequest := [.type (.container .array .int), .type (.tuple [⟨64⟩, .map]),
      .type (.union none [⟨65⟩])]
    let qs' : List PoolRequest := [.type (.addMember ⟨66⟩ .error), .type (.container .array .int),
      .type (.function [⟨65⟩] ⟨66⟩), .type (.tuple [⟨64⟩, .map])]
    (Pool.initial.run (qs ++ qs')).Fits ∧ Pool.initial.AdmitsAll (qs ++ qs') ∧
      (Pool.initial.run qs).Canonical (Pool.initial.run (qs ++ qs')) ∧
      (Pool.initial.run (qs ++ qs')).Unfolds ⟨65⟩
        (.node .tuple [.node (.container .array) [.leaf .int], .node (.container .map) [.leaf .any]]) := by
  intro qs qs'
  have hf : (Pool.initial.run (qs ++ qs')).Fits := by decide +kernel
  have ha : Pool.initial.AdmitsAll (qs ++ qs') := by decide +kernel
  have hc := canonical_trees qs qs' hf ha
  have htuple : (Pool.initial.run qs).shape ⟨65⟩ = .ok (.tuple [⟨64⟩, .map]) := by decide +kernel
  have harray : (Pool.initial.run qs).shape ⟨64⟩ = .ok (.container .array .int) := by decide +kernel
  have hint : (Pool.initial.run qs).shape .int = .ok (.builtin .int) := by decide +kernel
  have hmap := hc.container (.map, .map) (by decide)
  refine ⟨hf, ha, hc, hc.kept _ _ (.node htuple rfl (.cons ?_ (.cons hmap .nil)))⟩
  exact .node harray rfl (.cons (.leaf hint rfl (by simp)) .nil)

end Pool

end CompilerSymbols
