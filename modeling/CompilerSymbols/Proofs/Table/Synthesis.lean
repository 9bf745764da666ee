import CompilerSymbols.Proofs.Heap.Persistence
import CompilerSymbols.Proofs.Table.Operations
import CompilerSymbols.Proofs.Types.Effect
import CompilerSymbols.Proofs.Types.Failures
import CompilerSymbols.Proofs.Workspace.Step

namespace CompilerSymbols

namespace Table

variable {t : Table}

/-- The symbol is new. All other symbols and all scopes are as they were, and so is what else the table
has, apart from types. -/
structure AddsOperator (t : Table) (s : Symbol) (made : SymbolId × Table) : Prop where
  fresh : ¬ t.heap.Created (.symbol made.1)
  symbol : made.2.heap.symbol? made.1 = some s
  symbols : ∀ id, id ≠ made.1 → made.2.heap.symbol? id = t.heap.symbol? id
  scopes : ∀ k, made.2.heap.scope? k = t.heap.scope? k
  names : made.2.names = t.names
  builtinPackage : made.2.builtinPackage = t.builtinPackage
  rootPackage : made.2.rootPackage = t.rootPackage
  rootScope : made.2.rootScope = t.rootScope
  conversions : made.2.conversions = t.conversions

theorem addsOperator (t : Table) (types : Pool) {s : Symbol} (hs : s.scope = none) :
    t.AddsOperator s ({ t with types }.addSymbol s .absent) where
  fresh := Nat.lt_irrefl _
  symbol := by
    change (t.heap.addSymbol s .absent).2.symbol? ⟨t.heap.symbols.size⟩ = some s
    obtain ⟨payload, flags, name, package, type, owner, scope⟩ := s
    cases hs
    rw [Heap.symbol?_addSymbol]
    exact if_pos rfl
  symbols id hid := by
    change (t.heap.addSymbol s .absent).2.symbol? id = t.heap.symbol? id
    rw [Heap.symbol?_addSymbol]
    exact if_neg hid
  scopes k := by
    change (t.heap.addSymbol s .absent).2.scope? k = t.heap.scope? k
    rw [Heap.scope?_addSymbol]
    exact if_neg (by simp)
  names := rfl
  builtinPackage := rfl
  rootPackage := rfl
  rootScope := rfl
  conversions := rfl

structure SynthesizesOperators (t : Table) : Prop where
  conversion : ∀ c error package owner, (∀ u ∈ [c.source, c.target, error], t.types.contains u = true) →
    (∀ o, owner = some o → t.heap.isLive (.symbol o)) →
    ∃ r type, t.createConversion c error package owner = .ok r ∧
      t.AddsOperator ⟨.conversion c, ∅, .empty, package, type, owner, none⟩ r.value ∧
      (r.value.2.types.Fits → t.types.Synthesizes c error type r.value.2.types r.events)
  unboxing : ∀ source target, t.types.contains source = true → t.types.contains target = true →
    ∃ r i type, t.createUnboxing source target = .ok r ∧
      t.AddsOperator ⟨.conversion ⟨source, target, i, false, true⟩, ∅, .empty, none, type, none, none⟩ r.value ∧
      t.types.Keeps r.value.2.types ∧
      (r.value.2.types.Fits → t.types.GivesFunction [source, target] target type r.value.2.types)

theorem createConversion_of_type {c : Conversion} {error : TypeId} {made : Reported (TypeId × Pool)}
    (hm : t.types.conversionType c error = .ok made) (package : Option PackageId) {owner : Option SymbolId}
    (ho : ∀ o, owner = some o → t.heap.isLive (.symbol o)) : t.createConversion c error package owner =
      .ok ⟨{ t with types := made.value.2 }.addSymbol (c.symbol package made.value.1 owner) .absent, made.events⟩ := by
  rw [createConversion, checkOwner_eq_ok ho, hm]
  rfl

theorem createUnboxing_of_type {source target : TypeId} {made : Reported (Conversion × TypeId × Pool)}
    (hm : t.types.unboxingType source target = .ok made) : t.createUnboxing source target =
      .ok ⟨{ t with types := made.value.2.2 }.addSymbol (made.value.1.symbol none made.value.2.1 none) .absent,
        made.events⟩ := by
  rw [createUnboxing, hm]
  rfl

theorem synthesizesOperators {qs : List PoolRequest} (ha : Pool.initial.AdmitsAll qs)
    (ht : t.types = Pool.initial.run qs) : t.SynthesizesOperators where
  conversion c error package owner hu ho := by
    have hs : t.types.Sound := ht ▸ Pool.sound_initial.run qs
    have hl : t.types.Linked := ht ▸ Pool.linked_run Pool.sound_initial Pool.linked_initial ha
    obtain ⟨b, hb⟩ := Pool.exists_isUnion (hu c.target (by simp))
    obtain ⟨made, hm, heffect⟩ := hs.exists_synthesizes hl hb error
    refine ⟨_, made.value.1, createConversion_of_type hm package ho, addsOperator t made.value.2 rfl, fun hf => ?_⟩
    have hstep := Pool.step_request (c := .operator c error) hm
    have hp : t.types.Fits := Pool.fits_of_step (hstep.symm ▸ hf)
    obtain ⟨rs, hr, -⟩ := Pool.Represents.initial.run (ht ▸ hp)
    exact heffect _ (ht ▸ hr) hf
  unboxing source target _ hu := by
    obtain ⟨made, i, hm, hc, hk, heffect⟩ := Pool.exists_unboxed hu source
    refine ⟨_, i, made.value.2.1, createUnboxing_of_type hm, hc ▸ addsOperator t made.value.2.2 rfl, hk, fun hf => ?_⟩
    have hstep : t.types.step (.unboxing source target) = made.value.2.2 := by simp only [Pool.step, hm]
    have hp : t.types.Fits := Pool.fits_of_step (hstep.symm ▸ hf)
    obtain ⟨rs, hr, -⟩ := Pool.Represents.initial.run (ht ▸ hp)
    exact heffect _ (ht ▸ hr) hf

/-- In every pool whose types were there when they were mentioned, making an operator has just the effect
on types, symbols and scopes that it is there for. What a request has mentioned comes before the types
that are made next, and two operators with unions of their own share neither these nor their types. -/
theorem operators_synthesized (qs : List PoolRequest) (ha : Pool.initial.AdmitsAll qs) :
    (∀ t : Table, t.types = Pool.initial.run qs → t.SynthesizesOperators) ∧
      (∀ q ∈ qs, ∀ u ∈ q.types, u.raw.toNat < (Pool.initial.run qs).size) ∧
      ∀ before c error between c' error' r r', qs = before ++ .conversion c error :: between →
        (Pool.initial.run before).MakesUnion c error r → (Pool.initial.run qs).MakesUnion c' error' r' →
        r.value.1 ≠ r'.value.1 ∧ ∀ ret ret', r.value.2.returnType r.value.1 = .ok ret →
          r'.value.2.returnType r'.value.1 = .ok ret' → ret ≠ ret' := by
  refine ⟨fun t => synthesizesOperators ha, Pool.sound_initial.mentioned_lt_size ha, ?_⟩
  rintro before c error between c' error' r r' rfl h h'
  obtain ⟨ret₁, hret₁, hpos₁, htype₁, hsize₁⟩ := h.positions ha.of_append
  obtain ⟨ret₂, hret₂, hpos₂, htype₂, -⟩ := h'.positions ha
  -- What the first call has made lies below the size that the second call starts with.
  have hle : r.value.2.size ≤ (Pool.initial.run (before ++ .conversion c error :: between)).size := by
    have hstep := Pool.step_request (c := .operator c error) h.served
    rw [Pool.run_append, ← hstep]
    exact Pool.size_le_run _ between
  refine ⟨fun he => ?_, ?_⟩
  · rw [he] at htype₁
    omega
  · rintro ret ret' hret hret' rfl
    cases hret.symm.trans hret₁
    cases hret'.symm.trans hret₂
    omega

/-- An operator into a union that takes the error, after one that got a union of its own and before
another one that gets one. -/
theorem operators_synthesized_growing :
    let qs : List PoolRequest := [.type (.union none [.int]), .conversion ⟨.any, .string, .nop, false, false⟩ .error]
    let toUnion : Conversion := ⟨.any, ⟨64⟩, .nop, false, false⟩
    let toInt : Conversion := ⟨.any, .int, .nop, false, false⟩
    (∃ w, Workspace.initial (.initial fun _ => 0) = .ok w ∧
      let t := { w.table with types := Pool.initial.run qs }
      ∃ r type, t.createConversion toUnion .error none (some t.rootPackage) = .ok r ∧
        t.AddsOperator ⟨.conversion toUnion, ∅, .empty, none, type, some t.rootPackage, none⟩ r.value ∧
        t.types.Synthesizes toUnion .error type r.value.2.types r.events) ∧
      ∃ r r', (Pool.initial.run [.type (.union none [.int])]).MakesUnion ⟨.any, .string, .nop, false, false⟩ .error r ∧
        (Pool.initial.run qs).MakesUnion toInt .error r' ∧ r.value.1 ≠ r'.value.1 := by
  intro qs toUnion toInt
  obtain ⟨hsynthesizes, -, hdistinct⟩ := operators_synthesized qs (by decide +kernel)
  constructor
  · obtain ⟨w, h, hroot⟩ := Workspace.exists_initial (p := fun w => w.table.heap.isLive (.symbol w.table.rootPackage))
      (by decide +kernel)
    refine ⟨w, h, ?_⟩
    intro t
    have hlive : ∀ u ∈ [toUnion.source, toUnion.target, TypeId.error], (Pool.initial.run qs).contains u = true := by
      decide +kernel
    have howner : ∀ o, some t.rootPackage = some o → t.heap.isLive (.symbol o) := by
      rintro o ⟨⟩
      exact hroot
    obtain ⟨r, type, hr, hadds, heffect⟩ := (hsynthesizes t rfl).conversion toUnion .error none _ hlive howner
    obtain ⟨-, made, hm, he⟩ := createConversion_cases hr
    have hf : ((Pool.initial.run qs).step (.conversion toUnion .error)).Fits := by decide +kernel
    have hstep := Pool.step_request (c := .operator toUnion .error) hm
    refine ⟨r, type, hr, hadds, heffect ?_⟩
    rw [he]
    exact hstep ▸ hf
  · have hstring : (Pool.initial.run [.type (.union none [.int])]).isUnion .string = .ok false := by decide +kernel
    have hint : (Pool.initial.run qs).isUnion .int = .ok false := by decide +kernel
    have h : (Pool.initial.run [.type (.union none [.int])]).MakesUnion ⟨.any, .string, .nop, false, false⟩ .error _ :=
      ⟨rfl, hstring, Pool.conversionType_of_return (Pool.conversionReturn_other hstring .error), by decide +kernel⟩
    have h' : (Pool.initial.run qs).MakesUnion toInt .error _ :=
      ⟨rfl, hint, Pool.conversionType_of_return (Pool.conversionReturn_other hint .error), by decide +kernel⟩
    exact ⟨_, _, h, h', (hdistinct _ _ _ [] _ _ _ _ rfl h h').1⟩

end Table

end CompilerSymbols
