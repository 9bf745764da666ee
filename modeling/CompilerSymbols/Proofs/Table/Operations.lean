import CompilerSymbols.Proofs.Types.Request
import CompilerSymbols.Table

namespace CompilerSymbols

namespace Pool

theorem conversionReturn_cases {p : Pool} {target error : TypeId} {safe : Bool} {r : Reported (TypeId × Pool)}
    (h : p.conversionReturn target error safe = .ok r) :
    (safe = true ∧ r.value = (target, p)) ∨
    (safe = false ∧ p.isUnion target = .ok true ∧ ∃ added, p.addMember target error = .ok added ∧
      r.value = (target, added.value.2)) ∨
    (safe = false ∧ p.isUnion target = .ok false ∧ r.value = p.union none [target, error]) := by
  unfold conversionReturn at h
  cases safe with
  | true =>
      rw [if_pos rfl] at h
      cases h
      exact .inl ⟨rfl, rfl⟩
  | false =>
      rw [if_neg Bool.false_ne_true] at h
      obtain ⟨isUnion, hu, h⟩ := bind_ok h
      right
      cases isUnion with
      | true =>
          rw [if_pos rfl] at h
          obtain ⟨added, ha, h⟩ := bind_ok h
          cases h
          exact .inl ⟨rfl, hu, added, ha, rfl⟩
      | false =>
          rw [if_neg Bool.false_ne_true] at h
          cases h
          exact .inr ⟨rfl, hu, rfl⟩

theorem conversionType_eq {p : Pool} {c : Conversion} {error : TypeId} {r : Reported (TypeId × Pool)}
    (h : p.conversionType c error = .ok r) : ∃ ret, p.conversionReturn c.target error c.safe = .ok ret ∧
      r.value = ret.value.2.function [c.source, c.target] ret.value.1 := by
  obtain ⟨ret, hret, hr⟩ := bind_ok h
  cases hr
  exact ⟨ret, hret, rfl⟩

theorem conversionType_cases {p : Pool} {c : Conversion} {error : TypeId} {r : Reported (TypeId × Pool)}
    (h : p.conversionType c error = .ok r) :
    (c.safe = true ∧ r.value = p.function [c.source, c.target] c.target) ∨
    (c.safe = false ∧ p.isUnion c.target = .ok true ∧ ∃ added, p.addMember c.target error = .ok added ∧
      r.value = added.value.2.function [c.source, c.target] c.target) ∨
    (c.safe = false ∧ p.isUnion c.target = .ok false ∧ r.value =
      (p.union none [c.target, error]).2.function [c.source, c.target] (p.union none [c.target, error]).1) := by
  obtain ⟨ret, hret, hr⟩ := conversionType_eq h
  rw [hr]
  rcases conversionReturn_cases hret with ⟨hs, hv⟩ | ⟨hs, hu, added, ha, hv⟩ | ⟨hs, hu, hv⟩
  · exact .inl ⟨hs, by rw [hv]⟩
  · exact .inr (.inl ⟨hs, hu, added, ha, by rw [hv]⟩)
  · exact .inr (.inr ⟨hs, hu, by rw [hv]⟩)

theorem unboxingType_cases {p : Pool} {source target : TypeId}
    {r : Reported (Conversion × TypeId × Pool)} (h : p.unboxingType source target = .ok r) :
    ∃ i, r.value = (⟨source, target, i, false, true⟩, p.function [source, target] target) := by
  obtain ⟨t, -, hr⟩ := bind_ok h
  cases hr
  exact ⟨_, rfl⟩

theorem serve_addMember {p : Pool} {t member : TypeId} {r : Reported (Bool × Pool)}
    (h : p.addMember t member = .ok r) : (p.serve (.addMember t member)).2 = r.value.2 := by
  rw [serve, h]

theorem conversionType_serves {p : Pool} {c : Conversion} {error : TypeId} {r : Reported (TypeId × Pool)}
    (h : p.conversionType c error = .ok r) : ∃ rs, r.value.2 = (p.serveAll rs).2 := by
  rcases conversionType_cases h with ⟨-, hr⟩ | ⟨-, -, added, ha, hr⟩ | ⟨-, -, hr⟩
  · exact ⟨[.function [c.source, c.target] c.target], congrArg Prod.snd hr⟩
  · refine ⟨[.addMember c.target error, .function [c.source, c.target] c.target], ?_⟩
    rw [hr, ← serve_addMember ha]
    rfl
  · exact ⟨[.union none [c.target, error],
      .function [c.source, c.target] (p.union none [c.target, error]).1], congrArg Prod.snd hr⟩

end Pool

theorem Declaration.kind_ne_package (d : Declaration) : d.symbol.kind ≠ .package := by
  change d.construct.payload.kind ≠ .package
  cases d.construct with
  | invokable k => cases k <;> decide
  | denoting k => cases k <;> decide
  | _ => simp [Construct.payload, Payload.kind, CallableKind.symbolKind]

theorem Declaration.payload_ne_conversion (d : Declaration) (c : Conversion) :
    d.symbol.payload ≠ .conversion c := by
  change d.construct.payload ≠ .conversion c
  cases d.construct with
  | denoting k => cases k <;> simp [Construct.payload, Payload.denoting?]
  | _ => simp [Construct.payload]

theorem Conversion.not_isScoped (c : Conversion) (package : Option PackageId) (type : TypeId)
    (owner : Option SymbolId) : ¬ (c.symbol package type owner).kind.isScoped :=
  show ¬ SymbolKind.isScoped .conversion by decide

namespace Table

variable {t : Table}

theorem checkOwner_cases {owner : Option SymbolId} {u : Unit} (h : t.checkOwner owner = .ok u) :
    ∀ o, owner = some o → t.heap.isLive (.symbol o) := by
  rintro o rfl
  by_cases hl : t.heap.isLive (.symbol o)
  · exact hl
  · simp [checkOwner, hl] at h

theorem createPackage_cases {id : PackageId} {r : SymbolId × Table} (h : t.createPackage id = .ok r) :
    ∃ text, t.names.lookup id.name = .ok text ∧
      r = t.addSymbol ⟨.package, ∅, id.name, some id, .noType, some t.rootPackage, none⟩
        (if PackageId.isBuiltinName text then .shared t.rootScope else .fresh) := by
  obtain ⟨builtin, hb, h⟩ := bind_ok h
  obtain ⟨text, ht, rfl⟩ := map_ok hb
  exact ⟨text, ht, (Except.ok.inj h).symm⟩

theorem declare_cases {d : Declaration} {r : Reported (SymbolId × Table)} (h : t.declare d = .ok r) :
    t.heap.isLive (.symbol d.owner) ∧
      r.value = t.addSymbol d.symbol (if d.symbol.kind.isScoped then .fresh else .absent) := by
  obtain ⟨u, ho, h⟩ := bind_ok h
  cases h
  exact ⟨checkOwner_cases ho d.owner rfl, rfl⟩

theorem createConversion_cases {c : Conversion} {error : TypeId} {package : Option PackageId}
    {owner : Option SymbolId} {r : Reported (SymbolId × Table)}
    (h : t.createConversion c error package owner = .ok r) :
    (∀ o, owner = some o → t.heap.isLive (.symbol o)) ∧
      ∃ made, t.types.conversionType c error = .ok made ∧
        r.value = { t with types := made.value.2 }.addSymbol (c.symbol package made.value.1 owner) .absent := by
  obtain ⟨u, ho, h⟩ := bind_ok h
  obtain ⟨made, hm, h⟩ := bind_ok h
  cases h
  exact ⟨checkOwner_cases ho, made, hm, rfl⟩

theorem createUnboxing_cases {source target : TypeId} {r : Reported (SymbolId × Table)}
    (h : t.createUnboxing source target = .ok r) :
    ∃ made, t.types.unboxingType source target = .ok made ∧
      r.value = { t with types := made.value.2.2 }.addSymbol
        (made.value.1.symbol none made.value.2.1 none) .absent := by
  obtain ⟨made, hm, h⟩ := bind_ok h
  cases h
  exact ⟨made, hm, rfl⟩

theorem scopeOf_addSymbol_fresh (s : Symbol) :
    (Heap.empty.addSymbol s .fresh).2.scopeOf (Heap.empty.addSymbol s .fresh).1 = .ok ⟨0⟩ := rfl

theorem bare_cases {names : Interner} (h : bare names = .ok t) :
    ∃ (name : Name) (id builtin : PackageId) (names : Interner), t = ⟨names, .initial, (Heap.empty.addSymbol
      ⟨.package, ∅, name, some id, .noType, none, none⟩ .fresh).2.retain (.scope ⟨0⟩), builtin, ⟨0⟩, ⟨0⟩, []⟩ := by
  obtain ⟨⟨rootId, names₁⟩, -, h⟩ := bind_ok h
  obtain ⟨⟨builtin, names₂⟩, -, h⟩ := bind_ok h
  obtain ⟨k, hk, h⟩ := bind_ok h
  cases (scopeOf_addSymbol_fresh _).symm.trans hk
  cases h
  exact ⟨_, _, _, _, rfl⟩

/-- What holds of the bare table and is kept by all that is added holds of the table with the
builtin types and conversions. -/
theorem initial_invariant {P : Table → Prop} {names : Interner} (h : initial names = .ok t)
    (hb : ∀ {t}, bare names = .ok t → P t)
    (ht : ∀ {t t' text type}, addBuiltinType t text type = .ok t' → P t → P t')
    (hu : ∀ {t t' target}, addUnboxing t target = .ok t' → P t → P t')
    (hc : ∀ {t t' c}, addScalarConversion t c = .ok t' → P t → P t') : P t := by
  obtain ⟨t₀, h₀, h⟩ := bind_ok h
  obtain ⟨t₁, h₁, h⟩ := bind_ok h
  obtain ⟨t₂, h₂, h⟩ := bind_ok h
  exact foldlM_ok h (foldlM_ok h₂ (foldlM_ok h₁ (hb h₀) fun h => ht h) hu) hc

theorem define_cases {scope : ScopeId} {name : Name} {symbol : SymbolId} {r : Option SymbolId × Table}
    (h : t.define scope name symbol = .ok r) :
    ∃ heap, t.heap.define scope name symbol = .ok (r.1, heap) ∧ r.2 = { t with heap } := by
  obtain ⟨⟨previous, heap⟩, hd, rfl⟩ := map_ok h
  exact ⟨heap, hd, rfl⟩

end Table

end CompilerSymbols
