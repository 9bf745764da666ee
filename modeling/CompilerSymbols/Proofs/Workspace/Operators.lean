import CompilerSymbols.Proofs.Types.Operator
import CompilerSymbols.Proofs.Workspace.Scopes

namespace CompilerSymbols

def Request.error : Request → Option TypeId
  | .conversion _ error _ _ => some error
  | _ => none

/-- Every operator that is there has a type as it needs, when all are built with one error type. -/
def Table.Typed (t : Table) (error : TypeId) : Prop :=
  ∃ l, Pool.Represents t.types l ∧ ∀ {id s c}, t.heap.symbol? id = some s → s.payload = .conversion c →
    l.Operator s.type c (some error)

namespace Table.Typed

variable {t t' : Table} {error : TypeId}

theorem of_subset (h : t.Typed error) (ht : t'.types = t.types)
    (hs : ∀ {id s c}, t'.heap.symbol? id = some s → s.payload = .conversion c → t.heap.symbol? id = some s) :
    t'.Typed error := by
  obtain ⟨l, hr, ho⟩ := h
  rw [← ht] at hr
  exact ⟨l, hr, fun h hc => ho (hs h hc) hc⟩

theorem create {types : Pool} {s : Symbol} {c : Conversion} {choice : ScopeChoice} (h : t.Typed error)
    (hs : s.payload = .conversion c) (ht : ∀ {l}, Pool.Represents t.types l →
      ∃ l', Pool.Represents types l' ∧ l.Grows l' ∧ l'.Operator s.type c (some error)) :
    ({ t with types }.addSymbol s choice).2.Typed error := by
  obtain ⟨l, hr, ho⟩ := h
  obtain ⟨l', hr', hg, hop⟩ := ht hr
  refine ⟨l', hr', ?_⟩
  intro id s' c' h' hc'
  rcases Heap.symbol?_new h' with hold | ⟨hp, htype⟩
  · exact (ho hold hc').mono hg
  · rw [hp, hs] at hc'
    cases hc'
    rw [htype]
    exact hop

theorem keepConversion {source target : TypeId} {made : SymbolId × Table} (h : made.2.Typed error) :
    (Table.keepConversion source target made).Typed error :=
  h.of_subset rfl fun h _ => h

theorem bare {names : Interner} (h : Table.bare names = .ok t) : t.Typed error := by
  obtain ⟨name, id, builtin, names, rfl⟩ := bare_cases h
  refine ⟨_, .initial, ?_⟩
  intro id' s c hs hc
  rw [Heap.retain, Heap.symbol?_setStrong] at hs
  rcases Heap.symbol?_new hs with hold | ⟨hp, -⟩
  · cases hold
  · cases hp.symm.trans hc

end Table.Typed

namespace Table

variable {t t' : Table}

theorem addBuiltinType_cases {text : String} {type : TypeId} (h : t.addBuiltinType text type = .ok t') :
    t'.types = t.types ∧ ∀ {id s c}, t'.heap.symbol? id = some s → s.payload = .conversion c →
      t.heap.symbol? id = some s := by
  refine ⟨?_, fun hx hc => ?_⟩
  · obtain ⟨name, names, x, previous, heap, -, -, -, rfl⟩ := addBuiltinType_eq h
    obtain ⟨heap', he, -⟩ := foldl_release { t with names, heap } _
    rw [he]
  · rcases addBuiltinType_symbol? h hx with hold | hp
    · exact hold
    · cases hp.symm.trans hc

theorem addUnboxing_typed {target error : TypeId} (h : t.addUnboxing target = .ok t') (hf : t'.types.Fits)
    (ht : t.Typed error) : t'.Typed error := by
  obtain ⟨r, hr, rfl⟩ := map_ok h
  obtain ⟨made, hm, hr⟩ := createUnboxing_cases hr
  rw [hr] at hf ⊢
  have hc : (made.value.1.symbol none made.value.2.1 none).payload = .conversion made.value.1 := rfl
  apply Typed.keepConversion
  exact ht.create hc fun hl => hl.unboxingType hm hf (some error)

theorem addScalarConversion_typed {c : Conversion} (h : t.addScalarConversion c = .ok t') (hf : t'.types.Fits)
    (ht : t.Typed .error) : t'.Typed .error := by
  obtain ⟨r, hr, rfl⟩ := map_ok h
  obtain ⟨-, made, hm, hr⟩ := createConversion_cases hr
  rw [hr] at hf ⊢
  have hc : (c.symbol (some t.builtinPackage) made.value.1 (some t.rootPackage)).payload = .conversion c := rfl
  apply Typed.keepConversion
  exact ht.create hc fun hl => hl.conversionType hm hf

end Table

namespace Workspace

theorem Step.becomes {w w' : Workspace} (h : Step w w') : w.table.types.Becomes w'.table.types := by
  cases h with
  | serve r => exact .single ⟨r, rfl⟩
  | _ => exact .refl

theorem Steps.becomes {w w' : Workspace} (h : Steps w w') : w.table.types.Becomes w'.table.types :=
  preserves (P := fun v => w.table.types.Becomes v.table.types) (fun hs hb => hb.trans hs.becomes) h .refl

theorem initial_becomes {names : Interner} {w : Workspace} (h : initial names = .ok w) :
    Pool.initial.Becomes w.table.types := by
  obtain ⟨t, ht, hs⟩ := Steps.initial h
  obtain ⟨name, id, builtin, names, rfl⟩ := Table.bare_cases ht
  exact hs.becomes

theorem initial_typed {names : Interner} {w : Workspace} (h : initial names = .ok w) (hf : w.table.types.Fits) :
    w.table.Typed .error := by
  obtain ⟨t, ht, rfl⟩ := map_ok h
  refine Table.initial_invariant (P := fun t => t.types.Fits → t.Typed .error) ht (fun hb _ => .bare hb) ?_ ?_ ?_ hf
  · intro t t' text type hs hp hf
    obtain ⟨htypes, hsub⟩ := Table.addBuiltinType_cases hs
    exact (hp (htypes ▸ hf)).of_subset htypes hsub
  · intro t t' target hs hp hf
    have hsteps : Steps ⟨t, []⟩ ⟨t', []⟩ := .addUnboxing hs
    exact Table.addUnboxing_typed hs hf (hp (hsteps.becomes.fits hf))
  · intro t t' c hs hp hf
    have hsteps : Steps ⟨t, []⟩ ⟨t', []⟩ := .addScalarConversion hs
    exact Table.addScalarConversion_typed hs hf (hp (hsteps.becomes.fits hf))

theorem perform_operator {w w' : Workspace} {q : Request} (h : w.perform q = .ok w') {l : Catalog}
    (hr : Pool.Represents w.table.types l) (hf : w'.table.types.Fits) {id : SymbolId} {s : Symbol} {c : Conversion}
    (hn : ¬ w.table.heap.Created (.symbol id)) (hs : w'.table.heap.symbol? id = some s)
    (hc : s.payload = .conversion c) :
    ∃ l', Pool.Represents w'.table.types l' ∧ l'.Operator s.type c q.error := by
  have hold : w.table.heap.symbol? id ≠ some s := fun h => hn (Heap.created_of_isLive (Heap.isLive_symbol h))
  cases hq : q.makes with
  | false => exact absurd ((perform_shrinks h hq).symbol id s hs) hold
  | true =>
      cases q with
      | intern | types | definition | freezeScope | freeze | hold | drop => cases hq
      | package id =>
          obtain ⟨made, hm, rfl⟩ := perform_package h
          obtain ⟨text, -, rfl⟩ := Table.createPackage_cases hm
          rw [heap_takeSymbol] at hs
          obtain ⟨hp, -⟩ := (Heap.symbol?_new hs).resolve_left hold
          cases hp.symm.trans hc
      | declaration d =>
          obtain ⟨made, hm, rfl⟩ := perform_declaration h
          obtain ⟨-, he⟩ := Table.declare_cases hm
          rw [he, heap_takeSymbol] at hs
          obtain ⟨hp, -⟩ := (Heap.symbol?_new hs).resolve_left hold
          exact absurd (hp.symm.trans hc) (d.payload_ne_conversion c)
      | conversion c' error package owner =>
          obtain ⟨made, hm, rfl⟩ := perform_conversion h
          obtain ⟨-, type, ht, he⟩ := Table.createConversion_cases hm
          rw [he] at hf ⊢
          rw [he, heap_takeSymbol] at hs
          obtain ⟨hp, htype⟩ := (Heap.symbol?_new hs).resolve_left hold
          cases hp.symm.trans hc
          obtain ⟨l', hr', -, ho⟩ := hr.conversionType ht hf
          exact ⟨l', hr', htype ▸ ho⟩
      | unboxing source target =>
          obtain ⟨made, hm, rfl⟩ := perform_unboxing h
          obtain ⟨type, ht, he⟩ := Table.createUnboxing_cases hm
          rw [he] at hf ⊢
          rw [he, heap_takeSymbol] at hs
          obtain ⟨hp, htype⟩ := (Heap.symbol?_new hs).resolve_left hold
          cases hp.symm.trans hc
          obtain ⟨l', hr', -, ho⟩ := hr.unboxingType ht hf none
          exact ⟨l', hr', htype ▸ ho⟩
      | openScope owner =>
          cases h
          exact absurd hs hold

/-- The error type that an operator was built with, in a run or before it. -/
def givenError (w : Workspace) (qs : List Request) (id : SymbolId) : Option TypeId :=
  match w.creator qs (.symbol id) with
  | some (_, q) => q.error
  | none => some .error

variable {names : Interner} {w : Workspace}

theorem run_operator (h : initial names = .ok w) {qs : List Request} (hf : (w.run qs).table.types.Fits)
    {id : SymbolId} {s : Symbol} {c : Conversion} (hs : (w.run qs).table.heap.symbol? id = some s)
    (hc : s.payload = .conversion c) :
    ∃ l, Pool.Represents (w.run qs).table.types l ∧ l.Operator s.type c (w.givenError qs id) := by
  rcases creator_cases (Heap.created_of_isLive (Heap.isLive_symbol hs)) with hw | ⟨qs₁, q, qs₂, rfl, hcr, hn, hy⟩
  · have hsteps := Steps.run w qs
    obtain ⟨l, hr, ho⟩ := initial_typed h (hsteps.becomes.fits hf)
    obtain ⟨l', hr', hg⟩ := hr.becomes hsteps.becomes hf
    rw [givenError, creator_of_created hw]
    exact ⟨l', hr', (ho (hsteps.precedes.heap.symbol id s hw hs) hc).mono hg⟩
  · have he : w.run (qs₁ ++ q :: qs₂) = ((w.run qs₁).next q).run qs₂ := run_append w qs₁ (q :: qs₂)
    rw [givenError, hcr]
    rw [he] at hs hf ⊢
    have hsteps := Steps.run ((w.run qs₁).next q) qs₂
    cases hq : (w.run qs₁).perform q with
    | error f =>
        rw [next, hq] at hy
        exact absurd hy hn
    | ok v =>
        rw [next, hq] at hs hf hy hsteps ⊢
        -- The list of types is followed from the new pool up to `q`, which types the operator, and
        -- from there to the end of the run, where it can only have grown.
        have hfv := hsteps.becomes.fits hf
        have hp := (Steps.perform hq).becomes
        have hb := (initial_becomes h).trans (Steps.run w qs₁).becomes
        obtain ⟨l, hr, -⟩ := Pool.Represents.initial.becomes hb (hp.fits hfv)
        have hsv := hsteps.precedes.heap.symbol id s hy hs
        obtain ⟨l', hr', ho⟩ := perform_operator hq hr hfv hn hsv hc
        obtain ⟨l'', hr'', hg⟩ := hr'.becomes hsteps.becomes hf
        exact ⟨l'', hr'', ho.mono hg⟩

/-- As long as there are positions for all types, the type of every operator that was ever made is
as its operator needs, however many types and operators came after it. -/
theorem operators_typed (h : initial names = .ok w) (qs qs' : List Request)
    (hf : (w.run (qs ++ qs')).table.types.Fits) {id : SymbolId} {s : Symbol} {c : Conversion}
    (hs : (w.run qs).table.heap.symbol? id = some s) (hc : s.payload = .conversion c) :
    (w.run (qs ++ qs')).table.types.TypesOperator s.type c (w.givenError qs id) := by
  rw [run_append] at hf ⊢
  have hb := (Steps.run (w.run qs) qs').becomes
  obtain ⟨l, hr, ho⟩ := run_operator h (hb.fits hf) hs hc
  obtain ⟨l', hr', hg⟩ := hr.becomes hb hf
  exact hr'.typesOperator (ho.mono hg)

def toUnion : Conversion := ⟨.any, ⟨86⟩, .anyToInt, false, false⟩

def converting : List Request := [.types (.union none [.int]), .conversion toUnion .error none none]

def growing : List Request :=
  [.types (.addMember ⟨86⟩ .string), .conversion ⟨.any, .string, .anyToString, false, false⟩ .error none none]

theorem operators_typed_converting : ∃ w, initial (.initial fun _ => 0) = .ok w ∧
    ∃ s, (w.run converting).table.heap.symbol? ⟨35⟩ = some s ∧
      (w.run (converting ++ growing)).table.types.TypesOperator s.type toUnion (some .error) := by
  obtain ⟨w, h, hf, hp, he⟩ := exists_initial (p := fun w =>
    (w.run (converting ++ growing)).table.types.Fits ∧
    ((w.run converting).table.heap.symbol? ⟨35⟩).map (·.payload) = some (.conversion toUnion) ∧
    w.givenError converting ⟨35⟩ = some .error) (by decide +kernel)
  obtain ⟨s, hs, hc⟩ := Option.map_eq_some_iff.mp hp
  exact ⟨w, h, s, hs, he ▸ operators_typed h converting growing hf hs hc⟩

end Workspace

end CompilerSymbols
