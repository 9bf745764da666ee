import CompilerSymbols.Proofs.Workspace.Closing

namespace CompilerSymbols

namespace Table

variable {t t' : Table} {names : Interner}

/-- Every scope lists its definitions, and all that is defined denotes a type. -/
structure HoldsTypes (t : Table) : Prop where
  listed : ∀ k s, t.heap.scope? k = some s → ∃ ds, s.Holds ds
  types : ∀ k s x sym, t.heap.scope? k = some s → x ∈ s.symbols → t.heap.symbol? x = some sym → sym.isType = true

theorem bare_holdsTypes (h : bare names = .ok t) : t.HoldsTypes where
  listed := by
    intro k s hs
    obtain ⟨owner, rfl⟩ := bare_scope? h hs
    exact ⟨[], .empty owner⟩
  types := by
    intro k s x sym hs hx
    obtain ⟨owner, rfl⟩ := bare_scope? h hs
    cases hx

theorem HoldsTypes.addBuiltinType {text : String} {type : TypeId} (h : t.HoldsTypes)
    (ha : t.addBuiltinType text type = .ok t') : t'.HoldsTypes := by
  obtain ⟨name, -, hold⟩ := addBuiltinType_scope? ha
  constructor
  · intro k s hs
    rcases hold hs with hs | ⟨old, previous, hs, hd⟩
    · exact h.listed k s hs
    · obtain ⟨ds, hds⟩ := h.listed k old hs
      obtain ⟨s', hd', hs', -⟩ := hds.define (Scope.define_cases hd).1 name ⟨t.heap.symbols.size⟩
      cases hd.symm.trans hd'
      exact ⟨_, hs'⟩
  · intro k s x sym hs hx hsym
    rcases addBuiltinType_symbol? ha hsym with hsym | hp
    · rcases hold hs with hs | ⟨old, previous, hs, hd⟩
      · exact h.types k s x sym hs hx hsym
      · rcases Scope.mem_symbols_define hd hx with hx | rfl
        · exact h.types k old x sym hs hx hsym
        · exact absurd (Heap.isLive_symbol hsym) t.heap.not_isLive_symbol_size
    · rw [Symbol.isType, Symbol.mask, Symbol.kind, hp]
      decide

theorem HoldsTypes.of_eq (h : t.HoldsTypes) {outside : List Ref} (b : t.heap.Balanced outside) (hp : t.Precedes t')
    (hs : ∀ k, t'.heap.scope? k = t.heap.scope? k) : t'.HoldsTypes := by
  constructor
  · intro k s hk
    exact h.listed k s (hs k ▸ hk)
  · intro k s x sym hk hx hsym
    rw [hs k] at hk
    have hc := Heap.created_of_isLive (b.isLive_of_mem_symbols hk hx)
    exact h.types k s x sym hk hx (hp.heap.symbol x sym hc hsym)

theorem initial_holdsTypes (h : initial names = .ok t) : t.HoldsTypes := by
  refine (initial_invariant (P := fun t => t.heap.Balanced (Workspace.mk t []).roots ∧ t.HoldsTypes) h ?_ ?_ ?_ ?_).2
  · intro t hb
    exact ⟨bare_balanced hb, bare_holdsTypes hb⟩
  · intro t t' text type ha ⟨b, ht⟩
    exact ⟨(Workspace.Steps.addBuiltinType ha).balanced b, ht.addBuiltinType ha⟩
  · intro t t' target ha ⟨b, ht⟩
    have hsteps : Workspace.Steps ⟨t, []⟩ ⟨t', []⟩ := .addUnboxing ha
    exact ⟨hsteps.balanced b, ht.of_eq b hsteps.precedes (addUnboxing_scope? ha).2⟩
  · intro t t' c ha ⟨b, ht⟩
    have hsteps : Workspace.Steps ⟨t, []⟩ ⟨t', []⟩ := .addScalarConversion ha
    exact ⟨hsteps.balanced b, ht.of_eq b hsteps.precedes (addScalarConversion_scope? ha).2⟩

theorem mem_of_builtinType? {text : String} {id : SymbolId} (h : t.builtinType? text = some id) :
    ∃ s, t.heap.scope? t.rootScope = some s ∧ id ∈ s.symbols := by
  obtain ⟨name, -, h⟩ := Option.bind_eq_some_iff.mp h
  obtain ⟨s, hs, h⟩ := Option.bind_eq_some_iff.mp h
  exact ⟨s, hs, Scope.mem_symbols_of_lookup? h⟩

def denotesType (t : Table) (id : SymbolId) : Bool := (t.heap.symbol? id).any (·.isType)

end Table

namespace Workspace

variable {w : Workspace} {q : Request} {qs : List Request} {s : Scope} {ds : List (Name × SymbolId)}

/-- What a request defines in the root scope, through whatever package, if that scope is open and the
symbol is there. -/
def rootDefinition? (w : Workspace) : Request → Option (Name × SymbolId)
  | .definition k name symbol =>
    if k = w.table.rootScope ∧ w.table.isFrozen = false ∧ w.table.heap.isLive (.symbol symbol) = true then
      some (name, symbol)
    else none
  | _ => none

def rootDefinitions : Workspace → List Request → List (Name × SymbolId)
  | _, [] => []
  | w, q :: qs => (w.rootDefinition? q).toList ++ (w.next q).rootDefinitions qs

def lastDefined (w : Workspace) (qs : List Request) (text : String) : Option SymbolId :=
  ((w.run qs).table.names.get? text).bind (Scope.last? (w.rootDefinitions qs))

theorem isFrozen_eq (hs : w.table.heap.scope? w.table.rootScope = some s) : w.table.isFrozen = s.frozen := by
  rw [Table.isFrozen, hs]
  rfl

theorem next_definition_rootScope (hs : w.table.heap.scope? w.table.rootScope = some s) (hds : s.Holds ds)
    (name : Name) (symbol : SymbolId) :
    ∃ s', (w.next (.definition w.table.rootScope name symbol)).table.heap.scope? w.table.rootScope = some s' ∧
      s'.Holds (ds ++ (w.rootDefinition? (.definition w.table.rootScope name symbol)).toList) := by
  cases hp : w.perform (.definition w.table.rootScope name symbol) with
  | error f =>
      have hnone : w.rootDefinition? (.definition w.table.rootScope name symbol) = none := by
        refine if_neg ?_
        rintro ⟨-, hf, hl⟩
        obtain ⟨w', hw⟩ := exists_define hs (isFrozen_eq hs ▸ hf) hl
        rw [hp] at hw
        cases hw
      rw [next, hp, hnone, Option.toList_none, List.append_nil]
      exact ⟨s, hs, hds⟩
  | ok w' =>
      obtain ⟨old, new, previous, hold, hl, hnew, hk⟩ := perform_definition_scopes hp
      cases hold.symm.trans hs
      have hf : s.frozen = false := (Scope.define_cases hnew).1
      obtain ⟨s', hs', hholds, -⟩ := hds.define hf name symbol
      obtain rfl : new = s' := congrArg Prod.snd (Except.ok.inj (hnew.symm.trans hs'))
      have hsome : w.rootDefinition? (.definition w.table.rootScope name symbol) = some (name, symbol) :=
        if_pos ⟨rfl, (isFrozen_eq hs).trans hf, hl⟩
      rw [next, hp, hsome, Option.toList_some]
      exact ⟨new, (hk _).trans (if_pos rfl), hholds⟩

theorem next_rootScope (b : w.table.heap.Balanced w.roots) (hs : w.table.heap.scope? w.table.rootScope = some s)
    (hds : s.Holds ds) (q : Request) :
    ∃ s', (w.next q).table.heap.scope? (w.next q).table.rootScope = some s' ∧
      s'.Holds (ds ++ (w.rootDefinition? q).toList) := by
  have hroot : (w.next q).table.rootScope = w.table.rootScope := (Steps.next w q).precedes.rootScope
  by_cases hq : ∃ name symbol, q = .definition w.table.rootScope name symbol
  · obtain ⟨name, symbol, rfl⟩ := hq
    rw [hroot]
    exact next_definition_rootScope hs hds name symbol
  · have hnone : w.rootDefinition? q = none := by
      cases q with
      | definition k name symbol =>
          refine if_neg ?_
          rintro ⟨rfl, -⟩
          exact hq ⟨name, symbol, rfl⟩
      | _ => rfl
    obtain ⟨s', hs'⟩ := Option.isSome_iff_exists.mp (isLive_rootScope ((Steps.next w q).balanced b))
    refine ⟨s', hs', ?_⟩
    rw [hnone, Option.toList_none, List.append_nil]
    rw [hroot] at hs'
    cases next_scope? hs' with
    | same hc hk =>
        cases hk.symm.trans hs
        exact hds
    | opened hn => exact absurd (Heap.created_of_isLive (Heap.isLive_scope hs)) hn
    | defined hd => exact absurd ⟨_, _, hd⟩ hq
    | closed hc hk hf =>
        cases hk.symm.trans hs
        rw [hf]
        exact hds.freeze

theorem run_rootScope (b : w.table.heap.Balanced w.roots) (hs : w.table.heap.scope? w.table.rootScope = some s)
    (hds : s.Holds ds) (qs : List Request) :
    ∃ s', (w.run qs).table.heap.scope? (w.run qs).table.rootScope = some s' ∧
      s'.Holds (ds ++ w.rootDefinitions qs) := by
  induction qs generalizing w s ds with
  | nil =>
      rw [rootDefinitions, List.append_nil]
      exact ⟨s, hs, hds⟩
  | cons q qs ih =>
      obtain ⟨s', hs', hds'⟩ := next_rootScope b hs hds q
      rw [rootDefinitions, ← List.append_assoc]
      exact ih ((Steps.next w q).balanced b) hs' hds'

section Run

variable {names : Interner}

theorem lookup_rootScope (hs : w.table.heap.scope? w.table.rootScope = some s) (text : String) :
    w.table.builtinType? text = (w.table.names.get? text).bind s.lookup? := by
  simp only [Table.builtinType?, hs, Option.bind_some]

theorem isLive_builtinType (b : w.table.heap.Balanced w.roots) {text : String} {id : SymbolId}
    (h : w.table.builtinType? text = some id) : w.table.heap.isLive (.symbol id) := by
  obtain ⟨s, hs, hm⟩ := Table.mem_of_builtinType? h
  exact b.isLive_of_mem_symbols hs hm

theorem denotesType_of_initial (h : initial names = .ok w) {text : String} {id : SymbolId}
    (ht : w.table.builtinType? text = some id) (hl : (w.run qs).table.heap.isLive (.symbol id)) :
    (w.run qs).table.denotesType id = true := by
  have hc := Heap.created_of_isLive (isLive_builtinType (initial_balanced h) ht)
  obtain ⟨s, hs, hm⟩ := Table.mem_of_builtinType? ht
  obtain ⟨sym, hsym⟩ := Option.isSome_iff_exists.mp hl
  have hsym' := (Steps.run w qs).precedes.heap.symbol id sym hc hsym
  obtain ⟨t, hw, rfl⟩ := map_ok h
  rw [Table.denotesType, hsym]
  exact (Table.initial_holdsTypes hw).types _ s id sym hs hm hsym'

theorem builtinType?_run (shardOf : String → Fin Name.shardCount) (rs : List NameRequest)
    (h : initial (Interner.after shardOf rs) = .ok w) (qs : List Request) (text : String) :
    (w.run qs).table.builtinType? text = (w.lastDefined qs text).or (w.table.builtinType? text) := by
  obtain ⟨texts, hn⟩ := Interner.exists_after_holds shardOf rs
  have b := initial_balanced h
  obtain ⟨s, hs⟩ := Option.isSome_iff_exists.mp (isLive_rootScope b)
  obtain ⟨t, ht, rfl⟩ := map_ok h
  have hknown := Table.initial_namesKnown hn ht
  obtain ⟨ds, hds⟩ := (Table.initial_holdsTypes ht).listed _ s hs
  obtain ⟨s', hs', hds'⟩ := run_rootScope b hs hds qs
  have hsteps := Steps.run ⟨t, []⟩ qs
  rw [← Table.lookup_later_eq hknown (hsteps.holds hknown.texts) hsteps.precedes, lookup_rootScope hs', lastDefined, hs]
  cases ((⟨t, []⟩ : Workspace).run qs).table.names.get? text with
  | none => rfl
  | some name =>
      simp only [Option.bind_some]
      rw [hds'.lookup?_eq, hds.lookup?_eq, Scope.last?_append]

/-- What is looked up as a builtin type is whatever was last defined under its text while the root
scope was open. It is a type just when that is one. -/
theorem answers_last_defined (shardOf : String → Fin Name.shardCount) (rs : List NameRequest)
    (h : initial (Interner.after shardOf rs) = .ok w) (qs : List Request) (text : String) :
    (w.run qs).table.builtinType? text = (w.lastDefined qs text).or (w.table.builtinType? text) ∧
      ((∀ id, (w.run qs).table.builtinType? text = some id → (w.run qs).table.denotesType id = true) ↔
        ∀ id, w.lastDefined qs text = some id → (w.run qs).table.denotesType id = true) := by
  have he := builtinType?_run shardOf rs h qs text
  refine ⟨he, ?_⟩
  constructor
  · intro ht id hid
    apply ht
    rw [he, hid, Option.some_or]
  · intro ht id hid
    have hl := isLive_builtinType (run_owned h qs).1 hid
    rw [he] at hid
    rcases Option.or_eq_some_iff.mp hid with hd | ⟨-, hw⟩
    · exact ht id hd
    · exact denotesType_of_initial h hw hl

/-- A package with a builtin name declares a native function through the scope it shares. -/
def definedFunction (w : Workspace) : List Request :=
  [.package w.table.builtinPackage, .intern "println",
    .declaration ⟨.function false, .publicFlag ∪ .nativeFlag, ⟨25⟩, w.table.builtinPackage, .noType, ⟨35⟩⟩,
    .definition w.table.rootScope ⟨25⟩ ⟨36⟩]

theorem answers_last_defined_function : ∃ w, initial (Interner.after (fun _ => 0) []) = .ok w ∧
    w.lastDefined w.definedFunction "println" = some ⟨36⟩ ∧ w.lastDefined w.definedFunction "int" = none ∧
    (w.run w.definedFunction).table.builtinType? "println" = some ⟨36⟩ ∧
    (∀ id, (w.run w.definedFunction).table.builtinType? "int" = some id →
      (w.run w.definedFunction).table.denotesType id = true) := by
  obtain ⟨w, h, hp, hi⟩ := exists_initial (p := fun w => w.lastDefined w.definedFunction "println" = some ⟨36⟩ ∧
    w.lastDefined w.definedFunction "int" = none) (by decide +kernel)
  have hprintln := (answers_last_defined (fun _ => 0) [] h w.definedFunction "println").1
  have hint := (answers_last_defined (fun _ => 0) [] h w.definedFunction "int").2
  refine ⟨w, h, hp, hi, ?_, hint.mpr ?_⟩
  · rw [hprintln, hp, Option.some_or]
  · intro id hid
    cases hi.symm.trans hid

/-- A function in the frozen root scope is found as a builtin type. -/
theorem function_found_as_type : ∃ w, initial (.initial fun _ => 0) = .ok w ∧
    let v := w.run (w.definedFunction ++ [.freeze])
    v.table.heap.scopeOf ⟨35⟩ = .ok v.table.rootScope ∧ v.table.builtinType? "println" = some ⟨36⟩ ∧
      (v.table.heap.symbol? ⟨36⟩).map (·.kind) = some .function ∧
      (v.table.heap.symbol? ⟨36⟩).map (·.isType) = some false :=
  exists_initial (by decide +kernel)

end Run

end Workspace

end CompilerSymbols
