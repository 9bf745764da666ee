import CompilerSymbols.Proofs.Workspace.Ownership

namespace CompilerSymbols

/-- Only the root scope is shared, and every other scope has its symbol as the owner. -/
structure Table.ScopesOwned (t : Table) : Prop where
  scope_iff : ∀ id s, t.heap.symbol? id = some s → (s.scope.isSome ↔ s.kind.isScoped)
  root_iff : ∀ id s, t.heap.symbol? id = some s → (s.scope = some t.rootScope ↔ t.SharesRoot id s)
  root_owner : t.heap.scopeOwner? t.rootScope = some t.rootPackage
  owner : ∀ id s k, t.heap.symbol? id = some s → s.scope = some k → ¬ t.SharesRoot id s →
    t.heap.scopeOwner? k = some id
  unique : ∀ a b sa sb k, t.heap.symbol? a = some sa → sa.scope = some k → ¬ t.SharesRoot a sa →
    t.heap.symbol? b = some sb → sb.scope = some k → b = a

namespace Table.Owned

variable {t : Table}

theorem link_own (o : t.Owned) {id : SymbolId} {s : Symbol} {k : ScopeId} (hs : t.heap.symbol? id = some s)
    (hk : s.scope = some k) (hr : ¬ t.SharesRoot id s) : t.heap.link? (.scope k) = some id := by
  have hne : k ≠ t.rootScope := by
    rintro rfl
    exact hr ((o hs).root_iff.mp hk)
  have hl := (o hs).owner k hk
  rwa [if_neg hne] at hl

theorem scopesOwned (o : t.Owned) (hp : t.heap.isLive (.symbol t.rootPackage)) : t.ScopesOwned where
  scope_iff := fun _ _ hs => (o hs).scope_iff
  root_iff := fun _ _ hs => (o hs).root_iff
  root_owner := by
    change t.heap.upgrade? (t.heap.link? (.scope t.rootScope)) = some t.rootPackage
    rw [o.root_link hp]
    simp [Heap.upgrade?, hp]
  owner := by
    intro id s k hs hk hr
    change t.heap.upgrade? (t.heap.link? (.scope k)) = some id
    rw [o.link_own hs hk hr]
    simp [Heap.upgrade?, Heap.isLive_symbol hs]
  unique := by
    intro a b sa sb k ha hka hra hb hkb
    have hrb : ¬ t.SharesRoot b sb := by
      intro hrb
      exact hra ((o ha).root_iff.mp (hka.trans (hkb.symm.trans ((o hb).root_iff.mpr hrb))))
    exact Option.some.inj ((o.link_own hb hkb hrb).symm.trans (o.link_own ha hka hra))

end Table.Owned

namespace Workspace

/-- What is defined through one symbol's scope shows through another's only if both have the root
scope, and then it shows at once. -/
def DefinesApart (w : Workspace) : Prop :=
  ∀ (a b : SymbolId) (sa sb : Symbol) (ka kb : ScopeId) (name : Name) (symbol : SymbolId) (w' : Workspace),
    w.table.heap.symbol? a = some sa → sa.scope = some ka →
    w.table.heap.symbol? b = some sb → sb.scope = some kb →
    w.perform (.definition ka name symbol) = .ok w' →
    (w'.table.heap.scope? kb ≠ w.table.heap.scope? kb →
      a = b ∨ w.table.SharesRoot a sa ∧ w.table.SharesRoot b sb) ∧
    (w.table.SharesRoot a sa → w.table.SharesRoot b sb →
      ∃ scope, w'.table.heap.scope? kb = some scope ∧ scope.lookup? name = some symbol)

/-- What is made leaves every scope as it is, and gets the root scope or an empty one of its own. -/
def CreatesApart (w : Workspace) : Prop :=
  ∀ (q : Request) (w' : Workspace), q.makes = true → w.perform q = .ok w' →
    (∀ k scope, w.table.heap.scope? k = some scope → w'.table.heap.scope? k = some scope) ∧
    (∀ k scope, ¬ w.table.heap.Created (.scope k) → w'.table.heap.scope? k = some scope →
      scope = .empty scope.owner) ∧
    ∀ id s k, ¬ w.table.heap.Created (.symbol id) → w'.table.heap.symbol? id = some s →
      s.scope = some k → ¬ w'.table.SharesRoot id s → ¬ w.table.heap.Created (.scope k)

variable {w w' : Workspace}

theorem perform_definition_scope? {ka : ScopeId} (kb : ScopeId) {name : Name} {symbol : SymbolId}
    (h : w.perform (.definition ka name symbol) = .ok w') :
    (kb ≠ ka → w'.table.heap.scope? kb = w.table.heap.scope? kb) ∧
      ∃ scope, w'.table.heap.scope? ka = some scope ∧ scope.lookup? name = some symbol := by
  obtain ⟨s, s', previous, -, -, hs', hk⟩ := perform_definition_scopes h
  exact ⟨fun hne => (hk kb).trans (if_neg hne), s', (hk ka).trans (if_pos rfl), Scope.lookup?_define hs'⟩

theorem definesApart (o : w.table.Owned) (hp : w.table.heap.isLive (.symbol w.table.rootPackage)) :
    w.DefinesApart := by
  intro a b sa sb ka kb name symbol w' ha hka hb hkb h
  obtain ⟨hne, scope, hs, hl⟩ := perform_definition_scope? kb h
  constructor
  · intro hc
    have hk : kb = ka := Decidable.byContradiction fun hk => hc (hne hk)
    subst hk
    by_cases hra : w.table.SharesRoot a sa
    · have hkr := (o ha).root_iff.mpr hra
      exact .inr ⟨hra, (o hb).root_iff.mp (hkb.trans (hka.symm.trans hkr))⟩
    · exact .inl ((o.scopesOwned hp).unique a b sa sb kb ha hka hra hb hkb).symm
  · intro hra hrb
    have hk : some kb = some ka := hkb.symm.trans
      (((o hb).root_iff.mpr hrb).trans (((o ha).root_iff.mpr hra).symm.trans hka))
    cases hk
    exact ⟨scope, hs, hl⟩

theorem scope?_of_new {h : Heap} {k : ScopeId} {scope : Scope} {owner : Option SymbolId} {p : Prop} [Decidable p]
    (hp : p → k = ⟨h.scopes.size⟩) {x : Option Scope} (hx : x = if p then some (.empty owner) else h.scope? k) :
    (h.scope? k = some scope → x = some scope) ∧
      (¬ h.Created (.scope k) → x = some scope → scope = .empty scope.owner) := by
  subst hx
  split
  · next he =>
      refine ⟨fun hk => absurd ?_ h.not_isLive_scope_size, ?_⟩
      · rw [← hp he]
        exact Heap.isLive_scope hk
      · rintro - hk
        cases hk
        rfl
  · exact ⟨id, fun hn hk => absurd (Heap.created_of_isLive (Heap.isLive_scope hk)) hn⟩

theorem not_created_scope {made : SymbolId × Table} (hm : w.table.Creates made)
    (o : (w.takeSymbol made).2.table.Owned) {id : SymbolId} {s : Symbol} {k : ScopeId}
    (hn : ¬ w.table.heap.Created (.symbol id)) (hs : (w.takeSymbol made).2.table.heap.symbol? id = some s)
    (hk : s.scope = some k) (hr : ¬ (w.takeSymbol made).2.table.SharesRoot id s) :
    ¬ w.table.heap.Created (.scope k) := by
  have hroot : k ≠ w.table.rootScope := by
    obtain ⟨rs, s', choice, hc, rfl⟩ := hm
    rintro rfl
    exact hr ((o hs).root_iff.mp hk)
  obtain ⟨rs, s', choice, hc, rfl⟩ := hm
  rw [heap_takeSymbol, Heap.symbol?_addSymbol] at hs
  split at hs
  · cases hs
    cases choice with
    | absent => cases hk
    | fresh =>
        cases hk
        exact Nat.lt_irrefl _
    | shared k' =>
        cases hk
        exact absurd hc.1 hroot
  · exact absurd (Heap.created_of_isLive (Heap.isLive_symbol hs)) hn

theorem createsApart (b : w.table.heap.Balanced w.roots) (o : w.table.Owned) : w.CreatesApart := by
  intro q w' hq h
  have ho : w'.table.Owned := (Steps.owned (Steps.perform h) b o).2
  rcases perform_makes h hq with ⟨made, hm, rfl⟩ | ⟨owner, rfl, rfl⟩
  · refine ⟨?_, ?_, fun id s k hn hs hk hr => not_created_scope hm ho hn hs hk hr⟩
    · intro k scope
      obtain ⟨rs, s, choice, hc, rfl⟩ := hm
      exact (scope?_of_new And.right (Heap.scope?_addSymbol ..)).1
    · intro k scope
      obtain ⟨rs, s, choice, hc, rfl⟩ := hm
      exact (scope?_of_new And.right (Heap.scope?_addSymbol ..)).2
  · refine ⟨fun k scope => (scope?_of_new id (Heap.scope?_addScope ..)).1,
      fun k scope => (scope?_of_new id (Heap.scope?_addScope ..)).2, ?_⟩
    intro id s k hn hs
    exact absurd (Heap.created_of_isLive (Heap.isLive_symbol hs)) hn

/-- In every state that a workspace can get to, only the root scope is shared. -/
theorem scopes_owned {names : Interner} (h : initial names = .ok w) (qs : List Request) :
    (w.run qs).table.ScopesOwned ∧ (w.run qs).DefinesApart ∧ (w.run qs).CreatesApart := by
  obtain ⟨b, o⟩ := run_owned h qs
  have hp := isLive_rootPackage b
  exact ⟨o.scopesOwned hp, definesApart o hp, createsApart b o⟩

def builtinObject (w : Workspace) : List Request :=
  [.package w.table.builtinPackage,
    .declaration ⟨.object, ∅, .empty, w.table.builtinPackage, .noType, ⟨35⟩⟩]

theorem scopes_owned_builtinObject : ∃ w, initial (.initial fun _ => 0) = .ok w ∧
    (∃ s, (w.run w.builtinObject).table.heap.symbol? ⟨35⟩ = some s ∧
      (w.run w.builtinObject).table.SharesRoot ⟨35⟩ s) ∧
    ∃ s, (w.run w.builtinObject).table.heap.symbol? ⟨36⟩ = some s ∧
      ¬ (w.run w.builtinObject).table.SharesRoot ⟨36⟩ s ∧
      (w.run w.builtinObject).table.heap.scopeOwner? ⟨1⟩ = some ⟨36⟩ := by
  obtain ⟨w, h, ha, hb, hne⟩ := exists_initial (p := fun w =>
    ((w.run w.builtinObject).table.heap.symbol? ⟨35⟩).bind (·.scope) =
      some (w.run w.builtinObject).table.rootScope ∧
    ((w.run w.builtinObject).table.heap.symbol? ⟨36⟩).bind (·.scope) = some ⟨1⟩ ∧
    (w.run w.builtinObject).table.rootScope ≠ ⟨1⟩) (by decide +kernel)
  obtain ⟨sa, hsa, hra⟩ := Option.bind_eq_some_iff.mp ha
  obtain ⟨sb, hsb, hkb⟩ := Option.bind_eq_some_iff.mp hb
  have o := (scopes_owned h w.builtinObject).1
  have hr : ¬ (w.run w.builtinObject).table.SharesRoot ⟨36⟩ sb := by
    intro hr
    exact hne (Option.some.inj (((o.root_iff ⟨36⟩ sb hsb).mpr hr).symm.trans hkb))
  exact ⟨w, h, ⟨sa, hsa, (o.root_iff ⟨35⟩ sa hsa).mp hra⟩, sb, hsb, hr, o.owner ⟨36⟩ sb ⟨1⟩ hsb hkb hr⟩

end Workspace

end CompilerSymbols
