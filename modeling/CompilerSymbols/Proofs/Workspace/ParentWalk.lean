import CompilerSymbols.Proofs.Workspace.OwnerChains

namespace CompilerSymbols

namespace Table

variable {t : Table} {id o : SymbolId} {k k' : ScopeId} {above l : List SymbolId} {ks : List ScopeId}

def HasRoot (t : Table) (id : SymbolId) : Prop := ∃ s, t.heap.symbol? id = some s ∧ t.SharesRoot id s

def IsContainer (t : Table) (id : SymbolId) : Prop := ∃ s, t.heap.symbol? id = some s ∧ s.kind.isScoped

/-- Some symbol of the list has the root scope, and up to the first such one all are containers. -/
def LeadsToRoot (t : Table) (l : List SymbolId) : Prop :=
  ∃ below top rest, l = below ++ top :: rest ∧ t.HasRoot top ∧ (∀ id ∈ below, ¬ t.HasRoot id) ∧
    ∀ id ∈ below ++ [top], t.IsContainer id

theorem not_leadsToRoot_nil : ¬ t.LeadsToRoot [] := by
  rintro ⟨below, top, rest, he, -⟩
  simp at he

theorem leadsToRoot_cons : t.LeadsToRoot (id :: l) ↔ t.IsContainer id ∧ (t.HasRoot id ∨ t.LeadsToRoot l) := by
  constructor
  · rintro ⟨below, top, rest, he, htop, hbelow, hcontainer⟩
    cases below with
    | nil =>
        cases he
        exact ⟨hcontainer _ List.mem_cons_self, .inl htop⟩
    | cons x below =>
        cases he
        refine ⟨hcontainer _ List.mem_cons_self, .inr ⟨below, top, rest, rfl, htop, ?_, ?_⟩⟩
        · exact fun y hy => hbelow y (List.mem_cons_of_mem _ hy)
        · exact fun y hy => hcontainer y (List.mem_cons_of_mem _ hy)
  · rintro ⟨hc, hr⟩
    by_cases hroot : t.HasRoot id
    · exact ⟨[], id, l, rfl, hroot, by simp, by simpa using hc⟩
    · obtain ⟨below, top, rest, rfl, htop, hbelow, hcontainer⟩ := hr.resolve_left hroot
      refine ⟨id :: below, top, rest, rfl, htop, ?_, ?_⟩
      · rintro y (_ | ⟨_, hy⟩)
        · exact hroot
        · exact hbelow y hy
      · rintro y (_ | ⟨_, hy⟩)
        · exact hc
        · exact hcontainer y hy

theorem parent?_eq_some : t.heap.parent? k = some k' ↔ ∃ o id s, t.heap.scopeOwner? k = some o ∧
    t.heap.owner? o = some id ∧ t.heap.symbol? id = some s ∧ s.scope = some k' := by
  simp only [Heap.parent?, Heap.enclosing?, Option.bind_eq_some_iff]
  constructor
  · rintro ⟨id, ⟨o, ho, hid⟩, s, hs, hk⟩
    exact ⟨o, id, s, ho, hid, hs, hk⟩
  · rintro ⟨o, id, s, ho, hid, hs, hk⟩
    exact ⟨id, ⟨o, ho, hid⟩, s, hs, hk⟩

structure Walkable (t : Table) : Prop where
  linksBack : t.LinksBack
  scopes : t.ScopesOwned
  root : t.rootPackage = ⟨0⟩

namespace Walkable

theorem owner?_root (h : t.Walkable) : t.heap.owner? t.rootPackage = none := by
  rw [Option.eq_none_iff_forall_ne_some]
  intro o ho
  have hlt := h.linksBack.owner?_lt _ o ho
  rw [h.root] at hlt
  exact Nat.not_lt_zero _ hlt

theorem parent?_root (h : t.Walkable) : t.heap.parent? t.rootScope = none := by
  rw [Heap.parent?, Heap.enclosing?, h.scopes.root_owner, Option.bind_some, h.owner?_root]
  rfl

/-- The owner of the next scope is older, be it the symbol that the walk has come to or the root
package. -/
theorem scopeOwner?_lt (h : t.Walkable) (k k' : ScopeId) (hk : t.heap.parent? k = some k') :
    (t.heap.scopeOwner? k').elim 0 (·.index) < (t.heap.scopeOwner? k).elim 0 (·.index) := by
  obtain ⟨o, id, s, ho, hid, hs, hscope⟩ := parent?_eq_some.mp hk
  have hlt := h.linksBack.owner?_lt o id hid
  rw [ho]
  by_cases hr : t.SharesRoot id s
  · have hroot := (h.scopes.root_iff id s hs).mpr hr
    cases hscope.symm.trans hroot
    rw [h.scopes.root_owner, h.root]
    exact Nat.zero_lt_of_lt hlt
  · rw [h.scopes.owner id s k' hs hscope hr]
    exact hlt

/-- The walk goes from a scope to those of the symbols above its owner, one after the other. It comes
to the root scope with the first symbol that has it, or ends before with one that has none. -/
theorem walk_cases (h : t.Walkable) (ho : Visits t.heap.owner? o l) (hk : t.heap.scopeOwner? k = some o)
    (hne : k ≠ t.rootScope) (hks : Visits t.heap.parent? k ks) :
    t.LeadsToRoot l.tail ∧ ks.getLast? = some t.rootScope ∨ ¬ t.LeadsToRoot l.tail ∧ t.rootScope ∉ ks := by
  induction ho generalizing k ks with
  | @stop o hnone =>
      have hp : t.heap.parent? k = none := by
        rw [Heap.parent?, Heap.enclosing?, hk, Option.bind_some, hnone]
        rfl
      cases hks with
      | stop => exact .inr ⟨not_leadsToRoot_nil, by simpa using hne.symm⟩
      | go hp' => cases hp.symm.trans hp'
  | @go o id l hid hl ih =>
      obtain ⟨rest, rfl⟩ := hl.head
      obtain ⟨-, -, -, hlive⟩ := Heap.owner?_eq_some.mp hid
      obtain ⟨s, hs⟩ := Option.isSome_iff_exists.mp hlive
      -- The next scope is that of `id`, and only the root scope can belong to another symbol.
      have hp : t.heap.parent? k = s.scope := by
        rw [Heap.parent?, Heap.enclosing?, hk, Option.bind_some, hid, Option.bind_some, hs]
        rfl
      have hcontainer : t.IsContainer id ↔ s.scope.isSome := by
        rw [h.scopes.scope_iff id s hs]
        constructor
        · rintro ⟨s', hs', hc⟩
          cases hs.symm.trans hs'
          exact hc
        · exact fun hc => ⟨s, hs, hc⟩
      rw [List.tail_cons, leadsToRoot_cons, hcontainer]
      cases hks with
      | stop hnone =>
          rw [hp] at hnone
          exact .inr ⟨by simp [hnone], by simpa using hne.symm⟩
      | @go _ k' ks hk' hks =>
          rw [hp] at hk'
          obtain ⟨ks', rfl⟩ := hks.head
          by_cases hr : t.SharesRoot id s
          · cases hk'.symm.trans ((h.scopes.root_iff id s hs).mpr hr)
            cases hks with
            | stop => exact .inl ⟨⟨by simp [hk'], .inl ⟨s, hs, hr⟩⟩, rfl⟩
            | go hp' => cases h.parent?_root.symm.trans hp'
          · have hroot : ¬ t.HasRoot id := by
              rintro ⟨s', hs', hr'⟩
              cases hs.symm.trans hs'
              exact hr hr'
            have hne' : k' ≠ t.rootScope := by
              rintro rfl
              exact hr ((h.scopes.root_iff id s hs).mp hk')
            rcases ih (h.scopes.owner id s k' hs hk' hr) hne' hks with ⟨hlead, hlast⟩ | ⟨hlead, hmem⟩
            · exact .inl ⟨⟨by simp [hk'], .inr hlead⟩, List.getLast?_cons_cons.trans hlast⟩
            · refine .inr ⟨fun hc => hc.2.elim hroot hlead, ?_⟩
              simpa [hne.symm] using hmem

end Walkable

def ScopeLeadsToRoot (t : Table) (k : ScopeId) : Prop :=
  ∃ o above, t.heap.scopeOwner? k = some o ∧ Visits t.heap.owner? o (o :: above) ∧ t.LeadsToRoot above

/-- The walk to the parents of a scope comes to no scope twice. It ends with the root scope, or it
never comes there. -/
structure ParentWalk (t : Table) (k : ScopeId) (ks : List ScopeId) : Prop where
  visits : Visits t.heap.parent? k ks
  nodup : ks.Nodup
  ends : t.ScopeLeadsToRoot k ∧ ks.getLast? = some t.rootScope ∨ ¬ t.ScopeLeadsToRoot k ∧ t.rootScope ∉ ks

theorem Walkable.exists_parentWalk (h : t.Walkable) (hne : k ≠ t.rootScope) : ∃ ks, t.ParentWalk k ks := by
  obtain ⟨ks, hks⟩ := Visits.exists_of_lt h.scopeOwner?_lt k
  refine ⟨ks, hks, hks.nodup h.scopeOwner?_lt, ?_⟩
  cases ho : t.heap.scopeOwner? k with
  | none =>
      have hlead : ¬ t.ScopeLeadsToRoot k := by
        rintro ⟨o, above, ho', -⟩
        cases ho.symm.trans ho'
      cases hks with
      | stop => exact .inr ⟨hlead, by simpa using hne.symm⟩
      | go hp =>
          obtain ⟨o, -, -, ho', -⟩ := parent?_eq_some.mp hp
          cases ho.symm.trans ho'
  | some o =>
      obtain ⟨l, hl⟩ := Visits.exists_of_lt (m := SymbolId.index) h.linksBack.owner?_lt o
      obtain ⟨above, rfl⟩ := hl.head
      have hlead : t.ScopeLeadsToRoot k ↔ t.LeadsToRoot above := by
        constructor
        · rintro ⟨o', above', ho', hl', hlead⟩
          cases ho.symm.trans ho'
          cases hl.unique hl'
          exact hlead
        · exact fun hlead => ⟨o, above, ho, hl, hlead⟩
      rw [hlead]
      exact h.walk_cases hl ho hne hks

end Table

namespace Workspace

variable {w : Workspace}

theorem run_walkable {names : Interner} (h : initial names = .ok w) (qs : List Request) :
    (w.run qs).table.Walkable where
  linksBack := run_linksBack h qs
  scopes := have ⟨b, o⟩ := run_owned h qs; o.scopesOwned (isLive_rootPackage b)
  root := run_rootPackage h qs

/-- Owners are found in finitely many steps, and so are parents. The walk to the parents of a scope
ends in the root scope just when nothing on the way is missing or without a scope. -/
theorem walks_end {names : Interner} (h : initial names = .ok w) (qs : List Request) :
    (∀ id, (w.run qs).table.heap.isLive (.symbol id) → ∃ l, (w.run qs).table.OwnerChain id l) ∧
      ∀ k, (w.run qs).table.heap.isLive (.scope k) → k ≠ (w.run qs).table.rootScope →
        ∃ ks, (w.run qs).table.ParentWalk k ks := by
  have hw := run_walkable h qs
  exact ⟨fun id hl => hw.linksBack.exists_ownerChain hl, fun k _ hne => hw.exists_parentWalk hne⟩

theorem walks_end_builtinObject : ∃ w, initial (.initial fun _ => 0) = .ok w ∧
    (∃ l, (w.run w.builtinObject).table.OwnerChain ⟨36⟩ l) ∧
    (w.run w.builtinObject).table.ParentWalk ⟨1⟩ [⟨1⟩, (w.run w.builtinObject).table.rootScope] := by
  obtain ⟨w, h, ho, hk, hne, hp, hroot⟩ := exists_initial (p := fun w =>
    (w.run w.builtinObject).table.heap.isLive (.symbol ⟨36⟩) ∧
    (w.run w.builtinObject).table.heap.isLive (.scope ⟨1⟩) ∧
    ⟨1⟩ ≠ (w.run w.builtinObject).table.rootScope ∧
    (w.run w.builtinObject).table.heap.parent? ⟨1⟩ = some (w.run w.builtinObject).table.rootScope ∧
    (w.run w.builtinObject).table.heap.parent? (w.run w.builtinObject).table.rootScope = none) (by decide +kernel)
  have ⟨hchain, hwalk⟩ := walks_end h w.builtinObject
  obtain ⟨ks, hks⟩ := hwalk ⟨1⟩ hk hne
  cases hks.visits.unique (.go hp (.stop hroot))
  exact ⟨w, h, hchain ⟨36⟩ ho, hks⟩

end Workspace

end CompilerSymbols
