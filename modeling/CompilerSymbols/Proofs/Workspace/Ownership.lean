import CompilerSymbols.Proofs.Names.Growth
import CompilerSymbols.Proofs.Workspace.Creator

namespace CompilerSymbols

theorem Heap.Balanced.isLive_scope {h : Heap} {outside : List Ref} (b : h.Balanced outside) {id : SymbolId}
    {s : Symbol} {k : ScopeId} (hs : h.symbol? id = some s) (hk : s.scope = some k) : h.isLive (.scope k) := by
  apply b.isLive_of_holds (a := .symbol id)
  simp [Heap.holds, hs, hk]

namespace Table

/-- The root package, and the packages with a name that begins like that of the builtin package. -/
def SharesRoot (t : Table) (id : SymbolId) (s : Symbol) : Prop :=
  id = t.rootPackage ∨
    s.kind = .package ∧ ∃ rest, t.names.lookup s.name = .ok (PackageId.builtinName ++ rest)

structure Owns (t : Table) (id : SymbolId) (s : Symbol) : Prop where
  scope_iff : s.scope.isSome ↔ s.kind.isScoped
  named : id ≠ t.rootPackage → s.kind = .package → ∃ text, t.names.lookup s.name = .ok text
  root_iff : s.scope = some t.rootScope ↔ t.SharesRoot id s
  owner : ∀ k, s.scope = some k →
    t.heap.link? (.scope k) = some (if k = t.rootScope then t.rootPackage else id)

def Owned (t : Table) : Prop := ∀ {id s}, t.heap.symbol? id = some s → t.Owns id s

variable {t t' : Table} {outside outside' : List Ref}

theorem Owns.sharesRoot_iff {id : SymbolId} {s : Symbol} (o : t.Owns id s) (hp : t.Precedes t') :
    t'.SharesRoot id s ↔ t.SharesRoot id s := by
  rw [SharesRoot, SharesRoot, hp.rootPackage]
  constructor
  · rintro (hr | ⟨hk, rest, ht⟩)
    · exact .inl hr
    · by_cases hr : id = t.rootPackage
      · exact .inl hr
      · obtain ⟨text, ht'⟩ := o.named hr hk
        cases (hp.names ht').symm.trans ht
        exact .inr ⟨hk, rest, ht'⟩
  · rintro (hr | ⟨hk, rest, ht⟩)
    · exact .inl hr
    · exact .inr ⟨hk, rest, hp.names ht⟩

theorem Owns.mono {id : SymbolId} {s : Symbol} (o : t.Owns id s) (hp : t.Precedes t')
    (b : t.heap.Balanced outside) (b' : t'.heap.Balanced outside')
    (hs : t.heap.symbol? id = some s) (hs' : t'.heap.symbol? id = some s) : t'.Owns id s where
  scope_iff := o.scope_iff
  named := by
    intro hr hk
    rw [hp.rootPackage] at hr
    obtain ⟨text, ht⟩ := o.named hr hk
    exact ⟨text, hp.names ht⟩
  root_iff := by
    rw [hp.rootScope, o.root_iff, o.sharesRoot_iff hp]
  owner := by
    intro k hk
    have hc := Heap.created_of_isLive (b.isLive_scope hs hk)
    rw [hp.heap.link?_eq hc (b'.isLive_scope hs' hk), hp.rootScope, hp.rootPackage]
    exact o.owner k hk

theorem Owned.root_link (o : t.Owned) (hl : t.heap.isLive (.symbol t.rootPackage)) :
    t.heap.link? (.scope t.rootScope) = some t.rootPackage := by
  obtain ⟨s, hs⟩ := Option.isSome_iff_exists.mp hl
  have hk := (o hs).owner t.rootScope ((o hs).root_iff.mpr (.inl rfl))
  rwa [if_pos rfl] at hk

theorem Owned.create {s : Symbol} {choice : ScopeChoice} (hc : t.ScopeFor s choice) (o : t.Owned)
    (hp : t.heap.isLive (.symbol t.rootPackage)) (hl : t.heap.isLive (.scope t.rootScope)) :
    (t.addSymbol s choice).2.Owns (t.addSymbol s choice).1 { s with scope := t.heap.chosen choice } := by
  have hr : ⟨t.heap.symbols.size⟩ ≠ t.rootPackage := by
    intro he
    exact t.heap.not_isLive_symbol_size (he ▸ hp)
  have hk : t.rootScope ≠ ⟨t.heap.scopes.size⟩ := by
    intro he
    exact t.heap.not_isLive_scope_size (he ▸ hl)
  have hs : (t.addSymbol s choice).2.SharesRoot (t.addSymbol s choice).1
      { s with scope := t.heap.chosen choice } ↔
        s.kind = .package ∧ ∃ rest, t.names.lookup s.name = .ok (PackageId.builtinName ++ rest) :=
    or_iff_right hr
  have hi : s.kind = .package → s.kind.isScoped := fun h => (SymbolKind.isScoped_iff _).mpr (.inl h)
  cases choice with
  | absent =>
      refine ⟨iff_of_false Bool.false_ne_true hc, fun _ h => absurd (hi h) hc, ?_, ?_⟩
      · rw [hs]
        refine iff_of_false ?_ fun h => hc (hi h.1)
        intro h
        cases h
      · intro k h
        cases h
  | fresh =>
      refine ⟨iff_of_true rfl hc.1, fun _ h => ?_, ?_, ?_⟩
      · obtain ⟨text, ht, -⟩ := hc.2 h
        exact ⟨text, ht⟩
      · rw [hs]
        refine iff_of_false (fun h => hk (Option.some.inj h).symm) ?_
        rintro ⟨h, rest, ht⟩
        obtain ⟨text, ht', hn⟩ := hc.2 h
        exact hn rest (Except.ok.inj (ht'.symm.trans ht))
      · rintro k h
        cases h
        have hk' : (t.heap.addSymbol s .fresh).2.link? (.scope ⟨t.heap.scopes.size⟩) =
            some ⟨t.heap.symbols.size⟩ := by
          rw [Heap.link?, Heap.scope?_addSymbol, if_pos ⟨rfl, rfl⟩]
          rfl
        exact hk'.trans (congrArg some (if_neg hk.symm).symm)
  | shared k =>
      obtain ⟨rfl, h, rest, ht⟩ := hc
      refine ⟨iff_of_true rfl (hi h), fun _ _ => ⟨_, ht⟩, ?_, ?_⟩
      · rw [hs]
        exact iff_of_true rfl ⟨h, rest, ht⟩
      · rintro k h
        cases h
        have hk' : (t.heap.addSymbol s (.shared t.rootScope)).2.link? (.scope t.rootScope) =
            t.heap.link? (.scope t.rootScope) := by
          rw [Heap.link?, Heap.scope?_addSymbol, if_neg (by simp), Heap.link?]
        exact (hk'.trans (o.root_link hp)).trans (congrArg some (if_pos rfl).symm)

theorem bare_owned {names : Interner} (h : bare names = .ok t) : t.Owned := by
  obtain ⟨name, id, builtin, names, rfl⟩ := bare_cases h
  intro id' s hs
  rw [Heap.retain, Heap.symbol?_setStrong, Heap.symbol?_addSymbol] at hs
  split at hs
  · next he =>
      subst he
      cases hs
      refine ⟨iff_of_true rfl ((SymbolKind.isScoped_iff _).mpr (.inl rfl)), fun h => absurd rfl h,
        iff_of_true rfl (.inl rfl), ?_⟩
      rintro k hk
      cases hk
      rfl
  · cases hs

end Table

namespace Workspace

variable {w w' : Workspace}

theorem isLive_rootPackage (b : w.table.heap.Balanced w.roots) : w.table.heap.isLive (.symbol w.table.rootPackage) :=
  b.isLive_of_mem (List.mem_append_right _ (.head _))

theorem isLive_rootScope (b : w.table.heap.Balanced w.roots) : w.table.heap.isLive (.scope w.table.rootScope) :=
  b.isLive_of_mem (List.mem_append_right _ (.tail _ (.head _)))

theorem Step.owned (h : Step w w') (b : w.table.heap.Balanced w.roots) (o : w.table.Owned) : w'.table.Owned := by
  intro id s hs'
  by_cases hc : w.table.heap.Created (.symbol id)
  · have hs := h.precedes.heap.symbol id s hc hs'
    exact (o hs).mono h.precedes b (h.balanced b) hs hs'
  · -- A symbol that was not there before comes from a creation, no other step makes one.
    have hc' := Heap.created_of_isLive (Heap.isLive_symbol hs')
    cases h with
    | create hsc =>
        rw [heap_takeSymbol, Heap.symbol?_addSymbol] at hs'
        split at hs'
        · next he =>
            subst he
            cases hs'
            exact o.create hsc (isLive_rootPackage b) (isLive_rootScope b)
        · exact absurd (Heap.created_of_isLive (Heap.isLive_symbol hs')) hc
    | define hd => exact absurd (((Heap.Shrinks.define hd).created _).mp hc') hc
    | freeze scope => exact absurd (((Heap.Shrinks.freeze _ scope).created _).mp hc') hc
    | hold hl => exact absurd (((Heap.Shrinks.setStrong ..).created _).mp hc') hc
    | drop hr => exact absurd (((Heap.Shrinks.release ..).created _).mp hc') hc
    | intern | serve | openScope | keep => exact absurd hc' hc

theorem Steps.owned (h : Steps w w') (b : w.table.heap.Balanced w.roots) (o : w.table.Owned) :
    w'.table.heap.Balanced w'.roots ∧ w'.table.Owned :=
  preserves (P := fun v => v.table.heap.Balanced v.roots ∧ v.table.Owned)
    (fun hs hp => ⟨hs.balanced hp.1, hs.owned hp.1 hp.2⟩) h ⟨b, o⟩

theorem run_owned {names : Interner} (h : initial names = .ok w) (qs : List Request) :
    (w.run qs).table.heap.Balanced (w.run qs).roots ∧ (w.run qs).table.Owned := by
  obtain ⟨t, ht, hs⟩ := Steps.initial h
  exact Steps.owned (hs.trans (Steps.run w qs)) (Table.bare_balanced ht) (Table.bare_owned ht)

end Workspace

end CompilerSymbols
