import CompilerSymbols.Proofs.Workspace.Request
import CompilerSymbols.Proofs.Workspace.Roots

namespace CompilerSymbols

namespace Heap

instance (h : Heap) : DecidablePred h.Created
  | .symbol id => inferInstanceAs (Decidable (id.index < h.symbols.size))
  | .scope id => inferInstanceAs (Decidable (id.index < h.scopes.size))

/-- The owner that an object remembers, there or not. -/
def link? (h : Heap) : Ref → Option SymbolId
  | .symbol id => (h.symbol? id).bind (·.owner)
  | .scope id => (h.scope? id).bind (·.owner)

def ownerOf? (h : Heap) : Ref → Option SymbolId
  | .symbol id => h.owner? id
  | .scope id => h.scopeOwner? id

variable {h h' : Heap}

theorem ownerOf?_eq (h : Heap) (r : Ref) : h.ownerOf? r = h.upgrade? (h.link? r) := by
  cases r <;> rfl

theorem Precedes.isLive (hp : h.Precedes h') {r : Ref} (hc : h.Created r) (hl : h'.isLive r) : h.isLive r := by
  cases r with
  | symbol id =>
      obtain ⟨s, hs⟩ := Option.isSome_iff_exists.mp hl
      exact Option.isSome_iff_exists.mpr ⟨s, hp.symbol id s hc hs⟩
  | scope id =>
      obtain ⟨s', hs'⟩ := Option.isSome_iff_exists.mp hl
      obtain ⟨s, hs, -⟩ := hp.scope id s' hc hs'
      exact Option.isSome_iff_exists.mpr ⟨s, hs⟩

theorem Precedes.link?_eq (hp : h.Precedes h') {r : Ref} (hc : h.Created r) (hl : h'.isLive r) :
    h'.link? r = h.link? r := by
  cases r with
  | symbol id =>
      obtain ⟨s, hs⟩ := Option.isSome_iff_exists.mp hl
      rw [link?, link?, hs, hp.symbol id s hc hs]
  | scope id =>
      obtain ⟨s', hs'⟩ := Option.isSome_iff_exists.mp hl
      obtain ⟨s, hs, ho⟩ := hp.scope id s' hc hs'
      simp [link?, hs, hs', ho]

theorem link?_addSymbol {s : Symbol} {choice : ScopeChoice} {id : SymbolId} (hn : ¬ h.Created (.symbol id))
    (hl : (h.addSymbol s choice).2.isLive (.symbol id)) :
    (h.addSymbol s choice).2.link? (.symbol id) = s.owner := by
  by_cases he : id = ⟨h.symbols.size⟩
  · simp [link?, symbol?_addSymbol, he]
  · rw [Heap.isLive, symbol?_addSymbol, if_neg he] at hl
    exact absurd (created_of_isLive (r := .symbol id) hl) hn

theorem link?_addSymbol_scope {s : Symbol} {choice : ScopeChoice} {k : ScopeId} (hn : ¬ h.Created (.scope k))
    (hl : (h.addSymbol s choice).2.isLive (.scope k)) :
    choice = .fresh ∧ (h.addSymbol s choice).2.link? (.scope k) = some ⟨h.symbols.size⟩ := by
  by_cases he : choice = .fresh ∧ k = ⟨h.scopes.size⟩
  · refine ⟨he.1, ?_⟩
    rw [link?, scope?_addSymbol, if_pos he]
    rfl
  · rw [Heap.isLive, scope?_addSymbol, if_neg he] at hl
    exact absurd (created_of_isLive (r := .scope k) hl) hn

theorem link?_addScope {owner : Option SymbolId} {r : Ref} (hn : ¬ h.Created r)
    (hl : (h.addScope owner).2.isLive r) : ∃ k, r = .scope k ∧ (h.addScope owner).2.link? r = owner := by
  rw [isLive_addScope] at hl
  split at hl
  · next he =>
      subst r
      refine ⟨_, rfl, ?_⟩
      rw [link?, scope?_addScope, if_pos rfl]
      rfl
  · exact absurd (created_of_isLive hl) hn

end Heap

def Request.owner (w : Workspace) : Request → Ref → Option SymbolId
  | .package _, .symbol _ => some w.table.rootPackage
  | .declaration d, .symbol _ => some d.owner
  | .conversion _ _ _ owner, .symbol _ => owner
  | .package _, .scope _ | .declaration _, .scope _ => some ⟨w.table.heap.symbols.size⟩
  | .openScope owner, .scope _ => owner
  | _, _ => none

namespace Workspace

def creator (w : Workspace) : List Request → Ref → Option (Workspace × Request)
  | [], _ => none
  | q :: qs, r =>
    if w.table.heap.Created r then none
    else if (w.next q).table.heap.Created r then some (w, q)
    else (w.next q).creator qs r

/-- The owner that an object was made with, in a run or before it. -/
def givenOwner (w : Workspace) (qs : List Request) (r : Ref) : Option SymbolId :=
  match w.creator qs r with
  | some (v, q) => q.owner v r
  | none => w.table.heap.link? r

variable {w w' : Workspace}

theorem perform_definition_scopes {scope : ScopeId} {name : Name} {symbol : SymbolId}
    (h : w.perform (.definition scope name symbol) = .ok w') :
    ∃ s s' previous, w.table.heap.scope? scope = some s ∧ w.table.heap.isLive (.symbol symbol) ∧
      s.define name symbol = .ok (previous, s') ∧
      ∀ k, w'.table.heap.scope? k = if k = scope then some s' else w.table.heap.scope? k := by
  obtain ⟨⟨previous, t⟩, hr, rfl⟩ := perform_definition h
  obtain ⟨heap, hd, rfl⟩ := Table.define_cases hr
  obtain ⟨s, s', hs, hl, hs', hk⟩ := Heap.scope?_define hd
  exact ⟨s, s', previous, hs, hl, hs', hk⟩

theorem perform_shrinks {q : Request} (h : w.perform q = .ok w') (hq : q.makes = false) :
    w.table.heap.Shrinks w'.table.heap := by
  cases q with
  | package | declaration | conversion | unboxing | openScope => cases hq
  | intern text =>
      obtain ⟨name, names, -, rfl⟩ := perform_intern h
      exact .refl _
  | types r =>
      cases h
      exact .refl _
  | definition scope name symbol =>
      obtain ⟨r, hr, rfl⟩ := perform_definition h
      obtain ⟨heap, hd, hr⟩ := Table.define_cases hr
      rw [hr]
      exact .define hd
  | freezeScope scope =>
      cases h
      exact .freeze _ scope
  | freeze =>
      cases h
      exact .freeze _ w.table.rootScope
  | hold r =>
      obtain ⟨-, rfl⟩ := perform_hold h
      exact .setStrong ..
  | drop r =>
      obtain ⟨-, rfl⟩ := perform_drop h
      exact .release ..

theorem creator_of_created {qs : List Request} {r : Ref} (hc : w.table.heap.Created r) : w.creator qs r = none := by
  cases qs with
  | nil => rfl
  | cons q qs => rw [creator, if_pos hc]

theorem creator_cases {qs : List Request} {r : Ref} (hc : (w.run qs).table.heap.Created r) :
    w.table.heap.Created r ∨ ∃ qs₁ q qs₂, qs = qs₁ ++ q :: qs₂ ∧ w.creator qs r = some (w.run qs₁, q) ∧
      ¬ (w.run qs₁).table.heap.Created r ∧ ((w.run qs₁).next q).table.heap.Created r := by
  induction qs generalizing w with
  | nil => exact .inl hc
  | cons q qs ih =>
      by_cases hw : w.table.heap.Created r
      · exact .inl hw
      · right
        by_cases hq : (w.next q).table.heap.Created r
        · exact ⟨[], q, qs, rfl, by rw [creator, if_neg hw, if_pos hq]; rfl, hw, hq⟩
        · rcases ih hc with hq' | ⟨qs₁, q', qs₂, rfl, hcr, hn, hy⟩
          · exact absurd hq' hq
          · refine ⟨q :: qs₁, q', qs₂, rfl, ?_, hn, hy⟩
            rw [creator, if_neg hw, if_neg hq, hcr]
            rfl

end Workspace

end CompilerSymbols
