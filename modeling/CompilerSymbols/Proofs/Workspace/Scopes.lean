import CompilerSymbols.Proofs.Workspace.Creator

namespace CompilerSymbols

namespace Heap

variable {h : Heap} {k : ScopeId} {s : Scope}

theorem scope?_release {rs : List Ref} (hs : (h.release rs).scope? k = some s) : h.scope? k = some s := by
  fun_induction Heap.release h rs with
  | case1 h => exact hs
  | case2 h r rs hr ih => exact ih hs
  | case3 h r rs hr hone ih =>
      have hf := ih hs
      rw [scope?_free] at hf
      exact (Option.ite_none_left_eq_some.mp hf).2
  | case4 h r rs hr hone ih => exact scope?_setStrong .. ▸ ih hs

theorem scope?_addSymbol_cases {x : Symbol} {choice : ScopeChoice} (hs : (h.addSymbol x choice).2.scope? k = some s) :
    h.scope? k = some s ∨ ¬ h.Created (.scope k) ∧ ∃ owner, s = .empty owner := by
  rw [scope?_addSymbol] at hs
  split at hs
  · next he =>
      cases hs
      exact .inr ⟨fun hc => Nat.lt_irrefl _ (he.2 ▸ hc), _, rfl⟩
  · exact .inl hs

end Heap

namespace Table

variable {t t' : Table} {k : ScopeId} {s : Scope}

theorem foldl_release (t : Table) (rs : List Ref) : ∃ heap, rs.foldl release t = { t with heap } ∧
    t.heap.Shrinks heap ∧ ∀ {k s}, heap.scope? k = some s → t.heap.scope? k = some s := by
  induction rs generalizing t with
  | nil => exact ⟨t.heap, rfl, .refl _, id⟩
  | cons r rs ih =>
      obtain ⟨heap, he, hs, hk⟩ := ih (t.release r)
      exact ⟨heap, he, (Heap.Shrinks.release _ [r]).trans hs, fun h => Heap.scope?_release (hk h)⟩

theorem scope?_addSymbol_absent (x : Symbol) (k : ScopeId) : (t.heap.addSymbol x .absent).2.scope? k = t.heap.scope? k := by
  rw [Heap.scope?_addSymbol, if_neg (by simp)]

/-- A builtin type is declared without a scope of its own, defined in the root scope under its text
and let go. -/
theorem addBuiltinType_eq {text : String} {type : TypeId} (h : t.addBuiltinType text type = .ok t') :
    ∃ name names x previous heap, t.names.intern text = .ok (name, names) ∧ Symbol.payload x = .type ∧
      (t.heap.addSymbol x .absent).2.define t.rootScope name ⟨t.heap.symbols.size⟩ = .ok (previous, heap) ∧
      t' = (previous.toList.map Ref.symbol ++ [Ref.symbol ⟨t.heap.symbols.size⟩]).foldl release { t with names, heap } := by
  obtain ⟨⟨name, names⟩, hn, h⟩ := bind_ok h
  obtain ⟨r, hr, h⟩ := bind_ok h
  obtain ⟨-, hr⟩ := declare_cases hr
  have hunscoped : ¬ SymbolKind.isScoped .type := by decide
  rw [hr.trans (congrArg (addSymbol _ _) (if_neg hunscoped))] at h
  obtain ⟨⟨previous, t₁⟩, hd, h⟩ := bind_ok h
  obtain ⟨heap, hd, rfl⟩ := define_cases hd
  exact ⟨name, names, _, previous, heap, hn, rfl, hd, (Except.ok.inj h).symm⟩

theorem addBuiltinType_symbol? {text : String} {type : TypeId} (h : t.addBuiltinType text type = .ok t')
    {id : SymbolId} {x : Symbol} (hx : t'.heap.symbol? id = some x) :
    t.heap.symbol? id = some x ∨ x.payload = .type := by
  obtain ⟨name, names, y, previous, heap, -, hy, hd, rfl⟩ := addBuiltinType_eq h
  obtain ⟨heap', he, hs, -⟩ := foldl_release { t with names, heap } _
  rw [he] at hx
  exact (Heap.symbol?_new ((Heap.Shrinks.define hd).symbol id x (hs.symbol id x hx))).imp_right fun hp => hp.1.trans hy

theorem addBuiltinType_scope? {text : String} {type : TypeId} (h : t.addBuiltinType text type = .ok t') :
    ∃ name, t.names.intern text = .ok (name, t'.names) ∧ ∀ {k s}, t'.heap.scope? k = some s →
      t.heap.scope? k = some s ∨ ∃ old previous, t.heap.scope? k = some old ∧
        old.define name ⟨t.heap.symbols.size⟩ = .ok (previous, s) := by
  obtain ⟨name, names, x, previous, heap, hn, -, hd, rfl⟩ := addBuiltinType_eq h
  obtain ⟨old, new, hold, -, hnew, hd⟩ := Heap.scope?_define hd
  obtain ⟨heap', he, -, hk⟩ := foldl_release { t with names, heap } _
  rw [he]
  refine ⟨name, hn, fun {k s} hs => ?_⟩
  replace hs := hk hs
  rw [hd] at hs
  split at hs
  · next hk =>
      subst hk
      cases hs
      exact .inr ⟨old, _, scope?_addSymbol_absent .. ▸ hold, hnew⟩
  · exact .inl (scope?_addSymbol_absent .. ▸ hs)

theorem addUnboxing_scope? {target : TypeId} (h : t.addUnboxing target = .ok t') :
    t'.names = t.names ∧ ∀ k, t'.heap.scope? k = t.heap.scope? k := by
  obtain ⟨r, hr, rfl⟩ := map_ok h
  obtain ⟨made, -, hr⟩ := createUnboxing_cases hr
  rw [hr]
  exact ⟨rfl, scope?_addSymbol_absent _⟩

theorem addScalarConversion_scope? {c : Conversion} (h : t.addScalarConversion c = .ok t') :
    t'.names = t.names ∧ ∀ k, t'.heap.scope? k = t.heap.scope? k := by
  obtain ⟨r, hr, rfl⟩ := map_ok h
  obtain ⟨-, made, -, hr⟩ := createConversion_cases hr
  rw [hr]
  exact ⟨rfl, scope?_addSymbol_absent _⟩

end Table

def Request.closes? (t : Table) : Request → Option ScopeId
  | .freezeScope k => some k
  | .freeze => some t.rootScope
  | _ => none

namespace Workspace

variable {w w' : Workspace} {q : Request} {qs : List Request} {k : ScopeId} {s : Scope}

/-- Where a scope comes from that is there after a request. -/
inductive ScopeFrom (w : Workspace) (q : Request) (k : ScopeId) (s : Scope) : Prop
  | same (hq : q.closes? w.table ≠ some k) (hs : w.table.heap.scope? k = some s)
  | opened {owner : Option SymbolId} (hn : ¬ w.table.heap.Created (.scope k)) (hs : s = .empty owner)
  | defined {name : Name} {symbol : SymbolId} {previous : Option SymbolId} {old : Scope}
      (hq : q = .definition k name symbol) (hs : w.table.heap.scope? k = some old)
      (hd : old.define name symbol = .ok (previous, s))
  | closed {old : Scope} (hq : q.closes? w.table = some k) (hs : w.table.heap.scope? k = some old) (hf : s = old.freeze)

theorem scopeFrom_freeze {j : ScopeId} (hq : q.closes? w.table = some j)
    (hs : (w.table.heap.freeze j).scope? k = some s) : w.ScopeFrom q k s := by
  rw [Heap.scope?_freeze] at hs
  split at hs
  · next he =>
      subst he
      obtain ⟨old, hold, rfl⟩ := Option.map_eq_some_iff.mp hs
      exact .closed hq hold rfl
  · next hne => exact .same (fun he => hne (Option.some.inj (he.symm.trans hq))) hs

theorem closes?_of_makes (t : Table) (hq : q.makes = true) : q.closes? t ≠ some k := by
  cases q with
  | intern | types | definition | freezeScope | freeze | hold | drop => cases hq
  | package | declaration | conversion | unboxing | openScope => nofun

theorem perform_scope? (h : w.perform q = .ok w') (hs : w'.table.heap.scope? k = some s) : w.ScopeFrom q k s := by
  cases hq : q.makes with
  | true =>
      rcases perform_makes h hq with ⟨made, ⟨rs, x, choice, -, rfl⟩, rfl⟩ | ⟨owner, -, rfl⟩
      · rcases Heap.scope?_addSymbol_cases hs with hs | ⟨hn, owner, hs⟩
        · exact .same (closes?_of_makes _ hq) hs
        · exact .opened hn hs
      · have hs : (w.table.heap.addScope owner).2.scope? k = some s := hs
        rw [Heap.scope?_addScope] at hs
        split at hs
        · next he =>
            cases hs
            exact .opened (fun hc => Nat.lt_irrefl _ (he ▸ hc)) rfl
        · exact .same (closes?_of_makes _ hq) hs
  | false =>
      cases q with
      | package | declaration | conversion | unboxing | openScope => cases hq
      | intern text =>
          obtain ⟨name, names, -, rfl⟩ := perform_intern h
          exact .same (by simp [Request.closes?]) hs
      | types r =>
          cases h
          exact .same (by simp [Request.closes?]) hs
      | definition j name symbol =>
          obtain ⟨old, new, previous, hold, -, hnew, hk⟩ := perform_definition_scopes h
          rw [hk] at hs
          split at hs
          · next he =>
              subst he
              cases hs
              exact .defined rfl hold hnew
          · exact .same (by simp [Request.closes?]) hs
      | freezeScope j =>
          cases h
          exact scopeFrom_freeze rfl hs
      | freeze =>
          cases h
          exact scopeFrom_freeze rfl hs
      | hold r =>
          obtain ⟨-, rfl⟩ := perform_hold h
          exact .same (by simp [Request.closes?]) (Heap.scope?_setStrong .. ▸ hs)
      | drop r =>
          obtain ⟨-, rfl⟩ := perform_drop h
          exact .same (by simp [Request.closes?]) (Heap.scope?_release hs)

theorem next_scope? (hs : (w.next q).table.heap.scope? k = some s) : w.ScopeFrom q k s := by
  unfold next at hs
  split at hs
  · next w' h => exact perform_scope? h hs
  · next f h =>
      refine .same (fun hc => ?_) hs
      cases q with
      | freezeScope | freeze => cases h
      | _ => cases hc

end Workspace

end CompilerSymbols
