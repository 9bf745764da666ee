import CompilerSymbols.Proofs.Workspace.Step

namespace CompilerSymbols

inductive Request
  | intern (text : String)
  | types (r : TypeRequest)
  | package (id : PackageId)
  | declaration (d : Declaration)
  | conversion (c : Conversion) (error : TypeId) (package : Option PackageId) (owner : Option SymbolId)
  | unboxing (source target : TypeId)
  | definition (scope : ScopeId) (name : Name) (symbol : SymbolId)
  | freezeScope (scope : ScopeId)
  | freeze
  | openScope (owner : Option SymbolId)
  | hold (r : Ref)
  | drop (r : Ref)
deriving DecidableEq

def Request.makes : Request → Bool
  | .package _ | .declaration _ | .conversion .. | .unboxing .. | .openScope _ => true
  | _ => false

namespace Workspace

def perform (w : Workspace) : Request → Except Fault Workspace
  | .intern text => (w.intern text).map (·.2)
  | .types r => (w.onTypes fun p => .ok (p.serve r)).map (·.2)
  | .package id => (w.createPackage id).map (·.2)
  | .declaration d => (w.declare d).map (·.value.2)
  | .conversion c error package owner => (w.createConversion c error package owner).map (·.value.2)
  | .unboxing source target => (w.createUnboxing source target).map (·.value.2)
  | .definition scope name symbol => (w.define scope name symbol).map (·.2)
  | .freezeScope scope => .ok (w.freezeScope scope)
  | .freeze => .ok w.freeze
  | .openScope owner => .ok (w.openScope owner).2
  | .hold r => w.hold r
  | .drop r => w.drop r

/-- A request that fails changes nothing. -/
def next (w : Workspace) (q : Request) : Workspace :=
  match w.perform q with
  | .ok w' => w'
  | .error _ => w

def run (w : Workspace) (qs : List Request) : Workspace := qs.foldl next w

theorem run_append (w : Workspace) (qs qs' : List Request) : w.run (qs ++ qs') = (w.run qs).run qs' :=
  List.foldl_append

variable {w w' : Workspace}

theorem heap_takeSymbol (w : Workspace) (t : Table) (s : Symbol) (choice : ScopeChoice) :
    (w.takeSymbol (t.addSymbol s choice)).2.table.heap = (t.heap.addSymbol s choice).2 := rfl

theorem perform_package {id : PackageId} (h : w.perform (.package id) = .ok w') :
    ∃ r, w.table.createPackage id = .ok r ∧ w' = (w.takeSymbol r).2 := by
  obtain ⟨made, hm, rfl⟩ := map_ok (x := w.createPackage id) h
  obtain ⟨r, hr, rfl⟩ := map_ok (x := w.table.createPackage id) hm
  exact ⟨r, hr, rfl⟩

theorem perform_declaration {d : Declaration} (h : w.perform (.declaration d) = .ok w') :
    ∃ r, w.table.declare d = .ok r ∧ w' = (w.takeSymbol r.value).2 := by
  obtain ⟨made, hm, rfl⟩ := map_ok (x := w.declare d) h
  obtain ⟨r, hr, rfl⟩ := map_ok (x := w.table.declare d) hm
  exact ⟨r, hr, rfl⟩

theorem perform_conversion {c : Conversion} {error : TypeId} {package : Option PackageId}
    {owner : Option SymbolId} (h : w.perform (.conversion c error package owner) = .ok w') :
    ∃ r, w.table.createConversion c error package owner = .ok r ∧ w' = (w.takeSymbol r.value).2 := by
  obtain ⟨made, hm, rfl⟩ := map_ok (x := w.createConversion c error package owner) h
  obtain ⟨r, hr, rfl⟩ := map_ok (x := w.table.createConversion c error package owner) hm
  exact ⟨r, hr, rfl⟩

theorem perform_unboxing {source target : TypeId} (h : w.perform (.unboxing source target) = .ok w') :
    ∃ r, w.table.createUnboxing source target = .ok r ∧ w' = (w.takeSymbol r.value).2 := by
  obtain ⟨made, hm, rfl⟩ := map_ok (x := w.createUnboxing source target) h
  obtain ⟨r, hr, rfl⟩ := map_ok (x := w.table.createUnboxing source target) hm
  exact ⟨r, hr, rfl⟩

theorem perform_definition {scope : ScopeId} {name : Name} {symbol : SymbolId}
    (h : w.perform (.definition scope name symbol) = .ok w') :
    ∃ r, w.table.define scope name symbol = .ok r ∧ w' = ⟨r.2, r.1.toList.map .symbol ++ w.held⟩ := by
  obtain ⟨made, hm, rfl⟩ := map_ok (x := w.define scope name symbol) h
  obtain ⟨r, hr, rfl⟩ := map_ok (x := w.table.define scope name symbol) hm
  exact ⟨r, hr, rfl⟩

theorem perform_hold {r : Ref} (h : w.perform (.hold r) = .ok w') :
    w.table.heap.isLive r ∧ w' = w.take r { w.table with heap := w.table.heap.retain r } := by
  by_cases hl : w.table.heap.isLive r
  · rw [perform, hold, if_pos hl] at h
    exact ⟨hl, (Except.ok.inj h).symm⟩
  · rw [perform, hold, if_neg hl] at h
    cases h

theorem perform_drop {r : Ref} (h : w.perform (.drop r) = .ok w') :
    r ∈ w.held ∧ w' = ⟨w.table.release r, w.held.erase r⟩ := by
  by_cases hr : r ∈ w.held
  · rw [perform, drop, if_pos hr] at h
    exact ⟨hr, (Except.ok.inj h).symm⟩
  · rw [perform, drop, if_neg hr] at h
    cases h

theorem perform_intern {text : String} (h : w.perform (.intern text) = .ok w') :
    ∃ name names, w.table.names.intern text = .ok (name, names) ∧
      w' = { w with table := { w.table with names } } := by
  obtain ⟨made, hm, rfl⟩ := map_ok (x := w.intern text) h
  obtain ⟨⟨name, names⟩, hn, rfl⟩ := map_ok (x := w.table.names.intern text) hm
  exact ⟨name, names, hn, rfl⟩

theorem perform_makes {q : Request} (h : w.perform q = .ok w') (hq : q.makes = true) :
    (∃ made, w.table.Creates made ∧ w' = (w.takeSymbol made).2) ∨
      ∃ owner, q = .openScope owner ∧ w' = (w.openScope owner).2 := by
  cases q with
  | intern | types | definition | freezeScope | freeze | hold | drop => cases hq
  | package id =>
      obtain ⟨made, hm, he⟩ := perform_package h
      exact .inl ⟨made, .package hm, he⟩
  | declaration d =>
      obtain ⟨r, hr, he⟩ := perform_declaration h
      exact .inl ⟨r.value, .declaration hr, he⟩
  | conversion c error package owner =>
      obtain ⟨r, hr, he⟩ := perform_conversion h
      exact .inl ⟨r.value, .conversion hr, he⟩
  | unboxing source target =>
      obtain ⟨r, hr, he⟩ := perform_unboxing h
      exact .inl ⟨r.value, .unboxing hr, he⟩
  | openScope owner => exact .inr ⟨owner, rfl, (Except.ok.inj h).symm⟩

namespace Steps

theorem perform {q : Request} (h : w.perform q = .ok w') : Steps w w' := by
  cases hq : q.makes with
  | true =>
      rcases perform_makes h hq with ⟨made, hm, rfl⟩ | ⟨owner, -, rfl⟩
      · exact create hm
      · exact .single (.openScope owner)
  | false =>
      cases q with
      | package | declaration | conversion | unboxing | openScope => cases hq
      | intern text =>
          obtain ⟨name, names, hn, rfl⟩ := perform_intern h
          exact .single (.intern hn)
      | types r =>
          cases h
          exact .single (.serve r)
      | definition scope name symbol =>
          obtain ⟨r, hr, rfl⟩ := perform_definition h
          exact define hr
      | freezeScope scope =>
          cases h
          exact .single (.freeze scope)
      | freeze =>
          cases h
          exact .single (.freeze w.table.rootScope)
      | hold r =>
          obtain ⟨hl, rfl⟩ := perform_hold h
          exact .single (.hold hl)
      | drop r =>
          obtain ⟨hr, rfl⟩ := perform_drop h
          exact .single (.drop hr)

theorem next (w : Workspace) (q : Request) : Steps w (w.next q) := by
  unfold Workspace.next
  split
  · next w' h => exact perform h
  · exact .refl

theorem run (w : Workspace) (qs : List Request) : Steps w (w.run qs) := by
  induction qs generalizing w with
  | nil => exact .refl
  | cons q qs ih => exact (next w q).trans (ih (w.next q))

end Steps

end Workspace

end CompilerSymbols
