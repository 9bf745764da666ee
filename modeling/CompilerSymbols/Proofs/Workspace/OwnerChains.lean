import CompilerSymbols.Proofs.Workspace.Scopes
import CompilerSymbols.Proofs.Workspace.Sharing

namespace CompilerSymbols

section Visits

variable {α : Type} {f : α → Option α} {a b : α} {l l' : List α}

/-- The places that are come to by going on from one to the next, up to one that leads nowhere. -/
inductive Visits (f : α → Option α) : α → List α → Prop
  | stop {a : α} (h : f a = none) : Visits f a [a]
  | go {a b : α} {l : List α} (h : f a = some b) (hl : Visits f b l) : Visits f a (a :: l)

namespace Visits

theorem unique (h : Visits f a l) (h' : Visits f a l') : l = l' := by
  induction h generalizing l' with
  | stop h =>
      cases h' with
      | stop => rfl
      | go h' => cases h.symm.trans h'
  | go h _ ih =>
      cases h' with
      | stop h' => cases h.symm.trans h'
      | go h' hl' =>
          cases h.symm.trans h'
          rw [ih hl']

theorem head (h : Visits f a l) : ∃ rest, l = a :: rest := by
  cases h with
  | stop => exact ⟨[], rfl⟩
  | go => exact ⟨_, rfl⟩

theorem getLast? (h : Visits f a l) : ∃ last, l.getLast? = some last ∧ f last = none := by
  induction h with
  | stop h => exact ⟨_, rfl, h⟩
  | @go a b l h hl ih =>
      obtain ⟨last, he, hn⟩ := ih
      obtain ⟨rest, rfl⟩ := hl.head
      exact ⟨last, List.getLast?_cons_cons.trans he, hn⟩

theorem mem (h : Visits f a l) {P : α → Prop} (ha : P a) (hP : ∀ a b, f a = some b → P a → P b) : ∀ b ∈ l, P b := by
  induction h with
  | stop => simpa using ha
  | go h _ ih =>
      intro b hb
      rcases List.mem_cons.mp hb with rfl | hb
      · exact ha
      · exact ih (hP _ _ h ha) b hb

variable {m : α → Nat}

theorem exists_of_lt (hm : ∀ a b, f a = some b → m b < m a) (a : α) : ∃ l, Visits f a l := by
  induction hn : m a using Nat.strongRecOn generalizing a with
  | ind n ih =>
      cases ha : f a with
      | none => exact ⟨[a], .stop ha⟩
      | some b =>
          obtain ⟨l, hl⟩ := ih (m b) (hn ▸ hm a b ha) b rfl
          exact ⟨a :: l, .go ha hl⟩

theorem pairwise (hm : ∀ a b, f a = some b → m b < m a) (h : Visits f a l) : l.Pairwise fun a b => m b < m a := by
  induction h with
  | stop => exact List.pairwise_singleton ..
  | @go a b l ha hl ih =>
      refine .cons (hl.mem (hm a b ha) fun c d hcd hc => ?_) ih
      exact Nat.lt_trans (hm c d hcd) hc

theorem nodup (hm : ∀ a b, f a = some b → m b < m a) (h : Visits f a l) : l.Nodup := by
  refine (h.pairwise hm).imp fun {a b} hlt => ?_
  rintro rfl
  exact Nat.lt_irrefl _ hlt

end Visits

end Visits

theorem Heap.upgrade?_eq_some {h : Heap} {id : Option SymbolId} {o : SymbolId} :
    h.upgrade? id = some o ↔ id = some o ∧ h.isLive (.symbol o) :=
  Option.filter_eq_some_iff

theorem Heap.owner?_eq_some {h : Heap} {id o : SymbolId} : h.owner? id = some o ↔
    ∃ s, h.symbol? id = some s ∧ s.owner = some o ∧ h.isLive (.symbol o) := by
  rw [owner?, upgrade?_eq_some, Option.bind_eq_some_iff]
  constructor
  · rintro ⟨⟨s, hs, ho⟩, hl⟩
    exact ⟨s, hs, ho, hl⟩
  · rintro ⟨s, hs, ho, hl⟩
    exact ⟨⟨s, hs, ho⟩, hl⟩

namespace Table

variable {t t' : Table}

/-- Owners are older than what they own. Only the root package and conversion operators can do
without one. -/
def LinksBack (t : Table) : Prop := ∀ (id : SymbolId) (s : Symbol), t.heap.symbol? id = some s →
  (∀ o, s.owner = some o → o.index < id.index) ∧
    (s.owner = none → id = t.rootPackage ∨ ∃ c, s.payload = .conversion c)

namespace LinksBack

theorem of_shrinks (h : t.LinksBack) (hr : t'.rootPackage = t.rootPackage) (hs : t.heap.Shrinks t'.heap) :
    t'.LinksBack := by
  intro id s hx
  rw [hr]
  exact h id s (hs.symbol id s hx)

theorem addSymbol (h : t.LinksBack) {s : Symbol} {choice : ScopeChoice}
    (ho : ∀ o, s.owner = some o → t.heap.isLive (.symbol o)) (hn : s.owner = none → ∃ c, s.payload = .conversion c) :
    (t.addSymbol s choice).2.LinksBack := by
  intro id x hx
  change (t.heap.addSymbol s choice).2.symbol? id = some x at hx
  rw [Heap.symbol?_addSymbol] at hx
  split at hx
  · next he =>
      subst he
      cases hx
      exact ⟨fun o hxo => Heap.created_of_isLive (ho o hxo), fun hx => .inr (hn hx)⟩
  · exact h id x hx

theorem bare {names : Interner} (h : bare names = .ok t) : t.LinksBack := by
  obtain ⟨name, id, builtin, names, rfl⟩ := bare_cases h
  intro id' s hs
  rw [Heap.retain, Heap.symbol?_setStrong, Heap.symbol?_addSymbol] at hs
  split at hs
  · next he =>
      subst he
      cases hs
      exact ⟨by simp, fun _ => .inl rfl⟩
  · cases hs

theorem createPackage (h : t.LinksBack) (hl : t.heap.isLive (.symbol t.rootPackage)) {id : PackageId}
    {r : SymbolId × Table} (hr : t.createPackage id = .ok r) : r.2.LinksBack := by
  obtain ⟨text, -, rfl⟩ := createPackage_cases hr
  refine h.addSymbol ?_ (by simp)
  rintro o ho
  cases ho
  exact hl

theorem declare (h : t.LinksBack) {d : Declaration} {r : Reported (SymbolId × Table)} (hr : t.declare d = .ok r) :
    r.value.2.LinksBack := by
  obtain ⟨hl, he⟩ := declare_cases hr
  rw [he]
  refine h.addSymbol ?_ (by simp [Declaration.symbol])
  rintro o ho
  cases ho
  exact hl

theorem createConversion (h : t.LinksBack) {c : Conversion} {error : TypeId} {package : Option PackageId}
    {owner : Option SymbolId} {r : Reported (SymbolId × Table)}
    (hr : t.createConversion c error package owner = .ok r) : r.value.2.LinksBack := by
  obtain ⟨ho, made, -, he⟩ := createConversion_cases hr
  have hb : { t with types := made.value.2 }.LinksBack := h
  rw [he]
  exact hb.addSymbol ho fun _ => ⟨c, rfl⟩

theorem createUnboxing (h : t.LinksBack) {source target : TypeId} {r : Reported (SymbolId × Table)}
    (hr : t.createUnboxing source target = .ok r) : r.value.2.LinksBack := by
  obtain ⟨made, -, he⟩ := createUnboxing_cases hr
  have hb : { t with types := made.value.2.2 }.LinksBack := h
  rw [he]
  refine hb.addSymbol ?_ fun _ => ⟨made.value.1, rfl⟩
  rintro o ⟨⟩

theorem addBuiltinType (h : t.LinksBack) {text : String} {type : TypeId} (hr : t.addBuiltinType text type = .ok t') :
    t'.LinksBack := by
  obtain ⟨⟨name, names⟩, -, hr⟩ := bind_ok hr
  obtain ⟨made, hm, hr⟩ := bind_ok hr
  obtain ⟨⟨previous, t₂⟩, hd, hr⟩ := bind_ok hr
  obtain ⟨heap, hd, rfl⟩ := define_cases hd
  obtain ⟨heap', he, hs, -⟩ := foldl_release { made.value.2 with heap }
    (previous.toList.map Ref.symbol ++ [Ref.symbol made.value.1])
  have hb : { t with names }.LinksBack := h
  cases hr
  rw [he]
  exact (hb.declare hm).of_shrinks rfl ((Heap.Shrinks.define hd).trans hs)

theorem initial {names : Interner} (h : initial names = .ok t) : t.LinksBack := by
  refine initial_invariant h (P := LinksBack) bare (fun hr hb => hb.addBuiltinType hr) ?_ ?_
  · intro t t' target hr hb
    obtain ⟨r, hm, rfl⟩ := map_ok hr
    exact hb.createUnboxing hm
  · intro t t' c hr hb
    obtain ⟨r, hm, rfl⟩ := map_ok hr
    exact hb.createConversion hm

theorem owner?_lt (h : t.LinksBack) (a b : SymbolId) (hb : t.heap.owner? a = some b) : b.index < a.index := by
  obtain ⟨s, hs, ho, -⟩ := Heap.owner?_eq_some.mp hb
  exact (h a s hs).1 b ho

end LinksBack

/-- The owners of a symbol, one after the other. They are all there and each is older than the one
before. What comes last has no owner, or has lost it. -/
structure OwnerChain (t : Table) (id : SymbolId) (l : List SymbolId) : Prop where
  visits : Visits t.heap.owner? id l
  live : ∀ o ∈ l, t.heap.isLive (.symbol o)
  older : l.Pairwise fun a b => b.index < a.index
  last : ∃ last s, l.getLast? = some last ∧ t.heap.symbol? last = some s ∧ (last = t.rootPackage ∨
    (∃ c, s.payload = .conversion c ∧ s.owner = none) ∨ ∃ o, s.owner = some o ∧ ¬ t.heap.isLive (.symbol o))

theorem LinksBack.exists_ownerChain (h : t.LinksBack) {id : SymbolId} (hl : t.heap.isLive (.symbol id)) :
    ∃ l, t.OwnerChain id l := by
  obtain ⟨l, hv⟩ := Visits.exists_of_lt (m := SymbolId.index) h.owner?_lt id
  have hlive : ∀ o ∈ l, t.heap.isLive (.symbol o) := hv.mem hl fun a b hab _ =>
    have ⟨_, _, _, hb⟩ := Heap.owner?_eq_some.mp hab
    hb
  refine ⟨l, hv, hlive, hv.pairwise h.owner?_lt, ?_⟩
  obtain ⟨last, he, hnone⟩ := hv.getLast?
  obtain ⟨s, hs⟩ := Option.isSome_iff_exists.mp (hlive last (List.mem_of_getLast? he))
  refine ⟨last, s, he, hs, ?_⟩
  cases ho : s.owner with
  | none => exact ((h last s hs).2 ho).imp (fun hr => hr) fun ⟨c, hc⟩ => .inl ⟨c, hc, rfl⟩
  | some o =>
      refine .inr (.inr ⟨o, rfl, fun hlo => ?_⟩)
      cases (Heap.owner?_eq_some.mpr ⟨s, hs, ho, hlo⟩).symm.trans hnone

end Table

namespace Workspace

variable {w w' : Workspace} {q : Request}

theorem perform_linksBack (h : w.perform q = .ok w') (b : w.table.heap.Balanced w.roots) (hb : w.table.LinksBack) :
    w'.table.LinksBack := by
  cases hq : q.makes with
  | false => exact hb.of_shrinks (Steps.perform h).precedes.rootPackage (perform_shrinks h hq)
  | true =>
      cases q with
      | intern | types | definition | freezeScope | freeze | hold | drop => cases hq
      | package id =>
          obtain ⟨made, hm, rfl⟩ := perform_package h
          exact hb.createPackage (isLive_rootPackage b) hm
      | declaration d =>
          obtain ⟨made, hm, rfl⟩ := perform_declaration h
          exact hb.declare hm
      | conversion c error package owner =>
          obtain ⟨made, hm, rfl⟩ := perform_conversion h
          exact hb.createConversion hm
      | unboxing source target =>
          obtain ⟨made, hm, rfl⟩ := perform_unboxing h
          exact hb.createUnboxing hm
      | openScope owner =>
          cases h
          exact hb

theorem next_linksBack (b : w.table.heap.Balanced w.roots) (hb : w.table.LinksBack) (q : Request) :
    (w.next q).table.LinksBack := by
  unfold next
  split
  · next w' h => exact perform_linksBack h b hb
  · exact hb

theorem run_linksBack {names : Interner} (h : initial names = .ok w) (qs : List Request) :
    (w.run qs).table.LinksBack := by
  have hrun : ∀ w : Workspace, w.table.heap.Balanced w.roots → w.table.LinksBack → (w.run qs).table.LinksBack := by
    induction qs with
    | nil => exact fun _ _ hb => hb
    | cons q qs ih => exact fun w b hb => ih (w.next q) ((Steps.next w q).balanced b) (next_linksBack b hb q)
  obtain ⟨t, ht, rfl⟩ := map_ok (x := Table.initial names) h
  exact hrun _ (initial_balanced h) (Table.LinksBack.initial ht)

theorem run_rootPackage {names : Interner} (h : initial names = .ok w) (qs : List Request) :
    (w.run qs).table.rootPackage = ⟨0⟩ := by
  obtain ⟨t, ht, hs⟩ := Steps.initial h
  obtain ⟨name, id, builtin, names, rfl⟩ := Table.bare_cases ht
  exact (Steps.precedes (hs.trans (Steps.run w qs))).rootPackage

end Workspace

end CompilerSymbols
