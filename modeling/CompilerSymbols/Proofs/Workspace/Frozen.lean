import CompilerSymbols.Proofs.Names.Naming
import CompilerSymbols.Proofs.Scope.Definitions
import CompilerSymbols.Proofs.Workspace.Scopes
import CompilerSymbols.Proofs.Workspace.Sharing

namespace CompilerSymbols

namespace Scope

variable {s s' : Scope} {name n : Name} {symbol x : SymbolId} {previous : Option SymbolId}

theorem contains_of_lookup? (h : s.lookup? n = some x) : s.contains n = true := by
  obtain ⟨e, he, -⟩ := Option.map_eq_some_iff.mp h
  obtain ⟨k, hk, -⟩ := Option.bind_eq_some_iff.mp he
  rw [contains, Std.TreeMap.contains_eq_isSome_getElem?, hk]
  rfl

theorem contains_define (h : s.define name symbol = .ok (previous, s')) (hn : s'.contains n = true) :
    n = name ∨ s.contains n = true := by
  obtain ⟨-, ⟨k, m, old, -, -, -, rfl⟩ | ⟨-, -, rfl⟩⟩ := define_cases h
  · exact .inr hn
  · rw [contains, Std.TreeMap.contains_insert, Bool.or_eq_true] at hn
    exact hn.imp (fun he => (Std.LawfulEqOrd.eq_of_compare (beq_iff_eq.mp he)).symm) id

end Scope

namespace PackageId

variable {n n' : Interner} {texts : List String} {p : PackageId}

theorem root_holds (h : n.Holds texts) (hp : root n = .ok (p, n')) : ∃ texts', n'.Holds texts' := by
  obtain ⟨⟨a, n₁⟩, h₁, hp⟩ := bind_ok hp
  cases hp
  obtain ⟨texts', h', -⟩ := h.intern_ok h₁
  exact ⟨texts', h'⟩

theorem builtin_holds (h : n.Holds texts) (hp : builtin n = .ok (p, n')) : ∃ texts', n'.Holds texts' := by
  obtain ⟨⟨a, n₁⟩, h₁, hp⟩ := bind_ok hp
  obtain ⟨⟨b, n₂⟩, h₂, hp⟩ := bind_ok hp
  obtain ⟨⟨c, n₃⟩, h₃, hp⟩ := bind_ok hp
  cases hp
  obtain ⟨texts₁, h, -⟩ := h.intern_ok h₁
  obtain ⟨texts₂, h, -⟩ := h.intern_ok h₂
  obtain ⟨texts₃, h, -⟩ := h.intern_ok h₃
  exact ⟨texts₃, h⟩

end PackageId

namespace Table

variable {t t' : Table} {names : Interner}

structure NamesKnown (t : Table) : Prop where
  texts : ∃ texts, t.names.Holds texts
  known : ∀ k s n, t.heap.scope? k = some s → s.contains n = true → ∃ text, t.names.lookup n = .ok text

theorem bare_holds {texts : List String} (hn : names.Holds texts) (h : bare names = .ok t) :
    ∃ texts, t.names.Holds texts := by
  obtain ⟨⟨rootId, names₁⟩, h₁, h⟩ := bind_ok h
  obtain ⟨⟨builtin, names₂⟩, h₂, h⟩ := bind_ok h
  obtain ⟨k, -, h⟩ := bind_ok h
  cases h
  obtain ⟨texts₁, hn₁⟩ := PackageId.root_holds hn h₁
  exact PackageId.builtin_holds hn₁ h₂

theorem bare_scope? (h : bare names = .ok t) {k : ScopeId} {s : Scope} (hs : t.heap.scope? k = some s) :
    ∃ owner, s = .empty owner := by
  obtain ⟨name, id, builtin, names, rfl⟩ := bare_cases h
  rw [Heap.retain, Heap.scope?_setStrong] at hs
  rcases Heap.scope?_addSymbol_cases hs with hs | ⟨-, hs⟩
  · cases hs
  · exact hs

theorem NamesKnown.of_eq (h : t.NamesKnown) (hn : t'.names = t.names) (hs : ∀ k, t'.heap.scope? k = t.heap.scope? k) :
    t'.NamesKnown :=
  ⟨hn ▸ h.texts, fun k s n hk => hn ▸ h.known k s n (hs k ▸ hk)⟩

theorem initial_namesKnown {texts : List String} (hn : names.Holds texts) (h : initial names = .ok t) : t.NamesKnown := by
  apply initial_invariant (P := NamesKnown) h
  · intro t hb
    refine ⟨bare_holds hn hb, fun k s n hs hc => ?_⟩
    obtain ⟨owner, rfl⟩ := bare_scope? hb hs
    simp [Scope.contains, Scope.empty] at hc
  · intro t t' text type ha ht
    obtain ⟨name, hi, hs⟩ := addBuiltinType_scope? ha
    obtain ⟨texts, hholds⟩ := ht.texts
    obtain ⟨texts', hholds', hname⟩ := hholds.intern_ok hi
    have hold (k : ScopeId) (s : Scope) (n : Name) (hk : t.heap.scope? k = some s) (hc : s.contains n = true) :
        ∃ text, t'.names.lookup n = .ok text := by
      obtain ⟨text, ht⟩ := ht.known k s n hk hc
      exact ⟨text, Interner.lookup_intern hi ht⟩
    refine ⟨⟨texts', hholds'⟩, fun k s n hk hc => ?_⟩
    rcases hs hk with hk | ⟨old, previous, hk, hd⟩
    · exact hold k s n hk hc
    · rcases Scope.contains_define hd hc with rfl | hc
      · exact ⟨text, hname⟩
      · exact hold k old n hk hc
  · intro t t' target ha ht
    obtain ⟨hn, hs⟩ := addUnboxing_scope? ha
    exact ht.of_eq hn hs
  · intro t t' c ha ht
    obtain ⟨hn, hs⟩ := addScalarConversion_scope? ha
    exact ht.of_eq hn hs

/-- Texts that come later are not found in a scope whose names were all known before. -/
theorem lookup_later_eq (h : t.NamesKnown) (h' : ∃ texts, t'.names.Holds texts) (hp : t.Precedes t') (text : String) :
    ((t'.names.get? text).bind fun name => (t.heap.scope? t.rootScope).bind (·.lookup? name)) =
      t.builtinType? text := by
  obtain ⟨texts, hn⟩ := h.texts
  obtain ⟨texts', hn'⟩ := h'
  rw [builtinType?]
  cases hname : t.names.get? text with
  | some name =>
      have hl := hp.names (hn.lookup_iff.mpr hname)
      rw [hn'.lookup_iff.mp hl]
  | none =>
      cases hname' : t'.names.get? text with
      | none => rfl
      | some name =>
          rw [Option.bind_none, Option.bind_some, Option.bind_eq_none_iff]
          intro s hk
          rw [Option.eq_none_iff_forall_ne_some]
          intro x hx
          obtain ⟨text', hl⟩ := h.known t.rootScope s name hk (Scope.contains_of_lookup? hx)
          obtain rfl : text' = text := Except.ok.inj ((hp.names hl).symm.trans (hn'.lookup_iff.mpr hname'))
          rw [hn.lookup_iff.mp hl] at hname
          cases hname

theorem builtinType?_eq (h : t.NamesKnown) (h' : ∃ texts, t'.names.Holds texts) (hp : t.Precedes t')
    (hs : t'.heap.scope? t'.rootScope = t.heap.scope? t.rootScope) (text : String) :
    t'.builtinType? text = t.builtinType? text := by
  rw [← lookup_later_eq h h' hp, builtinType?, hs]

end Table

namespace Workspace

variable {w w' : Workspace} {q : Request} {qs qs' : List Request} {k : ScopeId} {s : Scope}

theorem Steps.holds (h : Steps w w') (hn : ∃ texts, w.table.names.Holds texts) : ∃ texts, w'.table.names.Holds texts := by
  apply preserves (P := fun v => ∃ texts, v.table.names.Holds texts) ?_ h hn
  rintro v v' hs ⟨texts, hn⟩
  cases hs with
  | intern hi =>
      obtain ⟨texts', hn', -⟩ := hn.intern_ok hi
      exact ⟨texts', hn'⟩
  | _ => exact ⟨texts, hn⟩

def Knows (w : Workspace) : Request → Prop
  | .definition _ name _ => (w.table.names.lookup name).isOk
  | _ => True

instance (w : Workspace) (q : Request) : Decidable (w.Knows q) := by
  unfold Knows
  split <;> infer_instance

def KnowsAll : Workspace → List Request → Prop
  | _, [] => True
  | w, q :: qs => w.Knows q ∧ (w.next q).KnowsAll qs

instance decidableKnowsAll : (w : Workspace) → (qs : List Request) → Decidable (w.KnowsAll qs)
  | _, [] => isTrue trivial
  | w, q :: qs =>
    haveI := decidableKnowsAll (w.next q) qs
    inferInstanceAs (Decidable (_ ∧ _))

theorem next_namesKnown (h : w.table.NamesKnown) (hq : w.Knows q) : (w.next q).table.NamesKnown := by
  refine ⟨(Steps.next w q).holds h.texts, fun k s n hs hc => ?_⟩
  have hold (s : Scope) (hk : w.table.heap.scope? k = some s) (hc : s.contains n = true) :
      ∃ text, (w.next q).table.names.lookup n = .ok text := by
    obtain ⟨text, ht⟩ := h.known k s n hk hc
    exact ⟨text, (Steps.next w q).precedes.names ht⟩
  cases next_scope? hs with
  | same hq hk => exact hold s hk hc
  | opened hn he =>
      subst he
      simp [Scope.contains, Scope.empty] at hc
  | @defined name symbol previous old hdef hk hd =>
      subst hdef
      rcases Scope.contains_define hd hc with rfl | hc
      · cases hl : w.table.names.lookup n with
        | error f => simp [Knows, hl, Except.isOk, Except.toBool] at hq
        | ok text => exact ⟨text, (Steps.next w _).precedes.names hl⟩
      · exact hold old hk hc
  | closed hcl hk hf =>
      subst hf
      exact hold _ hk hc

theorem run_namesKnown (h : w.table.NamesKnown) (hqs : w.KnowsAll qs) : (w.run qs).table.NamesKnown := by
  induction qs generalizing w with
  | nil => exact h
  | cons q qs ih => exact ih (next_namesKnown h hqs.1) hqs.2

theorem perform_conversions (h : w.perform q = .ok w') : w'.table.conversions = w.table.conversions := by
  cases hq : q.makes with
  | true =>
      rcases perform_makes h hq with ⟨made, ⟨rs, x, choice, -, rfl⟩, rfl⟩ | ⟨owner, -, rfl⟩ <;> rfl
  | false =>
      cases q with
      | package | declaration | conversion | unboxing | openScope => cases hq
      | intern text =>
          obtain ⟨name, names, -, rfl⟩ := perform_intern h
          rfl
      | definition j name symbol =>
          obtain ⟨r, hr, rfl⟩ := perform_definition h
          obtain ⟨heap, -, hr⟩ := Table.define_cases hr
          rw [hr]
      | hold r =>
          obtain ⟨-, rfl⟩ := perform_hold h
          rfl
      | drop r =>
          obtain ⟨-, rfl⟩ := perform_drop h
          rfl
      | types | freezeScope | freeze =>
          cases h
          rfl

theorem run_conversions (w : Workspace) (qs : List Request) : (w.run qs).table.conversions = w.table.conversions := by
  induction qs generalizing w with
  | nil => rfl
  | cons q qs ih =>
      apply (ih (w.next q)).trans
      unfold next
      split
      · next w' h => exact perform_conversions h
      · rfl

theorem next_frozen (hs : w.table.heap.scope? k = some s) (hf : s.frozen = true)
    (hl : (w.next q).table.heap.isLive (.scope k)) : (w.next q).table.heap.scope? k = some s := by
  obtain ⟨s', hs'⟩ := Option.isSome_iff_exists.mp hl
  rw [hs']
  cases next_scope? hs' with
  | same hq hk => exact hk.symm.trans hs
  | opened hn => exact absurd (Heap.created_of_isLive (Heap.isLive_scope hs)) hn
  | defined hq hk hd =>
      cases hk.symm.trans hs
      rw [Scope.define_frozen hf] at hd
      cases hd
  | closed hq hk he =>
      cases hk.symm.trans hs
      rw [he, Scope.freeze, ← hf]

/-- A scope that is reached as the root scope: by a handle to the scope itself, or from the root
package or a package with a builtin name. -/
inductive RootHandle (w : Workspace) : ScopeId → Prop
  | scope : RootHandle w w.table.rootScope
  | package {id : SymbolId} {s : Symbol} {k : ScopeId} (hs : w.table.heap.symbol? id = some s)
      (hr : w.table.SharesRoot id s) (hk : s.scope = some k) : RootHandle w k

theorem RootHandle.eq (h : w.RootHandle k) (o : w.table.Owned) : k = w.table.rootScope := by
  cases h with
  | scope => rfl
  | package hs hr hk => exact Option.some.inj (hk.symm.trans ((o hs).root_iff.mpr hr))

/-- What no request changes any more once the root scope is frozen, as it is in `w`. -/
structure Closed (w v : Workspace) : Prop where
  frozen : v.table.isFrozen = true
  refuses : ∀ k name symbol, v.RootHandle k → v.table.heap.isLive (.symbol symbol) →
    v.define k name symbol = .error (.frozen name)
  refused : ∀ k name symbol f, v.define k name symbol = .error f → v.next (.definition k name symbol) = v
  scope : ∃ s, w.table.heap.scope? w.table.rootScope = some s ∧ v.table.heap.scope? v.table.rootScope = some s ∧
    ∀ x ∈ s.symbols, ∃ sym, w.table.heap.symbol? x = some sym ∧ v.table.heap.symbol? x = some sym
  builtinType? : ∀ text, v.table.builtinType? text = w.table.builtinType? text
  conversion? : ∀ source target, v.table.conversion? source target = w.table.conversion? source target ∧
    ∀ x, w.table.conversion? source target = some x →
      ∃ sym, w.table.heap.symbol? x = some sym ∧ v.table.heap.symbol? x = some sym
  conversions : v.table.conversions.length = w.table.conversions.length

theorem define_error {name : Name} {symbol : SymbolId} {f : Fault} (h : w.define k name symbol = .error f) :
    w.next (.definition k name symbol) = w := by
  rw [next, perform, h]
  rfl

theorem define_frozen {name : Name} {symbol : SymbolId} (hs : w.table.heap.scope? k = some s) (hf : s.frozen = true)
    (hl : w.table.heap.isLive (.symbol symbol)) : w.define k name symbol = .error (.frozen name) := by
  simp only [define, Table.define, Heap.define, hs, hl, if_true, Scope.define_frozen hf, Except.map]

theorem freeze_scope? (hs : w.table.heap.scope? w.table.rootScope = some s) :
    (w.next .freeze).table.heap.scope? w.table.rootScope = some s.freeze := by
  change (w.table.heap.freeze w.table.rootScope).scope? w.table.rootScope = some s.freeze
  rw [Heap.scope?_freeze, if_pos rfl, hs, Option.map_some]

theorem symbol?_of_precedes {x : SymbolId} (hp : w.table.Precedes w'.table) (hl : w.table.heap.isLive (.symbol x))
    (hl' : w'.table.heap.isLive (.symbol x)) :
    ∃ sym, w.table.heap.symbol? x = some sym ∧ w'.table.heap.symbol? x = some sym := by
  obtain ⟨sym, hsym⟩ := Option.isSome_iff_exists.mp hl'
  exact ⟨sym, hp.heap.symbol x sym (Heap.created_of_isLive hl) hsym, hsym⟩

section Run

variable {names : Interner}

theorem run_frozen (h : initial names = .ok w) (hs : (w.run qs).table.heap.scope? (w.run qs).table.rootScope = some s)
    (hf : s.frozen = true) (qs' : List Request) :
    (w.run (qs ++ qs')).table.heap.scope? (w.run (qs ++ qs')).table.rootScope = some s := by
  induction qs' using List.reverseRecOn with
  | nil =>
      rw [List.append_nil]
      exact hs
  | append_singleton qs' q ih =>
      have hl := isLive_rootScope (run_owned h (qs ++ (qs' ++ [q]))).1
      rw [← List.append_assoc, run_append] at hl ⊢
      have hroot : ((w.run (qs ++ qs')).run [q]).table.rootScope = (w.run (qs ++ qs')).table.rootScope :=
        (Steps.next _ q).precedes.rootScope
      rw [hroot] at hl ⊢
      exact next_frozen ih hf hl

theorem isLive_conversion (b : w.table.heap.Balanced w.roots) {source target : TypeId} {x : SymbolId}
    (hx : w.table.conversion? source target = some x) : w.table.heap.isLive (.symbol x) := by
  obtain ⟨l₁, l₂, hl, -⟩ := List.lookup_eq_some_iff.mp hx
  have hm : ((source, target), x) ∈ w.table.conversions := hl ▸ List.mem_append_right _ List.mem_cons_self
  apply b.isLive_of_mem
  exact List.mem_append_right _ (.tail _ (.tail _ (List.mem_map.mpr ⟨_, hm, rfl⟩)))

/-- Once its root scope is frozen, a table stays as it is, whatever comes. -/
theorem frozen_table_stays (shardOf : String → Fin Name.shardCount) (rs : List NameRequest)
    (h : initial (Interner.after shardOf rs) = .ok w) (qs qs' : List Request) (hqs : w.KnowsAll qs) :
    (w.run (qs ++ [.freeze])).Closed (w.run (qs ++ [.freeze] ++ qs')) := by
  obtain ⟨b, o⟩ := run_owned h (qs ++ [.freeze])
  obtain ⟨b', o'⟩ := run_owned h (qs ++ [.freeze] ++ qs')
  obtain ⟨s, hs⟩ := Option.isSome_iff_exists.mp (isLive_rootScope (run_owned h qs).1)
  have hv : (w.run (qs ++ [.freeze])).table.heap.scope? (w.run (qs ++ [.freeze])).table.rootScope = some s.freeze := by
    rw [run_append]
    exact freeze_scope? hs
  have hv' := run_frozen h hv rfl qs'
  have hsteps : Steps (w.run (qs ++ [.freeze])) (w.run (qs ++ [.freeze] ++ qs')) := by
    rw [run_append w (qs ++ [Request.freeze])]
    exact .run _ qs'
  have hp := hsteps.precedes
  have hconv : (w.run (qs ++ [.freeze] ++ qs')).table.conversions = (w.run (qs ++ [.freeze])).table.conversions := by
    rw [run_append w (qs ++ [Request.freeze])]
    exact run_conversions _ qs'
  have hconv? (source target : TypeId) : (w.run (qs ++ [.freeze] ++ qs')).table.conversion? source target =
      (w.run (qs ++ [.freeze])).table.conversion? source target := by
    rw [Table.conversion?, hconv, Table.conversion?]
  have hknown : (w.run (qs ++ [.freeze])).table.NamesKnown := by
    obtain ⟨texts, hn⟩ := Interner.exists_after_holds shardOf rs
    obtain ⟨t, ht, rfl⟩ := map_ok h
    rw [run_append]
    exact next_namesKnown (q := .freeze) (run_namesKnown (Table.initial_namesKnown hn ht) hqs) trivial
  refine ⟨?_, ?_, fun k name symbol f => define_error, ⟨s.freeze, hv, hv', ?_⟩, ?_, ?_, congrArg List.length hconv⟩
  · rw [Table.isFrozen, hv']
    rfl
  · intro k name symbol hk hl
    rw [← hk.eq o'] at hv'
    exact define_frozen hv' rfl hl
  · intro x hx
    have hheld {v : Workspace} (b : v.table.heap.Balanced v.roots) {k : ScopeId}
        (hk : v.table.heap.scope? k = some s.freeze) : v.table.heap.isLive (.symbol x) := by
      apply b.isLive_of_holds (a := .scope k)
      rw [Heap.holds, hk]
      exact List.mem_map_of_mem hx
    exact symbol?_of_precedes hp (hheld b hv) (hheld b' hv')
  · exact Table.builtinType?_eq hknown (hsteps.holds hknown.texts) hp (hv'.trans hv.symm)
  · intro source target
    refine ⟨hconv? source target, fun x hx => ?_⟩
    exact symbol?_of_precedes hp (isLive_conversion b hx) (isLive_conversion b' ((hconv? source target).trans hx))

def definedObject (w : Workspace) : List Request :=
  w.builtinObject ++ [.definition w.table.rootScope .empty ⟨36⟩]

/-- Another package with a builtin name, a definition through its scope, a new text, and the object let go. -/
def laterUnit (w : Workspace) : List Request :=
  [.package w.table.builtinPackage, .definition w.table.rootScope .empty ⟨35⟩, .intern "Person", .drop (.symbol ⟨36⟩)]

theorem frozen_table_stays_laterUnit : ∃ w, initial (Interner.after (fun _ => 0) []) = .ok w ∧
    w.KnowsAll w.definedObject ∧
    (w.run (w.definedObject ++ [.freeze])).Closed (w.run (w.definedObject ++ [.freeze] ++ w.laterUnit)) ∧
    (w.run (w.definedObject ++ [.freeze] ++ w.laterUnit)).define w.table.rootScope .empty ⟨35⟩ = .error (.frozen .empty) ∧
    (w.run (w.definedObject ++ [.freeze] ++ w.laterUnit)).table.builtinType? "Person" = none := by
  obtain ⟨w, h, hqs, hroot, hl, htext⟩ := exists_initial (p := fun w => w.KnowsAll w.definedObject ∧
    (w.run (w.definedObject ++ [.freeze] ++ w.laterUnit)).table.rootScope = w.table.rootScope ∧
    (w.run (w.definedObject ++ [.freeze] ++ w.laterUnit)).table.heap.isLive (.symbol ⟨35⟩) = true ∧
    (w.run (w.definedObject ++ [.freeze])).table.builtinType? "Person" = none) (by decide +kernel)
  have hc := frozen_table_stays (fun _ => 0) [] h w.definedObject w.laterUnit hqs
  exact ⟨w, h, hqs, hc, hc.refuses _ .empty ⟨35⟩ (hroot ▸ .scope) hl, (hc.builtinType? "Person").trans htext⟩

end Run

end Workspace

end CompilerSymbols
