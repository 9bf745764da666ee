import CompilerSymbols.Proofs.Sequence
import CompilerSymbols.Proofs.Scope.Define

namespace CompilerSymbols

inductive ScopeRequest
  | define (name : Name) (symbol : SymbolId)
  | freeze
deriving DecidableEq

/-- What a run defines before it first freezes the scope. -/
def ScopeRequest.definitions : List ScopeRequest → List (Name × SymbolId)
  | [] => []
  | .freeze :: _ => []
  | .define name symbol :: rs => (name, symbol) :: definitions rs

namespace Scope

open ScopeRequest

variable {s s' : Scope} {ds : List (Name × SymbolId)} {rs : List ScopeRequest} {owner : Option SymbolId}
  {name n : Name} {symbol x : SymbolId}

def next (s : Scope) : ScopeRequest → Scope
  | .define name symbol =>
    match s.define name symbol with
    | .ok (_, s') => s'
    | .error _ => s
  | .freeze => s.freeze

def after (owner : Option SymbolId) (rs : List ScopeRequest) : Scope := rs.foldl next (empty owner)

def names (s : Scope) : List Name := s.entries.toList.map (·.1)

def last? (ds : List (Name × SymbolId)) (name : Name) : Option SymbolId := ds.reverse.lookup name

def defined (ds : List (Name × SymbolId)) : List Name := (ds.map (·.1)).eraseDups

/-- The scope has what these definitions leave: each name in the place of its first definition and
with the symbol of its last one. -/
structure Holds (s : Scope) (ds : List (Name × SymbolId)) : Prop where
  names : s.names = defined ds
  symbols : ∀ (k : Nat) name symbol, s.entries[k]? = some (name, symbol) → last? ds name = some symbol
  slots : Indexes s.slots s.names

theorem last?_append (ds ds' : List (Name × SymbolId)) (name : Name) :
    last? (ds ++ ds') name = (last? ds' name).or (last? ds name) := by
  rw [last?, List.reverse_append, List.lookup_append, last?, last?]

theorem last?_concat (ds : List (Name × SymbolId)) (name : Name) (symbol : SymbolId) (n : Name) :
    last? (ds ++ [(name, symbol)]) n = if n = name then some symbol else last? ds n := by
  rw [last?, List.reverse_append, List.reverse_singleton, List.singleton_append, List.lookup_cons]
  by_cases h : n = name
  · simp [h]
  · rw [beq_false_of_ne h, if_neg h, last?]

theorem last?_eq_none : last? ds n = none ↔ n ∉ defined ds := by
  rw [last?, List.lookup_eq_none_iff]
  simp only [defined, List.mem_reverse, List.mem_eraseDups, List.mem_map, bne_iff_ne, not_exists, not_and]
  exact forall₂_congr fun _ _ => ne_comm

theorem defined_concat (ds : List (Name × SymbolId)) (name : Name) (symbol : SymbolId) :
    defined (ds ++ [(name, symbol)]) = if name ∈ defined ds then defined ds else defined ds ++ [name] := by
  rw [defined, List.map_append, List.map_singleton, eraseDups_concat, defined]

theorem getElem?_names (s : Scope) (k : Nat) : s.names[k]? = s.entries[k]?.map (·.1) := by
  rw [names, List.getElem?_map, Array.getElem?_toList]

namespace Holds

theorem empty (owner : Option SymbolId) : (empty owner).Holds [] := ⟨rfl, by simp [Scope.empty], .empty⟩

theorem slot_iff (h : s.Holds ds) {k : Nat} :
    s.slots[name]? = some k ↔ ∃ symbol, s.entries[k]? = some (name, symbol) := by
  rw [h.slots name k, getElem?_names, Option.map_eq_some_iff]
  constructor
  · rintro ⟨⟨n, symbol⟩, he, rfl⟩
    exact ⟨symbol, he⟩
  · rintro ⟨symbol, he⟩
    exact ⟨(name, symbol), he, rfl⟩

theorem lookup?_eq (h : s.Holds ds) (name : Name) : s.lookup? name = last? ds name := by
  rw [lookup?]
  cases hs : s.slots[name]? with
  | none => exact (last?_eq_none.mpr (h.names ▸ h.slots.eq_none_iff.mp hs)).symm
  | some k =>
      obtain ⟨symbol, he⟩ := h.slot_iff.mp hs
      rw [h.symbols k name symbol he, Option.bind_some, he, Option.map_some]

theorem contains_eq (h : s.Holds ds) (name : Name) : s.contains name = (last? ds name).isSome := by
  rw [contains, Std.TreeMap.contains_eq_isSome_getElem?, ← h.lookup?_eq, lookup?]
  cases hs : s.slots[name]? with
  | none => rfl
  | some k =>
      obtain ⟨symbol, he⟩ := h.slot_iff.mp hs
      rw [Option.bind_some, he, Option.map_some, Option.isSome_some, Option.isSome_some]

theorem size_eq (h : s.Holds ds) : s.size = (defined ds).length := by
  rw [← h.names, Scope.names, List.length_map, Array.length_toList, size]

theorem isEmpty_iff (h : s.Holds ds) : s.isEmpty = true ↔ ds = [] := by
  have hs : s.isEmpty = true ↔ s.size = 0 := by simp [Scope.isEmpty, size]
  rw [hs, h.size_eq, List.length_eq_zero_iff]
  cases ds <;> simp [defined, List.eraseDups_cons]

theorem freeze (h : s.Holds ds) : s.freeze.Holds ds := ⟨h.names, h.symbols, h.slots⟩

theorem replace (h : s.Holds ds) {k : Nat} (hs : s.slots[name]? = some k) (symbol : SymbolId) :
    { s with entries := s.entries.setIfInBounds k (name, symbol) }.Holds (ds ++ [(name, symbol)]) := by
  obtain ⟨old, he⟩ := h.slot_iff.mp hs
  have hk : k < s.entries.size := (Array.getElem?_eq_some_iff.mp he).1
  have hm : name ∈ defined ds := h.names ▸ List.mem_of_getElem? ((h.slots name k).mp hs)
  have hn : { s with entries := s.entries.setIfInBounds k (name, symbol) }.names = s.names := by
    apply List.ext_getElem?
    intro i
    rw [getElem?_names, getElem?_names, Array.getElem?_setIfInBounds]
    split
    · next hi => rw [← hi, he, Option.map_some, Option.map_some]
    · rfl
  refine ⟨?_, ?_, ?_⟩
  · rw [hn, h.names, defined_concat, if_pos hm]
  · intro i n x hx
    rw [Array.getElem?_setIfInBounds] at hx
    rw [last?_concat]
    split at hx
    · cases hx
      exact if_pos rfl
    · next hi =>
        -- No other entry has the name.
        have hne : n ≠ name := fun hne => hi (Option.some.inj (hs.symm.trans (h.slot_iff.mpr ⟨x, hne ▸ hx⟩)))
        rw [if_neg hne]
        exact h.symbols i n x hx
  · rw [hn]
    exact h.slots

theorem add (h : s.Holds ds) (hs : s.slots[name]? = none) (symbol : SymbolId) :
    { s with entries := s.entries.push (name, symbol), slots := s.slots.insert name s.size }.Holds
      (ds ++ [(name, symbol)]) := by
  have hm : name ∉ s.names := h.slots.eq_none_iff.mp hs
  have hsize : s.size = s.names.length := by simp [size, Scope.names]
  have hn : ({ s with entries := s.entries.push (name, symbol), slots := s.slots.insert name s.size } : Scope).names
      = s.names ++ [name] := by simp [Scope.names]
  refine ⟨?_, ?_, ?_⟩
  · rw [hn, defined_concat, ← h.names, if_neg hm]
  · intro i n x hx
    rw [last?_concat]
    rw [Array.getElem?_push] at hx
    split at hx
    · cases hx
      exact if_pos rfl
    · have hne : n ≠ name := by
        rintro rfl
        exact Option.some_ne_none i ((h.slot_iff.mpr ⟨x, hx⟩).symm.trans hs)
      rw [if_neg hne]
      exact h.symbols i n x hx
  · rw [hn, hsize]
    exact h.slots.insert hm

theorem define (h : s.Holds ds) (hf : s.frozen = false) (name : Name) (symbol : SymbolId) :
    ∃ s', s.define name symbol = .ok (last? ds name, s') ∧ s'.Holds (ds ++ [(name, symbol)]) ∧ s'.frozen = false ∧
      s'.owner = s.owner := by
  rw [← h.lookup?_eq name, lookup?, Scope.define, if_neg (by simp [hf])]
  cases hs : s.slots[name]? with
  | none => exact ⟨_, rfl, h.add hs symbol, hf, rfl⟩
  | some k =>
      obtain ⟨old, he⟩ := h.slot_iff.mp hs
      simp only [Option.bind_some, he, Option.map_some]
      exact ⟨_, rfl, h.replace hs symbol, hf, rfl⟩

end Holds

theorem definitions_concat (rs : List ScopeRequest) (r : ScopeRequest) : definitions (rs ++ [r]) =
    if .freeze ∈ rs then definitions rs else definitions rs ++ definitions [r] := by
  induction rs with
  | nil => rfl
  | cons r' rs ih =>
      cases r' with
      | freeze => simp [definitions]
      | define name symbol =>
          simp only [List.cons_append, definitions, ih, List.mem_cons, reduceCtorEq, false_or]
          split <;> rfl

theorem after_concat (owner : Option SymbolId) (rs : List ScopeRequest) (r : ScopeRequest) :
    after owner (rs ++ [r]) = (after owner rs).next r :=
  List.foldl_concat ..

theorem define_frozen (h : s.frozen = true) (name : Name) (symbol : SymbolId) :
    s.define name symbol = .error (.frozen name) := if_pos h

theorem after_holds (owner : Option SymbolId) (rs : List ScopeRequest) :
    (after owner rs).Holds (definitions rs) ∧ (after owner rs).frozen = decide (.freeze ∈ rs) ∧
      (after owner rs).owner = owner := by
  induction rs using List.reverseRecOn with
  | nil => exact ⟨.empty owner, rfl, rfl⟩
  | append_singleton rs r ih =>
      obtain ⟨h, hf, ho⟩ := ih
      rw [after_concat, definitions_concat]
      cases r with
      | freeze =>
          refine ⟨?_, by simp [next, Scope.freeze], ho⟩
          simp only [definitions, List.append_nil, ite_self]
          exact h.freeze
      | define name symbol =>
          by_cases hm : .freeze ∈ rs
          · rw [decide_eq_true hm] at hf
            simp only [next, define_frozen hf, if_pos hm]
            exact ⟨h, by simp [hf, hm], ho⟩
          · rw [decide_eq_false hm] at hf
            obtain ⟨s', hs', h', hf', ho'⟩ := h.define hf name symbol
            simp only [next, hs', if_neg hm]
            exact ⟨h', by simp [hf', hm], ho'.trans ho⟩

/-- In a run, a scope lists its definitions in the order in which their names came, until it is frozen. -/
structure ListsDefinitions (owner : Option SymbolId) (rs : List ScopeRequest) : Prop where
  names : (after owner rs).names = defined (definitions rs)
  nodup : (after owner rs).names.Nodup
  entries : ∀ name symbol, (name, symbol) ∈ (after owner rs).entries.toList →
    last? (definitions rs) name = some symbol
  lookup : ∀ name, (after owner rs).lookup? name = last? (definitions rs) name
  contains : ∀ name, (after owner rs).contains name = (last? (definitions rs) name).isSome
  size : (after owner rs).size = (defined (definitions rs)).length
  isEmpty : (after owner rs).isEmpty = true ↔ definitions rs = []
  owner_eq : (after owner rs).owner = owner
  frozen : (after owner rs).frozen = true ↔ .freeze ∈ rs
  accepts : .freeze ∉ rs → ∀ name symbol, (after owner rs).define name symbol =
    .ok (last? (definitions rs) name, after owner (rs ++ [.define name symbol]))
  rejects : .freeze ∈ rs → ∀ name symbol, (after owner rs).define name symbol = .error (.frozen name) ∧
    after owner (rs ++ [.define name symbol]) = after owner rs

theorem lists_definitions (owner : Option SymbolId) (rs : List ScopeRequest) : ListsDefinitions owner rs := by
  obtain ⟨h, hf, ho⟩ := after_holds owner rs
  refine
    { names := h.names, nodup := h.slots.nodup, entries := ?_, lookup := h.lookup?_eq, contains := h.contains_eq,
      size := h.size_eq, isEmpty := h.isEmpty_iff, owner_eq := ho, frozen := by simp [hf], accepts := ?_,
      rejects := ?_ }
  · intro name symbol hm
    obtain ⟨k, hk⟩ := List.getElem?_of_mem hm
    exact h.symbols k name symbol (Array.getElem?_toList ▸ hk)
  · intro hm name symbol
    obtain ⟨s', hs', -⟩ := h.define (hf.trans (decide_eq_false hm)) name symbol
    rw [after_concat, next, hs']
  · intro hm name symbol
    have hd := define_frozen (hf.trans (decide_eq_true hm)) name symbol
    rw [after_concat, next, hd]
    exact ⟨rfl, rfl⟩

example : (after none [.define ⟨1⟩ ⟨0⟩, .define ⟨2⟩ ⟨1⟩, .define ⟨1⟩ ⟨2⟩, .freeze, .define ⟨3⟩ ⟨3⟩]).entries.toList =
    [(⟨1⟩, ⟨2⟩), (⟨2⟩, ⟨1⟩)] := by
  decide +kernel

end Scope

end CompilerSymbols
