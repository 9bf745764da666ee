import CompilerSymbols.Proofs.Table.Operations
import CompilerSymbols.Workspace
import Mathlib.Logic.Relation

namespace CompilerSymbols

/-- Which scope a new symbol may get. Of the packages, only those share the root scope whose name
begins like that of the builtin package. -/
def Table.ScopeFor (t : Table) (s : Symbol) : ScopeChoice → Prop
  | .absent => ¬ s.kind.isScoped
  | .fresh => s.kind.isScoped ∧ (s.kind = .package →
      ∃ text, t.names.lookup s.name = .ok text ∧ ∀ rest, text ≠ PackageId.builtinName ++ rest)
  | .shared k => k = t.rootScope ∧ s.kind = .package ∧
      ∃ rest, t.names.lookup s.name = .ok (PackageId.builtinName ++ rest)

def Table.Creates (t : Table) (made : SymbolId × Table) : Prop :=
  ∃ rs s choice, t.ScopeFor s choice ∧
    made = { t with types := (t.types.serveAll rs).2 }.addSymbol s choice

namespace Table.Creates

variable {t : Table}

theorem package {id : PackageId} {made : SymbolId × Table} (h : t.createPackage id = .ok made) :
    t.Creates made := by
  obtain ⟨text, ht, rfl⟩ := createPackage_cases h
  refine ⟨[], _, _, ?_, rfl⟩
  cases hb : PackageId.isBuiltinName text with
  | true =>
      obtain ⟨rest, rfl⟩ := PackageId.isBuiltinName_iff.mp hb
      exact ⟨rfl, rfl, rest, ht⟩
  | false =>
      have hn := PackageId.isBuiltinName_eq_false_iff.mp hb
      exact ⟨(SymbolKind.isScoped_iff .package).mpr (.inl rfl), fun _ => ⟨text, ht, hn⟩⟩

theorem declaration {d : Declaration} {r : Reported (SymbolId × Table)} (h : t.declare d = .ok r) :
    t.Creates r.value := by
  obtain ⟨-, hr⟩ := declare_cases h
  rw [hr]
  refine ⟨[], _, _, ?_, rfl⟩
  cases hk : d.symbol.kind.isScoped with
  | false => simp [ScopeFor, hk]
  | true => exact ⟨hk, fun hp => absurd hp (Declaration.kind_ne_package d)⟩

theorem conversion {c : Conversion} {error : TypeId} {package : Option PackageId}
    {owner : Option SymbolId} {r : Reported (SymbolId × Table)}
    (h : t.createConversion c error package owner = .ok r) : t.Creates r.value := by
  obtain ⟨-, made, hm, hr⟩ := createConversion_cases h
  obtain ⟨rs, hp⟩ := Pool.conversionType_serves hm
  rw [hr, hp]
  exact ⟨rs, _, .absent, c.not_isScoped package made.value.1 owner, rfl⟩

theorem unboxing {source target : TypeId} {r : Reported (SymbolId × Table)}
    (h : t.createUnboxing source target = .ok r) : t.Creates r.value := by
  obtain ⟨made, hm, hr⟩ := createUnboxing_cases h
  obtain ⟨i, hi⟩ := Pool.unboxingType_cases hm
  rw [hr, hi]
  exact ⟨[.function [source, target] target], _, .absent, Conversion.not_isScoped _ none _ none, rfl⟩

end Table.Creates

namespace Workspace

/-- Everything that can happen to a workspace. Every operation, and also the making of the table
itself, is a sequence of these. -/
inductive Step (w : Workspace) : Workspace → Prop
  | intern {text : String} {name : Name} {names : Interner}
      (h : w.table.names.intern text = .ok (name, names)) :
      Step w { w with table := { w.table with names } }
  | serve (r : TypeRequest) :
      Step w { w with table := { w.table with types := (w.table.types.serve r).2 } }
  | create {s : Symbol} {choice : ScopeChoice} (h : w.table.ScopeFor s choice) :
      Step w (w.takeSymbol (w.table.addSymbol s choice)).2
  | define {scope : ScopeId} {name : Name} {symbol : SymbolId} {previous : Option SymbolId} {heap : Heap}
      (h : w.table.heap.define scope name symbol = .ok (previous, heap)) :
      Step w ⟨{ w.table with heap }, previous.toList.map .symbol ++ w.held⟩
  | freeze (scope : ScopeId) : Step w (w.freezeScope scope)
  | openScope (owner : Option SymbolId) : Step w (w.openScope owner).2
  | hold {r : Ref} (h : w.table.heap.isLive r) :
      Step w (w.take r { w.table with heap := w.table.heap.retain r })
  | drop {r : Ref} (h : r ∈ w.held) : Step w ⟨w.table.release r, w.held.erase r⟩
  | keep (types : TypeId × TypeId) {id : SymbolId} (h : .symbol id ∈ w.held) :
      Step w ⟨{ w.table with conversions := w.table.conversions ++ [(types, id)] }, w.held.erase (.symbol id)⟩

abbrev Steps : Workspace → Workspace → Prop := Relation.ReflTransGen Step

namespace Steps

variable {w w' : Workspace} {t t' : Table} {held : List Ref}

theorem preserves {P : Workspace → Prop} (hp : ∀ {w w'}, Step w w' → P w → P w') (h : Steps w w')
    (hw : P w) : P w' := by
  induction h with
  | refl => exact hw
  | tail _ hs ih => exact hp hs ih

theorem serveAll (t : Table) (held : List Ref) (rs : List TypeRequest) :
    Steps ⟨t, held⟩ ⟨{ t with types := (t.types.serveAll rs).2 }, held⟩ := by
  induction rs generalizing t with
  | nil => exact .refl
  | cons r rs ih => exact .head (.serve r) (ih { t with types := (t.types.serve r).2 })

theorem create {made : SymbolId × Table} (h : t.Creates made) :
    Steps ⟨t, held⟩ ((⟨t, held⟩ : Workspace).takeSymbol made).2 := by
  obtain ⟨rs, s, choice, hc, rfl⟩ := h
  exact (serveAll t held rs).tail (.create hc)

theorem define {scope : ScopeId} {name : Name} {symbol : SymbolId} {r : Option SymbolId × Table}
    (h : t.define scope name symbol = .ok r) :
    Steps ⟨t, held⟩ ⟨r.2, r.1.toList.map .symbol ++ held⟩ := by
  obtain ⟨heap, hd, hr⟩ := Table.define_cases h
  rw [hr]
  exact .single (.define hd)

theorem releaseAll (t : Table) (rs held : List Ref) : Steps ⟨t, rs ++ held⟩ ⟨rs.foldl Table.release t, held⟩ := by
  induction rs generalizing t with
  | nil => exact .refl
  | cons r rs ih =>
      have hd := Step.drop (w := ⟨t, r :: rs ++ held⟩) List.mem_cons_self
      rw [List.cons_append, List.erase_cons_head] at hd
      exact .head hd (ih (t.release r))

theorem keepConversion (source target : TypeId) (made : SymbolId × Table) :
    Steps ((⟨t, held⟩ : Workspace).takeSymbol made).2 ⟨Table.keepConversion source target made, held⟩ := by
  have hm : .symbol made.1 ∈ ((⟨t, held⟩ : Workspace).takeSymbol made).2.held := List.mem_cons_self
  have hk := Step.keep (source, target) hm
  rw [takeSymbol, take, List.erase_cons_head] at hk
  exact .single hk

theorem addBuiltinType {text : String} {type : TypeId} (h : t.addBuiltinType text type = .ok t') :
    Steps ⟨t, held⟩ ⟨t', held⟩ := by
  obtain ⟨⟨name, names⟩, hn, h⟩ := bind_ok h
  obtain ⟨r, hr, h⟩ := bind_ok h
  obtain ⟨d, hd, h⟩ := bind_ok h
  cases h
  have hi : Steps ⟨t, held⟩ ⟨{ t with names }, held⟩ := .single (.intern hn)
  refine (hi.trans (create (.declaration hr))).trans ((define hd).trans ?_)
  have hs := releaseAll d.2 (d.1.toList.map Ref.symbol ++ [Ref.symbol r.value.1]) held
  rw [List.append_assoc] at hs
  exact hs

theorem addUnboxing {target : TypeId} (h : t.addUnboxing target = .ok t') : Steps ⟨t, held⟩ ⟨t', held⟩ := by
  obtain ⟨r, hr, rfl⟩ := map_ok h
  exact (create (.unboxing hr)).trans (keepConversion ..)

theorem addScalarConversion {c : Conversion} (h : t.addScalarConversion c = .ok t') :
    Steps ⟨t, held⟩ ⟨t', held⟩ := by
  obtain ⟨r, hr, rfl⟩ := map_ok h
  exact (create (.conversion hr)).trans (keepConversion ..)

theorem initial {names : Interner} (h : Workspace.initial names = .ok w) :
    ∃ t, Table.bare names = .ok t ∧ Steps ⟨t, []⟩ w := by
  obtain ⟨t, ht, rfl⟩ := map_ok h
  apply Table.initial_invariant (P := fun s => ∃ t, Table.bare names = .ok t ∧ Steps ⟨t, []⟩ ⟨s, []⟩) ht
  · exact fun hb => ⟨_, hb, .refl⟩
  · exact fun hs ⟨t, hb, ih⟩ => ⟨t, hb, ih.trans (addBuiltinType hs)⟩
  · exact fun hs ⟨t, hb, ih⟩ => ⟨t, hb, ih.trans (addUnboxing hs)⟩
  · exact fun hs ⟨t, hb, ih⟩ => ⟨t, hb, ih.trans (addScalarConversion hs)⟩

end Steps

theorem exists_initial {p : Workspace → Prop} [DecidablePred p]
    (h : ((initial (.initial fun _ => 0)).toOption.any fun w => decide (p w)) = true) :
    ∃ w, initial (.initial fun _ => 0) = .ok w ∧ p w := by
  cases hw : initial (.initial fun _ => 0) with
  | error f =>
      rw [hw] at h
      cases h
  | ok w =>
      rw [hw] at h
      exact ⟨w, rfl, of_decide_eq_true h⟩

end Workspace

end CompilerSymbols
