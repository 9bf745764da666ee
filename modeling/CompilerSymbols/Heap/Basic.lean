import CompilerSymbols.Heap.Cells
import CompilerSymbols.Scope
import CompilerSymbols.Symbol.Basic

namespace CompilerSymbols

/-- All symbols and scopes. A symbol holds its scope and a scope holds the symbols defined in it;
owners are not held. -/
structure Heap where
  symbols : Cells Symbol
  scopes : Cells Scope

namespace Heap

def empty : Heap := ⟨#[], #[]⟩

def symbol? (h : Heap) (id : SymbolId) : Option Symbol := h.symbols.value? id.index

def scope? (h : Heap) (id : ScopeId) : Option Scope := h.scopes.value? id.index

def strong (h : Heap) : Ref → Nat
  | .symbol id => h.symbols.strong id.index
  | .scope id => h.scopes.strong id.index

def isLive (h : Heap) : Ref → Bool
  | .symbol id => (h.symbol? id).isSome
  | .scope id => (h.scope? id).isSome

def holds (h : Heap) : Ref → List Ref
  | .symbol id => ((h.symbol? id).bind (·.scope)).toList.map .scope
  | .scope id => ((h.scope? id).map (·.symbols)).getD [] |>.map .symbol

def setStrong (h : Heap) (n : Nat) : Ref → Heap
  | .symbol id => { h with symbols := h.symbols.setStrong id.index n }
  | .scope id => { h with scopes := h.scopes.setStrong id.index n }

def retain (h : Heap) (r : Ref) : Heap := h.setStrong (h.strong r + 1) r

def free (h : Heap) : Ref → Heap
  | .symbol id => { h with symbols := h.symbols.free id.index }
  | .scope id => { h with scopes := h.scopes.free id.index }

def links (h : Heap) : Nat :=
  h.symbols.links (fun s => s.scope.toList.length) + h.scopes.links (fun s => s.symbols.length)

theorem links_setStrong (h : Heap) (n : Nat) (r : Ref) : (h.setStrong n r).links = h.links := by
  cases r <;> simp [setStrong, links, Cells.links_setStrong]

theorem links_free (h : Heap) (r : Ref) (hs : h.strong r ≠ 0) :
    (h.free r).links + (h.holds r).length = h.links := by
  cases r with
  | symbol id =>
      cases hx : h.symbols.cell? id.index with
      | none => simp [strong, Cells.strong, hx] at hs
      | some x =>
          have hl := Cells.links_free (fun s : Symbol => s.scope.toList.length) h.symbols hx
          simp only [links, free, holds, symbol?, Cells.value?, hx, List.length_map, Option.map_some,
            Option.bind_some]
          omega
  | scope id =>
      cases hx : h.scopes.cell? id.index with
      | none => simp [strong, Cells.strong, hx] at hs
      | some x =>
          have hl := Cells.links_free (fun s : Scope => s.symbols.length) h.scopes hx
          simp only [links, free, holds, scope?, Cells.value?, hx, List.length_map, Option.map_some,
            Option.getD_some]
          omega

/-- Gives back references. What loses its last one is gone and gives back all that it holds, so
every step takes away one reference of those that are left. -/
def release (h : Heap) : List Ref → Heap
  | [] => h
  | r :: rs =>
    if h.strong r = 0 then h.release rs
    else if h.strong r = 1 then (h.free r).release (h.holds r ++ rs)
    else (h.setStrong (h.strong r - 1) r).release rs
termination_by rs => h.links + rs.length
decreasing_by
  · simp
  · have := h.links_free r ‹_›
    simp only [List.length_append, List.length_cons]
    omega
  · simp [links_setStrong]

end Heap

end CompilerSymbols
