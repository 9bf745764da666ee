import CompilerSymbols.Name
import CompilerSymbols.Types.Id
import CompilerSymbols.Types.Tag
import CompilerSymbols.Symbol.Id

namespace CompilerSymbols

/-- Why a request fails, which then changes nothing. The layout of a type is broken when it leads
outside the pool's side tables, and its text is endless when the type is part of it. -/
inductive Fault
  | shardFull (shard count : Nat)
  | unknownName (name : Name)
  | unknownType (type : TypeId)
  | notContainer (type : TypeId)
  | notFunction (type : TypeId)
  | notTuple (type : TypeId)
  | notNominal (tag : TypeTag)
  | brokenLayout (type : TypeId)
  | endlessText (type : TypeId)
  | frozen (name : Name)
  | noScope (symbol : SymbolId)
  | released (ref : Ref)
  | notHeld (ref : Ref)
  | unknownHandle (index : Nat)
deriving DecidableEq

namespace Fault

def message : Fault → String
  | shardFull shard count =>
    "interner shard " ++ toString shard ++ " is full (" ++ toString count ++ " strings, limit "
      ++ toString Name.maxSlot ++ ")"
  | unknownName name => name.inspect ++ " has no text"
  | unknownType type => type.inspect ++ " is not in the pool"
  | notContainer type => type.inspect ++ " is not a container"
  | notFunction type => type.inspect ++ " is not a function type"
  | notTuple type => type.inspect ++ " is not a tuple"
  | notNominal tag => tag.name ++ " is not a nominal tag"
  | brokenLayout type => type.inspect ++ " has no components"
  | endlessText type => type.inspect ++ " is part of its own text"
  | frozen name => "cannot define " ++ name.inspect ++ " in a frozen scope"
  | noScope _ => "the symbol has no scope"
  | released _ => "the symbol or scope is gone"
  | notHeld _ => "the symbol or scope is not held"
  | unknownHandle index => "no pool has handle " ++ toString index

end Fault

theorem bind_ok {α β : Type} {x : Except Fault α} {f : α → Except Fault β} {b : β}
    (h : (x >>= f) = .ok b) : ∃ a, x = .ok a ∧ f a = .ok b := by
  cases x with
  | error e => cases h
  | ok a => exact ⟨a, rfl, h⟩

theorem map_ok {α β : Type} {x : Except Fault α} {f : α → β} {b : β} (h : x.map f = .ok b) :
    ∃ a, x = .ok a ∧ f a = b := by
  cases x with
  | error e => cases h
  | ok a => exact ⟨a, rfl, Except.ok.inj h⟩

theorem foldlM_ok {α σ : Type} {P : σ → Prop} {f : σ → α → Except Fault σ} {l : List α} {s s' : σ}
    (h : l.foldlM f s = .ok s') (hs : P s) (hf : ∀ {s s' a}, f s a = .ok s' → P s → P s') : P s' := by
  induction l generalizing s with
  | nil =>
      cases h
      exact hs
  | cons a l ih =>
      rw [List.foldlM_cons] at h
      obtain ⟨t, ha, ht⟩ := bind_ok h
      exact ih ht (hf ha hs)

end CompilerSymbols
