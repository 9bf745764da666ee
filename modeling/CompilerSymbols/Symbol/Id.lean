namespace CompilerSymbols

/-- A symbol's place in the order of creation. -/
structure SymbolId where
  index : Nat
deriving DecidableEq

structure ScopeId where
  index : Nat
deriving DecidableEq

inductive Ref
  | symbol (id : SymbolId)
  | scope (id : ScopeId)
deriving DecidableEq

end CompilerSymbols
