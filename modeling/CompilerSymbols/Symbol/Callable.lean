import CompilerSymbols.Symbol.Kind

namespace CompilerSymbols

inductive CallableKind
  | function
  | action
  | resource
  | worker
deriving DecidableEq

namespace CallableKind

def all : List CallableKind := [function, action, resource, worker]

def symbolKind : CallableKind → SymbolKind
  | function => .function
  | action => .action
  | resource => .resource
  | worker => .worker

def variant (k : CallableKind) : String := k.symbolKind.variant

end CallableKind

/-- What is particular to functions, actions, resources and workers. Their signature is the type
of the symbol. -/
structure Callable where
  kind : CallableKind
  bodyExists : Bool
deriving DecidableEq

end CompilerSymbols
