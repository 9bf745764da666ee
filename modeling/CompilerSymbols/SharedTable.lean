import CompilerSymbols.Workspace

namespace CompilerSymbols

/-- The table that a whole process shares. The first request builds it, and the builtin package
declares what it has in it before its root scope is frozen. Later requests get the same table and
bind nothing. -/
inductive SharedTable
  | absent
  | built (w : Workspace)

namespace SharedTable

def build (names : Interner) (bind : Workspace → Except Fault Workspace) : Except Fault Workspace := do
  return (← bind (← Workspace.initial names)).freeze

def request (g : SharedTable) (names : Interner) (bind : Workspace → Except Fault Workspace) :
    Except Fault (Bool × Workspace × SharedTable) :=
  match g with
  | built w => .ok (false, w, g)
  | absent => (build names bind).map fun w => (true, w, built w)

end SharedTable

end CompilerSymbols
