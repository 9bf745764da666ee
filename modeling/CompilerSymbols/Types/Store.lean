import CompilerSymbols.Types.Pool

namespace CompilerSymbols

structure PoolHandle where
  index : Nat
deriving DecidableEq

/-- Pools and the handles through which compilation units reach them. Several handles can lead
to one pool: `targets` says to which one each of them leads. -/
structure PoolStore where
  pools : Array Pool
  targets : Array Nat

namespace PoolStore

def empty : PoolStore := ⟨#[], #[]⟩

def target (s : PoolStore) (h : PoolHandle) : Except Fault Nat :=
  match s.targets[h.index]? with
  | some k => .ok k
  | none => .error (.unknownHandle h.index)

def pool (s : PoolStore) (h : PoolHandle) : Except Fault Pool := do
  match s.pools[← s.target h]? with
  | some p => return p
  | none => throw (.unknownHandle h.index)

def create (s : PoolStore) (p : Pool) : PoolHandle × PoolStore :=
  (⟨s.targets.size⟩, ⟨s.pools.push p, s.targets.push s.pools.size⟩)

def share (s : PoolStore) (h : PoolHandle) : Except Fault (PoolHandle × PoolStore) :=
  (s.target h).map fun k => (⟨s.targets.size⟩, { s with targets := s.targets.push k })

/-- A handle to a new pool that holds what the old one holds now. -/
def snapshot (s : PoolStore) (h : PoolHandle) : Except Fault (PoolHandle × PoolStore) :=
  (s.pool h).map s.create

def same (s : PoolStore) (a b : PoolHandle) : Except Fault Bool := do
  return (← s.target a) == (← s.target b)

/-- Runs an operation on the pool of a handle. If it fails the pool stays as it was. -/
def modify {α : Type} (s : PoolStore) (h : PoolHandle) (f : Pool → Except Fault (α × Pool)) :
    Except Fault (α × PoolStore) := do
  let k ← s.target h
  let (a, p) ← f (← s.pool h)
  return (a, { s with pools := s.pools.setIfInBounds k p })

end PoolStore

end CompilerSymbols
