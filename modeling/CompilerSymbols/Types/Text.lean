import CompilerSymbols.Interner
import CompilerSymbols.Types.Pool

namespace CompilerSymbols

inductive Piece
  | letters (s : String)
  | part (t : TypeId)
deriving DecidableEq

namespace Piece

def separated (sep : String) (ts : List TypeId) : List Piece :=
  (ts.map part).intersperse (letters sep)

end Piece

namespace Pool

open Piece

def invalidPieces : List Piece := [letters "<invalid>"]

/-- What the text of a type is made of. An array is written after its element, which is
parenthesised when it is a union; any other constraint is left out when it is `any`, and so is a
return type when it is nil. -/
def shapePieces (p : Pool) (names : Interner) : Shape → Except Fault (List Piece)
  | .builtin .nil => .ok [letters "()"]
  | .builtin b => .ok [letters b.name]
  | .container .array elem => do
    if ← p.isUnion elem then return [letters "(", part elem, letters ")", letters "[]"]
    else return [part elem, letters "[]"]
  | .container c constraint =>
    if constraint = .any then .ok [letters c.name]
    else .ok [letters c.name, letters "<", part constraint, letters ">"]
  | .function params ret =>
    let head := letters "function (" :: separated ", " params ++ [letters ")"]
    if ret = .nil then .ok head
    else .ok (head ++ [letters " returns (", part ret, letters ")"])
  | .tuple elems => .ok (letters "(" :: separated ", " elems ++ [letters ")"])
  | .union ⟨some name, _⟩ | .nominal _ name => (names.lookup name).map fun s => [letters s]
  | .union ⟨none, members⟩ => .ok (separated "|" members)
  | .reserved => .ok invalidPieces

def pieces (p : Pool) (names : Interner) (t : TypeId) : Except Fault (List Piece) :=
  if p.contains t then (p.shape t).bind (p.shapePieces names) else .ok invalidPieces

def textWithin (p : Pool) (names : Interner) : Nat → TypeId → Except Fault String
  | 0, t => .error (.endlessText t)
  | depth + 1, t => do
    let texts ← (← p.pieces names t).mapM fun
      | letters s => pure s
      | part u => textWithin p names depth u
    return String.join texts

/-- The text of a type as it is written in a program. Parts that are nested deeper than the pool
has types come around again, so no shallower text is refused. -/
def text (p : Pool) (names : Interner) (t : TypeId) : Except Fault String :=
  p.textWithin names (p.size + 1) t

def writeText (p : Pool) (names : Interner) (t : TypeId) (written : String) : Except Fault String :=
  (p.text names t).map (written ++ ·)

end Pool

end CompilerSymbols
