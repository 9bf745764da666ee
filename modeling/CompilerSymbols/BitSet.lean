import CompilerSymbols.Text.Blank
import CompilerSymbols.Text.Hex

namespace CompilerSymbols

def bit (n : UInt32) : UInt32 := 1 <<< n

def hasBits (set part : UInt32) : Bool := set &&& part == part

structure BitConstant where
  name : String
  bits : UInt32

/-- The constants of one kind of bit set, in the order in which they are written. They may
overlap, and a constant may cover several bits. -/
abbrev BitVocabulary := List BitConstant

namespace BitVocabulary

def ofNames (names : List String) : BitVocabulary :=
  names.mapIdx fun i name => ⟨name, bit i.toUInt32⟩

def bits (v : BitVocabulary) : UInt32 := v.foldl (fun b c => b ||| c.bits) 0

/-- The names that are written for a set and the bits that are left over. A constant is written
when all of it is in the set and some of it is not written yet. -/
def cover (set : UInt32) : UInt32 → BitVocabulary → List String × UInt32
  | rest, [] => ([], rest)
  | rest, c :: v =>
    if set &&& c.bits = c.bits ∧ rest &&& c.bits ≠ 0 then
      let (names, left) := cover set (rest &&& ~~~c.bits) v
      (c.name :: names, left)
    else cover set rest v

def pieces (v : BitVocabulary) (set : UInt32) : List String :=
  let (names, left) := cover set set v
  if left = 0 then names else names ++ [String.ofList ('0' :: 'x' :: Text.hexDigits left.toNat)]

def write (v : BitVocabulary) (set : UInt32) : String := " | ".intercalate (v.pieces set)

def inspect (v : BitVocabulary) (title : String) (set : UInt32) : String :=
  title ++ "(" ++ (if set = 0 then "0x0" else v.write set) ++ ")"

def named? (v : BitVocabulary) (name : String) : Option UInt32 :=
  (v.find? fun c => c.name == name).map (·.bits)

def readPiece? (v : BitVocabulary) : List Char → Option UInt32
  | '0' :: 'x' :: digits => (Text.hexValue? digits).bind fun n =>
      if n < UInt32.size then some n.toUInt32 else none
  | cs => v.named? (String.ofList cs)

/-- Reads pieces separated by bars and unites them. A blank text is the empty set, but a blank
piece between bars is refused. -/
def read? (v : BitVocabulary) (text : String) : Option UInt32 :=
  if (Text.trim text.toList).isEmpty then some 0
  else
    let pieces := (text.toList.splitOn '|').map Text.trim
    (pieces.mapM v.readPiece?).map fun sets => sets.foldl (· ||| ·) 0

end BitVocabulary

end CompilerSymbols
