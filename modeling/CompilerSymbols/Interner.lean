import CompilerSymbols.Fault

namespace CompilerSymbols

structure Shard where
  texts : Array String
  slots : Std.TreeMap String Nat

namespace Shard

def empty : Shard := ⟨#[], ∅⟩

def push (d : Shard) (text : String) : Shard :=
  ⟨d.texts.push text, d.slots.insert text d.texts.size⟩

end Shard

/-- Texts with one name each. Which shard takes a text is up to `shardOf`, and the empty text is
in the first slot of the first shard whatever that function says. It counts in `count` as well. -/
structure Interner where
  shardOf : String → Fin Name.shardCount
  shards : Vector Shard Name.shardCount
  count : Nat

namespace Interner

def add (n : Interner) (text : String) : Interner :=
  let k := n.shardOf text
  { n with shards := n.shards.set k (n.shards[k].push text), count := n.count + 1 }

def builtinTexts : List String :=
  [".", "ballerina", "ballerina.builtin", "0.0.0", "int", "byte", "float", "string", "boolean",
    "nil", "any", "json", "xml", "error", "map", "table", "stream", "future", "typedesc", "message",
    "cause", "__init", "__start", "main"]

def onlyEmpty (shardOf : String → Fin Name.shardCount) : Interner :=
  ⟨shardOf, (Vector.replicate Name.shardCount Shard.empty).set 0 (Shard.empty.push ""), 1⟩

def initial (shardOf : String → Fin Name.shardCount) : Interner :=
  builtinTexts.foldl add (onlyEmpty shardOf)

def get? (n : Interner) (text : String) : Option Name :=
  if text.isEmpty then some .empty
  else
    let k := n.shardOf text
    n.shards[k].slots[text]?.bind fun slot => Name.ofParts? k slot

def intern (n : Interner) (text : String) : Except Fault (Name × Interner) :=
  match n.get? text with
  | some name => .ok (name, n)
  | none =>
    let k := n.shardOf text
    let slot := n.shards[k].texts.size
    match Name.ofParts? k slot with
    | some name => .ok (name, n.add text)
    | none => .error (.shardFull k slot)

def lookup (n : Interner) (name : Name) : Except Fault String :=
  match n.shards[name.shard].texts[name.slot]? with
  | some text => .ok text
  | none => .error (.unknownName name)

def size (n : Interner) : Nat := n.count

def isEmpty (n : Interner) : Bool := n.size ≤ 1

end Interner

end CompilerSymbols
