import CompilerSymbols.Interner

namespace CompilerSymbols

structure PackageId where
  org : Name
  name : Name
  version : Name
deriving DecidableEq

namespace PackageId

def builtinName : String := "ballerina.builtin"

def builtinOrg : String := "ballerina"

def rootName : String := "."

def defaultVersion : String := "0.0.0"

/-- Every package whose name only begins like the builtin package's counts as builtin too. -/
def isBuiltinName (name : String) : Bool := builtinName.toList.isPrefixOf name.toList

theorem isBuiltinName_iff {name : String} : isBuiltinName name = true ↔ ∃ rest, name = builtinName ++ rest := by
  rw [isBuiltinName, List.isPrefixOf_iff_prefix]
  constructor
  · rintro ⟨cs, hcs⟩
    exact ⟨String.ofList cs, by rw [← String.toList_inj, String.toList_append, String.toList_ofList, hcs]⟩
  · rintro ⟨rest, rfl⟩
    rw [String.toList_append]
    exact List.prefix_append _ _

theorem isBuiltinName_eq_false_iff {name : String} :
    isBuiltinName name = false ↔ ∀ rest, name ≠ builtinName ++ rest := by
  rw [← Bool.not_eq_true, isBuiltinName_iff, not_exists]

def ofTexts (names : Interner) (org name version : String) : Except Fault (PackageId × Interner) := do
  let (org, names) ← names.intern org
  let (name, names) ← names.intern name
  let (version, names) ← names.intern version
  return (⟨org, name, version⟩, names)

def builtin (names : Interner) : Except Fault (PackageId × Interner) :=
  ofTexts names builtinOrg builtinName defaultVersion

def root (names : Interner) : Except Fault (PackageId × Interner) := do
  let (name, names) ← names.intern rootName
  return (⟨.empty, name, .empty⟩, names)

def isBuiltin (p : PackageId) (names : Interner) : Except Fault Bool :=
  (names.lookup p.name).map isBuiltinName

/-- The written form `org/name:version`, in which an empty organisation or version is left out
together with its separator. -/
def display (p : PackageId) (names : Interner) : Except Fault String := do
  let org ← if p.org.isEmpty then pure "" else (names.lookup p.org).map (· ++ "/")
  let name ← names.lookup p.name
  let version ← if p.version.isEmpty then pure "" else (names.lookup p.version).map (":" ++ ·)
  return org ++ name ++ version

def inspect (p : PackageId) : String :=
  "PackageId \x7b org: " ++ p.org.inspect ++ ", name: " ++ p.name.inspect ++ ", version: "
    ++ p.version.inspect ++ " \x7d"

instance : Ord PackageId :=
  ⟨compareLex (compareOn org) (compareLex (compareOn name) (compareOn version))⟩

end PackageId

end CompilerSymbols
