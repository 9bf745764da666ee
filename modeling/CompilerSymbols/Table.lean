import CompilerSymbols.Conversion
import CompilerSymbols.Declaration
import CompilerSymbols.Heap.Create

namespace CompilerSymbols

/-- What all compilation units share: texts and types, the root package with the root scope, the
builtin conversions, and all symbols. -/
structure Table where
  names : Interner
  types : Pool
  heap : Heap
  builtinPackage : PackageId
  rootPackage : SymbolId
  rootScope : ScopeId
  conversions : List ((TypeId × TypeId) × SymbolId)

namespace Table

def builtinTypes : List (String × TypeId) :=
  [("int", .int), ("byte", .byte), ("float", .float), ("string", .string), ("boolean", .boolean),
    ("nil", .nil), ("any", .any), ("json", .json), ("xml", .xml), ("error", .error),
    ("typedesc", .typedesc), ("map", .map), ("table", .table), ("stream", .stream),
    ("future", .future)]

def unboxed : List TypeId := [.int, .byte, .float, .string, .boolean]

/-- The conversions between scalars. Only those that can fail are unsafe. -/
def scalarConversions : List Conversion :=
  [⟨.int, .float, .intToFloat, false, true⟩, ⟨.int, .string, .intToString, false, true⟩,
    ⟨.int, .boolean, .intToBoolean, false, true⟩, ⟨.int, .byte, .intToByte, false, false⟩,
    ⟨.byte, .int, .byteToInt, false, true⟩, ⟨.float, .int, .floatToInt, false, true⟩,
    ⟨.float, .string, .floatToString, false, true⟩, ⟨.float, .boolean, .floatToBoolean, false, true⟩,
    ⟨.string, .int, .stringToInt, false, false⟩, ⟨.string, .float, .stringToFloat, false, false⟩,
    ⟨.string, .boolean, .stringToBoolean, false, true⟩, ⟨.boolean, .int, .booleanToInt, false, true⟩,
    ⟨.boolean, .float, .booleanToFloat, false, true⟩, ⟨.boolean, .string, .booleanToString, false, true⟩]

def checkOwner (t : Table) : Option SymbolId → Except Fault Unit
  | none => .ok ()
  | some s => if t.heap.isLive (.symbol s) then .ok () else .error (.released (.symbol s))

def addSymbol (t : Table) (s : Symbol) (choice : ScopeChoice) : SymbolId × Table :=
  let (id, heap) := t.heap.addSymbol s choice
  (id, { t with heap })

def release (t : Table) (r : Ref) : Table := { t with heap := t.heap.release [r] }

/-- The symbol of a package. Builtin packages share the root scope, so that what they declare is
visible everywhere, and any other package gets a scope of its own. -/
def createPackage (t : Table) (id : PackageId) : Except Fault (SymbolId × Table) := do
  let builtin ← id.isBuiltin t.names
  return t.addSymbol ⟨.package, ∅, id.name, some id, .noType, some t.rootPackage, none⟩
    (if builtin then .shared t.rootScope else .fresh)

def declare (t : Table) (d : Declaration) : Except Fault (Reported (SymbolId × Table)) := do
  t.checkOwner d.owner
  let s := d.symbol
  return ⟨t.addSymbol s (if s.kind.isScoped then .fresh else .absent), d.construct.events⟩

def createConversion (t : Table) (c : Conversion) (error : TypeId) (package : Option PackageId)
    (owner : Option SymbolId) : Except Fault (Reported (SymbolId × Table)) := do
  t.checkOwner owner
  let r ← t.types.conversionType c error
  let (type, types) := r.value
  return ⟨{ t with types }.addSymbol (c.symbol package type owner) .absent, r.events⟩

def createUnboxing (t : Table) (source target : TypeId) :
    Except Fault (Reported (SymbolId × Table)) := do
  let r ← t.types.unboxingType source target
  let (c, type, types) := r.value
  return ⟨{ t with types }.addSymbol (c.symbol none type none) .absent, r.events⟩

def define (t : Table) (scope : ScopeId) (name : Name) (symbol : SymbolId) :
    Except Fault (Option SymbolId × Table) :=
  (t.heap.define scope name symbol).map fun (previous, heap) => (previous, { t with heap })

def freezeScope (t : Table) (scope : ScopeId) : Table := { t with heap := t.heap.freeze scope }

def freeze (t : Table) : Table := t.freezeScope t.rootScope

def isFrozen (t : Table) : Bool := ((t.heap.scope? t.rootScope).map (·.frozen)).getD false

/-- Declares a builtin type and leaves its symbol to the root scope. What it replaces there, if
anything, is let go. -/
def addBuiltinType (t : Table) (text : String) (type : TypeId) : Except Fault Table := do
  let (name, names) ← t.names.intern text
  let r ← { t with names }.declare
    ⟨.denoting .type, .publicFlag, name, t.builtinPackage, type, t.rootPackage⟩
  let (symbol, t) := r.value
  let (previous, t) ← t.define t.rootScope name symbol
  return (previous.toList.map Ref.symbol ++ [Ref.symbol symbol]).foldl release t

def keepConversion (source target : TypeId) (made : SymbolId × Table) : Table :=
  { made.2 with conversions := made.2.conversions ++ [((source, target), made.1)] }

def addUnboxing (t : Table) (target : TypeId) : Except Fault Table :=
  (t.createUnboxing .any target).map fun r => keepConversion .any target r.value

def addScalarConversion (t : Table) (c : Conversion) : Except Fault Table :=
  (t.createConversion c .error (some t.builtinPackage) (some t.rootPackage)).map fun r =>
    keepConversion c.source c.target r.value

def bare (names : Interner) : Except Fault Table := do
  let (rootId, names) ← PackageId.root names
  let (builtinPackage, names) ← PackageId.builtin names
  let (rootPackage, heap) := Heap.empty.addSymbol
    ⟨.package, ∅, rootId.name, some rootId, .noType, none, none⟩ .fresh
  let rootScope ← heap.scopeOf rootPackage
  return ⟨names, .initial, heap.retain (.scope rootScope), builtinPackage, rootPackage, rootScope, []⟩

/-- The table with the builtin types and conversions. Its root scope is open until it is frozen. -/
def initial (names : Interner) : Except Fault Table := do
  let t ← bare names
  let t ← builtinTypes.foldlM (fun t (text, type) => t.addBuiltinType text type) t
  let t ← unboxed.foldlM addUnboxing t
  scalarConversions.foldlM addScalarConversion t

/-- What the root scope has under a text. The text is not interned. -/
def builtinType? (t : Table) (text : String) : Option SymbolId :=
  (t.names.get? text).bind fun name => (t.heap.scope? t.rootScope).bind (·.lookup? name)

def conversion? (t : Table) (source target : TypeId) : Option SymbolId :=
  t.conversions.lookup (source, target)

end Table

end CompilerSymbols
