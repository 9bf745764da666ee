namespace CompilerSymbols

inductive BuiltinTag
  | int | byte | float | string | boolean | nil | any | json | xml | error | noType | typedesc
deriving DecidableEq

inductive ContainerTag
  | map | array | table | stream | future
deriving DecidableEq

/-- Declared types, which are equal only to themselves. -/
inductive NominalTag
  | record | object | enum | connector | service | annot
deriving DecidableEq

inductive TypeTag
  | builtin (b : BuiltinTag)
  | container (c : ContainerTag)
  | function
  | union
  | tuple
  | nominal (n : NominalTag)
  | reserved
deriving DecidableEq

namespace BuiltinTag

def all : List BuiltinTag :=
  [int, byte, float, string, boolean, nil, any, json, xml, error, noType, typedesc]

def code : BuiltinTag → UInt8
  | int => 0 | byte => 1 | float => 2 | string => 3 | boolean => 4 | nil => 5 | any => 6 | json => 7
  | xml => 8 | error => 9 | noType => 10 | typedesc => 11

def name : BuiltinTag → String
  | int => "int" | byte => "byte" | float => "float" | string => "string" | boolean => "boolean"
  | nil => "nil" | any => "any" | json => "json" | xml => "xml" | error => "error"
  | noType => "<none>" | typedesc => "typedesc"

def variant : BuiltinTag → String
  | int => "Int" | byte => "Byte" | float => "Float" | string => "String" | boolean => "Boolean"
  | nil => "Nil" | any => "Any" | json => "Json" | xml => "Xml" | error => "Error"
  | noType => "NoType" | typedesc => "Typedesc"

def isValue : BuiltinTag → Bool
  | int | byte | float | string | boolean => true
  | _ => false

end BuiltinTag

namespace ContainerTag

def all : List ContainerTag := [map, array, table, stream, future]

def code : ContainerTag → UInt8
  | map => 16 | array => 17 | table => 18 | stream => 19 | future => 20

def name : ContainerTag → String
  | map => "map" | array => "array" | table => "table" | stream => "stream" | future => "future"

def variant : ContainerTag → String
  | map => "Map" | array => "Array" | table => "Table" | stream => "Stream" | future => "Future"

end ContainerTag

namespace NominalTag

def all : List NominalTag := [record, object, enum, connector, service, annot]

def code : NominalTag → UInt8
  | record => 80 | object => 81 | enum => 82 | connector => 83 | service => 84 | annot => 85

def name : NominalTag → String
  | record => "record" | object => "object" | enum => "enum" | connector => "connector"
  | service => "service" | annot => "annotation"

def variant : NominalTag → String
  | record => "Record" | object => "Object" | enum => "Enum" | connector => "Connector"
  | service => "Service" | annot => "Annotation"

end NominalTag

namespace TypeTag

def all : List TypeTag :=
  BuiltinTag.all.map builtin ++ ContainerTag.all.map container ++ [function, union, tuple]
    ++ NominalTag.all.map nominal ++ [reserved]

/-- The number under which a tag is stored. Builtins stay below 16, containers have 16 to 31 and
nominal types 80 to 95. -/
def code : TypeTag → UInt8
  | builtin b => b.code
  | container c => c.code
  | function => 48
  | union => 49
  | tuple => 50
  | nominal n => n.code
  | reserved => 255

def name : TypeTag → String
  | builtin b => b.name
  | container c => c.name
  | function => "function"
  | union => "union"
  | tuple => "tuple"
  | nominal n => n.name
  | reserved => "<reserved>"

def variant : TypeTag → String
  | builtin b => b.variant
  | container c => c.variant
  | function => "Invokable"
  | union => "Union"
  | tuple => "Tuple"
  | nominal n => n.variant
  | reserved => "Reserved"

def isBuiltin : TypeTag → Bool
  | builtin _ => true
  | _ => false

def isContainer : TypeTag → Bool
  | container _ => true
  | _ => false

def isNominal : TypeTag → Bool
  | nominal _ => true
  | _ => false

def usesLayout : TypeTag → Bool
  | function | tuple => true
  | _ => false

def isValue : TypeTag → Bool
  | builtin b => b.isValue
  | _ => false

def inspect (t : TypeTag) : String := "Tag::" ++ t.name

end TypeTag

end CompilerSymbols
