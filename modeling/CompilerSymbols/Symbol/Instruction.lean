import CompilerSymbols.Types.Tag

namespace CompilerSymbols

/-- The instructions that convert a value at run time: unboxing of `any` into a scalar and
conversion between scalars. -/
inductive Instruction
  | nop
  | anyToInt | anyToByte | anyToFloat | anyToString | anyToBoolean
  | intToFloat | intToString | intToBoolean | intToByte
  | byteToInt
  | floatToInt | floatToString | floatToBoolean
  | stringToInt | stringToFloat | stringToBoolean
  | booleanToInt | booleanToFloat | booleanToString
deriving DecidableEq

namespace Instruction

def all : List Instruction :=
  [nop, anyToInt, anyToByte, anyToFloat, anyToString, anyToBoolean, intToFloat, intToString,
    intToBoolean, intToByte, byteToInt, floatToInt, floatToString, floatToBoolean, stringToInt,
    stringToFloat, stringToBoolean, booleanToInt, booleanToFloat, booleanToString]

def code : Instruction → UInt16
  | nop => 0
  | anyToInt => 90
  | anyToByte => 91
  | anyToFloat => 92
  | anyToString => 93
  | anyToBoolean => 94
  | intToFloat => 100
  | intToString => 101
  | intToBoolean => 102
  | intToByte => 103
  | byteToInt => 104
  | floatToInt => 105
  | floatToString => 106
  | floatToBoolean => 107
  | stringToInt => 108
  | stringToFloat => 109
  | stringToBoolean => 110
  | booleanToInt => 111
  | booleanToFloat => 112
  | booleanToString => 113

def isUnboxing : Instruction → Bool
  | anyToInt | anyToByte | anyToFloat | anyToString | anyToBoolean => true
  | _ => false

def variant : Instruction → String
  | nop => "Nop"
  | anyToInt => "Any2I"
  | anyToByte => "Any2Bi"
  | anyToFloat => "Any2F"
  | anyToString => "Any2S"
  | anyToBoolean => "Any2B"
  | intToFloat => "I2F"
  | intToString => "I2S"
  | intToBoolean => "I2B"
  | intToByte => "I2Bi"
  | byteToInt => "Bi2I"
  | floatToInt => "F2I"
  | floatToString => "F2S"
  | floatToBoolean => "F2B"
  | stringToInt => "S2I"
  | stringToFloat => "S2F"
  | stringToBoolean => "S2B"
  | booleanToInt => "B2I"
  | booleanToFloat => "B2F"
  | booleanToString => "B2S"

def mnemonic (i : Instruction) : String := i.variant.map Char.toUpper

def unboxing? : TypeTag → Option Instruction
  | .builtin .int => some anyToInt
  | .builtin .byte => some anyToByte
  | .builtin .float => some anyToFloat
  | .builtin .string => some anyToString
  | .builtin .boolean => some anyToBoolean
  | _ => none

end Instruction

end CompilerSymbols
