import CompilerSymbols.Symbol.Basic
import CompilerSymbols.Types.Build

namespace CompilerSymbols

namespace Instruction

def unboxing (t : TypeTag) : Reported Instruction :=
  match unboxing? t with
  | some i => ⟨i, []⟩
  | none => ⟨anyToBoolean, [.noUnboxing t]⟩

end Instruction

namespace Pool

/-- What a conversion to `target` returns. An unsafe one can return an error too: a union takes
it as a member in place, any other type becomes part of a new union. -/
def conversionReturn (p : Pool) (target error : TypeId) (safe : Bool) :
    Except Fault (Reported (TypeId × Pool)) := do
  if safe then return ⟨(target, p), []⟩
  else if ← p.isUnion target then
    let r ← p.addMember target error
    return ⟨(target, r.value.2), r.events⟩
  else return ⟨p.union none [target, error], []⟩

/-- The type of a conversion operator. Its second parameter says at run time which type was asked
for. -/
def conversionType (p : Pool) (c : Conversion) (error : TypeId) :
    Except Fault (Reported (TypeId × Pool)) := do
  let r ← p.conversionReturn c.target error c.safe
  return ⟨r.value.2.function [c.source, c.target] r.value.1, r.events⟩

def unboxingType (p : Pool) (source target : TypeId) :
    Except Fault (Reported (Conversion × TypeId × Pool)) := do
  let i := Instruction.unboxing (← p.tag target)
  return ⟨(⟨source, target, i.value, false, true⟩, p.function [source, target] target), i.events⟩

end Pool

def Conversion.symbol (c : Conversion) (package : Option PackageId) (type : TypeId)
    (owner : Option SymbolId) : Symbol :=
  ⟨.conversion c, ∅, .empty, package, type, owner, none⟩

end CompilerSymbols
