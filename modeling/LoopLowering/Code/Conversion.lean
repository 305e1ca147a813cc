import LoopLowering.Code.CodeStream
import LoopLowering.Types.Compatibility
import LoopLowering.Types.ClassTable

namespace LoopLowering

/-!
# Code of conversions

Primitives are converted by an instruction of their own. A primitive is boxed
by a static method of its wrapper class, and a wrapper is unboxed by one of its
instance methods.
-/

namespace ClassTable

/-- The call that boxes a primitive. -/
def boxingCall
    (table : ClassTable)
    (kind : Primitive) :
    Instruction :=
  let wrapper := boxed kind
  .invoke .static
    ⟨table.referenceName wrapper, "valueOf", table.methodDescriptor ⟨[.primitive kind], wrapper⟩⟩

/-- The call that unboxes the wrapper of a primitive. -/
def unboxingCall
    (table : ClassTable)
    (kind : Primitive) :
    Instruction :=
  .invoke .virtual
    ⟨table.referenceName (boxed kind), kind.name ++ "Value",
      table.methodDescriptor ⟨[], .primitive kind⟩⟩

end ClassTable

namespace CodeStream

/-- Convert a value to the type it is assigned to. -/
def convertAssigned
    (table : ClassTable)
    (source target : Ty)
    (code : CodeStream) :
    CodeStream :=
  match source.primitive?, target.primitive? with
  | some given, some wanted => code.convert given wanted
  | some given, none => if target.isReference then code.emit (table.boxingCall given) else code
  | none, some wanted =>
      match ClassTable.unboxed? source with
      | some given => (code.emit (table.unboxingCall given)).convert given wanted
      | none => code
  | none, none => code

/-- Apply the conversion of a loop to an element. -/
def convertElement
    (table : ClassTable)
    (conversion : ElementConversion)
    (code : CodeStream) :
    CodeStream :=
  match conversion with
  | .none => code
  | .widening source target => code.convert source target
  | .boxing kind | .boxingThenWidening kind => code.emit (table.boxingCall kind)
  | .unboxing source target => (code.emit (table.unboxingCall source)).convert source target

end CodeStream

end LoopLowering
