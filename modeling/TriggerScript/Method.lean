import TriggerScript.Instruction
import TriggerScript.ValueType

/-!
# Methods

A method is the code of a procedure or of a trigger, with its variables.
Variables are numbered from zero in order of declaration, parameters first.
-/

namespace TriggerScript

structure Variable where
  name : String
  index : Nat
  type : ValueType
  deriving DecidableEq, Repr

structure Method where
  name : String
  index : Nat
  instructions : Array Instruction
  locals : List Variable := []
  /-- The numbers of the parameters, in order. -/
  params : List Nat := []
  /-- The label that marks the start. -/
  entry : Nat
  address : Nat := 0
  deriving DecidableEq, Repr

namespace Method

/-- A method with nothing but its entry marker. -/
def start (name : String) (index entry : Nat) : Method where
  name := name
  index := index
  instructions := #[.marker entry]
  entry := entry

def variableNamed? (method : Method) (name : String) : Option Variable :=
  method.locals.find? fun candidate => candidate.name == name

def define (method : Method) (name : String) (type : ValueType) :
    Nat × Method :=
  let index := method.locals.length
  (index,
    { method with locals := method.locals ++ [⟨name, index, type⟩] })

/-- Append an instruction; the number is its place in the method. -/
def emit (method : Method) (instruction : Instruction) : Nat × Method :=
  (method.instructions.size,
    { method with instructions := method.instructions.push instruction })

/-- Change one operand of the instruction at a place, which is given back;
nothing if no instruction stands there. -/
def setOperand? (method : Method) (position : Nat) (slot : Slot)
    (value : Nat) : Option (Instruction × Method) :=
  method.instructions[position]?.map fun old =>
    let changed := old.setOperand slot value
    (changed,
      { method with
        instructions :=
          method.instructions.setIfInBounds position changed })

/-- The number of addresses the method takes. -/
def size (method : Method) : Nat :=
  method.instructions.countP fun instruction => !instruction.isLabel

end Method

end TriggerScript
