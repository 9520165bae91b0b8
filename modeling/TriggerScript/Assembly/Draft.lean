import TriggerScript.Assembly.CompileError
import TriggerScript.Catalog.Basic
import TriggerScript.Constant
import TriggerScript.Event
import TriggerScript.Method

/-!
# Drafts of methods

A body is assembled into the draft of its method.  Branches go forward, so
their addresses are not known yet: a branch is emitted with a patch that
names the label it waits for.  Constants, labels, patches and the log are
shared by all methods of a program and are handed on from draft to draft.
-/

namespace TriggerScript

/-- An operand that waits for the address of a label. -/
structure Patch where
  label : Nat
  method : Nat
  /-- The place of the instruction in the method. -/
  position : Nat
  slot : Slot
  deriving DecidableEq, Repr

/-- What the methods of a program share while it is assembled. -/
structure Tables where
  constants : ConstantPool := {}
  patches : Array Patch := #[]
  nextLabel : Nat := 0
  events : Array Event := #[]
  deriving DecidableEq, Repr

def Tables.log (tables : Tables) (event : Event) : Tables :=
  { tables with events := tables.events.push event }

def Tables.newLabel (tables : Tables) : Nat × Tables :=
  (tables.nextLabel, { tables with nextLabel := tables.nextLabel + 1 })

structure Draft where
  method : Method
  tables : Tables
  deriving DecidableEq, Repr

/-- What a body can refer to outside of itself. -/
structure Scope where
  catalog : Catalog
  /-- The names of the methods defined so far; their places are their
  numbers. -/
  methods : List String

/-- Work on a draft, which may fail. -/
abbrev DraftM : Type → Type :=
  EStateM CompileError Draft

namespace DraftM

def emit (instruction : Instruction) : DraftM Unit :=
  modify fun draft =>
    { method := (draft.method.emit instruction).2
      tables := draft.tables.log
        (.instructionEmitted draft.method.index instruction.opcode
          instruction.i) }

def newLabel : DraftM Nat :=
  modifyGet fun draft =>
    let (label, tables) := draft.tables.newLabel
    (label, { draft with tables })

/-- Append a branch that waits for the address of a label. -/
def emitBranch (opcode : Opcode) (label : Nat) : DraftM Unit := do
  let position := (← get).method.instructions.size
  emit { opcode }
  modify fun draft =>
    let patch : Patch :=
      { label, method := draft.method.index, position, slot := .i }
    { draft with tables.patches := draft.tables.patches.push patch }

def emitMarker (label : Nat) : DraftM Unit :=
  emit (.marker label)

/-- Append a condition and the branch that skips what is to be done if it holds.
The labels are those of the other part and of the end. -/
def test (condition : DraftM Unit) : DraftM (Nat × Nat) := do
  condition
  let otherwise ← newLabel
  let done ← newLabel
  emitBranch .jumpIfZero otherwise
  return (otherwise, done)

/-- Append a conditional up to its other part, and give the label of its
end. -/
def firstBranch (condition thenBranch : DraftM Unit) : DraftM Nat := do
  let (otherwise, done) ← test condition
  thenBranch
  emitBranch .jump done
  emitMarker otherwise
  return done

def emitWith (opcode : Opcode) (operand : Nat) : DraftM Unit :=
  emit { opcode, i := operand }

def pushLiteral (literal : Literal) : DraftM Unit := do
  let index ← modifyGet fun draft =>
    let (index, constants) :=
      draft.tables.constants.intern (.ofLiteral literal)
    (index, { draft with tables.constants := constants })
  emitWith .pushConst index

def variableIndex (name : String) : DraftM Nat := do
  match (← get).method.variableNamed? name with
  | some found => return found.index
  | none => throw (.undefinedVariable name)

/-- Add a variable and give its number.  Its name must be new in the whole
method. -/
def declare (type name : String) : DraftM Nat := do
  match ValueType.ofVariableName? type with
  | none => throw (.unknownType type)
  | some valueType =>
      if ((← get).method.variableNamed? name).isSome then
        throw (.duplicateVariable name)
      else
        modifyGet fun draft =>
          let (index, method) := draft.method.define name valueType
          (index, { draft with method })

def declareParam (param : Param) : DraftM Unit := do
  let index ← declare param.type param.name
  modify fun draft =>
    { draft with method.params := draft.method.params ++ [index] }

end DraftM

end TriggerScript
