/-!
# Instructions

An instruction has an operation and three operands.  Only the first operand
is used: it is a place in the constant table, the number of a variable, of a
method or of a host function, or the address a branch goes to.  A label
marker names a place in the code and takes no address of its own.
-/

namespace TriggerScript

inductive Opcode where
  /-- Push a constant. -/
  | pushConst
  /-- Go to an address. -/
  | jump
  /-- Reserved. -/
  | getLocal
  /-- Reserved. -/
  | setLocal
  /-- Leave the method. -/
  | ret
  /-- Pop a value and go to an address if it is zero. -/
  | jumpIfZero
  /-- Pop two values and push one if they are equal, else zero. -/
  | equal
  /-- Call a method. -/
  | call
  /-- Call a host function. -/
  | callNative
  /-- Push a variable. -/
  | getVariable
  /-- Pop a value into a variable. -/
  | setVariable
  /-- Mark a place. -/
  | label
  deriving DecidableEq, Repr

namespace Opcode

/-- Every operation, in the order of the declaration. -/
def all : List Opcode :=
  [pushConst, jump, getLocal, setLocal, ret, jumpIfZero, equal, call,
    callNative, getVariable, setVariable, label]

def code : Opcode → UInt8
  | pushConst => 0
  | jump => 1
  | getLocal => 2
  | setLocal => 3
  | ret => 4
  | jumpIfZero => 5
  | equal => 6
  | call => 7
  | callNative => 8
  | getVariable => 9
  | setVariable => 10
  | label => 255

def name : Opcode → String
  | pushConst => "PushConst"
  | jump => "Jmp"
  | getLocal => "GetLocal"
  | setLocal => "SetLocal"
  | ret => "Return"
  | jumpIfZero => "Jz"
  | equal => "Eq"
  | call => "Call"
  | callNative => "NativeCall"
  | getVariable => "GetIVar"
  | setVariable => "SetIVar"
  | label => "Label"

def ofName? (text : String) : Option Opcode :=
  all.find? fun opcode => opcode.name == text

/-- The operation as listings show it. -/
def mnemonic : Opcode → String
  | pushConst => "PUSHCONST"
  | jump => "JMP"
  | getLocal => "GETLOCAL"
  | setLocal => "SETLOCAL"
  | ret => "RETURN"
  | jumpIfZero => "JZ"
  | equal => "EQ"
  | call => "CALL"
  | callNative => "NATIVECALL"
  | getVariable => "GETIVAR"
  | setVariable => "SETIVAR"
  | label => "LABEL"

def isLabel : Opcode → Bool
  | label => true
  | _ => false

/-- Whether the first operand is an address to go to. -/
def isBranch : Opcode → Bool
  | jump | jumpIfZero => true
  | _ => false

end Opcode

/-- The three operands of an instruction. -/
inductive Slot where
  | i
  | l
  | s
  deriving DecidableEq, Repr

structure Instruction where
  opcode : Opcode
  i : Nat := 0
  l : Nat := 0
  s : Nat := 0
  /-- Known once the whole program is laid out. -/
  address : Nat := 0
  /-- The label, for markers only. -/
  label? : Option Nat := none
  deriving DecidableEq, Repr

namespace Instruction

def marker (label : Nat) : Instruction where
  opcode := .label
  label? := some label

def isLabel (instruction : Instruction) : Bool :=
  instruction.opcode.isLabel

def setOperand (instruction : Instruction) (slot : Slot) (value : Nat) :
    Instruction :=
  match slot with
  | .i => { instruction with i := value }
  | .l => { instruction with l := value }
  | .s => { instruction with s := value }

end Instruction

end TriggerScript
