import Std.Data.HashSet.Basic
import TriggerScript.Program.Basic
import TriggerScript.Text.Decimal

/-!
# Program listings

A listing shows constants, triggers and methods line by line.  An instruction
line starts with its address, and with a mark if some branch goes there.
-/

namespace TriggerScript

/-- The text of an instruction; variables are shown with their names. -/
def Instruction.text (constants : List Constant) (locals : List Variable)
    (instruction : Instruction) : String :=
  let number := toString instruction.i
  let withOperand (operand : String) : String :=
    Text.column 11 instruction.opcode.mnemonic ++ " " ++ operand
  match instruction.opcode with
  | .pushConst =>
      let shown := (constants[instruction.i]?.map Constant.text).getD
        "<missing>"
      withOperand ("#" ++ number ++ " ; " ++ shown)
  | .jump | .jumpIfZero =>
      withOperand ("→ " ++ Text.zeroPadded 4 instruction.i)
  | .getLocal | .setLocal | .getVariable | .setVariable =>
      -- Of two locals with one number, the later one gives the name.
      match locals.reverse.find? (·.index == instruction.i) with
      | some found => withOperand (number ++ " ; " ++ found.name)
      | none => withOperand number
  | .call => withOperand ("[" ++ number ++ "]")
  | .callNative => withOperand ("native " ++ number)
  | .ret | .equal | .label => instruction.opcode.mnemonic

def Instruction.listingLine (constants : List Constant)
    (locals : List Variable) (targets : Std.HashSet Nat)
    (instruction : Instruction) : String :=
  match instruction.label? with
  | some label => "      L" ++ toString label ++ ":"
  | none =>
      let mark := if targets.contains instruction.address then "►" else " "
      Text.zeroPadded 4 instruction.address ++ " " ++ mark ++ " " ++
        instruction.text constants locals

def Method.listingLines (constants : List Constant)
    (targets : Std.HashSet Nat) (method : Method) : List String :=
  let rule := "".pushn '═' 40
  [rule,
    " [" ++ toString method.index ++ "] " ++ method.name ++ " @ " ++
      Text.zeroPadded 4 method.address,
    " " ++ toString method.size ++ " instructions, " ++
      toString method.locals.length ++ " locals",
    rule] ++
    (method.instructions.toList.map
      (Instruction.listingLine constants method.locals targets) ++ [""])

def Constant.listingLine (constant : Constant) (index : Nat) : String :=
  "  #" ++ Text.column 4 (toString index) ++ " " ++
    Text.column 6 constant.type.name ++ " " ++ constant.text

def TriggerEntry.listingLine (trigger : TriggerEntry) : String :=
  "  " ++ trigger.event ++ "(" ++ toString trigger.filter.toNat ++
    ") listener=" ++ toString trigger.listenerId.toNat ++ " -> " ++
    Text.zeroPadded 4 trigger.address

namespace Program

def branchTargets (program : Program) : List Nat :=
  ((program.methods.flatMap (·.instructions.toList)).filter
    (·.opcode.isBranch)).map Instruction.i

def listingLines (program : Program) : List String :=
  ["=== BYTECODE PROGRAM ===", "",
    "constants (" ++ toString program.constants.length ++ ")"] ++
  program.constants.mapIdx (fun index constant =>
    constant.listingLine index) ++
  ["", "triggers (" ++ toString program.triggers.length ++ ")"] ++
  program.triggers.map TriggerEntry.listingLine ++
  [""] ++
  program.methods.flatMap
    (Method.listingLines program.constants
      (Std.HashSet.ofList program.branchTargets)) ++
  [toString program.length ++ " instructions"]

def listing (program : Program) : String :=
  String.join (program.listingLines.map (· ++ "\n"))

end Program

end TriggerScript
