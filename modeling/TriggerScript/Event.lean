import TriggerScript.Instruction
import TriggerScript.Text.Quoted

/-!
# Log events

What the library reports while it works.  Each event has one line of text.
-/

namespace TriggerScript

inductive Event where
  | catalogLoaded (functions listeners : Nat)
  | sourceScanned (tokens : Nat)
  | sourceParsed (nodes : Nat)
  | methodDefined (name : String) (index : Nat)
  | triggerRegistered (event : String) (filter : UInt64) (method : Nat)
  | instructionEmitted (method : Nat) (opcode : Opcode) (operand : Nat)
  | branchPatched (label address method : Nat)
  | addressesAssigned (methods length : Nat)
  deriving DecidableEq, Repr

def Event.line : Event → String
  | catalogLoaded functions listeners =>
      "DEBUG loaded native catalog functions=" ++ toString functions ++
        " listeners=" ++ toString listeners
  | sourceScanned tokens =>
      "DEBUG scanned source tokens=" ++ toString tokens
  | sourceParsed nodes => "DEBUG parsed source nodes=" ++ toString nodes
  | methodDefined name index =>
      "DEBUG defined method name=" ++ name ++ " index=" ++ toString index
  | triggerRegistered event filter method =>
      "DEBUG registered trigger event=" ++ Text.quoted event ++
        " filter=" ++ toString filter.toNat ++
        " method=" ++ toString method
  | instructionEmitted method opcode operand =>
      "TRACE emit method=" ++ toString method ++
        " opcode=" ++ opcode.name ++ " i=" ++ toString operand
  | branchPatched label address method =>
      "TRACE patch label=" ++ toString label ++
        " address=" ++ toString address ++ " method=" ++ toString method
  | addressesAssigned methods length =>
      "DEBUG assigned addresses methods=" ++ toString methods ++
        " length=" ++ toString length

end TriggerScript
