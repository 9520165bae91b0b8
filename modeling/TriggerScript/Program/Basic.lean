import TriggerScript.Constant
import TriggerScript.Method

/-!
# Programs

A program holds methods in one address space, the constants they use, and the
table of triggers by which the host finds the code for an event.
-/

namespace TriggerScript

structure TriggerEntry where
  event : String
  listenerId : UInt32
  filter : UInt64
  /-- The label that marks the start of the code. -/
  entry : Nat
  address : Nat := 0
  deriving DecidableEq, Repr

structure Program where
  methods : List Method
  constants : List Constant
  triggers : List TriggerEntry
  deriving DecidableEq, Repr

namespace Program

def length (program : Program) : Nat :=
  program.methods.foldr (fun method length => method.size + length) 0

def isEmpty (program : Program) : Bool :=
  program.length == 0

def method? (program : Program) (name : String) : Option Method :=
  program.methods.find? fun method => method.name == name

end Program

end TriggerScript
