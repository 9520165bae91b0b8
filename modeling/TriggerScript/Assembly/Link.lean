import TriggerScript.Assembly.Draft
import TriggerScript.Program.Basic

/-!
# Addresses

All methods share one address space.  Instructions are numbered in the order
of the methods; a label marker takes no number and gets the one of the next
instruction.  When a label is reached, the patches that wait for it are
applied once.
-/

namespace TriggerScript

/-- Number instructions from an address on; the second result is the address
behind them. -/
def Instruction.place (address : Nat) :
    List Instruction → List Instruction × Nat
  | [] => ([], address)
  | instruction :: rest =>
      let next :=
        if instruction.label?.isSome then address else address + 1
      let (placed, stop) := place next rest
      ({ instruction with address } :: placed, stop)

def Method.place (address : Nat) : List Method → List Method × Nat
  | [] => ([], address)
  | method :: rest =>
      let (numbered, next) :=
        Instruction.place address method.instructions.toList
      let (placed, stop) := place next rest
      ({ method with instructions := numbered.toArray } :: placed, stop)

/-- The labels of numbered methods with their addresses, in order. -/
def Method.labelAddresses (methods : List Method) : List (Nat × Nat) :=
  (methods.flatMap (·.instructions.toList)).filterMap fun instruction =>
    instruction.label?.map fun label => (label, instruction.address)

/-- Put an address where a patch asks for it. -/
def Patch.apply (patch : Patch) (address : Nat) (methods : List Method) :
    List Method :=
  methods.modify patch.method fun method =>
    { method with
      instructions := method.instructions.modify patch.position
        (·.setOperand patch.slot address) }

/-- Methods whose branches are being linked. -/
structure Linking where
  methods : List Method
  pending : Array Patch
  events : Array Event
  deriving DecidableEq, Repr

namespace Linking

def apply (linking : Linking) (label address : Nat) (patch : Patch) :
    Linking :=
  { linking with
    methods := patch.apply address linking.methods
    events := linking.events.push
      (.branchPatched label address patch.method) }

/-- Apply the patches that wait for a label. -/
def reach (linking : Linking) (label address : Nat) : Linking :=
  let due := linking.pending.filter fun patch => patch.label == label
  let pending := linking.pending.filter fun patch => patch.label != label
  due.foldl (fun current patch => current.apply label address patch)
    { linking with pending }

def reachAll (linking : Linking) (labels : List (Nat × Nat)) : Linking :=
  labels.foldl (fun current (label, address) => current.reach label address)
    linking

end Linking

/-- A program and its log, from methods and triggers without addresses. -/
def Program.link (methods : List Method) (triggers : List TriggerEntry)
    (tables : Tables) : Program × Array Event :=
  let (placed, length) := Method.place 0 methods
  let labels := Method.labelAddresses placed
  let linked :=
    Linking.reachAll ⟨placed, tables.patches, tables.events⟩ labels
  let addressOf (label address : Nat) : Nat :=
    (labels.lookup label).getD address
  ({ methods := linked.methods.map fun method =>
        { method with address := addressOf method.entry method.address }
     constants := tables.constants.entries
     triggers := triggers.map fun trigger =>
        { trigger with
          address := addressOf trigger.entry trigger.address } },
    linked.events.push (.addressesAssigned methods.length length))

end TriggerScript
