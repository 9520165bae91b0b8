import TriggerScript.Proofs.AddressLayout
import Mathlib.Logic.Function.Basic

/-!
# What scripts and programs do

Trees are evaluated on a frame of named variables.  Programs are run by a
machine that reads the operations of all methods as one array, numbers
variables, and knows neither names nor labels.  Both leave open what values
are, when two of them are equal, which of them count as zero, and what calls
do: all of this belongs to the host.
-/

namespace TriggerScript

universe u v

variable {Value : Type u} {World : Type v}

/-- What is left open about a run.  A call changes the operand stack and the
outside world, or is stuck. -/
structure Host (Value : Type u) (World : Type v) where
  constant : Constant → Value
  isZero : Value → Bool
  equal : Value → Value → Bool
  /-- What the host function with a given number does. -/
  native : Nat → List Value → World → Option (List Value × World)
  /-- What the method with a given number does. -/
  method : Nat → List Value → World → Option (List Value × World)

/-! ## Evaluation of trees -/

structure Frame (Value : Type u) (World : Type v) where
  locals : String → Value
  stack : List Value
  world : World

namespace Frame

def push (value : Value) (frame : Frame Value World) :
    Frame Value World :=
  { frame with stack := value :: frame.stack }

def store? (name : String) (frame : Frame Value World) :
    Option (Frame Value World) :=
  match frame.stack with
  | [] => none
  | value :: rest =>
      some
        { frame with
          locals := Function.update frame.locals name value
          stack := rest }

/-- Pop two values and push whether they are equal. -/
def compare? (host : Host Value World) (frame : Frame Value World) :
    Option (Frame Value World) :=
  match frame.stack with
  | right :: left :: rest =>
      some
        { frame with
          stack :=
            host.constant (.ofBool (host.equal left right)) :: rest }
  | _ => none

def branch? (host : Host Value World)
    (positive negative : Frame Value World → Option (Frame Value World))
    (frame : Frame Value World) : Option (Frame Value World) :=
  match frame.stack with
  | [] => none
  | value :: rest =>
      if host.isZero value then
        negative { frame with stack := rest }
      else
        positive { frame with stack := rest }

/-- Let a call change the stack and the world. -/
def call? (call : List Value → World → Option (List Value × World))
    (frame : Frame Value World) : Option (Frame Value World) :=
  (call frame.stack frame.world).map fun (stack, world) =>
    { frame with stack, world }

end Frame

/-- What a call does: the host function with exactly these argument types,
else the first method of that name. -/
def Host.callee? (host : Host Value World) (catalog : Catalog)
    (methods : List String) (name : String) (types : List ValueType) :
    Option (List Value → World → Option (List Value × World)) :=
  match catalog.overload? name types with
  | some native => some (host.native native.id.toNat)
  | none => (methods.idxOf? name).map host.method

namespace Node

variable (host : Host Value World) (catalog : Catalog)
  (methods : List String)

mutual

/-- Evaluate a tree; methods are numbered by their place in `methods`. -/
def eval : Node → Frame Value World → Option (Frame Value World)
  | trigger _ _ _, _ => none
  | proc _ _ _, _ => none
  | block statements, frame => evalAll statements frame
  | declare _ _ none, frame => some frame
  | declare _ name (some value), frame =>
      (value.eval frame).bind (Frame.store? name)
  | assign name value, frame =>
      (value.eval frame).bind (Frame.store? name)
  | branch condition thenBranch elseBranch, frame =>
      (condition.eval frame).bind
        (Frame.branch? host thenBranch.eval (evalOptional elseBranch))
  | call name args, frame =>
      (args.mapM staticType?).bind fun types =>
        (host.callee? catalog methods name types).bind fun call =>
          (evalAll args frame).bind (Frame.call? call)
  | literal value, frame =>
      some (frame.push (host.constant (.ofLiteral value)))
  | compare left .equal right, frame =>
      ((left.eval frame).bind right.eval).bind (Frame.compare? host)
  | compare _ _ _, _ => none
  | var name, frame => some (frame.push (frame.locals name))

def evalAll :
    List Node → Frame Value World → Option (Frame Value World)
  | [], frame => some frame
  | node :: nodes, frame => (node.eval frame).bind (evalAll nodes)

def evalOptional :
    Option Node → Frame Value World → Option (Frame Value World)
  | none, frame => some frame
  | some node, frame => node.eval frame

end

end Node

/-! ## Execution of programs -/

/-- The operations of all methods; the place of each is its address. -/
def Program.operations (program : Program) : List Instruction :=
  program.code.filter Instruction.isOperation

structure Machine (Value : Type u) (World : Type v) where
  pc : Nat
  locals : List Value
  stack : List Value
  world : World

/-- How far a run has come. -/
inductive Outcome (Value : Type u) (World : Type v) where
  | running (machine : Machine Value World)
  | returned (machine : Machine Value World)
  | stuck

namespace Machine

def execute (host : Host Value World) (constants : List Constant)
    (machine : Machine Value World) (operation : Instruction) :
    Outcome Value World :=
  let next : Machine Value World := { machine with pc := machine.pc + 1 }
  let call (does : List Value → World → Option (List Value × World)) :
      Outcome Value World :=
    match does machine.stack machine.world with
    | none => .stuck
    | some (stack, world) => .running { next with stack, world }
  match operation.opcode with
  | .pushConst =>
      match constants[operation.i]? with
      | none => .stuck
      | some constant =>
          .running
            { next with stack := host.constant constant :: machine.stack }
  | .jump => .running { machine with pc := operation.i }
  | .ret => .returned machine
  | .jumpIfZero =>
      match machine.stack with
      | [] => .stuck
      | value :: rest =>
          if host.isZero value then
            .running { machine with pc := operation.i, stack := rest }
          else
            .running { next with stack := rest }
  | .equal =>
      match machine.stack with
      | right :: left :: rest =>
          .running
            { next with
              stack :=
                host.constant (.ofBool (host.equal left right)) :: rest }
      | _ => .stuck
  | .call => call (host.method operation.i)
  | .callNative => call (host.native operation.i)
  | .getVariable =>
      match machine.locals[operation.i]? with
      | none => .stuck
      | some value =>
          .running { next with stack := value :: machine.stack }
  | .setVariable =>
      match machine.stack with
      | [] => .stuck
      | value :: rest =>
          if operation.i < machine.locals.length then
            .running
              { next with
                locals := machine.locals.set operation.i value
                stack := rest }
          else
            .stuck
  | .getLocal | .setLocal | .label => .stuck

def step (host : Host Value World) (program : Program)
    (machine : Machine Value World) : Outcome Value World :=
  match program.operations[machine.pc]? with
  | none => .stuck
  | some operation =>
      machine.execute host program.constants operation

/-- Make a number of steps, unless the run ends before. -/
def run (host : Host Value World) (program : Program) :
    Nat → Machine Value World → Outcome Value World
  | 0, machine => .running machine
  | fuel + 1, machine =>
      match machine.step host program with
      | .running next => run host program fuel next
      | .returned final => .returned final
      | .stuck => .stuck

end Machine

/-- The machine that stands for a frame: variables have the places of their
names. -/
def Frame.load (names : List String) (pc : Nat)
    (frame : Frame Value World) : Machine Value World where
  pc := pc
  locals := names.map frame.locals
  stack := frame.stack
  world := frame.world

end TriggerScript
