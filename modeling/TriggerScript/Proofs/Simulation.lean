import TriggerScript.Proofs.Semantics

/-!
# Programs do what their scripts say

A run through the code of a tree has the effect of evaluating the tree: it
arrives behind the code with the same values, or is stuck when the evaluation
is.  No operation is executed twice on the way, so the length of a method
bounds the number of steps of a run through it.
-/

namespace TriggerScript

universe u v

variable {Value : Type u} {World : Type v} {host : Host Value World}
  {program : Program} {names : List String}

/-! ## Code in a program -/

/-- The operations of the program at an address begin with some code. -/
def Program.HoldsAt (program : Program) (base : Nat)
    (code : List Instruction) : Prop :=
  code <+: program.operations.drop base

namespace Program.HoldsAt

variable {base : Nat} {left right rest : List Instruction}
  {operation : Instruction}

theorem of_append_left (holds : program.HoldsAt base (left ++ right)) :
    program.HoldsAt base left :=
  (List.prefix_append left right).trans holds

theorem of_append_right (holds : program.HoldsAt base (left ++ right)) :
    program.HoldsAt (base + left.length) right := by
  obtain ⟨after, equality⟩ := holds
  refine ⟨after, ?_⟩
  rw [← List.drop_drop, ← equality, List.append_assoc, List.drop_left]

theorem getElem? (holds : program.HoldsAt base (operation :: rest)) :
    program.operations[base]? = some operation := by
  obtain ⟨after, equality⟩ := holds
  rw [← Nat.add_zero base, ← List.getElem?_drop, ← equality]
  rfl

end Program.HoldsAt

theorem Frame.step_load {base : Nat} {operation : Instruction}
    (found : program.operations[base]? = some operation)
    (frame : Frame Value World) :
    (frame.load names base).step host program =
      (frame.load names base).execute host program.constants
        operation := by
  have fetched :
      program.operations[(frame.load names base).pc]? =
        some operation := found
  rw [Machine.step, fetched]

/-! ## Runs through a piece of code -/

/-- A run from `base` to `stop` that has an effect on frames.  It makes at
most as many steps as there are addresses between them. -/
def Runs (host : Host Value World) (program : Program)
    (names : List String) (base stop : Nat)
    (effect : Frame Value World → Option (Frame Value World)) : Prop :=
  ∀ frame, ∃ steps, base + steps ≤ stop ∧ ∀ fuel,
    (frame.load names base).run host program (fuel + steps) =
      (effect frame).elim .stuck fun next =>
        (next.load names stop).run host program fuel

namespace Runs

variable {base middle stop : Nat}
  {first second : Frame Value World → Option (Frame Value World)}

theorem skip (host : Host Value World) (program : Program)
    (names : List String) (base : Nat) :
    Runs host program names base base some := by
  intro frame
  exact ⟨0, Nat.le_refl base, fun fuel => rfl⟩

theorem le (runs : Runs host program names base stop first)
    (frame : Frame Value World) : base ≤ stop := by
  obtain ⟨steps, bound, _⟩ := runs frame
  omega

theorem bind (runs : Runs host program names base middle first)
    (further : Runs host program names middle stop second) :
    Runs host program names base stop
      fun frame => (first frame).bind second := by
  intro frame
  dsimp only
  obtain ⟨steps, bound, arrives⟩ := runs frame
  cases result : first frame with
  | none =>
      have order := further.le frame
      refine ⟨steps, by omega, ?_⟩
      intro fuel
      rw [arrives, result]
      rfl
  | some next =>
      obtain ⟨more, moreBound, arrivesNext⟩ := further next
      refine ⟨more + steps, by omega, ?_⟩
      intro fuel
      rw [← Nat.add_assoc, arrives, result]
      exact arrivesNext fuel

/-- A run of one step. -/
theorem of_step {stop : Nat}
    (bound : base + 1 ≤ stop)
    (steps : ∀ frame : Frame Value World,
      (frame.load names base).step host program =
        (first frame).elim .stuck fun next =>
          .running (next.load names stop)) :
    Runs host program names base stop first := by
  intro frame
  refine ⟨1, bound, ?_⟩
  intro fuel
  rw [Machine.run, steps frame]
  cases first frame with
  | none =>
      rfl
  | some next =>
      rfl

variable {operand address : Nat}

theorem pushConst {constant : Constant}
    (found : program.operations[base]? =
      some { opcode := .pushConst, i := operand, address })
    (known : program.constants[operand]? = some constant) :
    Runs host program names base (base + 1)
      fun frame => some (frame.push (host.constant constant)) := by
  apply of_step (Nat.le_refl _)
  intro frame
  rw [frame.step_load found, Machine.execute]
  dsimp only
  rw [known]
  rfl

theorem getVariable {name : String}
    (found : program.operations[base]? =
      some { opcode := .getVariable, i := names.idxOf name, address })
    (member : name ∈ names) :
    Runs host program names base (base + 1)
      fun frame => some (frame.push (frame.locals name)) := by
  apply of_step (Nat.le_refl _)
  intro frame
  have value : (names.map frame.locals)[names.idxOf name]? =
      some (frame.locals name) := by
    rw [List.getElem?_map, List.getElem?_idxOf member]
    rfl
  rw [frame.step_load found, Machine.execute]
  dsimp only [Frame.load]
  rw [value]
  rfl

theorem setVariable {name : String}
    (found : program.operations[base]? =
      some { opcode := .setVariable, i := names.idxOf name, address })
    (member : name ∈ names) (distinct : names.Nodup) :
    Runs host program names base (base + 1)
      (Frame.store? name) := by
  apply of_step (Nat.le_refl _)
  intro frame
  rw [frame.step_load found, Machine.execute]
  dsimp only [Frame.load]
  rw [Frame.store?]
  cases frame.stack with
  | nil =>
      rfl
  | cons value rest =>
      have bound : names.idxOf name <
          (names.map frame.locals).length := by
        rw [List.length_map]
        exact List.idxOf_lt_length_of_mem member
      have stored :
          names.map (Function.update frame.locals name value) =
            (names.map frame.locals).set (names.idxOf name) value := by
        rw [distinct.map_update, if_pos member]
      refine Eq.trans (if_pos bound) ?_
      rw [Option.elim, stored]

theorem equal
    (found : program.operations[base]? =
      some { opcode := .equal, address }) :
    Runs host program names base (base + 1)
      (Frame.compare? host) := by
  apply of_step (Nat.le_refl _)
  intro frame
  rw [frame.step_load found, Machine.execute]
  dsimp only [Frame.load]
  rw [Frame.compare?]
  rcases frame.stack with _ | ⟨right, _ | ⟨left, rest⟩⟩ <;> rfl

theorem call {opcode : Opcode}
    {does : List Value → World → Option (List Value × World)}
    (found : program.operations[base]? =
      some { opcode, i := operand, address })
    (meaning : opcode = .call ∧ does = host.method operand ∨
      opcode = .callNative ∧ does = host.native operand) :
    Runs host program names base (base + 1) (Frame.call? does) := by
  apply of_step (Nat.le_refl _)
  intro frame
  rw [frame.step_load found, Frame.call?]
  rcases meaning with ⟨rfl, rfl⟩ | ⟨rfl, rfl⟩
  · rw [Machine.execute]
    dsimp only [Frame.load]
    cases host.method operand frame.stack frame.world <;> rfl
  · rw [Machine.execute]
    dsimp only [Frame.load]
    cases host.native operand frame.stack frame.world <;> rfl

/-- A conditional jump over one branch to the other. -/
theorem jumpIfZero {exit : Nat}
    {positive negative :
      Frame Value World → Option (Frame Value World)}
    (test : program.operations[base]? =
      some { opcode := .jumpIfZero, i := exit + 1, address })
    (whenTrue : Runs host program names (base + 1) exit positive)
    (jump : program.operations[exit]? =
      some { opcode := .jump, i := stop, address := exit })
    (whenFalse : Runs host program names (exit + 1) stop negative) :
    Runs host program names base stop
      (Frame.branch? host positive negative) := by
  intro frame
  have trueOrder := whenTrue.le frame
  have falseOrder := whenFalse.le frame
  have leave : Runs host program names exit stop some := by
    apply of_step falseOrder
    intro final
    rw [final.step_load jump]
    rfl
  have through : Runs host program names (base + 1) stop positive := by
    simpa only [Option.bind_fun_some] using whenTrue.bind leave
  have tested : (frame.load names base).step host program = _ :=
    frame.step_load test
  rw [Machine.execute] at tested
  dsimp only [Frame.load] at tested
  rw [Frame.branch?]
  cases stack : frame.stack with
  | nil =>
      rw [stack] at tested
      refine ⟨1, by omega, ?_⟩
      intro fuel
      rw [Machine.run, Frame.load, stack, tested]
      rfl
  | cons value rest =>
      rw [stack] at tested
      by_cases zero : host.isZero value = true
      · obtain ⟨steps, bound, arrives⟩ :=
          whenFalse { frame with stack := rest }
        refine ⟨steps + 1, by omega, ?_⟩
        intro fuel
        rw [← Nat.add_assoc, Machine.run, Frame.load, stack, tested]
        dsimp only
        rw [if_pos zero, if_pos zero]
        exact arrives fuel
      · obtain ⟨steps, bound, arrives⟩ :=
          through { frame with stack := rest }
        refine ⟨steps + 1, by omega, ?_⟩
        intro fuel
        rw [← Nat.add_assoc, Machine.run, Frame.load, stack, tested]
        dsimp only
        rw [if_neg zero, if_neg zero]
        exact arrives fuel

end Runs

/-! ## Trees -/

theorem Node.evalAll_singleton (host : Host Value World)
    (catalog : Catalog) (methods : List String) (node : Node) :
    evalAll host catalog methods [node] =
      eval host catalog methods node := by
  funext frame
  simp [evalAll]

theorem Node.evalAll_toList (host : Host Value World)
    (catalog : Catalog) (methods : List String) (node : Option Node) :
    evalAll host catalog methods node.toList =
      evalOptional host catalog methods node := by
  funext frame
  cases node <;> simp [evalAll, evalOptional]

theorem Node.mapM_staticType? {args : List Node}
    {types : List ValueType}
    (typed : args.map staticType? = types.map some) :
    args.mapM staticType? = some types := by
  induction args generalizing types with
  | nil =>
      cases types with
      | nil =>
          rfl
      | cons type types =>
          cases typed
  | cons arg args inductionHypothesis =>
      cases types with
      | nil =>
          cases typed
      | cons type types =>
          obtain ⟨first, rest⟩ := List.cons.inj typed
          rw [List.mapM_cons, first, inductionHypothesis rest]
          rfl

/-- The operation of a call does what the call means. -/
theorem Bindings.callee_meaning (host : Host Value World)
    {bindings : Bindings} {name : String} {types : List ValueType}
    (callable : bindings.Callable name types) :
    ∃ does,
      host.callee? bindings.catalog bindings.methods name types =
          some does ∧
        ((bindings.callee name types).1 = .call ∧
            does = host.method (bindings.callee name types).2 ∨
          (bindings.callee name types).1 = .callNative ∧
            does = host.native (bindings.callee name types).2) := by
  rcases bindings.callee_cases callable with
    ⟨native, overload, equality⟩ | ⟨noOverload, member, equality⟩
  · refine ⟨host.native native.id.toNat, ?_, ?_⟩
    · rw [Host.callee?, overload]
    · rw [equality]
      exact Or.inr ⟨rfl, rfl⟩
  · refine ⟨host.method (bindings.methods.idxOf name), ?_, ?_⟩
    · rw [Host.callee?, noOverload]
      dsimp only
      rw [idxOf?_eq_some_idxOf member]
      rfl
    · rw [equality]
      exact Or.inl ⟨rfl, rfl⟩

/-- A run through the code of trees has the effect of evaluating them. -/
theorem Emits.runs {bindings : Bindings} {nodes : List Node}
    {first last : Nat} {code : List Symbol}
    (emitted : Emits bindings nodes first code last)
    (distinct : bindings.locals.Nodup)
    (pool : program.constants = bindings.constants) {base : Nat}
    (holds : program.HoldsAt base
      (Node.generateAll bindings base nodes)) :
    Runs host program bindings.locals base
      (base + (Node.generateAll bindings base nodes).length)
      (Node.evalAll host bindings.catalog bindings.methods nodes) := by
  induction emitted generalizing base with
  | nil label =>
      rw [Node.generateAll, List.length_nil, Nat.add_zero]
      exact Runs.skip host program bindings.locals base
  | cons head tail headRuns tailRuns =>
      simp only [Node.generateAll_singleton,
        Node.evalAll_singleton] at headRuns
      rw [Node.generateAll] at holds ⊢
      rw [List.length_append, ← Nat.add_assoc]
      exact (headRuns holds.of_append_left).bind
        (tailRuns holds.of_append_right)
  | block _ statementsRun =>
      rw [Node.generateAll_singleton, Node.generate] at holds ⊢
      rw [Node.evalAll_singleton]
      exact statementsRun holds
  | declare type name label =>
      rw [Node.generateAll_singleton, Node.evalAll_singleton,
        Node.generate, List.length_nil, Nat.add_zero]
      exact Runs.skip host program bindings.locals base
  | define type member _ valueRuns =>
      simp only [Node.generateAll_singleton,
        Node.evalAll_singleton] at valueRuns
      rw [Node.generateAll_singleton, Node.generate] at holds ⊢
      rw [Node.evalAll_singleton, List.length_append, ← Nat.add_assoc]
      exact (valueRuns holds.of_append_left).bind
        (Runs.setVariable holds.of_append_right.getElem? member distinct)
  | assign member _ valueRuns =>
      simp only [Node.generateAll_singleton,
        Node.evalAll_singleton] at valueRuns
      rw [Node.generateAll_singleton, Node.generate] at holds ⊢
      rw [Node.evalAll_singleton, List.length_append, ← Nat.add_assoc]
      exact (valueRuns holds.of_append_left).bind
        (Runs.setVariable holds.of_append_right.getElem? member distinct)
  | @literal value label member =>
      rw [Node.generateAll_singleton, Node.generate] at holds ⊢
      rw [Node.evalAll_singleton]
      apply Runs.pushConst holds.getElem?
      rw [pool, List.getElem?_idxOf member]
  | var label member =>
      rw [Node.generateAll_singleton, Node.generate] at holds ⊢
      rw [Node.evalAll_singleton]
      exact Runs.getVariable holds.getElem? member
  | equal left right leftRuns rightRuns =>
      simp only [Node.generateAll_singleton,
        Node.evalAll_singleton] at leftRuns rightRuns
      rw [Node.generateAll_singleton, Node.generate] at holds ⊢
      rw [Node.evalAll_singleton, List.length_append,
        List.length_append, ← Nat.add_assoc, ← Nat.add_assoc]
      have operands := (leftRuns holds.of_append_left.of_append_left).bind
        (rightRuns holds.of_append_left.of_append_right)
      have compares := holds.of_append_right.getElem?
      rw [List.length_append, ← Nat.add_assoc] at compares
      exact operands.bind (Runs.equal compares)
  | @call name args types _ _ _ typed callable _ argumentsRun =>
      obtain ⟨does, meansDoes, meaning⟩ :=
        Bindings.callee_meaning host callable
      have effect :
          Node.evalAll host bindings.catalog bindings.methods
              [.call name args] =
            fun frame =>
              (Node.evalAll host bindings.catalog bindings.methods args
                frame).bind (Frame.call? does) := by
        rw [Node.evalAll_singleton]
        funext frame
        rw [Node.eval, Node.mapM_staticType? typed, Option.bind_some,
          meansDoes, Option.bind_some]
      rw [Node.generateAll_singleton, Node.generate,
        Node.filterMap_staticType? typed] at holds ⊢
      rw [effect, List.length_append, ← Nat.add_assoc]
      exact (argumentsRun holds.of_append_left).bind
        (Runs.call holds.of_append_right.getElem? meaning)
  | branch test positive negative testRuns positiveRuns negativeRuns =>
      simp only [Node.generateAll_singleton,
        Node.evalAll_singleton] at testRuns positiveRuns
      simp only [Node.generateAll_toList,
        Node.evalAll_toList] at negativeRuns
      rw [Node.generateAll_singleton, Node.generate] at holds ⊢
      rw [Node.evalAll_singleton]
      have beforeNegative := holds.of_append_left
      have beforeJump := beforeNegative.of_append_left
      have beforePositive := beforeJump.of_append_left
      have tests := beforePositive.of_append_right.getElem?
      have positiveHolds := beforeJump.of_append_right
      have jumps := beforeNegative.of_append_right.getElem?
      have negativeHolds := holds.of_append_right
      simp only [List.length_append, List.length_singleton,
        ← Nat.add_assoc] at positiveHolds jumps negativeHolds ⊢
      have chooses := Runs.jumpIfZero tests
        (positiveRuns positiveHolds) jumps (negativeRuns negativeHolds)
      exact (testRuns beforePositive.of_append_left).bind chooses

/-! ## Methods -/

/-- The operations of a method stand at its address. -/
theorem Program.LaidOut.holdsAt (laidOut : program.LaidOut)
    {method : Method} (member : method ∈ program.methods) :
    program.HoldsAt method.address method.operations := by
  obtain ⟨before, after, methodsEq⟩ := List.append_of_mem member
  obtain ⟨first, found, addressEq⟩ := laidOut.start method member
  let front := (before.flatMap Method.code).filter Instruction.isOperation
  let back := (after.flatMap Method.code).filter Instruction.isOperation
  have split : program.operations =
      front ++ (method.operations ++ back) := by
    rw [Program.operations, Program.code, methodsEq,
      List.flatMap_append, List.flatMap_cons, List.filter_append,
      List.filter_append]
    rfl
  -- The first operation of the method has the number of its place.
  have atFront : program.operations[front.length]? = some first := by
    rw [split, List.getElem?_append_right (Nat.le_refl _), Nat.sub_self,
      ← List.head?_eq_getElem?, List.head?_append, Method.operations,
      List.head?_filter, found]
    rfl
  have numbered :
      (program.operations.map Instruction.address)[front.length]? =
        (List.range program.length)[front.length]? := by
    rw [Program.operations, laidOut.addresses]
  rw [List.getElem?_map, atFront, Option.map_some] at numbered
  obtain ⟨_, placeEq⟩ := List.getElem?_eq_some_iff.mp numbered.symm
  rw [List.getElem_range] at placeEq
  refine ⟨back, ?_⟩
  rw [addressEq, ← placeEq, split, List.drop_left]

/-- A run through a method has the effect of evaluating its body. -/
theorem Piece.Becomes.runs {catalog : Catalog} {addressOf : Nat → Nat}
    {base : Nat} {piece : Piece} {method : Method}
    (becomes : piece.Becomes catalog program addressOf base method)
    (holds : program.HoldsAt base method.operations) :
    Runs host program method.localNames base
      (base + (piece.declaration.body.generate
        (program.bindings catalog method) base).length)
      (piece.declaration.body.eval host catalog
        (program.methods.map Method.name)) := by
  obtain ⟨body, first, last, emitted, _⟩ := becomes.code_eq
  have bodyHolds := holds
  rw [becomes.operations_eq] at bodyHolds
  have bodyRuns : Runs host program _ base _ _ :=
    emitted.runs becomes.numbered.distinct rfl
      (by
        rw [Node.generateAll_singleton]
        exact bodyHolds.of_append_left)
  rw [Node.generateAll_singleton, Node.evalAll_singleton] at bodyRuns
  exact bodyRuns

/-- A run that is given at least as many steps as a method has operations
ends at the return of the method, with the values that the evaluation of its
body ends with, or is stuck if the evaluation is. -/
theorem Program.run_eq_eval {catalog : Catalog} {nodes : List Node}
    (assembled : assemble catalog nodes = .ok program)
    (host : Host Value World) :
    List.Forall₂
      (fun declaration method =>
        ∃ exit, method.code.getLast? = some exit ∧ exit.opcode = .ret ∧
          ∀ (frame : Frame Value World) (fuel : Nat),
            method.size ≤ fuel →
            (frame.load method.localNames method.address).run
                host program fuel =
              (declaration.body.eval host catalog
                ((Declaration.all nodes).map Declaration.name)
                frame).elim .stuck fun final =>
                  .returned
                    (final.load method.localNames exit.address))
      (Declaration.all nodes) program.methods := by
  obtain ⟨procs, triggers, addressOf, linked⟩ := assemble_linked assembled
  rw [← linked.methodNames_eq]
  apply linked.forall₂
  intro piece method base member becomes
  refine ⟨_, becomes.getLast?_code, rfl, ?_⟩
  intro frame fuel enough
  have holds := linked.laidOut.holdsAt member
  rw [becomes.address_eq] at holds ⊢
  have operations := becomes.operations_eq
  rw [method.size_eq_length, operations, List.length_append,
    List.length_singleton] at enough
  obtain ⟨steps, bound, arrives⟩ := becomes.runs holds frame
  obtain ⟨rest, rfl⟩ : ∃ rest, fuel = rest + 1 + steps :=
    ⟨fuel - steps - 1, by omega⟩
  rw [arrives]
  cases piece.declaration.body.eval host catalog
      (program.methods.map Method.name) frame with
  | none =>
      rfl
  | some final =>
      rw [operations] at holds
      have fetched := holds.of_append_right.getElem?
      dsimp only [Option.elim]
      rw [Machine.run, final.step_load fetched]
      rfl

/-- A host whose values are constants and whose world is the list of the host
functions that were called. -/
def doorHost : Host Constant (List Nat) where
  constant := id
  isZero value := value == .int 0
  equal left right := left == right
  native number stack world := some (stack.drop 1, number :: world)
  method _ stack world := some (stack.drop 1, world)

theorem run_eq_eval_door :
    Program.assemble doorCatalog doorScript = .ok doorProgram ∧
      List.Forall₂
        (fun declaration method =>
          ∃ exit, method.code.getLast? = some exit ∧
            exit.opcode = .ret ∧
            ∀ (frame : Frame Constant (List Nat)) (fuel : Nat),
              method.size ≤ fuel →
              (frame.load method.localNames method.address).run
                  doorHost doorProgram fuel =
                (declaration.body.eval doorHost doorCatalog
                  ((Declaration.all doorScript).map Declaration.name)
                  frame).elim .stuck fun final =>
                    .returned
                      (final.load method.localNames exit.address))
        (Declaration.all doorScript) doorProgram.methods :=
  ⟨assemble_door, Program.run_eq_eval assemble_door doorHost⟩

end TriggerScript
