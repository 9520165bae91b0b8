import TriggerScript.Proofs.ScriptTrees
import TriggerScript.Proofs.UnreachableErrors

/-!
# The table of constants

The table of constants of a program is the list of the literals of its script,
each where a reader first meets it.  Bodies are not assembled in the order of
their methods, but in the order in which they are written, and so the table
follows the script and not the methods.

* `ConstantPool.entries_internAll` says that putting constants into an empty
  table one after another takes out all repetitions.
* `Emits.filter_isPush` says that the code of trees pushes their literals in
  order, so that nothing in the table is left unused.
-/

namespace TriggerScript

/-- The constant that a literal stands for; booleans stand for one and
zero. -/
def Node.constant? : Node → Option Constant
  | literal (.int value) => some (.int value)
  | literal (.long value) => some (.long value)
  | literal (.string value) => some (.string value)
  | literal (.bool true) => some (.int 1)
  | literal (.bool false) => some (.int 0)
  | _ => none

theorem Node.pushed?_eq_constant? (tree : Node) :
    tree.pushed? = tree.constant? := by
  cases tree with
  | literal value =>
      cases value with
      | bool truth =>
          cases truth <;> rfl
      | int | long | string =>
          rfl
  | trigger | proc | block | declare | assign | branch | call | compare
  | var =>
      rfl

/-- The constants for all literals of a script, in the order in which a reader
meets them. -/
def Script.literals (nodes : List Node) : List Constant :=
  (Node.allSubtrees nodes).filterMap Node.constant?

/-! ## Taking out repetitions -/

theorem ConstantPool.entries_internAll (constants : List Constant) :
    (internAll {} constants).entries = constants.eraseDups := by
  induction constants using List.reverseRecOn with
  | nil =>
      rfl
  | append_singleton before constant inductionHypothesis =>
      have known : constant ∈ (internAll {} before).entries ↔
          constant ∈ before := by
        rw [inductionHypothesis, List.mem_eraseDups]
      have stepped : internAll {} (before ++ [constant]) =
          ((internAll {} before).intern constant).2 :=
        internAll_append _ _ _
      rw [stepped, intern_entries, List.eraseDups_append,
        inductionHypothesis]
      by_cases member : constant ∈ before
      · simp [member, List.removeAll]
      · simp [member, List.removeAll, List.eraseDups_cons]

/-! ## Every constant is used -/

def Symbol.isPush : Symbol → Bool
  | op .pushConst _ => true
  | _ => false

def Bindings.push (bindings : Bindings) (constant : Constant) : Symbol :=
  .op .pushConst (bindings.constants.idxOf constant)

theorem Bindings.callee_isPush (bindings : Bindings) (name : String)
    (types : List ValueType) (operand : Nat) :
    (Symbol.op (bindings.callee name types).1 operand).isPush = false := by
  rcases bindings.callee_opcode name types with opcode | opcode
  · rw [opcode]
    rfl
  · rw [opcode]
    rfl

/-- The code of trees pushes their literals in order. -/
theorem Emits.filter_isPush {bindings : Bindings} {nodes : List Node}
    {first last : Nat} {code : List Symbol}
    (emitted : Emits bindings nodes first code last) :
    code.filter Symbol.isPush =
      ((Node.allSubtrees nodes).filterMap Node.pushed?).map
        bindings.push := by
  induction emitted with
  | nil label =>
      simp [Node.allSubtrees]
  | cons _ _ head tail =>
      rw [Node.allSubtrees_singleton] at head
      rw [List.filter_append, head, tail, Node.allSubtrees,
        List.filterMap_append, List.map_append]
  | block _ statements =>
      simpa [Node.subtrees, Node.pushed?, List.filterMap_cons]
        using statements
  | declare type name label =>
      simp [Node.subtrees, Node.optionalSubtrees, Node.pushed?,
        List.filterMap_cons]
  | define type _ _ value =>
      simpa [Node.subtrees, Node.optionalSubtrees, Node.pushed?,
        List.filterMap_cons, Symbol.isPush] using value
  | assign _ _ value =>
      simpa [Node.subtrees, Node.pushed?, List.filterMap_cons,
        Symbol.isPush] using value
  | call _ _ _ arguments =>
      simpa [Node.subtrees, Node.pushed?, List.filterMap_cons,
        Bindings.callee_isPush] using arguments
  | literal label _ =>
      simp [Node.subtrees, Node.pushed?, Symbol.isPush, Bindings.push]
  | var label _ =>
      simp [Node.subtrees, Node.pushed?, List.filterMap_cons, Symbol.isPush]
  | equal _ _ left right =>
      rw [Node.allSubtrees_singleton] at left right
      simp [Node.subtrees, Node.pushed?, List.filterMap_cons,
        Symbol.isPush, left, right]
  | branch _ _ _ test positive negative =>
      rw [Node.allSubtrees_singleton] at test positive
      rw [Node.allSubtrees_toList] at negative
      simp [Symbol.conditional, Node.subtrees, Node.pushed?,
        List.filterMap_cons, Symbol.isPush, test, positive, negative]

/-! ## Literals of source text -/

theorem Node.IsDeclaration.exists_body? {node : Node}
    (declared : node.IsDeclaration) :
    ∃ body, node.body? = some body ∧ body.IsStatement := by
  cases node with
  | trigger event filter body =>
      exact ⟨body, rfl, declared.2.2⟩
  | proc name params body =>
      exact ⟨body, rfl, declared.proc.2⟩
  | block | declare | assign | branch | call | literal | compare | var =>
      exact declared.elim

theorem Node.Printable.literal {nodes : List Node}
    (printable : Printable nodes) {value : Literal}
    (member : .literal value ∈ allSubtrees nodes) : value.Printable := by
  rw [allSubtrees_eq_flatMap] at member
  obtain ⟨node, inNodes, inNode⟩ := List.mem_flatMap.mp member
  obtain ⟨body, declares, isStatement⟩ :=
    (printable node inNodes).1.exists_body?
  rw [subtrees_of_body? declares] at inNode
  rcases List.mem_cons.mp inNode with rfl | inBody
  · cases declares
  · rcases body.phrase_of_statement isStatement _ inBody with
      impossible | isExpression
    · exact impossible.elim
    · exact isExpression

/-! ## Programs -/

namespace Program

/-- The table of constants of a program holds the literals of a script. -/
structure Tabulates (nodes : List Node) (program : Program) : Prop where
  table : program.constants = (Script.literals nodes).eraseDups
  distinct : program.constants.Nodup
  /-- Every place of the table is named by an instruction. -/
  used : ∀ index < program.constants.length,
    ∃ method ∈ program.methods, ∃ instruction ∈ method.code,
      instruction.opcode = .pushConst ∧ instruction.i = index
  /-- An `int` and a `long` of the same value have places of their own. -/
  apart : ∀ (narrow : Int32) (wide : Int64), narrow.toInt = wide.toInt →
    Constant.int narrow ∈ Script.literals nodes →
    Constant.long wide ∈ Script.literals nodes →
      ∃ index other : Nat, index ≠ other ∧
        program.constants[index]? = some (.int narrow) ∧
        program.constants[other]? = some (.long wide)

variable {catalog : Catalog} {nodes : List Node} {program : Program}

theorem assemble_pushes (assembled : assemble catalog nodes = .ok program)
    {constant : Constant} (member : constant ∈ program.constants) :
    ∃ method ∈ program.methods, ∃ instruction ∈ method.code,
      instruction.opcode = .pushConst ∧
        instruction.i = program.constants.idxOf constant := by
  rw [(assemble_records assembled).2, Script.mem_constants] at member
  obtain ⟨tree, inScript, pushed⟩ := member
  have undeclared : tree.body? = none := by
    cases tree with
    | literal value =>
        rfl
    | trigger | proc | block | declare | assign | branch | call | compare
    | var =>
        cases pushed
  obtain ⟨declaration, declared, inBody⟩ :=
    (assemble_hasCode assembled).exists_declaration inScript undeclared
  obtain ⟨procs, triggers, addressOf, linked⟩ := assemble_linked assembled
  obtain ⟨method, inProgram, base, code, first, last, emitted, included⟩ :=
    linked.exists_emits declared
  have inCode : (program.bindings catalog method).push constant ∈ code := by
    apply List.mem_of_mem_filter (p := Symbol.isPush)
    rw [emitted.filter_isPush, Node.allSubtrees_singleton]
    exact List.mem_map_of_mem (List.mem_filterMap.mpr ⟨tree, inBody, pushed⟩)
  obtain ⟨address, placed⟩ := Instruction.exists_mem_place base
    (List.mem_map_of_mem (f := Symbol.resolve addressOf) inCode)
  exact ⟨method, inProgram, _, included placed, rfl, rfl⟩

theorem assemble_tabulates
    (assembled : assemble catalog nodes = .ok program) :
    program.Tabulates nodes := by
  have table : program.constants = (Script.literals nodes).eraseDups := by
    rw [(assemble_records assembled).2, Script.constants,
      ConstantPool.entries_internAll, funext Node.pushed?_eq_constant?]
    rfl
  have distinct : program.constants.Nodup := by
    rw [(assemble_records assembled).2]
    exact Script.constants_nodup nodes
  have placed {constant : Constant}
      (member : constant ∈ Script.literals nodes) :
      program.constants[program.constants.idxOf constant]? =
        some constant := by
    apply List.getElem?_idxOf
    rw [table, List.mem_eraseDups]
    exact member
  refine ⟨table, distinct, ?_, ?_⟩
  · intro index bound
    have pushed := assemble_pushes assembled (List.getElem_mem bound)
    rwa [distinct.idxOf_getElem index bound] at pushed
  · intro narrow wide _ isNarrow isWide
    refine ⟨_, _, ?_, placed isNarrow, placed isWide⟩
    intro same
    have narrowAt := placed isNarrow
    rw [same, placed isWide] at narrowAt
    cases narrowAt

theorem compile_long {source : String}
    (compiled : compile catalog source = .ok program) {value : Int64}
    (member : .long value ∈ program.constants) :
    value.toInt < Int32.minValue.toInt ∨
      Int32.maxValue.toInt < value.toInt := by
  obtain ⟨tokens, nodes, scanned, parsed, assembled⟩ :=
    compile_eq_ok compiled
  rw [(assemble_records assembled).2, Script.mem_constants] at member
  obtain ⟨tree, inScript, pushed⟩ := member
  have isLong : tree = .literal (.long value) := by
    cases tree with
    | literal literal =>
        cases literal with
        | long wide =>
            cases pushed
            rfl
        | int | string | bool =>
            cases pushed
    | trigger | proc | block | declare | assign | branch | call | compare
    | var =>
        cases pushed
  rw [isLong] at inScript
  exact (Node.printable_of_scan scanned parsed).literal inScript

/-- The table of constants holds the literals of the script, each once, in the
order in which a reader first meets them, and every place of it is used.  In a
program for source text no `long` has a value for which an `int` is wide
enough. -/
theorem constants_eq_literals :
    (∀ (catalog : Catalog) (nodes : List Node) (program : Program),
      assemble catalog nodes = .ok program → program.Tabulates nodes) ∧
    ∀ (catalog : Catalog) (source : String) (program : Program),
      compile catalog source = .ok program →
        ∀ value : Int64, .long value ∈ program.constants →
          value.toInt < Int32.minValue.toInt ∨
            Int32.maxValue.toInt < value.toInt := by
  constructor
  · intro catalog nodes program assembled
    exact assemble_tabulates assembled
  · intro catalog source program compiled value member
    exact compile_long compiled member

end Program

/-! ## An example -/

/-- Values that are written more than once, as an `int`, as a `long` and as a
boolean.  No source text is scanned into a `long` this small. -/
def tallyScript : List Node :=
  [.trigger "knock" "2" (.call "count" [.literal (.long 7)]),
    .proc "count" [⟨"start", "long"⟩] (.block
      [.declare "int" "total" (some (.literal (.bool true))),
        .assign "total" (.literal (.int 7)),
        .assign "total" (.literal (.int 1)),
        .assign "start" (.literal (.long 7))])]

/-- The same with a value that an `int` is too narrow for. -/
def wideScript : List Node :=
  [.proc "count" [] (.block
    [.declare "long" "total" (some (.literal (.long 3000000000))),
      .assign "total" (.literal (.int 7))])]

theorem constants_eq_literals_tally :
    (∃ program, Program.assemble doorCatalog tallyScript = .ok program ∧
      program.constants = [.long 7, .int 1, .int 7] ∧
      program.Tabulates tallyScript) ∧
    ∃ program, Program.compile doorCatalog (Node.render wideScript) =
        .ok program ∧
      program.constants = [.long 3000000000, .int 7] ∧
      ∀ value : Int64, .long value ∈ program.constants →
        value.toInt < Int32.minValue.toInt ∨
          Int32.maxValue.toInt < value.toInt := by
  constructor
  · have evaluated : (Program.assemble doorCatalog tallyScript).toOption.map
        Program.constants = some [.long 7, .int 1, .int 7] := by
      decide +kernel
    cases result : Program.assemble doorCatalog tallyScript with
    | error error =>
        rw [result] at evaluated
        cases evaluated
    | ok program =>
        rw [result] at evaluated
        exact ⟨program, rfl, Option.some.inj evaluated,
          Program.constants_eq_literals.1 _ _ _ result⟩
  · have printable : Node.Printable wideScript := by
      simp [wideScript, Node.Printable, Node.IsDeclaration,
        Node.AreStatements, Node.IsStatement, Node.IsExpression,
        Literal.Printable, Node.NearestElse, Node.AllNearestElse]
      decide
    obtain ⟨tokens, scanned, parsed⟩ := Node.parse_scan_render printable
    have compiled : Program.compile doorCatalog (Node.render wideScript) =
        (Program.assemble doorCatalog wideScript).mapError .compile :=
      Program.compile_of_parse scanned parsed
    have evaluated : (Program.assemble doorCatalog wideScript).toOption.map
        Program.constants = some [.long 3000000000, .int 7] := by
      decide +kernel
    cases result : Program.assemble doorCatalog wideScript with
    | error error =>
        rw [result] at evaluated
        cases evaluated
    | ok program =>
        rw [result] at evaluated compiled
        exact ⟨program, compiled, Option.some.inj evaluated,
          Program.constants_eq_literals.2 _ _ _ compiled⟩

end TriggerScript
