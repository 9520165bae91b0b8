import TriggerScript.Proofs.Acceptance
import TriggerScript.Proofs.ScriptPrograms

/-!
# The order of declarations

Procedures and triggers may stand in any order around each other, as long as
the procedures keep their order and the triggers keep theirs.  Labels are taken
and constants are put into the table in another order then; everything else in
the program is the same.

Two facts carry this.  Methods are numbered with all procedures in front, so
their order does not change.  A call without `@` in front cannot reach a
trigger, so it does not matter which triggers were assembled before it.
-/

namespace TriggerScript

/-! ## Interleavings -/

/-- `Interleaves procs triggers nodes` says that `nodes` holds these procedures
and these triggers, each in their own order. -/
inductive Script.Interleaves : List Node → List Node → List Node → Prop
  | nil : Interleaves [] [] []
  | proc {procs triggers nodes : List Node} (name : String)
      (params : List Param) (body : Node) :
      Interleaves procs triggers nodes →
      Interleaves (.proc name params body :: procs) triggers
        (.proc name params body :: nodes)
  | trigger {procs triggers nodes : List Node} (event filter : String)
      (body : Node) :
      Interleaves procs triggers nodes →
      Interleaves procs (.trigger event filter body :: triggers)
        (.trigger event filter body :: nodes)

/-- Two scripts with the same procedures in order and the same triggers in
order. -/
structure Script.Rearranged (first second : List Node) : Prop where
  perm : first.Perm second
  procs : Declaration.procs first = Declaration.procs second
  triggers : Declaration.triggers 0 first = Declaration.triggers 0 second
  headings : ∀ known, checkHeadings first known = checkHeadings second known

namespace Script.Interleaves

variable {procs triggers nodes : List Node}

theorem perm (interleaves : Interleaves procs triggers nodes) :
    nodes.Perm (procs ++ triggers) := by
  induction interleaves with
  | nil =>
      exact .nil
  | proc name params body _ inductionHypothesis =>
      exact inductionHypothesis.cons _
  | trigger event filter body _ inductionHypothesis =>
      exact (inductionHypothesis.cons _).trans List.perm_middle.symm

theorem procs_eq (interleaves : Interleaves procs triggers nodes) :
    Declaration.procs nodes = Declaration.procs procs := by
  induction interleaves with
  | nil =>
      rfl
  | proc name params body _ inductionHypothesis =>
      rw [Declaration.procs, Declaration.procs, inductionHypothesis]
  | trigger event filter body _ inductionHypothesis =>
      exact inductionHypothesis

theorem triggers_eq (interleaves : Interleaves procs triggers nodes)
    (ordinal : Nat) :
    Declaration.triggers ordinal nodes =
      Declaration.triggers ordinal triggers := by
  induction interleaves generalizing ordinal with
  | nil =>
      rfl
  | proc name params body _ inductionHypothesis =>
      exact inductionHypothesis ordinal
  | trigger event filter body _ inductionHypothesis =>
      rw [Declaration.triggers, Declaration.triggers, inductionHypothesis]

theorem checkHeadings_eq (interleaves : Interleaves procs triggers nodes)
    (known : List String) :
    checkHeadings nodes known = checkHeadings procs known := by
  induction interleaves generalizing known with
  | nil =>
      rfl
  | proc name params body _ inductionHypothesis =>
      rw [checkHeadings, checkHeadings]
      congr
      funext _
      exact inductionHypothesis (known ++ [name])
  | trigger event filter body _ inductionHypothesis =>
      exact inductionHypothesis known

theorem rearranged {other : List Node}
    (interleaves : Interleaves procs triggers nodes)
    (others : Interleaves procs triggers other) :
    Rearranged nodes other where
  perm := interleaves.perm.trans others.perm.symm
  procs := interleaves.procs_eq.trans others.procs_eq.symm
  triggers := (interleaves.triggers_eq 0).trans (others.triggers_eq 0).symm
  headings known := (interleaves.checkHeadings_eq known).trans
    (others.checkHeadings_eq known).symm

end Script.Interleaves

/-! ## Acceptance -/

/-- When the names that can be called are fixed, declarations are checked one
by one. -/
theorem Script.checkFrom_eq_ok {catalog : Catalog} {callable : List String}
    {begun rest : List Node} :
    checkFrom catalog (fun _ => callable) begun rest = .ok () ↔
      ∀ node ∈ rest, checkDeclaration catalog callable node = .ok () := by
  induction rest generalizing begun with
  | nil =>
      simp [checkFrom]
  | cons node rest inductionHypothesis =>
      have later := @inductionHypothesis (begun ++ [node])
      rw [checkFrom, List.forall_mem_cons, ← later]
      cases checkDeclaration catalog callable node with
      | error error =>
          simp [bind, Except.bind]
      | ok value =>
          simp [bind, Except.bind]

theorem Script.Rearranged.check_eq_ok {catalog : Catalog}
    {first second : List Node} (rearranged : Rearranged first second)
    (checked : check catalog first = .ok ()) :
    check catalog second = .ok () := by
  unfold check at checked ⊢
  rw [← rearranged.headings]
  cases headings : checkHeadings first [] with
  | error error =>
      rw [headings] at checked
      cases checked
  | ok procs =>
      rw [headings] at checked
      have each := checkFrom_eq_ok.mp checked
      apply checkFrom_eq_ok.mpr
      intro node member
      exact each node (rearranged.perm.mem_iff.mpr member)

/-! ## Programs that differ in their order of constants and labels -/

/-- The same instruction for two tables of constants: a constant may have two
places, and a marker may have two labels. -/
structure Instruction.Alike (left right : List Constant)
    (first second : Instruction) : Prop where
  opcode : first.opcode = second.opcode
  operand : first.opcode ≠ .pushConst → first.i = second.i
  constant : first.opcode = .pushConst → ∃ constant,
    left[first.i]? = some constant ∧ right[second.i]? = some constant
  l : first.l = second.l
  s : first.s = second.s
  address : first.address = second.address
  marks : first.label?.isSome = second.label?.isSome

structure Method.Alike (left right : List Constant)
    (first second : Method) : Prop where
  name : first.name = second.name
  index : first.index = second.index
  locals : first.locals = second.locals
  params : first.params = second.params
  address : first.address = second.address
  code : List.Forall₂ (Instruction.Alike left right) first.code second.code

structure TriggerEntry.Alike (first second : TriggerEntry) : Prop where
  event : first.event = second.event
  listenerId : first.listenerId = second.listenerId
  filter : first.filter = second.filter
  address : first.address = second.address

structure Program.Alike (first second : Program) : Prop where
  methods : List.Forall₂
    (Method.Alike first.constants second.constants)
    first.methods second.methods
  constants : first.constants.Perm second.constants
  triggers : List.Forall₂ TriggerEntry.Alike first.triggers second.triggers

theorem Instruction.Alike.of_eq {left right : List Constant}
    {first second : Instruction} (same : first = second)
    (noConstant : first.opcode ≠ .pushConst) :
    first.Alike left right second := by
  subst same
  exact ⟨rfl, fun _ => rfl, fun isPush => absurd isPush noConstant, rfl, rfl,
    rfl, rfl⟩

theorem Instruction.Alike.of_nameless {left right : List Constant}
    {first second : Instruction}
    (alike : first.nameless.Alike left right second.nameless) :
    first.Alike left right second where
  opcode := alike.opcode
  operand := alike.operand
  constant := alike.constant
  l := alike.l
  s := alike.s
  address := alike.address
  marks := by
    have marks := alike.marks
    rwa [nameless_isSome, nameless_isSome] at marks

/-- Binding against two tables of constants. -/
theorem Bindings.instruction_alike (left right : Bindings)
    (catalogs : left.catalog = right.catalog)
    (methods : left.methods = right.methods)
    (locals : left.locals = right.locals)
    (address : Nat) (named : NamedInstruction)
    (known : ∀ constant, named = .push constant →
      constant ∈ left.constants ∧ constant ∈ right.constants) :
    (left.instruction (address, named)).Alike left.constants
      right.constants (right.instruction (address, named)) := by
  cases named with
  | push constant =>
      obtain ⟨inLeft, inRight⟩ := known constant rfl
      exact ⟨rfl, fun noConstant => absurd rfl noConstant,
        fun _ => ⟨constant, List.getElem?_idxOf inLeft,
          List.getElem?_idxOf inRight⟩, rfl, rfl, rfl, rfl⟩
  | get name =>
      apply Instruction.Alike.of_eq
      · rw [instruction, instruction, locals]
      · simp [instruction]
  | set name =>
      apply Instruction.Alike.of_eq
      · rw [instruction, instruction, locals]
      · simp [instruction]
  | call name types =>
      have callees : left.callee name types = right.callee name types := by
        rw [callee, callee, catalogs, methods]
      apply Instruction.Alike.of_eq
      · rw [instruction, instruction, callees]
      · rcases left.callee_opcode name types with native | method
        · simp [instruction, native]
        · simp [instruction, method]
  | equal | jump | jumpIfZero | ret | marker =>
      apply Instruction.Alike.of_eq
      · rfl
      · simp [instruction, Instruction.marker]

theorem Node.pushed?_of_closing? {tree : Node} {constant : Constant}
    (closes : tree.closing? = some (.push constant)) :
    tree.pushed? = some constant := by
  unfold closing? at closes
  split at closes <;> cases closes
  rfl

/-- What a declaration pushes is in the table of constants. -/
theorem Declaration.mem_constants {nodes : List Node}
    {declaration : Declaration} (member : declaration ∈ all nodes)
    {base address : Nat} {constant : Constant}
    (pushed : (address, .push constant) ∈ declaration.namedCode base) :
    constant ∈ Script.constants nodes := by
  cases declaration.speak_namedCode base _ pushed with
  | control steers =>
      cases steers
  | closing tree inBody closes =>
      exact Script.mem_constants.mpr ⟨tree, subtrees_subset member inBody,
        Node.pushed?_of_closing? closes⟩

namespace Script.Rearranged

variable {catalog : Catalog} {first second : List Node} {left right : Program}

theorem all_eq (rearranged : Rearranged first second) :
    Declaration.all first = Declaration.all second := by
  rw [Declaration.all, rearranged.procs, rearranged.triggers,
    Declaration.all]

theorem constants_perm (rearranged : Rearranged first second) :
    (constants first).Perm (constants second) := by
  rw [List.perm_ext_iff_of_nodup (constants_nodup first)
    (constants_nodup second)]
  intro constant
  have subtrees : ∀ tree, tree ∈ Node.allSubtrees first ↔
      tree ∈ Node.allSubtrees second := by
    intro tree
    rw [Node.allSubtrees_eq_flatMap, Node.allSubtrees_eq_flatMap]
    exact (rearranged.perm.flatMap_right Node.subtrees).mem_iff
  simp only [mem_constants, subtrees]

theorem address_eq (rearranged : Rearranged first second) (place : Nat) :
    address first place = address second place := by
  rw [address, rearranged.all_eq, address]

/-- A declaration yields methods that differ in their labels and in the places
of their constants only. -/
theorem method_alike (rearranged : Rearranged first second)
    {place : Nat} {declaration : Declaration}
    (member : declaration ∈ Declaration.all first) {method other : Method}
    (yields : declaration.Yields catalog first place method)
    (others : declaration.Yields catalog second place other) :
    method.Alike (constants first) (constants second) other where
  name := yields.name.trans others.name.symm
  index := yields.index.trans others.index.symm
  locals := yields.locals.trans others.locals.symm
  params := yields.params.trans others.params.symm
  address := by
    rw [yields.address, others.address, rearranged.address_eq]
  code := by
    have sketches : List.Forall₂
        (Instruction.Alike (constants first) (constants second))
        (method.code.map Instruction.nameless)
        (other.code.map Instruction.nameless) := by
      rw [yields.code, others.code, ← rearranged.address_eq,
        List.forall₂_map_left_iff, List.forall₂_map_right_iff,
        List.forall₂_same]
      rintro ⟨address, named⟩ inCode
      apply Bindings.instruction_alike (bindings catalog first declaration)
        (bindings catalog second declaration)
      · rfl
      · rw [bindings, rearranged.all_eq]
        rfl
      · rfl
      · rintro constant rfl
        exact ⟨Declaration.mem_constants member inCode,
          Declaration.mem_constants (rearranged.all_eq ▸ member) inCode⟩
    rw [List.forall₂_map_left_iff, List.forall₂_map_right_iff] at sketches
    exact sketches.imp fun _ _ => Instruction.Alike.of_nameless

theorem row_alike (rearranged : Rearranged first second) {place : Nat}
    {declaration : Declaration} {row other : TriggerEntry}
    (enters : declaration.Enters catalog first place row)
    (others : declaration.Enters catalog second place other) :
    row.Alike other := by
  obtain ⟨events, listeners, filters⟩ :=
    enters.agree others rfl fun _ _ => id
  refine ⟨events, listeners, filters, ?_⟩
  rw [enters.address, others.address, rearranged.address_eq]

theorem alike (rearranged : Rearranged first second)
    (assembled : Program.assemble catalog first = .ok left)
    (again : Program.assemble catalog second = .ok right) :
    left.Alike right := by
  have leftConstants := (Program.assemble_records assembled).2
  have rightConstants := (Program.assemble_records again).2
  constructor
  · rw [leftConstants, rightConstants]
    apply forall₂_of_getElem?
    · rw [Program.assemble_length assembled, Program.assemble_length again,
        rearranged.all_eq]
    · intro place method other methodAt otherAt
      have same : Declaration.all second =
          (Declaration.all first).map id := by
        rw [rearranged.all_eq, List.map_id]
      obtain ⟨declaration, declared, yields, others⟩ :=
        Program.yields_both assembled again same methodAt otherAt
      exact rearranged.method_alike (List.mem_of_getElem? declared) yields
        others
  · rw [leftConstants, rightConstants]
    exact rearranged.constants_perm
  · apply forall₂_of_getElem?
    · rw [Program.assemble_triggers_length assembled,
        Program.assemble_triggers_length again, rearranged.triggers]
    · intro number row other rowAt otherAt
      have same : Declaration.triggers 0 second =
          (Declaration.triggers 0 first).map id := by
        rw [rearranged.triggers, List.map_id]
      have behind : (Declaration.procs second).length =
          (Declaration.procs first).length := by
        rw [rearranged.procs]
      obtain ⟨declaration, place, enters, others⟩ :=
        Program.enters_both assembled again same behind rowAt otherAt
      exact rearranged.row_alike enters others

end Script.Rearranged

/-! ## Assembling in another order -/

/-- Procedures and triggers may be interleaved at will when no call starts with
`@`: all interleavings are accepted or none is, and the programs differ in their
labels and in the order of their constants only. -/
theorem Program.assemble_interleaved {catalog : Catalog}
    {procs triggers first second : List Node}
    (plain : ∀ node ∈ procs ++ triggers, ∀ name ∈ node.calledNames,
      name.toList.head? ≠ some '@')
    (interleaves : Script.Interleaves procs triggers first)
    (others : Script.Interleaves procs triggers second) :
    ((∃ left, assemble catalog first = .ok left) ↔
        ∃ right, assemble catalog second = .ok right) ∧
      ∀ left right, assemble catalog first = .ok left →
        assemble catalog second = .ok right → left.Alike right := by
  have plainFirst : ∀ node ∈ first, ∀ name ∈ node.calledNames,
      name.toList.head? ≠ some '@' :=
    fun node member => plain node (interleaves.perm.mem_iff.mp member)
  have plainSecond : ∀ node ∈ second, ∀ name ∈ node.calledNames,
      name.toList.head? ≠ some '@' :=
    fun node member => plain node (others.perm.mem_iff.mp member)
  constructor
  · rw [exists_assemble_iff, exists_assemble_iff,
      ← Script.check_eq_checkWithTriggers plainFirst,
      ← Script.check_eq_checkWithTriggers plainSecond]
    constructor
    · exact (interleaves.rearranged others).check_eq_ok
    · exact (others.rearranged interleaves).check_eq_ok
  · intro left right assembled again
    exact (interleaves.rearranged others).alike assembled again

/-- With the procedure in front, its constants come first. -/
theorem assemble_interleaved_door :
    (∀ node ∈ doorScript.drop 1 ++ doorScript.take 1,
        ∀ name ∈ node.calledNames, name.toList.head? ≠ some '@') ∧
      Script.Interleaves (doorScript.drop 1) (doorScript.take 1)
        doorScript ∧
      Script.Interleaves (doorScript.drop 1) (doorScript.take 1)
        doorScript.reverse ∧
      ∃ other,
        Program.assemble doorCatalog doorScript.reverse = .ok other ∧
          doorProgram.Alike other ∧
          doorProgram.constants =
            [.int 1, .string "dog", .string "cat", .int 0] ∧
          other.constants =
            [.string "cat", .int 1, .int 0, .string "dog"] := by
  have plain : ∀ node ∈ doorScript.drop 1 ++ doorScript.take 1,
      ∀ name ∈ node.calledNames, name.toList.head? ≠ some '@' := by
    decide
  have first : Script.Interleaves (doorScript.drop 1) (doorScript.take 1)
      doorScript :=
    .trigger _ _ _ (.proc _ _ _ .nil)
  have second : Script.Interleaves (doorScript.drop 1) (doorScript.take 1)
      doorScript.reverse :=
    .proc _ _ _ (.trigger _ _ _ .nil)
  obtain ⟨accepted, alike⟩ := Program.assemble_interleaved plain first second
  obtain ⟨other, again⟩ := accepted.mp ⟨doorProgram, assemble_door⟩
  refine ⟨plain, first, second, other, again,
    alike doorProgram other assemble_door again, rfl, ?_⟩
  rw [(Program.assemble_records again).2]
  decide +kernel

end TriggerScript
