import TriggerScript.Proofs.Script
import TriggerScript.Proofs.Subtrees

/-!
# What bodies leave behind

Apart from its operations, a body leaves variables, constants and labels
behind, and all of them can be read off the list of its subtrees:

* a declaration of a variable is numbered when it is met;
* a literal is put into the table of constants when it is met;
* a conditional takes two labels when its condition has been assembled.

So the variables of every method, the table of constants and all labels of a
program are known from its script alone.  They depend neither on the catalog
nor on what the names in the script mean.
-/

namespace TriggerScript

/-! ## Views of subtrees -/

namespace Node

def declared? : Node → Option (String × ValueType)
  | declare type name _ =>
      (ValueType.ofVariableName? type).map fun known => (name, known)
  | _ => none

def pushed? : Node → Option Constant
  | literal value => some (.ofLiteral value)
  | _ => none

def isConditional : Node → Bool
  | branch .. => true
  | _ => false

def labelCount (trees : List Node) : Nat :=
  2 * trees.countP isConditional

@[simp]
theorem labelCount_append (left right : List Node) :
    labelCount (left ++ right) = labelCount left + labelCount right := by
  rw [labelCount, List.countP_append, Nat.mul_add]
  rfl

@[simp]
theorem labelCount_cons (tree : Node) (trees : List Node) :
    labelCount (tree :: trees) =
      (if tree.isConditional then 2 else 0) + labelCount trees := by
  rw [labelCount, List.countP_cons, Nat.mul_add, Nat.add_comm]
  split <;> rfl

mutual

/-- The labels that the code of a tree marks, in order, when labels are taken
from `first` on. -/
def labels (first : Nat) : Node → List Nat
  | trigger _ _ _ => []
  | proc _ _ _ => []
  | block statements => allLabels first statements
  | declare _ _ value => optionalLabels first value
  | assign _ value => value.labels first
  | branch condition thenBranch elseBranch =>
      let other := first + labelCount condition.subtrees
      let behind := other + 2 + labelCount thenBranch.subtrees
      condition.labels first ++ thenBranch.labels (other + 2) ++ [other] ++
        optionalLabels behind elseBranch ++ [other + 1]
  | call _ args => allLabels first args
  | literal _ => []
  | compare left _ right =>
      left.labels first ++ right.labels (first + labelCount left.subtrees)
  | var _ => []

def allLabels (first : Nat) : List Node → List Nat
  | [] => []
  | node :: nodes =>
      node.labels first ++
        allLabels (first + labelCount node.subtrees) nodes

def optionalLabels (first : Nat) : Option Node → List Nat
  | none => []
  | some node => node.labels first

end

theorem allLabels_singleton (first : Nat) (node : Node) :
    allLabels first [node] = node.labels first := by
  simp [allLabels]

theorem allLabels_toList (first : Nat) (node : Option Node) :
    allLabels first node.toList = optionalLabels first node := by
  cases node with
  | none =>
      simp [allLabels, optionalLabels]
  | some node =>
      simp [allLabels, optionalLabels]

end Node

/-- The labels marked in the code of trees are those counted in the trees. -/
theorem Emits.labels_eq {bindings : Bindings} {nodes : List Node}
    {first last : Nat} {code : List Symbol}
    (emitted : Emits bindings nodes first code last) :
    Symbol.labels code = Node.allLabels first nodes ∧
      last = first + Node.labelCount (Node.allSubtrees nodes) := by
  induction emitted with
  | nil label =>
      simp [Node.allLabels, Node.allSubtrees, Node.labelCount]
  | cons _ _ head tail =>
      rw [Node.allLabels_singleton, Node.allSubtrees_singleton] at head
      rw [Symbol.labels_append, Node.allLabels, Node.allSubtrees,
        Node.labelCount_append, head.1, tail.1, ← head.2, tail.2, head.2]
      exact ⟨rfl, Nat.add_assoc _ _ _⟩
  | block _ statements =>
      rw [Node.allLabels_singleton, Node.allSubtrees_singleton, Node.labels,
        Node.subtrees]
      exact statements
  | declare type name label =>
      rw [Node.allLabels_singleton, Node.allSubtrees_singleton, Node.labels,
        Node.subtrees, Node.optionalLabels, Node.optionalSubtrees]
      exact ⟨rfl, rfl⟩
  | define type _ _ value =>
      rw [Node.allLabels_singleton, Node.allSubtrees_singleton] at value ⊢
      rw [Node.labels, Node.subtrees, Node.optionalLabels,
        Node.optionalSubtrees]
      simpa [Node.isConditional] using value
  | assign _ _ value =>
      rw [Node.allLabels_singleton, Node.allSubtrees_singleton] at value ⊢
      rw [Node.labels, Node.subtrees]
      simpa [Node.isConditional] using value
  | call _ _ _ arguments =>
      rw [Node.allLabels_singleton, Node.allSubtrees_singleton, Node.labels,
        Node.subtrees]
      simpa [Node.isConditional] using arguments
  | literal label _ =>
      rw [Node.allLabels_singleton, Node.allSubtrees_singleton, Node.labels,
        Node.subtrees]
      exact ⟨rfl, rfl⟩
  | var label _ =>
      rw [Node.allLabels_singleton, Node.allSubtrees_singleton, Node.labels,
        Node.subtrees]
      exact ⟨rfl, rfl⟩
  | equal _ _ left right =>
      rw [Node.allLabels_singleton, Node.allSubtrees_singleton]
        at left right ⊢
      rw [Node.labels, Node.subtrees, ← left.2]
      refine ⟨?_, ?_⟩
      · simp [left.1, right.1]
      · rw [right.2, left.2]
        simp [Node.isConditional, Nat.add_assoc]
  | branch _ _ _ test positive negative =>
      rw [Node.allLabels_singleton, Node.allSubtrees_singleton]
        at test positive
      rw [Node.allLabels_toList, Node.allSubtrees_toList] at negative
      rw [Node.allLabels_singleton, Node.allSubtrees_singleton, Node.labels,
        Node.subtrees, ← test.2, ← positive.2]
      refine ⟨?_, ?_⟩
      · simp [Symbol.conditional, test.1, positive.1, negative.1]
      · rw [negative.2, positive.2, test.2]
        simp only [Node.labelCount_cons, Node.labelCount_append,
          Node.isConditional, if_true]
        omega

/-! ## Variables and constants of bodies -/

/-- The names and types of the variables, in the order of their numbers. -/
def Method.signature (method : Method) : List (String × ValueType) :=
  method.locals.map fun known => (known.name, known.type)

def ConstantPool.internAll (pool : ConstantPool)
    (constants : List Constant) : ConstantPool :=
  constants.foldl (fun current constant => (current.intern constant).2) pool

theorem ConstantPool.internAll_append (pool : ConstantPool)
    (left right : List Constant) :
    pool.internAll (left ++ right) =
      (pool.internAll left).internAll right :=
  List.foldl_append

theorem ConstantPool.intern_entries (pool : ConstantPool)
    (constant : Constant) :
    (pool.intern constant).2.entries =
      if constant ∈ pool.entries then pool.entries
      else pool.entries ++ [constant] := by
  unfold intern
  cases found : pool.entries.idxOf? constant with
  | some index =>
      have member : constant ∈ pool.entries :=
        List.isSome_idxOf?.mp (by rw [found]; rfl)
      rw [if_pos member]
  | none =>
      rw [if_neg (List.idxOf?_eq_none_iff.mp found)]

theorem ConstantPool.mem_internAll {pool : ConstantPool}
    {constants : List Constant} {constant : Constant} :
    constant ∈ (pool.internAll constants).entries ↔
      constant ∈ pool.entries ∨ constant ∈ constants := by
  induction constants generalizing pool with
  | nil =>
      simp [internAll]
  | cons next rest inductionHypothesis =>
      have interned : constant ∈ (pool.intern next).2.entries ↔
          constant ∈ pool.entries ∨ constant = next := by
        rw [intern_entries]
        by_cases known : next ∈ pool.entries
        · rw [if_pos known]
          constructor
          · exact Or.inl
          · rintro (member | rfl)
            · exact member
            · exact known
        · rw [if_neg known, List.mem_append, List.mem_singleton]
      have stepped : pool.internAll (next :: rest) =
          (pool.intern next).2.internAll rest := rfl
      rw [stepped, inductionHypothesis, interned, List.mem_cons, or_assoc]

theorem ConstantPool.nodup_internAll {pool : ConstantPool}
    (distinct : pool.entries.Nodup) (constants : List Constant) :
    (pool.internAll constants).entries.Nodup := by
  induction constants generalizing pool with
  | nil =>
      exact distinct
  | cons next rest inductionHypothesis =>
      apply inductionHypothesis
      rw [intern_entries]
      by_cases known : next ∈ pool.entries
      · rw [if_pos known]
        exact distinct
      · rw [if_neg known, ← List.concat_eq_append]
        exact List.Nodup.concat known distinct

/-- Work that leaves behind the variables and constants of some trees. -/
def DraftM.Leaves {α : Type} (work : DraftM α) (trees : List Node) :
    Prop :=
  ∀ before result after, work before = .ok result after →
    after.method.signature =
        before.method.signature ++ trees.filterMap Node.declared? ∧
      after.tables.constants =
        before.tables.constants.internAll (trees.filterMap Node.pushed?)

namespace DraftM

variable {α β : Type} {left right trees : List Node}

theorem Leaves.bind {first : DraftM α} {next : α → DraftM β}
    (firstLeaves : first.Leaves left)
    (nextLeaves : ∀ value, (next value).Leaves right) :
    (first >>= next).Leaves (left ++ right) := by
  intro before result after run
  obtain ⟨value, middle, firstRun, nextRun⟩ := bind_eq_ok.mp run
  have firstLeft := firstLeaves before value middle firstRun
  have nextLeft := nextLeaves value middle result after nextRun
  constructor
  · rw [nextLeft.1, firstLeft.1, List.filterMap_append, List.append_assoc]
  · rw [nextLeft.2, firstLeft.2, List.filterMap_append,
      ConstantPool.internAll_append]

/-- A tree in front that neither declares a variable nor pushes a constant
leaves nothing behind. -/
theorem Leaves.cons {work : DraftM α} (leaves : work.Leaves trees)
    {tree : Node} (undeclared : tree.declared? = none)
    (unpushed : tree.pushed? = none) : work.Leaves (tree :: trees) := by
  intro before result after run
  rw [List.filterMap_cons_none undeclared, List.filterMap_cons_none unpushed]
  exact leaves before result after run

/-- Work behind which nothing is left. -/
theorem Leaves.bind_nil {first : DraftM α} {next : α → DraftM β}
    (firstLeaves : first.Leaves trees)
    (nextLeaves : ∀ value, (next value).Leaves []) :
    (first >>= next).Leaves trees := by
  rw [← List.append_nil trees]
  exact firstLeaves.bind nextLeaves

theorem pure_leaves (value : α) : (pure value : DraftM α).Leaves [] := by
  intro before result after run
  obtain ⟨_, rfl⟩ := pure_eq_ok.mp run
  exact ⟨(List.append_nil _).symm, rfl⟩

theorem throw_leaves (error : CompileError) :
    (throw error : DraftM α).Leaves trees :=
  fun _ _ _ run => absurd run throw_ne_ok

theorem liftExcept_leaves (outcome : Except CompileError α) :
    (liftExcept outcome : DraftM α).Leaves [] := by
  intro before result after run
  obtain ⟨_, rfl⟩ := liftExcept_eq_ok.mp run
  exact ⟨(List.append_nil _).symm, rfl⟩

theorem emit_leaves (instruction : Instruction) :
    (emit instruction).Leaves [] := by
  intro before result after run
  cases run
  exact ⟨(List.append_nil _).symm, rfl⟩

theorem newLabel_leaves : newLabel.Leaves [] := by
  intro before result after run
  cases run
  exact ⟨(List.append_nil _).symm, rfl⟩

theorem emitBranch_leaves (opcode : Opcode) (label : Nat) :
    (emitBranch opcode label).Leaves [] := by
  intro before result after run
  cases run
  exact ⟨(List.append_nil _).symm, rfl⟩

theorem pushLiteral_leaves (literal : Literal) :
    (pushLiteral literal).Leaves [.literal literal] := by
  intro before result after run
  cases run
  exact ⟨(List.append_nil _).symm, rfl⟩

theorem variableIndex_leaves (name : String) :
    (variableIndex name).Leaves [] := by
  intro before index after run
  obtain ⟨draft, middle, got, rest⟩ := bind_eq_ok.mp run
  cases got
  cases lookup : before.method.variableNamed? name with
  | none =>
      rw [lookup] at rest
      exact absurd rest throw_ne_ok
  | some found =>
      rw [lookup] at rest
      obtain ⟨_, rfl⟩ := pure_eq_ok.mp rest
      exact ⟨(List.append_nil _).symm, rfl⟩

theorem declare_leaves (type name : String) (value : Option Node) :
    (DraftM.declare type name).Leaves [.declare type name value] := by
  intro before index after run
  unfold DraftM.declare at run
  cases typed : ValueType.ofVariableName? type with
  | none =>
      rw [typed] at run
      exact absurd run throw_ne_ok
  | some valueType =>
      rw [typed] at run
      obtain ⟨draft, middle, got, rest⟩ := bind_eq_ok.mp run
      cases got
      have declared : Node.declared? (.declare type name value) =
          some (name, valueType) := by
        rw [Node.declared?, typed]
        rfl
      rw [List.filterMap_cons_some declared]
      split at rest
      · exact absurd rest throw_ne_ok
      · cases rest
        refine ⟨?_, rfl⟩
        simp [Method.signature]

end DraftM

namespace Node

open DraftM

mutual

/-- Assembling a tree leaves behind the variables and constants of its
subtrees. -/
theorem assemble_leaves (scope : Scope) :
    (node : Node) → (node.assemble scope).Leaves node.subtrees
  | trigger event filter body => by
      rw [assemble]
      exact throw_leaves _
  | proc name params body => by
      rw [assemble]
      exact throw_leaves _
  | block statements => by
      rw [assemble, subtrees]
      exact (assembleAll_leaves scope statements).cons rfl rfl
  | declare type name none => by
      rw [assemble, subtrees, optionalSubtrees]
      exact (declare_leaves type name none).bind_nil fun _ => pure_leaves _
  | declare type name (some value) => by
      rw [assemble, subtrees, optionalSubtrees]
      exact (declare_leaves type name (some value)).bind fun _ =>
        (assemble_leaves scope value).bind_nil fun _ => emit_leaves _
  | assign name value => by
      rw [assemble, subtrees]
      refine Leaves.cons ?_ rfl rfl
      exact (variableIndex_leaves name).bind fun _ =>
        (assemble_leaves scope value).bind_nil fun _ => emit_leaves _
  | branch condition thenBranch elseBranch => by
      rw [assemble_branch, subtrees]
      refine Leaves.cons ?_ rfl rfl
      exact (assemble_leaves scope condition).bind fun _ =>
        newLabel_leaves.bind fun _ =>
          newLabel_leaves.bind fun _ =>
            (emitBranch_leaves _ _).bind fun _ =>
              (assemble_leaves scope thenBranch).bind fun _ =>
                (emitBranch_leaves _ _).bind fun _ =>
                  (emit_leaves _).bind fun _ =>
                    (assembleOptional_leaves scope elseBranch).bind_nil
                      fun _ => emit_leaves _
  | call name args => by
      rw [assemble, subtrees]
      refine Leaves.cons ?_ rfl rfl
      exact (liftExcept_leaves _).bind fun _ =>
        (liftExcept_leaves _).bind fun _ =>
          (assembleAll_leaves scope args).bind_nil fun _ => emit_leaves _
  | literal value => by
      rw [assemble, subtrees]
      exact pushLiteral_leaves value
  | compare left comparator right => by
      rw [assemble, subtrees]
      refine Leaves.cons ?_ rfl rfl
      refine (assemble_leaves scope left).bind fun _ =>
        (assemble_leaves scope right).bind_nil fun _ => ?_
      split
      · exact emit_leaves _
      · exact throw_leaves _
  | var name => by
      rw [assemble, subtrees]
      refine Leaves.cons ?_ rfl rfl
      exact (variableIndex_leaves name).bind fun _ => emit_leaves _

theorem assembleAll_leaves (scope : Scope) :
    (nodes : List Node) →
      (assembleAll scope nodes).Leaves (allSubtrees nodes)
  | [] => by
      rw [assembleAll, allSubtrees]
      exact pure_leaves _
  | node :: nodes => by
      rw [assembleAll, allSubtrees]
      exact (assemble_leaves scope node).bind fun _ =>
        assembleAll_leaves scope nodes

theorem assembleOptional_leaves (scope : Scope) :
    (node : Option Node) →
      (assembleOptional scope node).Leaves (optionalSubtrees node)
  | none => by
      rw [assembleOptional, optionalSubtrees]
      exact pure_leaves _
  | some node => by
      rw [assembleOptional, optionalSubtrees]
      exact assemble_leaves scope node

end

end Node

/-! ## Records of methods -/

/-- What a method holds apart from its operations. -/
structure Record where
  signature : List (String × ValueType)
  /-- The labels marked in the code, in order. -/
  labels : List Nat
  deriving DecidableEq, Repr

/-- The record once a body was assembled with labels from `first` on. -/
def Record.extend (record : Record) (body : Node) (first : Nat) : Record where
  signature := record.signature ++ body.subtrees.filterMap Node.declared?
  labels := record.labels ++ body.labels first

def Method.record (method : Method) : Record where
  signature := method.signature
  labels := method.code.filterMap Instruction.label?

def Assembly.records (assembly : Assembly) : List Record :=
  assembly.methods.map Method.record

theorem Symbol.filterMap_draft (code : List Symbol) :
    (code.map draft).filterMap Instruction.label? = labels code := by
  rw [List.filterMap_map, labels]
  congr 1
  funext symbol
  exact symbol.draft_label?

theorem Draft.Grows.record_labels {before after : Draft}
    {code : List Symbol} (grows : before.Grows after code) :
    after.method.record.labels =
      before.method.record.labels ++ Symbol.labels code := by
  simp only [Method.record, Method.code]
  rw [grows.instructions, List.filterMap_append, Symbol.filterMap_draft]

/-- The record of a method once its body and the way out were assembled. -/
theorem Node.assemble_record {scope : Scope} {body : Node}
    {before after : Draft} (numbered : before.method.Numbered)
    (run : (do body.assemble scope; DraftM.emitWith .ret 0) before =
      .ok () after) :
    after.method.record =
        before.method.record.extend body before.tables.nextLabel ∧
      after.tables.constants = before.tables.constants.internAll
        (body.subtrees.filterMap Node.pushed?) ∧
      after.tables.nextLabel =
        before.tables.nextLabel + labelCount body.subtrees := by
  have leaves := ((assemble_leaves scope body).bind_nil
    (fun _ => DraftM.emit_leaves { opcode := .ret }) :
      DraftM.Leaves _ _) before () after run
  obtain ⟨_, middle, bodyRun, returnRun⟩ := bind_eq_ok.mp run
  obtain ⟨code, assembled⟩ := assemble_assembles numbered bodyRun
  obtain ⟨returns, labelEq⟩ := DraftM.emitWith_grows returnRun
  -- The bindings known when the body ends are enough to see its labels.
  have emitted := (assembled.emits
    ⟨scope.catalog, scope.methods, middle.tables.constants.entries,
      middle.method.localNames⟩
    ⟨rfl, List.prefix_rfl, List.prefix_rfl, List.prefix_rfl⟩).labels_eq
  rw [allLabels_singleton, allSubtrees_singleton] at emitted
  have labelsEq := (assembled.grows.trans returns).record_labels
  rw [Symbol.labels_append, emitted.1] at labelsEq
  refine ⟨?_, leaves.2, labelEq.trans emitted.2⟩
  have fields : after.method.record =
      ⟨after.method.signature, after.method.record.labels⟩ :=
    rfl
  rw [fields, leaves.1, labelsEq]
  simp [Record.extend, Method.record]

namespace AssembleM

variable {catalog : Catalog} {before after : Assembly}

theorem assembleBody_records {left right : List Record} {row : Record}
    {body : Node} (numbered : ∀ method ∈ before.methods, method.Numbered)
    (rows : before.records = left ++ row :: right)
    (run : assembleBody catalog left.length body before = .ok () after) :
    after.records =
        left ++ row.extend body before.tables.nextLabel :: right ∧
      after.tables.constants = before.tables.constants.internAll
        (body.subtrees.filterMap Node.pushed?) ∧
      after.tables.nextLabel =
        before.tables.nextLabel + Node.labelCount body.subtrees := by
  have rowAt : before.records[left.length]? = some row := by
    simp [rows]
  rw [Assembly.records, List.getElem?_map, Option.map_eq_some_iff] at rowAt
  obtain ⟨method, found, rfl⟩ := rowAt
  rw [assembleBody_eq] at run
  obtain ⟨scope, _, looked, bodyRun⟩ := bind_eq_ok.mp run
  cases looked
  obtain ⟨draft, work, rfl⟩ := inMethod_spec found bodyRun
  obtain ⟨recordEq, constantsEq, labelEq⟩ := Node.assemble_record
    (numbered method (List.mem_of_getElem? found)) work
  refine ⟨?_, constantsEq, labelEq⟩
  have changed : (before.putBack left.length draft).records =
      before.records.set left.length draft.method.record := by
    simp [Assembly.records, Assembly.putBack, List.map_set]
  rw [changed, rows, recordEq]
  simp

end AssembleM

end TriggerScript
