import TriggerScript.Proofs.Generator
import TriggerScript.Proofs.ScriptRecords

/-!
# Code by names

The code of a tree, except that every instruction still names what it works on:
a constant, a variable, or a callee with its argument types.  Such code follows
from the tree and from the address at which it begins; what the names stand for
comes in only when it is bound.  So two programs for the same script, or for
scripts that differ in names, can be compared instruction by instruction.

Markers are bound without their labels.  The labels of a method are known from
its record.
-/

namespace TriggerScript

/-- An instruction that names what it works on. -/
inductive NamedInstruction where
  | push (constant : Constant)
  | get (name : String)
  | set (name : String)
  | call (name : String) (types : List ValueType)
  | equal
  | jump (target : Nat)
  | jumpIfZero (target : Nat)
  | ret
  | marker
  deriving DecidableEq, Repr

/-- The instruction at an address, with a marker's label left open. -/
def Bindings.instruction (bindings : Bindings) :
    Nat × NamedInstruction → Instruction
  | (address, .push constant) =>
      { opcode := .pushConst, i := bindings.constants.idxOf constant, address }
  | (address, .get name) =>
      { opcode := .getVariable, i := bindings.locals.idxOf name, address }
  | (address, .set name) =>
      { opcode := .setVariable, i := bindings.locals.idxOf name, address }
  | (address, .call name types) =>
      { opcode := (bindings.callee name types).1
        i := (bindings.callee name types).2
        address }
  | (address, .equal) => { opcode := .equal, address }
  | (address, .jump target) => { opcode := .jump, i := target, address }
  | (address, .jumpIfZero target) =>
      { opcode := .jumpIfZero, i := target, address }
  | (address, .ret) => { opcode := .ret, address }
  | (address, .marker) => { Instruction.marker 0 with address }

namespace Node

def ownOperations : Node → Nat
  | trigger _ _ _ | proc _ _ _ | block _ | declare _ _ none => 0
  | branch _ _ _ => 2
  | declare _ _ (some _) | assign _ _ | call _ _ | literal _
  | compare _ _ _ | var _ => 1

def operationCount (trees : List Node) : Nat :=
  trees.foldr (fun tree count => tree.ownOperations + count) 0

@[simp]
theorem operationCount_nil : operationCount [] = 0 := rfl

@[simp]
theorem operationCount_cons (tree : Node) (trees : List Node) :
    operationCount (tree :: trees) =
      tree.ownOperations + operationCount trees := rfl

@[simp]
theorem operationCount_append (left right : List Node) :
    operationCount (left ++ right) =
      operationCount left + operationCount right := by
  induction left with
  | nil =>
      rw [List.nil_append, operationCount_nil, Nat.zero_add]
  | cons tree trees inductionHypothesis =>
      rw [List.cons_append, operationCount_cons, inductionHypothesis,
        operationCount_cons, Nat.add_assoc]

mutual

def namedCode (base : Nat) : Node → List (Nat × NamedInstruction)
  | trigger _ _ _ => []
  | proc _ _ _ => []
  | block statements => allNamedCode base statements
  | declare _ _ none => []
  | declare _ name (some value) =>
      value.namedCode base ++
        [(base + operationCount value.subtrees, .set name)]
  | assign name value =>
      value.namedCode base ++
        [(base + operationCount value.subtrees, .set name)]
  | branch condition thenBranch elseBranch =>
      let test := base + operationCount condition.subtrees
      let leave := test + 1 + operationCount thenBranch.subtrees
      let other := leave + 1
      let done := other + operationCount (optionalSubtrees elseBranch)
      condition.namedCode base ++
        [(test, .jumpIfZero other)] ++
        thenBranch.namedCode (test + 1) ++
        [(leave, .jump done), (other, .marker)] ++
        optionalNamedCode other elseBranch ++
        [(done, .marker)]
  | call name args =>
      allNamedCode base args ++
        [(base + operationCount (allSubtrees args),
          .call name (args.filterMap staticType?))]
  | literal value => [(base, .push (.ofLiteral value))]
  | compare left _ right =>
      let middle := base + operationCount left.subtrees
      left.namedCode base ++ right.namedCode middle ++
        [(middle + operationCount right.subtrees, .equal)]
  | var name => [(base, .get name)]

def allNamedCode (base : Nat) : List Node → List (Nat × NamedInstruction)
  | [] => []
  | node :: nodes =>
      node.namedCode base ++
        allNamedCode (base + operationCount node.subtrees) nodes

def optionalNamedCode (base : Nat) :
    Option Node → List (Nat × NamedInstruction)
  | none => []
  | some node => node.namedCode base

end

theorem allNamedCode_singleton (base : Nat) (node : Node) :
    allNamedCode base [node] = node.namedCode base := by
  simp [allNamedCode]

theorem allNamedCode_toList (base : Nat) (node : Option Node) :
    allNamedCode base node.toList = optionalNamedCode base node := by
  cases node with
  | none =>
      simp [allNamedCode, optionalNamedCode]
  | some node =>
      simp [allNamedCode, optionalNamedCode]

/-- The instruction that the code of a tree ends with. -/
def closing? : Node → Option NamedInstruction
  | declare _ name (some _) => some (.set name)
  | assign name _ => some (.set name)
  | call name args => some (.call name (args.filterMap staticType?))
  | literal value => some (.push (.ofLiteral value))
  | compare _ _ _ => some .equal
  | var name => some (.get name)
  | trigger _ _ _ | proc _ _ _ | block _ | declare _ _ none
  | branch _ _ _ => none

end Node

/-- Whether an instruction only steers; all others end the code of a tree. -/
def NamedInstruction.isControl : NamedInstruction → Bool
  | jump _ | jumpIfZero _ | ret | marker => true
  | push _ | get _ | set _ | call _ _ | equal => false

/-- How an instruction can get into the code of trees. -/
inductive NamedInstruction.ComesFrom (trees : List Node)
    (named : NamedInstruction) : Prop
  | control (steers : named.isControl = true)
  | closing (tree : Node) (member : tree ∈ trees)
      (closes : tree.closing? = some named)

theorem NamedInstruction.ComesFrom.mono {left right : List Node}
    {named : NamedInstruction} (origin : named.ComesFrom left)
    (subset : left ⊆ right) : named.ComesFrom right := by
  cases origin with
  | control steers =>
      exact .control steers
  | closing tree member closes =>
      exact .closing tree (subset member) closes

namespace Node

/-- Every instruction of some code comes from the trees. -/
def Speak (trees : List Node) (code : List (Nat × NamedInstruction)) :
    Prop :=
  ∀ step ∈ code, step.2.ComesFrom trees

theorem Speak.append {trees : List Node}
    {left right : List (Nat × NamedInstruction)}
    (inLeft : Speak trees left) (inRight : Speak trees right) :
    Speak trees (left ++ right) :=
  List.forall_mem_append.mpr ⟨inLeft, inRight⟩

theorem Speak.mono {left right : List Node}
    {code : List (Nat × NamedInstruction)} (speak : Speak left code)
    (subset : left ⊆ right) : Speak right code :=
  fun step member => (speak step member).mono subset

/-- The code of the parts of a tree and the instruction it ends with. -/
theorem Speak.close {parts : List Node} {tree : Node}
    {code : List (Nat × NamedInstruction)} (speak : Speak parts code)
    {address : Nat} {named : NamedInstruction}
    (closes : tree.closing? = some named) :
    Speak (tree :: parts) (code ++ [(address, named)]) := by
  apply (speak.mono (List.subset_cons_self tree parts)).append
  intro step member
  rw [List.mem_singleton.mp member]
  exact .closing tree List.mem_cons_self closes

mutual

theorem speak_namedCode (base : Nat) :
    (node : Node) → Speak node.subtrees (node.namedCode base)
  | trigger event filter body => by
      rw [namedCode]
      exact fun step member => absurd member List.not_mem_nil
  | proc name params body => by
      rw [namedCode]
      exact fun step member => absurd member List.not_mem_nil
  | block statements => by
      rw [namedCode, subtrees]
      exact (speak_allNamedCode base statements).mono
        (List.subset_cons_self _ _)
  | declare type name none => by
      rw [namedCode]
      exact fun step member => absurd member List.not_mem_nil
  | declare type name (some value) => by
      rw [namedCode, subtrees, optionalSubtrees]
      exact (speak_namedCode base value).close rfl
  | assign name value => by
      rw [namedCode, subtrees]
      exact (speak_namedCode base value).close rfl
  | branch condition thenBranch elseBranch => by
      rw [namedCode, subtrees]
      have controls (code : List (Nat × NamedInstruction))
          (steer : ∀ step ∈ code, step.2.isControl = true) :
          Speak (branch condition thenBranch elseBranch ::
            (condition.subtrees ++
              (thenBranch.subtrees ++ optionalSubtrees elseBranch)))
            code :=
        fun step member => .control (steer step member)
      refine ((((Speak.append ?_ (controls _ ?_)).append ?_).append
        (controls _ ?_)).append ?_).append (controls _ ?_)
      · apply (speak_namedCode base condition).mono
        intro tree member
        simp [member]
      · simp [NamedInstruction.isControl]
      · apply (speak_namedCode _ thenBranch).mono
        intro tree member
        simp [member]
      · simp [NamedInstruction.isControl]
      · apply (speak_optionalNamedCode _ elseBranch).mono
        intro tree member
        simp [member]
      · simp [NamedInstruction.isControl]
  | call name args => by
      rw [namedCode, subtrees]
      exact (speak_allNamedCode base args).close rfl
  | literal value => by
      rw [namedCode, subtrees]
      intro step member
      rw [List.mem_singleton.mp member]
      exact .closing _ List.mem_cons_self rfl
  | compare left comparator right => by
      rw [namedCode, subtrees]
      refine Speak.close (Speak.append ?_ ?_) rfl
      · exact (speak_namedCode base left).mono
          (List.subset_append_left _ _)
      · exact (speak_namedCode _ right).mono
          (List.subset_append_right _ _)
  | var name => by
      rw [namedCode, subtrees]
      intro step member
      rw [List.mem_singleton.mp member]
      exact .closing _ List.mem_cons_self rfl

theorem speak_allNamedCode (base : Nat) :
    (nodes : List Node) → Speak (allSubtrees nodes) (allNamedCode base nodes)
  | [] => by
      rw [allNamedCode]
      exact fun step member => absurd member List.not_mem_nil
  | node :: nodes => by
      rw [allNamedCode, allSubtrees]
      apply Speak.append
      · exact (speak_namedCode base node).mono
          (List.subset_append_left _ _)
      · exact (speak_allNamedCode _ nodes).mono
          (List.subset_append_right _ _)

theorem speak_optionalNamedCode (base : Nat) :
    (node : Option Node) →
      Speak (optionalSubtrees node) (optionalNamedCode base node)
  | none => by
      rw [optionalNamedCode]
      exact fun step member => absurd member List.not_mem_nil
  | some node => by
      rw [optionalNamedCode, optionalSubtrees]
      exact speak_namedCode base node

end

end Node

/-! ## Code without the names of its labels -/

namespace Instruction

/-- An instruction with a marker's label left open. -/
def nameless (instruction : Instruction) : Instruction :=
  { instruction with label? := instruction.label?.map fun _ => 0 }

@[simp]
theorem nameless_isSome (instruction : Instruction) :
    instruction.nameless.label?.isSome = instruction.label?.isSome :=
  Option.isSome_map

theorem eq_of_nameless {left right : Instruction}
    (same : left.nameless = right.nameless)
    (labels : left.label? = right.label?) : left = right := by
  cases left
  cases right
  simp only [nameless, mk.injEq] at same labels ⊢
  simp [same, labels]

/-- Code that is related up to its labels, and that marks the same labels in
the same order, is related with its labels. -/
theorem forall₂_labels {related : Instruction → Instruction → Prop}
    (aligned : ∀ first second, related first second →
      first.label?.isSome = second.label?.isSome)
    {left right : List Instruction}
    (sketches : List.Forall₂ related (left.map nameless)
      (right.map nameless))
    (labels : left.filterMap label? = right.filterMap label?) :
    List.Forall₂ (fun first second =>
      related first.nameless second.nameless ∧
        first.label? = second.label?) left right := by
  rw [List.forall₂_map_left_iff, List.forall₂_map_right_iff] at sketches
  induction sketches with
  | nil =>
      exact .nil
  | @cons first second left right head _ inductionHypothesis =>
      -- Markers stand opposite markers, so labels are taken off in pairs.
      have marks := aligned _ _ head
      rw [nameless_isSome, nameless_isSome] at marks
      cases firstLabel : first.label? with
      | none =>
          rw [firstLabel, Option.isSome_none] at marks
          have secondLabel : second.label? = none := by
            simpa using marks.symm
          rw [List.filterMap_cons_none firstLabel,
            List.filterMap_cons_none secondLabel] at labels
          exact .cons ⟨head, firstLabel.trans secondLabel.symm⟩
            (inductionHypothesis labels)
      | some label =>
          rw [firstLabel, Option.isSome_some] at marks
          obtain ⟨other, secondLabel⟩ :=
            Option.isSome_iff_exists.mp marks.symm
          rw [List.filterMap_cons_some firstLabel,
            List.filterMap_cons_some secondLabel, List.cons.injEq] at labels
          refine .cons ⟨head, ?_⟩ (inductionHypothesis labels.2)
          rw [firstLabel, secondLabel, labels.1]

/-- Code is known from its instructions up to labels and its labels. -/
theorem eq_of_map_nameless {left right : List Instruction}
    (sketches : left.map nameless = right.map nameless)
    (labels : left.filterMap label? = right.filterMap label?) :
    left = right := by
  have related : List.Forall₂ Eq (left.map nameless)
      (right.map nameless) := by
    rw [List.forall₂_eq_eq_eq]
    exact sketches
  have each := forall₂_labels
    (fun first second same => by rw [same]) related labels
  rw [← List.forall₂_eq_eq_eq]
  exact each.imp fun first second same => eq_of_nameless same.1 same.2

end Instruction

namespace Symbol

/-- Resolved and numbered code with the labels of markers left open. -/
def sketch (addressOf : Nat → Nat) (base : Nat) (code : List Symbol) :
    List Instruction :=
  (Instruction.place base (code.map (resolve addressOf))).1.map
    Instruction.nameless

variable {addressOf : Nat → Nat} {base : Nat}

theorem sketch_nil : sketch addressOf base [] = [] := rfl

theorem sketch_append (left right : List Symbol) :
    sketch addressOf base (left ++ right) =
      sketch addressOf base left ++
        sketch addressOf (base + size left) right := by
  rw [sketch, List.map_append, Instruction.place_append, List.map_append,
    span_resolve]
  rfl

theorem sketch_branch (opcode : Opcode) (target : Nat)
    (rest : List Symbol) :
    sketch addressOf base (branch opcode target :: rest) =
      { opcode, i := addressOf target, address := base } ::
        sketch addressOf (base + 1) rest := rfl

theorem sketch_marker (label : Nat) (rest : List Symbol) :
    sketch addressOf base (marker label :: rest) =
      { Instruction.marker 0 with address := base } ::
        sketch addressOf base rest := rfl

theorem sketch_markers (labels : List Nat) :
    sketch addressOf base (labels.map marker) =
      List.replicate labels.length
        { Instruction.marker 0 with address := base } := by
  induction labels with
  | nil =>
      rfl
  | cons label labels inductionHypothesis =>
      rw [List.map_cons, sketch_marker, inductionHypothesis,
        List.length_cons, List.replicate_succ]

theorem sketch_conditional {test positive negative : List Symbol}
    {other done : Nat} :
    sketch addressOf base
        (conditional test positive negative other done) =
      sketch addressOf base test ++
        [{ opcode := .jumpIfZero
           i := addressOf other
           address := base + size test }] ++
        sketch addressOf (base + size test + 1) positive ++
        [{ opcode := .jump
           i := addressOf done
           address := base + size test + 1 + size positive },
          { Instruction.marker 0 with
            address := base + size test + 1 + size positive + 1 }] ++
        sketch addressOf (base + size test + 1 + size positive + 1)
          negative ++
        [{ Instruction.marker 0 with
           address := base + size test + 1 + size positive + 1 +
             size negative }] := by
  simp only [conditional, sketch_append, sketch_branch, sketch_marker,
    sketch_nil, size_append, size_branch, size_marker, size_nil,
    Nat.zero_add, ← Nat.add_assoc]

end Symbol

namespace Emits

variable {bindings : Bindings} {nodes : List Node} {first last : Nat}
  {code : List Symbol} {addressOf : Nat → Nat} {base : Nat}

/-- Code takes as many addresses as its trees have operations. -/
theorem size_eq (emitted : Emits bindings nodes first code last) :
    Symbol.size code = Node.operationCount (Node.allSubtrees nodes) := by
  induction emitted with
  | nil label =>
      rw [Node.allSubtrees]
      rfl
  | cons _ _ head tail =>
      rw [Node.allSubtrees_singleton] at head
      rw [Symbol.size_append, Node.allSubtrees, Node.operationCount_append,
        head, tail]
  | block _ statements =>
      simpa [Node.subtrees, Node.ownOperations] using statements
  | declare type name label =>
      simp [Node.subtrees, Node.optionalSubtrees, Node.ownOperations]
  | define type _ _ value =>
      simp only [Node.allSubtrees_singleton] at value
      simp [Node.subtrees, Node.optionalSubtrees, Node.ownOperations, value,
        Nat.add_comm]
  | assign _ _ value =>
      simp only [Node.allSubtrees_singleton] at value
      simp [Node.subtrees, Node.ownOperations, value, Nat.add_comm]
  | call _ _ _ arguments =>
      simp [Node.subtrees, Node.ownOperations, arguments, Nat.add_comm]
  | literal label _ =>
      simp [Node.subtrees, Node.ownOperations]
  | var label _ =>
      simp [Node.subtrees, Node.ownOperations]
  | equal _ _ left right =>
      simp only [Node.allSubtrees_singleton] at left right
      simp only [Symbol.size_append, Symbol.size_op, Symbol.size_nil, left,
        right, Node.allSubtrees_singleton, Node.subtrees,
        Node.operationCount_cons, Node.operationCount_append,
        Node.ownOperations]
      omega
  | branch _ _ _ test positive negative =>
      simp only [Node.allSubtrees_singleton, Node.allSubtrees_toList]
        at test positive negative
      simp only [Symbol.conditional, Symbol.size_append, Symbol.size_branch,
        Symbol.size_marker, Symbol.size_nil, test, positive, negative,
        Node.allSubtrees_singleton, Node.subtrees, Node.operationCount_cons,
        Node.operationCount_append, Node.ownOperations]
      omega

/-- Where markers have the addresses of their labels, symbolic code is the
bound code by names. -/
theorem sketch_eq_map_instruction
    (emitted : Emits bindings nodes first code last)
    (marked : Symbol.Marked addressOf base code) :
    Symbol.sketch addressOf base code =
      (Node.allNamedCode base nodes).map bindings.instruction := by
  induction emitted generalizing base with
  | nil label =>
      rw [Symbol.sketch_nil, Node.allNamedCode, List.map_nil]
  | cons head tail headEq tailEq =>
      rw [Symbol.marked_append] at marked
      have headSketch := headEq marked.1
      have headSize := head.size_eq
      rw [Node.allNamedCode_singleton] at headSketch
      rw [Node.allSubtrees_singleton] at headSize
      rw [Symbol.sketch_append, tailEq marked.2, headSketch, headSize,
        Node.allNamedCode, List.map_append]
  | block _ statementsEq =>
      rw [Node.allNamedCode_singleton, Node.namedCode]
      exact statementsEq marked
  | declare type name label =>
      rw [Symbol.sketch_nil, Node.allNamedCode_singleton, Node.namedCode,
        List.map_nil]
  | define type _ value valueEq =>
      rw [Symbol.marked_append] at marked
      have valueSketch := valueEq marked.1
      have valueSize := value.size_eq
      rw [Node.allNamedCode_singleton] at valueSketch ⊢
      rw [Node.allSubtrees_singleton] at valueSize
      rw [Symbol.sketch_append, valueSketch, valueSize, Node.namedCode,
        List.map_append]
      rfl
  | assign _ value valueEq =>
      rw [Symbol.marked_append] at marked
      have valueSketch := valueEq marked.1
      have valueSize := value.size_eq
      rw [Node.allNamedCode_singleton] at valueSketch ⊢
      rw [Node.allSubtrees_singleton] at valueSize
      rw [Symbol.sketch_append, valueSketch, valueSize, Node.namedCode,
        List.map_append]
      rfl
  | call typed _ arguments argumentsEq =>
      rw [Symbol.marked_append] at marked
      rw [Symbol.sketch_append, argumentsEq marked.1, arguments.size_eq,
        Node.allNamedCode_singleton, Node.namedCode,
        Node.filterMap_staticType? typed, List.map_append]
      rfl
  | literal label _ =>
      rw [Node.allNamedCode_singleton, Node.namedCode]
      rfl
  | var label _ =>
      rw [Node.allNamedCode_singleton, Node.namedCode]
      rfl
  | equal left right leftEq rightEq =>
      rw [Symbol.marked_append, Symbol.marked_append] at marked
      have leftSketch := leftEq marked.1.1
      have rightSketch := rightEq marked.1.2
      have leftSize := left.size_eq
      have rightSize := right.size_eq
      rw [Node.allNamedCode_singleton] at leftSketch rightSketch ⊢
      rw [Node.allSubtrees_singleton] at leftSize rightSize
      rw [Symbol.sketch_append, Symbol.sketch_append, Symbol.size_append,
        leftSketch, rightSketch, leftSize, rightSize, Node.namedCode,
        List.map_append, List.map_append, ← Nat.add_assoc]
      rfl
  | branch test positive negative testEq positiveEq negativeEq =>
      obtain ⟨testMarked, positiveMarked, otherAddress, negativeMarked,
        doneAddress⟩ := Symbol.marked_conditional marked
      have testSketch := testEq testMarked
      have positiveSketch := positiveEq positiveMarked
      have negativeSketch := negativeEq negativeMarked
      have testSize := test.size_eq
      have positiveSize := positive.size_eq
      have negativeSize := negative.size_eq
      rw [Node.allNamedCode_singleton] at testSketch positiveSketch
      rw [Node.allNamedCode_toList] at negativeSketch
      rw [Node.allSubtrees_singleton] at testSize positiveSize
      rw [Node.allSubtrees_toList] at negativeSize
      rw [Symbol.sketch_conditional, testSketch, positiveSketch,
        negativeSketch, otherAddress, doneAddress, testSize, positiveSize,
        negativeSize, Node.allNamedCode_singleton, Node.namedCode]
      simp only [List.map_append]
      rfl

end Emits

end TriggerScript
