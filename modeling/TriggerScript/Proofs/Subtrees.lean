import TriggerScript.Proofs.Acceptance

/-!
# Subtrees

All parts of a tree in the order in which a reader meets them.  What assembling
a body leaves behind apart from its code, and the errors it can end with, come
from single trees of this list.
-/

namespace TriggerScript

namespace Node

mutual

/-- A tree and all of its parts, each before its own parts. -/
def subtrees : Node → List Node
  | trigger event filter body => trigger event filter body :: body.subtrees
  | proc name params body => proc name params body :: body.subtrees
  | block statements => block statements :: allSubtrees statements
  | declare type name value =>
      declare type name value :: optionalSubtrees value
  | assign name value => assign name value :: value.subtrees
  | branch condition thenBranch elseBranch =>
      branch condition thenBranch elseBranch ::
        (condition.subtrees ++
          (thenBranch.subtrees ++ optionalSubtrees elseBranch))
  | call name args => call name args :: allSubtrees args
  | literal value => [literal value]
  | compare left comparator right =>
      compare left comparator right :: (left.subtrees ++ right.subtrees)
  | var name => [var name]

def allSubtrees : List Node → List Node
  | [] => []
  | node :: nodes => node.subtrees ++ allSubtrees nodes

def optionalSubtrees : Option Node → List Node
  | none => []
  | some node => node.subtrees

end

theorem mem_subtrees_self (node : Node) : node ∈ node.subtrees := by
  cases node <;> simp [subtrees]

@[simp]
theorem allSubtrees_singleton (node : Node) :
    allSubtrees [node] = node.subtrees := by
  simp [allSubtrees]

@[simp]
theorem allSubtrees_toList (node : Option Node) :
    allSubtrees node.toList = optionalSubtrees node := by
  cases node with
  | none =>
      simp [allSubtrees, optionalSubtrees]
  | some node =>
      simp [optionalSubtrees]

theorem allSubtrees_eq_flatMap (nodes : List Node) :
    allSubtrees nodes = nodes.flatMap subtrees := by
  induction nodes with
  | nil =>
      simp [allSubtrees]
  | cons node nodes inductionHypothesis =>
      rw [allSubtrees, inductionHypothesis, List.flatMap_cons]

theorem subtrees_subset_of_mem {nodes : List Node} {node : Node}
    (member : node ∈ nodes) : node.subtrees ⊆ allSubtrees nodes := by
  intro tree inNode
  rw [allSubtrees_eq_flatMap]
  exact List.mem_flatMap_of_mem member inNode

def callee? : Node → Option String
  | call name _ => some name
  | _ => none

mutual

/-- The names called in a tree are those of the calls among its parts. -/
theorem calledNames_eq :
    (node : Node) → node.calledNames = node.subtrees.filterMap callee?
  | trigger event filter body => by
      rw [calledNames, calledNames_eq body]
      rfl
  | proc name params body => by
      rw [calledNames, calledNames_eq body]
      rfl
  | block statements => by
      rw [calledNames, allCalledNames_eq statements]
      rfl
  | declare type name value => by
      rw [calledNames, optionalCalledNames_eq value]
      rfl
  | assign name value => by
      rw [calledNames, calledNames_eq value]
      rfl
  | branch condition thenBranch elseBranch => by
      rw [calledNames, calledNames_eq condition, calledNames_eq thenBranch,
        optionalCalledNames_eq elseBranch, ← List.filterMap_append,
        ← List.filterMap_append]
      rfl
  | call name args => by
      rw [calledNames, allCalledNames_eq args]
      rfl
  | literal value => by
      rw [calledNames]
      rfl
  | compare left comparator right => by
      rw [calledNames, calledNames_eq left, calledNames_eq right,
        ← List.filterMap_append]
      rfl
  | var name => by
      rw [calledNames]
      rfl

theorem allCalledNames_eq :
    (nodes : List Node) →
      allCalledNames nodes = (allSubtrees nodes).filterMap callee?
  | [] => by
      rw [allCalledNames, allSubtrees, List.filterMap_nil]
  | node :: nodes => by
      rw [allCalledNames, allSubtrees, calledNames_eq node,
        allCalledNames_eq nodes, List.filterMap_append]

theorem optionalCalledNames_eq :
    (node : Option Node) →
      optionalCalledNames node = (optionalSubtrees node).filterMap callee?
  | none => by
      rw [optionalCalledNames, optionalSubtrees, List.filterMap_nil]
  | some node => by
      rw [optionalCalledNames, optionalSubtrees, calledNames_eq node]

end

theorem mem_calledNames {node : Node} {name : String} {args : List Node}
    (member : call name args ∈ node.subtrees) :
    name ∈ node.calledNames := by
  rw [calledNames_eq, List.mem_filterMap]
  exact ⟨call name args, member, rfl⟩

end Node

end TriggerScript
