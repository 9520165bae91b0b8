import Mathlib.Data.List.Perm.Basic
import TriggerScript.Proofs.ScriptTrees

/-!
# The labels of a script

Labels are taken from one counter: by every procedure before any body is
assembled, by every trigger when its turn comes, and by every conditional when
its condition has been assembled.  They are marked later and in another order.
Still every label that was taken is marked, and none is marked twice: the
labels of a program are the numbers up to the number of labels of its script.
-/

namespace TriggerScript

namespace Node

def isProc : Node → Bool
  | proc .. => true
  | _ => false

def isTrigger : Node → Bool
  | trigger .. => true
  | _ => false

theorem isProc_of_body? {tree : Node} (undeclared : tree.body? = none) :
    tree.isProc = false := by
  cases tree with
  | proc =>
      cases undeclared
  | trigger | block | declare | assign | branch | call | literal | compare
  | var =>
      rfl

theorem isTrigger_of_body? {tree : Node} (undeclared : tree.body? = none) :
    tree.isTrigger = false := by
  cases tree with
  | trigger =>
      cases undeclared
  | proc | block | declare | assign | branch | call | literal | compare
  | var =>
      rfl

end Node

theorem Declaration.length_procs (nodes : List Node) :
    (procs nodes).length = nodes.countP Node.isProc := by
  induction nodes with
  | nil =>
      rfl
  | cons node rest inductionHypothesis =>
      cases node with
      | proc name params body =>
          rw [procs, List.length_cons, inductionHypothesis,
            List.countP_cons_of_pos rfl]
      | trigger | block | declare | assign | branch | call | literal
      | compare | var =>
          rw [List.countP_cons_of_neg Bool.false_ne_true]
          exact inductionHypothesis

/-- The number of labels of a script: one for every procedure, two for every
trigger and two for every conditional in it. -/
def Script.labelCount (nodes : List Node) : Nat :=
  (Node.allSubtrees nodes).countP Node.isProc +
    2 * (Node.allSubtrees nodes).countP Node.isTrigger +
    2 * (Node.allSubtrees nodes).countP Node.isConditional

/-! ## Bodies -/

theorem perm_range'_append {left right : List Nat} {first count more : Nat}
    (inLeft : left.Perm (List.range' first count))
    (inRight : right.Perm (List.range' (first + count) more)) :
    (left ++ right).Perm (List.range' first (count + more)) := by
  rw [← List.range'_append_1]
  exact inLeft.append inRight

/-- A conditional marks its two labels behind those of its branches, though it
has taken them before. -/
theorem perm_conditional (test positive negative : List Nat)
    (other done : Nat) :
    (test ++ positive ++ [other] ++ negative ++ [done]).Perm
      (test ++ ([other, done] ++ (positive ++ negative))) := by
  rw [List.perm_iff_count]
  intro label
  simp only [List.count_append, List.count_cons, List.count_nil]
  omega

/-- The code of trees marks exactly the labels taken for it, wherever they are
taken from. -/
theorem Emits.allLabels_perm {bindings : Bindings} {nodes : List Node}
    {first last : Nat} {code : List Symbol}
    (emitted : Emits bindings nodes first code last) (start : Nat) :
    (Node.allLabels start nodes).Perm
      (List.range' start (Node.labelCount (Node.allSubtrees nodes))) := by
  induction emitted generalizing start with
  | nil label =>
      simp [Node.allLabels, Node.allSubtrees, Node.labelCount]
  | cons _ _ head tail =>
      rw [Node.allLabels, Node.allSubtrees, Node.labelCount_append]
      apply perm_range'_append
      · simpa [Node.allLabels_singleton] using head start
      · exact tail _
  | block _ statements =>
      simpa [Node.allLabels_singleton, Node.labels, Node.subtrees,
        Node.isConditional] using statements start
  | declare type name label =>
      simp [Node.allLabels_singleton, Node.labels, Node.subtrees,
        Node.optionalLabels, Node.optionalSubtrees, Node.isConditional,
        Node.labelCount]
  | define type _ _ value =>
      simpa [Node.allLabels_singleton, Node.labels, Node.subtrees,
        Node.optionalLabels, Node.optionalSubtrees, Node.isConditional]
        using value start
  | assign _ _ value =>
      simpa [Node.allLabels_singleton, Node.labels, Node.subtrees,
        Node.isConditional] using value start
  | call _ _ _ arguments =>
      simpa [Node.allLabels_singleton, Node.labels, Node.subtrees,
        Node.isConditional] using arguments start
  | literal label _ =>
      simp [Node.allLabels_singleton, Node.labels, Node.subtrees,
        Node.isConditional, Node.labelCount]
  | var label _ =>
      simp [Node.allLabels_singleton, Node.labels, Node.subtrees,
        Node.isConditional, Node.labelCount]
  | equal _ _ left right =>
      simp only [Node.allLabels_singleton, Node.allSubtrees_singleton]
        at left right ⊢
      rw [Node.labels, Node.subtrees, Node.labelCount_cons,
        Node.labelCount_append]
      simpa [Node.isConditional] using
        perm_range'_append (left start) (right _)
  | branch _ _ _ test positive negative =>
      simp only [Node.allLabels_singleton, Node.allSubtrees_singleton,
        Node.allLabels_toList, Node.allSubtrees_toList]
        at test positive negative ⊢
      have own (label : Nat) :
          [label, label + 1].Perm (List.range' label 2) := .refl _
      rw [Node.labels, Node.subtrees, Node.labelCount_cons,
        Node.labelCount_append, Node.labelCount_append, Node.isConditional,
        if_pos rfl, Nat.add_left_comm]
      refine (perm_conditional _ _ _ _ _).trans ?_
      exact perm_range'_append (test _) (perm_range'_append (own _)
        (perm_range'_append (positive _) (negative _)))

/-! ## Scripts -/

namespace Script

theorem HasCode.labels_perm {nodes : List Node} (hasCode : HasCode nodes)
    {node body : Node} (member : node ∈ nodes)
    (declares : node.body? = some body) (start : Nat) :
    (body.labels start).Perm
      (List.range' start (Node.labelCount body.subtrees)) := by
  obtain ⟨_, _, _, _, _, other, emitted⟩ := hasCode node member
  rw [declares] at other
  cases other
  simpa [Node.allLabels_singleton] using emitted.allLabels_perm start

theorem HasCode.tail {node : Node} {rest : List Node}
    (hasCode : HasCode (node :: rest)) : HasCode rest :=
  fun other member => hasCode other (List.mem_cons_of_mem _ member)

/-- Counting declarations among all trees or at the top gives the same. -/
theorem HasCode.countP_allSubtrees {nodes : List Node}
    (hasCode : HasCode nodes) (accept : Node → Bool)
    (declared : ∀ tree : Node, tree.body? = none → accept tree = false) :
    (Node.allSubtrees nodes).countP accept = nodes.countP accept := by
  induction nodes with
  | nil =>
      simp [Node.allSubtrees]
  | cons node rest inductionHypothesis =>
      obtain ⟨body, _, _, _, _, declares, emitted⟩ :=
        hasCode node List.mem_cons_self
      have inner : body.subtrees.countP accept = 0 := by
        rw [List.countP_eq_zero]
        intro tree member
        rw [← Node.allSubtrees_singleton] at member
        rw [declared tree (emitted.body?_eq_none tree member)]
        exact Bool.false_ne_true
      rw [Node.allSubtrees, Node.subtrees_of_body? declares,
        List.cons_append, List.countP_cons, List.countP_append, inner,
        inductionHypothesis hasCode.tail, Nat.zero_add, List.countP_cons]

/-- The number of labels that are taken while declarations are worked off. -/
def laterLabels (nodes : List Node) : Nat :=
  2 * nodes.countP Node.isTrigger +
    Node.labelCount (Node.allSubtrees nodes)

theorem laterLabels_proc (name : String) (params : List Param) (body : Node)
    (rest : List Node) :
    laterLabels (.proc name params body :: rest) =
      Node.labelCount body.subtrees + laterLabels rest := by
  simp [laterLabels, Node.allSubtrees, Node.subtrees, Node.isTrigger,
    Node.isConditional]
  omega

theorem laterLabels_trigger (event filter : String) (body : Node)
    (rest : List Node) :
    laterLabels (.trigger event filter body :: rest) =
      2 + (Node.labelCount body.subtrees + laterLabels rest) := by
  simp [laterLabels, Node.allSubtrees, Node.subtrees, List.countP_cons,
    Node.isTrigger, Node.isConditional]
  omega

theorem HasCode.labelCount_eq {nodes : List Node}
    (hasCode : HasCode nodes) :
    labelCount nodes = nodes.countP Node.isProc + laterLabels nodes := by
  have procs := hasCode.countP_allSubtrees Node.isProc
    fun _ => Node.isProc_of_body?
  have triggers := hasCode.countP_allSubtrees Node.isTrigger
    fun _ => Node.isTrigger_of_body?
  rw [labelCount, procs, triggers, laterLabels, Node.labelCount,
    Nat.add_assoc]

theorem count_range'_add (label first count more : Nat) :
    (List.range' first (count + more)).count label =
      (List.range' first count).count label +
        (List.range' (first + count) more).count label := by
  rw [← List.range'_append_1, List.count_append]

/-- The entries of procedures are numbered from `entry` on, all other labels
from `next` on. -/
theorem records_perm {nodes : List Node} (hasCode : HasCode nodes)
    (entry next : Nat) :
    ((procRecords entry next nodes ++ triggerRecords next nodes).flatMap
      Record.labels).Perm
      (List.range' entry (nodes.countP Node.isProc) ++
        List.range' next (laterLabels nodes)) := by
  induction nodes generalizing entry next with
  | nil =>
      simp [procRecords, triggerRecords, laterLabels, Node.allSubtrees,
        Node.labelCount]
  | cons node rest inductionHypothesis =>
      -- Labels of later procedures come in between, so that the lists agree
      -- only up to their order.
      rw [List.perm_iff_count]
      intro label
      cases node with
      | proc name params body =>
          have inBody := (hasCode.labels_perm List.mem_cons_self rfl
            next).count_eq label
          have inRest := (inductionHypothesis hasCode.tail (entry + 1)
            (next + Node.labelCount body.subtrees)).count_eq label
          rw [List.countP_cons_of_pos rfl, laterLabels_proc,
            List.range'_succ]
          simp only [procRecords, triggerRecords, Record.extend,
            List.flatMap_append, List.flatMap_cons, List.count_append,
            List.count_cons, List.count_nil, count_range'_add]
            at inRest ⊢
          omega
      | trigger event filter body =>
          have inBody := (hasCode.labels_perm List.mem_cons_self rfl
            (next + 2)).count_eq label
          have inRest := (inductionHypothesis hasCode.tail entry
            (next + 2 + Node.labelCount body.subtrees)).count_eq label
          have own : List.range' next 2 = [next, next + 1] := rfl
          rw [List.countP_cons_of_neg Bool.false_ne_true,
            laterLabels_trigger]
          simp only [procRecords, triggerRecords, Record.extend,
            List.flatMap_append, List.flatMap_cons, List.count_append,
            List.count_cons, List.count_nil, count_range'_add, own]
            at inRest ⊢
          omega
      | block | declare | assign | branch | call | literal | compare
      | var =>
          obtain ⟨_, _, _, _, _, declares, _⟩ :=
            hasCode _ List.mem_cons_self
          cases declares

theorem HasCode.labels_records {nodes : List Node}
    (hasCode : HasCode nodes) :
    ((records nodes).flatMap Record.labels).Perm
      (List.range (labelCount nodes)) := by
  have marked := records_perm hasCode 0 (nodes.countP Node.isProc)
  have joined := @List.range'_append_1 0 (nodes.countP Node.isProc)
    (laterLabels nodes)
  rw [Nat.zero_add] at joined
  rw [joined, ← hasCode.labelCount_eq, ← List.range_eq_range',
    ← Declaration.length_procs] at marked
  exact marked

end Script

/-- Every label of a script is marked once in its program. -/
theorem Program.assemble_labels_perm {catalog : Catalog}
    {nodes : List Node} {program : Program}
    (assembled : assemble catalog nodes = .ok program) :
    ((program.methods.flatMap Method.code).filterMap
      Instruction.label?).Perm (List.range (Script.labelCount nodes)) := by
  have labels := (assemble_hasCode assembled).labels_records
  rw [← (assemble_records assembled).1, List.flatMap_map] at labels
  rw [List.filterMap_flatMap]
  exact labels

end TriggerScript
