import TriggerScript.Proofs.Acceptance
import TriggerScript.Proofs.ScriptRecords

/-!
# States that assembling comes to

A body is assembled tree by tree, and a tree is met with the draft as the
trees before it left it.  `Node.Visits` lists all pairs of a tree and a draft
that are met on the way, `Script.Visits` does so for the bodies of a whole
script.  Whether the script can be assembled to its end does not matter.

Nothing is left out: if a script is assembled to its end, then every tree below
its declarations is visited.  Two facts hold for all that is visited:

* the methods that can be called are the procedures of the script, wherever
  they are declared, and triggers, whose names start with `@`;
* if the script is assembled to its end, then so is the tree, and its
  constants keep their places.
-/

namespace TriggerScript

/-! ## Trees of a body -/

namespace Node

/-- `Visits scope nodes before inner middle` says that assembling trees one
after the other from the draft `before` comes to the tree `inner`, and that
the draft is `middle` then. -/
inductive Visits (scope : Scope) :
    List Node → Draft → Node → Draft → Prop
  | here {node : Node} {draft : Draft} :
      Visits scope [node] draft node draft
  | front {node inner : Node} {nodes : List Node} {before middle : Draft} :
      Visits scope [node] before inner middle →
      Visits scope (node :: nodes) before inner middle
  | behind {node inner : Node} {nodes : List Node}
      {before next middle : Draft} :
      node.assemble scope before = .ok () next →
      Visits scope nodes next inner middle →
      Visits scope (node :: nodes) before inner middle
  | block {statements : List Node} {inner : Node} {before middle : Draft} :
      Visits scope statements before inner middle →
      Visits scope [.block statements] before inner middle
  | declare {type name : String} {value inner : Node} {index : Nat}
      {before next middle : Draft} :
      DraftM.declare type name before = .ok index next →
      Visits scope [value] next inner middle →
      Visits scope [.declare type name (some value)] before inner middle
  | assign {name : String} {value inner : Node} {index : Nat}
      {before next middle : Draft} :
      DraftM.variableIndex name before = .ok index next →
      Visits scope [value] next inner middle →
      Visits scope [.assign name value] before inner middle
  | condition {condition thenBranch inner : Node}
      {elseBranch : Option Node} {before middle : Draft} :
      Visits scope [condition] before inner middle →
      Visits scope [.branch condition thenBranch elseBranch] before inner
        middle
  | thenBranch {condition thenBranch inner : Node}
      {elseBranch : Option Node} {labels : Nat × Nat}
      {before next middle : Draft} :
      DraftM.test (condition.assemble scope) before = .ok labels next →
      Visits scope [thenBranch] next inner middle →
      Visits scope [.branch condition thenBranch elseBranch] before inner
        middle
  | elseBranch {condition thenBranch elseBranch inner : Node} {done : Nat}
      {before next middle : Draft} :
      DraftM.firstBranch (condition.assemble scope)
        (thenBranch.assemble scope) before = .ok done next →
      Visits scope [elseBranch] next inner middle →
      Visits scope [.branch condition thenBranch (some elseBranch)] before
        inner middle
  | argument {name : String} {args : List Node} {inner : Node}
      {types : List ValueType} {instruction : Instruction}
      {before middle : Draft} :
      argumentTypes name 1 args = .ok types →
      scope.resolveCall name types = .ok instruction →
      Visits scope args before inner middle →
      Visits scope [.call name args] before inner middle
  | operand {left right inner : Node} {comparator : Token.Kind}
      {before middle : Draft} :
      Visits scope [left, right] before inner middle →
      Visits scope [.compare left comparator right] before inner middle

variable {scope : Scope}

theorem assembleAll_singleton (node : Node) :
    assembleAll scope [node] = node.assemble scope := by
  rw [assembleAll, assembleAll]
  exact bind_pure_unit

/-- An equality, as seen from its operands. -/
theorem assemble_compare_eq (left right : Node) (comparator : Token.Kind) :
    (compare left comparator right).assemble scope = (do
      assembleAll scope [left, right]
      if comparator = .equal then
        DraftM.emitWith .equal 0
      else
        throw (.unknownComparator comparator)) := by
  simp only [assemble, assembleAll, bind_assoc, pure_bind]

end Node

/-! ## Constants keep their places -/

/-- Constants are only added behind those that are there. -/
def Tables.KeptIn (before after : Tables) : Prop :=
  before.constants.entries <+: after.constants.entries

/-- Work that leaves the constants at their places. -/
def DraftM.Keeps {α : Type} (work : DraftM α) : Prop :=
  ∀ before result after, work before = .ok result after →
    before.tables.KeptIn after.tables

theorem ConstantPool.prefix_internAll (pool : ConstantPool)
    (constants : List Constant) :
    pool.entries <+: (pool.internAll constants).entries := by
  induction constants generalizing pool with
  | nil =>
      exact List.prefix_rfl
  | cons next rest inductionHypothesis =>
      exact (pool.intern_spec next).1.trans (inductionHypothesis _)

namespace DraftM

variable {α β : Type}

theorem Leaves.keeps {work : DraftM α} {trees : List Node}
    (leaves : work.Leaves trees) : work.Keeps := by
  intro before result after run
  rw [Tables.KeptIn, (leaves before result after run).2]
  exact before.tables.constants.prefix_internAll _

theorem Keeps.bind {first : DraftM α} {next : α → DraftM β}
    (firstKeeps : first.Keeps) (nextKeeps : ∀ value, (next value).Keeps) :
    (first >>= next).Keeps := by
  intro before result after run
  obtain ⟨value, middle, firstRun, nextRun⟩ := bind_eq_ok.mp run
  exact (firstKeeps before value middle firstRun).trans
    (nextKeeps value middle result after nextRun)

theorem emit_keeps (instruction : Instruction) :
    (emit instruction).Keeps :=
  (emit_leaves instruction).keeps

theorem emitBranch_keeps (opcode : Opcode) (label : Nat) :
    (emitBranch opcode label).Keeps :=
  (emitBranch_leaves opcode label).keeps

end DraftM

namespace Node

variable {scope : Scope} {nodes : List Node} {before middle after : Draft}
  {inner : Node}

theorem assemble_keeps (scope : Scope) (node : Node) :
    (node.assemble scope).Keeps :=
  (assemble_leaves scope node).keeps

theorem assembleOptional_keeps (scope : Scope) (node : Option Node) :
    (assembleOptional scope node).Keeps :=
  (assembleOptional_leaves scope node).keeps

/-- A tree can be assembled from a draft, and what it adds to the constants
is still at its place later. -/
def AssembledBy (scope : Scope) (node : Node) (draft : Draft)
    (later : Tables) : Prop :=
  ∃ next, node.assemble scope draft = .ok () next ∧
    next.tables.KeptIn later

theorem AssembledBy.trans {later last : Tables}
    (assembled : inner.AssembledBy scope middle later)
    (kept : later.KeptIn last) :
    inner.AssembledBy scope middle last := by
  obtain ⟨next, run, keptNext⟩ := assembled
  exact ⟨next, run, List.IsPrefix.trans keptNext kept⟩

/-- Work that begins with some trees, when all that is visited in these trees
is assembled with them. -/
theorem assembledBy_of_bind {α : Type} {rest : Unit → DraftM α} {result : α}
    (visited : ∀ {passed : Draft},
      assembleAll scope nodes before = .ok () passed →
      inner.AssembledBy scope middle passed.tables)
    (run : (assembleAll scope nodes >>= rest) before = .ok result after)
    (keeps : ∀ value, (rest value).Keeps) :
    inner.AssembledBy scope middle after.tables := by
  obtain ⟨_, passed, nodesRun, restRun⟩ := bind_eq_ok.mp run
  exact (visited nodesRun).trans (keeps () passed result after restRun)

/-- If all trees are assembled, then so is each one that is visited, and its
constants stay where they are. -/
theorem Visits.assembled (visits : Visits scope nodes before inner middle)
    (run : assembleAll scope nodes before = .ok () after) :
    inner.AssembledBy scope middle after.tables := by
  induction visits generalizing after with
  | here =>
      rw [assembleAll_singleton] at run
      exact ⟨after, run, List.prefix_rfl⟩
  | front _ inductionHypothesis =>
      rw [assembleAll, ← assembleAll_singleton] at run
      exact assembledBy_of_bind inductionHypothesis run fun _ =>
        (assembleAll_leaves scope _).keeps
  | behind nodeRun _ inductionHypothesis =>
      rw [assembleAll, bind_eq_of_ok nodeRun] at run
      exact inductionHypothesis run
  | block _ inductionHypothesis =>
      rw [assembleAll_singleton, assemble] at run
      exact inductionHypothesis run
  | declare declared _ inductionHypothesis =>
      rw [assembleAll_singleton, assemble, bind_eq_of_ok declared,
        ← assembleAll_singleton] at run
      exact assembledBy_of_bind inductionHypothesis run fun _ =>
        DraftM.emit_keeps _
  | assign found _ inductionHypothesis =>
      rw [assembleAll_singleton, assemble, bind_eq_of_ok found,
        ← assembleAll_singleton] at run
      exact assembledBy_of_bind inductionHypothesis run fun _ =>
        DraftM.emit_keeps _
  | @condition condition thenBranch _ elseBranch _ _ _
      inductionHypothesis =>
      rw [assembleAll_singleton, assemble_branch, ← assembleAll_singleton]
        at run
      exact assembledBy_of_bind inductionHypothesis run fun _ =>
        DraftM.newLabel_leaves.keeps.bind fun _ =>
          DraftM.newLabel_leaves.keeps.bind fun _ =>
            (DraftM.emitBranch_keeps _ _).bind fun _ =>
              (assemble_keeps scope thenBranch).bind fun _ =>
                (DraftM.emitBranch_keeps _ _).bind fun _ =>
                  (DraftM.emit_keeps _).bind fun _ =>
                    (assembleOptional_keeps scope elseBranch).bind
                      fun _ => DraftM.emit_keeps _
  | @thenBranch _ _ _ elseBranch _ _ _ _ tested _ inductionHypothesis =>
      rw [assembleAll_singleton, assemble_branch_eq_test, bind_eq_of_ok tested]
        at run
      dsimp only at run
      rw [← assembleAll_singleton] at run
      exact assembledBy_of_bind inductionHypothesis run fun _ =>
        (DraftM.emitBranch_keeps _ _).bind fun _ =>
          (DraftM.emit_keeps _).bind fun _ =>
            (assembleOptional_keeps scope elseBranch).bind
              fun _ => DraftM.emit_keeps _
  | elseBranch passed _ inductionHypothesis =>
      rw [assembleAll_singleton, assemble, bind_eq_of_ok passed,
        assembleOptional, ← assembleAll_singleton] at run
      exact assembledBy_of_bind inductionHypothesis run fun _ =>
        DraftM.emit_keeps _
  | argument typed resolved _ inductionHypothesis =>
      rw [assembleAll_singleton, assemble,
        bind_eq_of_ok (liftExcept_eq_ok.mpr ⟨typed, rfl⟩),
        bind_eq_of_ok (liftExcept_eq_ok.mpr ⟨resolved, rfl⟩)] at run
      exact assembledBy_of_bind inductionHypothesis run fun _ =>
        DraftM.emit_keeps _
  | @operand _ _ _ comparator _ _ _ inductionHypothesis =>
      rw [assembleAll_singleton, assemble_compare_eq] at run
      refine assembledBy_of_bind inductionHypothesis run fun _ => ?_
      by_cases equal : comparator = .equal
      · rw [if_pos equal]
        exact DraftM.emit_keeps _
      · rw [if_neg equal]
        exact fun _ _ _ failed => absurd failed throw_ne_ok

mutual

/-- Every part of a tree that is assembled is visited. -/
theorem exists_visits : (node : Node) → ∀ {before after : Draft},
    inner ∈ node.subtrees → node.assemble scope before = .ok () after →
    ∃ middle, Visits scope [node] before inner middle
  | trigger event filter body, before, after, member, run => by
      rw [assemble] at run
      exact absurd run throw_ne_ok
  | proc name params body, before, after, member, run => by
      rw [assemble] at run
      exact absurd run throw_ne_ok
  | block statements, before, after, member, run => by
      rw [subtrees, List.mem_cons] at member
      rcases member with rfl | member
      · exact ⟨before, .here⟩
      · rw [assemble] at run
        obtain ⟨middle, visits⟩ := exists_visits_all statements member run
        exact ⟨middle, .block visits⟩
  | declare type name none, before, after, member, run => by
      rw [subtrees, optionalSubtrees, List.mem_singleton] at member
      subst member
      exact ⟨before, .here⟩
  | declare type name (some value), before, after, member, run => by
      rw [subtrees, optionalSubtrees, List.mem_cons] at member
      rcases member with rfl | member
      · exact ⟨before, .here⟩
      · rw [assemble] at run
        obtain ⟨index, next, declared, run⟩ := bind_eq_ok.mp run
        obtain ⟨_, _, valueRun, _⟩ := bind_eq_ok.mp run
        obtain ⟨middle, visits⟩ := exists_visits value member valueRun
        exact ⟨middle, .declare declared visits⟩
  | assign name value, before, after, member, run => by
      rw [subtrees, List.mem_cons] at member
      rcases member with rfl | member
      · exact ⟨before, .here⟩
      · rw [assemble] at run
        obtain ⟨index, next, found, run⟩ := bind_eq_ok.mp run
        obtain ⟨_, _, valueRun, _⟩ := bind_eq_ok.mp run
        obtain ⟨middle, visits⟩ := exists_visits value member valueRun
        exact ⟨middle, .assign found visits⟩
  | branch condition thenBranch elseBranch, before, after, member,
      run => by
      rw [subtrees, List.mem_cons, List.mem_append, List.mem_append]
        at member
      have testRun := run
      have firstRun := run
      rw [assemble_branch] at run
      rw [assemble_branch_eq_test] at testRun
      rw [assemble] at firstRun
      rcases member with rfl | inCondition | inThen | inElse
      · exact ⟨before, .here⟩
      · obtain ⟨_, _, conditionRun, _⟩ := bind_eq_ok.mp run
        obtain ⟨middle, visits⟩ :=
          exists_visits condition inCondition conditionRun
        exact ⟨middle, .condition visits⟩
      · obtain ⟨labels, _, tested, testRun⟩ := bind_eq_ok.mp testRun
        obtain ⟨_, _, thenRun, _⟩ := bind_eq_ok.mp testRun
        obtain ⟨middle, visits⟩ := exists_visits thenBranch inThen thenRun
        exact ⟨middle, .thenBranch tested visits⟩
      · obtain ⟨done, _, passed, firstRun⟩ := bind_eq_ok.mp firstRun
        obtain ⟨_, _, elseRun, _⟩ := bind_eq_ok.mp firstRun
        cases elseBranch with
        | none =>
            cases inElse
        | some elseBranch =>
            rw [optionalSubtrees] at inElse
            rw [assembleOptional] at elseRun
            obtain ⟨middle, visits⟩ :=
              exists_visits elseBranch inElse elseRun
            exact ⟨middle, .elseBranch passed visits⟩
  | call name args, before, after, member, run => by
      rw [subtrees, List.mem_cons] at member
      rcases member with rfl | member
      · exact ⟨before, .here⟩
      · rw [assemble] at run
        obtain ⟨types, _, typing, run⟩ := bind_eq_ok.mp run
        obtain ⟨typed, rfl⟩ := liftExcept_eq_ok.mp typing
        obtain ⟨instruction, _, resolving, run⟩ := bind_eq_ok.mp run
        obtain ⟨resolved, rfl⟩ := liftExcept_eq_ok.mp resolving
        obtain ⟨_, _, argsRun, _⟩ := bind_eq_ok.mp run
        obtain ⟨middle, visits⟩ := exists_visits_all args member argsRun
        exact ⟨middle, .argument typed resolved visits⟩
  | literal value, before, after, member, run => by
      rw [subtrees, List.mem_singleton] at member
      subst member
      exact ⟨before, .here⟩
  | compare left comparator right, before, after, member, run => by
      rw [subtrees, List.mem_cons, List.mem_append] at member
      rw [assemble] at run
      obtain ⟨_, next, leftRun, run⟩ := bind_eq_ok.mp run
      obtain ⟨_, _, rightRun, _⟩ := bind_eq_ok.mp run
      rcases member with rfl | inLeft | inRight
      · exact ⟨before, .here⟩
      · obtain ⟨middle, visits⟩ := exists_visits left inLeft leftRun
        exact ⟨middle, .operand (.front visits)⟩
      · obtain ⟨middle, visits⟩ := exists_visits right inRight rightRun
        exact ⟨middle, .operand (.behind leftRun visits)⟩
  | var name, before, after, member, run => by
      rw [subtrees, List.mem_singleton] at member
      subst member
      exact ⟨before, .here⟩

theorem exists_visits_all : (nodes : List Node) →
    ∀ {before after : Draft}, inner ∈ allSubtrees nodes →
    assembleAll scope nodes before = .ok () after →
    ∃ middle, Visits scope nodes before inner middle
  | [], before, after, member, run => by
      cases member
  | node :: nodes, before, after, member, run => by
      rw [allSubtrees, List.mem_append] at member
      rw [assembleAll] at run
      obtain ⟨_, next, nodeRun, restRun⟩ := bind_eq_ok.mp run
      rcases member with inNode | inRest
      · obtain ⟨middle, visits⟩ := exists_visits node inNode nodeRun
        exact ⟨middle, .front visits⟩
      · obtain ⟨middle, visits⟩ := exists_visits_all nodes inRest restRun
        exact ⟨middle, .behind nodeRun visits⟩

end

end Node

/-! ## Bodies of a script -/

namespace AssembleM

/-- `Begins catalog node before index body started` says that a declaration
has come to its body, which belongs to the method with the given number. -/
inductive Begins (catalog : Catalog) :
    Node → Assembly → Nat → Node → Assembly → Prop
  | proc {name : String} {params : List Param} {body : Node} {index : Nat}
      {before : Assembly} :
      before.methodNames.idxOf? name = some index →
      Begins catalog (.proc name params body) before index body before
  | trigger {event filter : String} {body : Node} {index : Nat}
      {before started : Assembly} :
      openTrigger catalog event filter before = .ok index started →
      Begins catalog (.trigger event filter body) before index body started

/-- `Visits catalog nodes before scope inner draft` says that assembling
declarations one after the other comes to the tree `inner` of some body, with
what can be referred to there and the draft of its method. -/
inductive Visits (catalog : Catalog) :
    List Node → Assembly → Scope → Node → Draft → Prop
  | inside {node body inner : Node} {nodes : List Node} {index : Nat}
      {before started : Assembly} {method : Method} {draft : Draft} :
      Begins catalog node before index body started →
      started.methods[index]? = some method →
      Node.Visits ⟨catalog, started.methodNames⟩ [body]
        ⟨method, started.tables⟩ inner draft →
      Visits catalog (node :: nodes) before
        ⟨catalog, started.methodNames⟩ inner draft
  | behind {node inner : Node} {nodes : List Node}
      {before next : Assembly} {scope : Scope} {draft : Draft} :
      assembleDeclaration catalog node before = .ok () next →
      Visits catalog nodes next scope inner draft →
      Visits catalog (node :: nodes) before scope inner draft

variable {catalog : Catalog} {before after started : Assembly}

theorem Begins.assembleDeclaration_eq {node body : Node} {index : Nat}
    (begins : Begins catalog node before index body started) :
    assembleDeclaration catalog node before =
      assembleBody catalog index body started := by
  cases begins with
  | @proc name params body index before found =>
      have looked : methodIndex? name before = .ok (some index) before := by
        rw [methodIndex?, get_bind_apply, found]
        rfl
      rw [assembleDeclaration, bind_eq_of_ok looked]
  | trigger opened =>
      rw [assembleDeclaration, assembleTrigger,
        bind_eq_of_ok opened]

/-- A trigger has a method of its own before its body is assembled. -/
theorem openTrigger_names {event filter : String} {index : Nat}
    (run : openTrigger catalog event filter before = .ok index started) :
    index = before.methods.length ∧
      started.methodNames = before.methodNames ++
        ["@" ++ event ++ "@" ++ filter ++ "@" ++
          toString before.triggers.length] ∧
      started.tables.constants = before.tables.constants := by
  obtain ⟨_, _, _, _, _, indexEq, opens⟩ := openTrigger_spec run
  refine ⟨indexEq, ?_, opens.constants⟩
  rw [Assembly.methodNames, opens.methods, List.map_append,
    List.map_singleton, opens.name]
  rfl

theorem assembleBody_keeps {index : Nat} {body : Node}
    (run : assembleBody catalog index body before = .ok () after) :
    before.tables.KeptIn after.tables := by
  rw [assembleBody_eq] at run
  obtain ⟨scope, _, looked, bodyRun⟩ := bind_eq_ok.mp run
  cases looked
  cases found : before.methods[index]? with
  | none =>
      rw [inMethod, found] at bodyRun
      cases bodyRun
      exact List.prefix_rfl
  | some method =>
      obtain ⟨draft, work, rfl⟩ := inMethod_spec found bodyRun
      exact (Node.assemble_keeps _ body).bind
        (fun _ => DraftM.emit_keeps _) _ () draft work

/-- A declaration that is assembled comes to its body. -/
theorem exists_begins {node : Node}
    (run : assembleDeclaration catalog node before = .ok () after) :
    ∃ index body started, Begins catalog node before index body started := by
  cases node with
  | trigger event filter body =>
      rw [assembleDeclaration, assembleTrigger] at run
      obtain ⟨index, started, opened, _⟩ := bind_eq_ok.mp run
      exact ⟨index, body, started, .trigger opened⟩
  | proc name params body =>
      obtain ⟨index?, _, looked, bodyRun⟩ := bind_eq_ok.mp run
      cases looked
      cases found : before.methodNames.idxOf? name with
      | none =>
          rw [found] at bodyRun
          exact absurd bodyRun throw_ne_ok
      | some index =>
          exact ⟨index, body, before, .proc found⟩
  | block | declare | assign | branch | call | literal | compare | var =>
      exact absurd run throw_ne_ok

theorem Begins.kept {node body : Node} {index : Nat}
    (begins : Begins catalog node before index body started) :
    before.tables.KeptIn started.tables := by
  cases begins with
  | proc found =>
      exact List.prefix_rfl
  | trigger opened =>
      have same := (openTrigger_names opened).2.2
      simp only [Tables.KeptIn, same, List.prefix_rfl]

/-- The body that a declaration comes to is its own, and its method is
there. -/
theorem Begins.found {node body : Node} {index : Nat}
    (begins : Begins catalog node before index body started) :
    (∃ method, started.methods[index]? = some method) ∧
      node.subtrees = node :: body.subtrees := by
  have bound : index < started.methodNames.length := by
    cases begins with
    | @proc name _ _ _ _ known =>
        have member : name ∈ before.methodNames :=
          List.isSome_idxOf?.mp (by rw [known]; rfl)
        rw [idxOf?_eq_some_idxOf member] at known
        cases known
        exact List.idxOf_lt_length_of_mem member
    | trigger opened =>
        obtain ⟨rfl, named, _⟩ := openTrigger_names opened
        rw [named, List.length_append, Assembly.methodNames,
          List.length_map]
        exact Nat.lt_succ_self _
  rw [Assembly.methodNames, List.length_map] at bound
  refine ⟨⟨_, List.getElem?_eq_getElem bound⟩, ?_⟩
  cases begins with
  | proc _ =>
      rw [Node.subtrees]
  | trigger _ =>
      rw [Node.subtrees]

theorem forM_keeps {nodes : List Node}
    (run : nodes.forM (assembleDeclaration catalog) before =
      .ok () after) :
    before.tables.KeptIn after.tables := by
  induction nodes generalizing before with
  | nil =>
      obtain ⟨_, rfl⟩ := pure_eq_ok.mp run
      exact List.prefix_rfl
  | cons node rest inductionHypothesis =>
      obtain ⟨_, middle, nodeRun, restRun⟩ := bind_eq_ok.mp run
      obtain ⟨index, body, started, begins⟩ := exists_begins nodeRun
      rw [begins.assembleDeclaration_eq] at nodeRun
      exact (begins.kept.trans (assembleBody_keeps nodeRun)).trans
        (inductionHypothesis restRun)

/-- If all declarations are assembled, then so is each tree that is visited,
and its constants stay where they are. -/
theorem Visits.assembled {nodes : List Node} {scope : Scope} {inner : Node}
    {draft : Draft} (visits : Visits catalog nodes before scope inner draft)
    (run : nodes.forM (assembleDeclaration catalog) before =
      .ok () after) :
    inner.AssembledBy scope draft after.tables := by
  induction visits with
  | inside begins found visits =>
      obtain ⟨_, middle, nodeRun, restRun⟩ := bind_eq_ok.mp run
      rw [begins.assembleDeclaration_eq, assembleBody_eq] at nodeRun
      obtain ⟨_, _, looked, bodyRun⟩ := bind_eq_ok.mp nodeRun
      cases looked
      obtain ⟨left, work, rfl⟩ := inMethod_spec found bodyRun
      rw [← Node.assembleAll_singleton] at work
      exact (Node.assembledBy_of_bind visits.assembled work
        fun _ => DraftM.emit_keeps _).trans (forM_keeps restRun)
  | behind nodeRun _ inductionHypothesis =>
      obtain ⟨_, middle, sameRun, restRun⟩ := bind_eq_ok.mp run
      rw [nodeRun] at sameRun
      cases sameRun
      exact inductionHypothesis restRun

/-- Every tree below the declarations is visited if all of them are
assembled. -/
theorem exists_visits {nodes : List Node} {inner : Node}
    (member : inner ∈ Node.allSubtrees nodes) (below : inner ∉ nodes)
    (run : nodes.forM (assembleDeclaration catalog) before =
      .ok () after) :
    ∃ scope draft, Visits catalog nodes before scope inner draft := by
  induction nodes generalizing before with
  | nil =>
      cases member
  | cons node rest inductionHypothesis =>
      obtain ⟨_, next, nodeRun, restRun⟩ := bind_eq_ok.mp run
      obtain ⟨index, body, started, begins⟩ := exists_begins nodeRun
      obtain ⟨⟨method, found⟩, parts⟩ := begins.found
      rw [Node.allSubtrees, List.mem_append, parts, List.mem_cons] at member
      rw [List.mem_cons, not_or] at below
      rcases member with (isNode | inBody) | inRest
      · exact absurd isNode below.1
      · rw [begins.assembleDeclaration_eq, assembleBody_eq] at nodeRun
        obtain ⟨_, _, looked, bodyRun⟩ := bind_eq_ok.mp nodeRun
        cases looked
        obtain ⟨left, work, _⟩ := inMethod_spec found bodyRun
        obtain ⟨_, _, treeRun, _⟩ := bind_eq_ok.mp work
        obtain ⟨draft, visits⟩ := Node.exists_visits body inBody treeRun
        exact ⟨_, draft, .inside begins found visits⟩
      · obtain ⟨scope, draft, visits⟩ :=
          inductionHypothesis inRest below.2 restRun
        exact ⟨scope, draft, .behind nodeRun visits⟩

end AssembleM

theorem Agrees.of_ok_run {ε σ α β : Type} {result : α} {after : σ}
    {verdict : Except ε β} {fits : σ → β → Prop}
    (agrees : Agrees (.ok result after : EStateM.Result ε σ α) verdict
      fits) :
    ∃ value, fits after value := by
  rcases agrees with ⟨_, _, failed, _⟩ | ⟨_, _, value, ran, _, fitting⟩
  · cases failed
  · cases ran
    exact ⟨value, fitting⟩

/-- Assembling one declaration leads on to the next. -/
theorem Script.Reached.next {catalog : Catalog} {procs : List String}
    {begun rest : List Node} {before after : Assembly}
    {done made : List (String × List String)} {node : Node}
    (reached : Reached procs begun (node :: rest) before done made)
    (run : AssembleM.assembleDeclaration catalog node before =
      .ok () after) :
    ∃ nextDone nextMade,
      Reached procs (begun ++ [node]) rest after nextDone nextMade := by
  cases node with
  | trigger event filter body =>
      have step : Agrees (AssembleM.assembleDeclaration catalog
          (.trigger event filter body) before) _ _ :=
        reached.trigger_step
      rw [run] at step
      obtain ⟨_, row, later⟩ := step.of_ok_run
      exact ⟨_, _, later⟩
  | proc name params body =>
      have step : Agrees (AssembleM.assembleDeclaration catalog
          (.proc name params body) before) _ _ :=
        reached.proc_step
      rw [run] at step
      obtain ⟨_, names, later⟩ := step.of_ok_run
      exact ⟨_, _, later⟩
  | block | declare | assign | branch | call | literal | compare | var =>
      exact absurd run throw_ne_ok

/-- What can be called when a body is assembled: the procedures of the whole
script and the triggers so far. -/
theorem AssembleM.Visits.scope_eq {catalog : Catalog}
    {procs : List String} {begun nodes : List Node} {before : Assembly}
    {done made : List (String × List String)} {scope : Scope}
    {inner : Node} {draft : Draft}
    (visits : Visits catalog nodes before scope inner draft)
    (reached : Script.Reached procs begun nodes before done made) :
    ∃ met : List Node,
      scope = ⟨catalog, procs ++ Declaration.triggerNames met⟩ := by
  induction visits generalizing begun done made with
  | @inside node body _ _ _ _ _ _ _ begins _ _ =>
      cases begins with
      | proc _ =>
          exact ⟨begun, by rw [reached.methodNames_eq]⟩
      | @trigger event filter _ _ _ _ opened =>
          refine ⟨begun ++ [.trigger event filter body], ?_⟩
          rw [(openTrigger_names opened).2.1, reached.methodNames_eq,
            reached.triggerNames_append, List.append_assoc]
  | behind nodeRun _ inductionHypothesis =>
      obtain ⟨_, _, later⟩ := reached.next nodeRun
      exact inductionHypothesis later

/-! ## Whole scripts -/

/-- `Script.Visits catalog nodes scope inner draft` says that assembling a
script comes to the tree `inner` of some body, with what can be referred to
there and the draft of its method. -/
def Script.Visits (catalog : Catalog) (nodes : List Node) (scope : Scope)
    (inner : Node) (draft : Draft) : Prop :=
  ∃ hoisted, AssembleM.hoistAll nodes {} = .ok () hoisted ∧
    AssembleM.Visits catalog nodes hoisted scope inner draft

namespace Script.Visits

variable {catalog : Catalog} {nodes : List Node} {scope : Scope}
  {inner : Node} {draft : Draft}

/-- What can be called: the procedures of the script, whether they are
declared before or after, and some triggers. -/
theorem methods_eq (visits : Visits catalog nodes scope inner draft) :
    scope.catalog = catalog ∧
      ((Declaration.procs nodes).map Declaration.name).Nodup ∧
      ∃ met : List Node, scope.methods =
        (Declaration.procs nodes).map Declaration.name ++
          Declaration.triggerNames met := by
  obtain ⟨hoisted, hoisting, visits⟩ := visits
  have agrees := AssembleM.hoistAll_agrees nodes {} List.nodup_nil
  rw [hoisting] at agrees
  obtain ⟨procs, namesEq, distinct, rows, triggersEq⟩ := agrees.of_ok_run
  have start := Reached.start namesEq distinct rows triggersEq
  have procsEq : procs = (Declaration.procs nodes).map Declaration.name := by
    rw [← start.procNames]
    simp [Declaration.headings]
  obtain ⟨met, scopeEq⟩ := visits.scope_eq start
  rw [scopeEq, ← procsEq]
  exact ⟨rfl, distinct, met, rfl⟩

/-- A tree that is visited on the way to a program is assembled, and its
constants have the same places in the program. -/
theorem assembled (visits : Visits catalog nodes scope inner draft)
    {program : Program}
    (made : Program.assemble catalog nodes = .ok program) :
    ∃ next, inner.assemble scope draft = .ok () next ∧
      next.tables.constants.entries <+: program.constants := by
  obtain ⟨hoisted, hoisting, visits⟩ := visits
  obtain ⟨assembly, run, rfl, _⟩ := Program.assemble_eq_ok made
  rw [AssembleM.assembleScript, bind_eq_of_ok hoisting] at run
  exact visits.assembled run

/-- Nothing of a script that becomes a program is left out. -/
theorem of_assemble {program : Program}
    (made : Program.assemble catalog nodes = .ok program)
    (member : inner ∈ Node.allSubtrees nodes) (below : inner ∉ nodes) :
    ∃ scope draft, Visits catalog nodes scope inner draft := by
  obtain ⟨assembly, run, _⟩ := Program.assemble_eq_ok made
  obtain ⟨_, hoisted, hoisting, run⟩ := bind_eq_ok.mp run
  obtain ⟨scope, draft, visits⟩ := AssembleM.exists_visits member below run
  exact ⟨scope, draft, hoisted, hoisting, visits⟩

end Script.Visits

end TriggerScript
