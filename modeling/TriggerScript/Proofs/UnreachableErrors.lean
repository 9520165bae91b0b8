import TriggerScript.Proofs.Outcomes
import TriggerScript.Proofs.SourceRoundTrip
import TriggerScript.Proofs.Stages
import TriggerScript.Proofs.Subtrees
import TriggerScript.Proofs.TriggerIsolation

/-!
# Errors that source text cannot cause

Some errors are there for trees that no source text stands for: a declaration
inside a body, a statement outside of all bodies.  Another one is there for no
tree at all, because every procedure is given a method before any body is
assembled.

Each error of a body is traced back to the subtree it comes from.  The
subtrees of a written body are statements and expressions, so none of them is
a declaration, and an argument that has no type is a variable, a call or a
comparison.
-/

namespace TriggerScript

/-! ## Where errors come from -/

/-- An argument of a call that is no literal, with its position from one on. -/
def Node.UntypedArgument (trees : List Node) (callee : String)
    (position : Nat) (arg : Node) : Prop :=
  ∃ args, .call callee args ∈ trees ∧ 0 < position ∧
    args[position - 1]? = some arg ∧ arg.staticType? = none

namespace CompileError

def OfBody (trees : List Node) : CompileError → Prop
  | duplicateVariable _ | undefinedVariable _ | unknownType _
  | unresolvedCall _ _ | unknownComparator _ => True
  | untypedArgument callee position kind =>
      ∃ arg, Node.UntypedArgument trees callee position arg ∧
        kind = arg.kindName
  | invalidPosition _ name =>
      (∃ filter body, .trigger name filter body ∈ trees) ∨
        ∃ params body, .proc name params body ∈ trees
  | duplicateProc _ | unknownListener _ | invalidFilter _ | outsideMethod _
  | procWithoutMethod _ => False

def OfHeading : CompileError → Prop
  | duplicateProc _ | duplicateVariable _ | unknownType _ => True
  | _ => False

inductive OfDeclaration : Node → CompileError → Prop
  | listener {event filter : String} {body : Node} :
      OfDeclaration (.trigger event filter body) (.unknownListener event)
  | filter {event filter : String} {body : Node} :
      OfDeclaration (.trigger event filter body) (.invalidFilter filter)
  | triggerBody {event filter : String} {body : Node}
      {error : CompileError} :
      error.OfBody body.subtrees →
      OfDeclaration (.trigger event filter body) error
  | procBody {name : String} {params : List Param} {body : Node}
      {error : CompileError} :
      error.OfBody body.subtrees →
      OfDeclaration (.proc name params body) error
  | outside {node : Node} :
      ¬ node.IsDeclaration →
      OfDeclaration node (.outsideMethod node.kindName)

theorem OfBody.mono {trees more : List Node} {error : CompileError}
    (fromTrees : error.OfBody trees) (included : trees ⊆ more) :
    error.OfBody more := by
  cases error with
  | duplicateVariable | undefinedVariable | unknownType | unresolvedCall
  | unknownComparator =>
      trivial
  | untypedArgument callee position kind =>
      obtain ⟨arg, ⟨args, member, found⟩, kindEq⟩ := fromTrees
      exact ⟨arg, ⟨args, included member, found⟩, kindEq⟩
  | invalidPosition kind name =>
      rcases fromTrees with ⟨filter, body, member⟩ | ⟨params, body, member⟩
      · exact Or.inl ⟨filter, body, included member⟩
      · exact Or.inr ⟨params, body, included member⟩
  | duplicateProc | unknownListener | invalidFilter | outsideMethod
  | procWithoutMethod =>
      cases fromTrees

end CompileError

namespace Node

variable {catalog : Catalog} {callable declared names : List String}
  {error : CompileError}

theorem checkNew_error {type name : String} (trees : List Node)
    (failed : checkNew type name declared = .error error) :
    error.OfBody trees ∧ error.OfHeading := by
  unfold checkNew at failed
  split at failed
  · cases failed
    exact ⟨trivial, trivial⟩
  · split at failed
    · cases failed
      exact ⟨trivial, trivial⟩
    · cases failed

theorem checkKnown_error {name : String} {trees : List Node}
    (failed : checkKnown name declared = .error error) :
    error.OfBody trees := by
  unfold checkKnown at failed
  split at failed
  · cases failed
  · cases failed
    trivial

theorem checkCall_error {name : String} {args : List Node}
    (failed : checkCall catalog callable name args declared =
      .error error) :
    error.OfBody (call name args).subtrees := by
  unfold checkCall at failed
  split at failed
  · rename_i arg position found
    cases failed
    have untyped := List.find?_some found
    obtain ⟨behind, _, argAt⟩ :=
      List.mem_zipIdx (List.mem_of_find?_eq_some found)
    refine ⟨arg, ⟨args, mem_subtrees_self _, behind, ?_,
      Option.isNone_iff_eq_none.mp untyped⟩, rfl⟩
    rw [argAt]
    exact List.getElem?_eq_getElem _
  · dsimp only at failed
    split at failed
    · cases failed
    · cases failed
      trivial

mutual

/-- Every error of a body comes from one of its subtrees. -/
theorem check_error :
    (node : Node) → {declared : List String} → {error : CompileError} →
    node.check catalog callable declared = .error error →
      error.OfBody node.subtrees
  | trigger event filter body, _, _, failed => by
      rw [check] at failed
      cases failed
      exact Or.inl ⟨filter, body, mem_subtrees_self _⟩
  | proc name params body, _, _, failed => by
      rw [check] at failed
      cases failed
      exact Or.inr ⟨params, body, mem_subtrees_self _⟩
  | block statements, _, _, failed => by
      rw [check] at failed
      rw [subtrees]
      exact (checkAll_error statements failed).mono
        (List.subset_cons_self _ _)
  | declare type name value, _, _, failed => by
      rw [check, exceptBind_eq_error] at failed
      rw [subtrees]
      rcases failed with isNew | ⟨_, _, failed⟩
      · exact (checkNew_error _ isNew).1
      · exact (checkOptional_error value failed).mono
          (List.subset_cons_self _ _)
  | assign name value, _, _, failed => by
      rw [check, exceptBind_eq_error] at failed
      rw [subtrees]
      rcases failed with isKnown | ⟨_, _, failed⟩
      · exact checkKnown_error isKnown
      · exact (check_error value failed).mono (List.subset_cons_self _ _)
  | branch condition thenBranch elseBranch, _, _, failed => by
      rw [check, exceptBind_eq_error] at failed
      rw [subtrees]
      rcases failed with failed | ⟨_, _, failed⟩
      · apply (check_error condition failed).mono
        intro tree member
        simp [member]
      · rw [exceptBind_eq_error] at failed
        rcases failed with failed | ⟨_, _, failed⟩
        · apply (check_error thenBranch failed).mono
          intro tree member
          simp [member]
        · apply (checkOptional_error elseBranch failed).mono
          intro tree member
          simp [member]
  | call name args, _, _, failed => by
      rw [check] at failed
      exact checkCall_error failed
  | literal value, _, _, failed => by
      rw [check] at failed
      cases failed
  | compare left comparator right, _, _, failed => by
      rw [check, exceptBind_eq_error] at failed
      rw [subtrees]
      rcases failed with failed | ⟨_, _, failed⟩
      · apply (check_error left failed).mono
        intro tree member
        simp [member]
      · rw [exceptBind_eq_error] at failed
        rcases failed with failed | ⟨_, _, failed⟩
        · apply (check_error right failed).mono
          intro tree member
          simp [member]
        · split at failed
          · cases failed
          · cases failed
            trivial
  | var name, _, _, failed => by
      rw [check] at failed
      exact checkKnown_error failed

theorem checkAll_error :
    (nodes : List Node) → {declared : List String} →
    {error : CompileError} →
    checkAll catalog callable nodes declared = .error error →
      error.OfBody (allSubtrees nodes)
  | [], _, _, failed => by
      rw [checkAll] at failed
      cases failed
  | node :: nodes, _, _, failed => by
      rw [checkAll, exceptBind_eq_error] at failed
      rw [allSubtrees]
      rcases failed with failed | ⟨_, _, failed⟩
      · exact (check_error node failed).mono (List.subset_append_left _ _)
      · exact (checkAll_error nodes failed).mono
          (List.subset_append_right _ _)

theorem checkOptional_error :
    (node : Option Node) → {declared : List String} →
    {error : CompileError} →
    checkOptional catalog callable node declared = .error error →
      error.OfBody (optionalSubtrees node)
  | none, _, _, failed => by
      rw [checkOptional] at failed
      cases failed
  | some node, _, _, failed => by
      rw [checkOptional] at failed
      exact check_error node failed

end

end Node

/-! ## Errors of scripts -/

namespace Script

variable {catalog : Catalog} {error : CompileError}

theorem checkParams_error {params : List Param} {declared : List String}
    (failed : checkParams params declared = .error error) :
    error.OfHeading := by
  induction params generalizing declared with
  | nil =>
      cases failed
  | cons param rest inductionHypothesis =>
      rw [checkParams, exceptBind_eq_error] at failed
      rcases failed with isNew | ⟨_, _, failed⟩
      · exact (Node.checkNew_error [] isNew).2
      · exact inductionHypothesis failed

theorem checkHeadings_error {nodes : List Node} {procs : List String}
    (failed : checkHeadings nodes procs = .error error) :
    error.OfHeading := by
  induction nodes generalizing procs with
  | nil =>
      cases failed
  | cons node rest inductionHypothesis =>
      cases node with
      | proc name params body =>
          rw [checkHeadings, exceptBind_eq_error] at failed
          rcases failed with heading | ⟨_, _, failed⟩
          · unfold checkHeading at heading
            split at heading
            · cases heading
              trivial
            · exact checkParams_error heading
          · exact inductionHypothesis failed
      | trigger | block | declare | assign | branch | call | literal
      | compare | var =>
          exact inductionHypothesis failed

theorem checkFrom_error {callable : List Node → List String}
    {begun rest : List Node}
    (failed : checkFrom catalog callable begun rest = .error error) :
    ∃ node ∈ rest, ∃ names,
      checkDeclaration catalog names node = .error error := by
  induction rest generalizing begun with
  | nil =>
      cases failed
  | cons node rest inductionHypothesis =>
      rw [checkFrom, exceptBind_eq_error] at failed
      rcases failed with failed | ⟨_, _, failed⟩
      · exact ⟨node, List.mem_cons_self, _, failed⟩
      · obtain ⟨later, member, found⟩ := inductionHypothesis failed
        exact ⟨later, List.mem_cons_of_mem node member, found⟩

/-- A script fails in the heading of a procedure or in one declaration. -/
theorem checkWithTriggers_error {nodes : List Node}
    (failed : checkWithTriggers catalog nodes = .error error) :
    error.OfHeading ∨
      ∃ node ∈ nodes, ∃ names,
        checkDeclaration catalog names node = .error error := by
  rw [checkWithTriggers, exceptBind_eq_error] at failed
  rcases failed with headings | ⟨_, _, failed⟩
  · exact Or.inl (checkHeadings_error headings)
  · exact Or.inr (checkFrom_error failed)

theorem checkDeclaration_error {names : List String} {node : Node}
    (failed : checkDeclaration catalog names node = .error error) :
    CompileError.OfDeclaration node error := by
  cases node with
  | trigger event filter body =>
      rw [checkDeclaration] at failed
      split at failed
      · cases failed
        exact .listener
      · split at failed
        · cases failed
          exact .filter
        · cases checked : body.check catalog names [] with
          | ok declared =>
              rw [checked] at failed
              cases failed
          | error other =>
              rw [checked] at failed
              cases failed
              exact .triggerBody (body.check_error checked)
  | proc name params body =>
      rw [checkDeclaration] at failed
      cases checked :
          body.check catalog names (params.map Param.name) with
      | ok declared =>
          rw [checked] at failed
          cases failed
      | error other =>
          rw [checked] at failed
          cases failed
          exact .procBody (body.check_error checked)
  | block | declare | assign | branch | call | literal | compare | var =>
      cases failed
      exact .outside id

end Script

theorem CompileError.OfDeclaration.ne_procWithoutMethod {node : Node}
    {error : CompileError} (fromNode : OfDeclaration node error)
    (name : String) : error ≠ .procWithoutMethod name := by
  rintro rfl
  cases fromNode with
  | triggerBody fromBody =>
      exact fromBody
  | procBody fromBody =>
      exact fromBody

namespace Program

variable {catalog : Catalog} {error : CompileError}

/-- A script that cannot be assembled fails in the heading of a procedure or
in one declaration. -/
theorem assemble_error {nodes : List Node}
    (failed : assemble catalog nodes = .error error) :
    error.OfHeading ∨
      ∃ node ∈ nodes, CompileError.OfDeclaration node error := by
  have checked : Script.checkWithTriggers catalog nodes = .error error := by
    rcases assemble_outcome catalog nodes with
      ⟨other, ran, checked⟩ | ⟨program, ran, _⟩
    · rw [ran] at failed
      cases failed
      exact checked
    · rw [ran] at failed
      cases failed
  rcases Script.checkWithTriggers_error checked with
    heading | ⟨node, member, names, declaration⟩
  · exact Or.inl heading
  · exact Or.inr ⟨node, member, Script.checkDeclaration_error declaration⟩

end Program

/-! ## Written scripts -/

namespace Node

mutual

theorem isExpression_of_subtree :
    (node : Node) → node.IsExpression →
      ∀ tree ∈ node.subtrees, tree.IsExpression
  | literal value, isExpression => by
      simpa [subtrees] using isExpression
  | var name, isExpression => by
      simpa [subtrees] using isExpression
  | call name args, isExpression => by
      rw [subtrees]
      exact List.forall_mem_cons.mpr
        ⟨isExpression, isExpression_of_subtrees args isExpression.2⟩
  | compare left comparator right, isExpression => by
      rw [subtrees]
      exact List.forall_mem_cons.mpr ⟨isExpression,
        List.forall_mem_append.mpr
          ⟨isExpression_of_subtree left isExpression.2.1,
            isExpression_of_subtree right isExpression.2.2⟩⟩

theorem isExpression_of_subtrees :
    (nodes : List Node) → AreExpressions nodes →
      ∀ tree ∈ allSubtrees nodes, tree.IsExpression
  | [], _ => by
      simp [allSubtrees]
  | node :: nodes, ⟨isExpression, areExpressions⟩ => by
      rw [allSubtrees]
      exact List.forall_mem_append.mpr
        ⟨isExpression_of_subtree node isExpression,
          isExpression_of_subtrees nodes areExpressions⟩

end

theorem phrase_of_expression {node : Node} (isExpression : node.IsExpression) :
    ∀ tree ∈ node.subtrees, tree.IsStatement ∨ tree.IsExpression :=
  fun tree member =>
    Or.inr (isExpression_of_subtree node isExpression tree member)

mutual

/-- The parts of a statement are statements and expressions. -/
theorem phrase_of_statement :
    (node : Node) → node.IsStatement →
      ∀ tree ∈ node.subtrees, tree.IsStatement ∨ tree.IsExpression
  | block statements, areStatements => by
      rw [subtrees]
      exact List.forall_mem_cons.mpr ⟨Or.inl areStatements,
        phrase_of_statements statements areStatements⟩
  | declare type name none, isStatement => by
      simpa [subtrees, optionalSubtrees] using Or.inl isStatement
  | declare type name (some value), isStatement => by
      rw [subtrees, optionalSubtrees]
      exact List.forall_mem_cons.mpr ⟨Or.inl isStatement,
        phrase_of_expression isStatement.2.2⟩
  | assign name value, isStatement => by
      rw [subtrees]
      exact List.forall_mem_cons.mpr ⟨Or.inl isStatement,
        phrase_of_expression isStatement.2⟩
  | branch condition thenBranch none, isStatement => by
      rw [subtrees, optionalSubtrees, List.append_nil]
      exact List.forall_mem_cons.mpr ⟨Or.inl isStatement,
        List.forall_mem_append.mpr
          ⟨phrase_of_expression isStatement.1,
            phrase_of_statement thenBranch isStatement.2⟩⟩
  | branch condition thenBranch (some elseBranch), isStatement => by
      rw [subtrees, optionalSubtrees]
      exact List.forall_mem_cons.mpr ⟨Or.inl isStatement,
        List.forall_mem_append.mpr
          ⟨phrase_of_expression isStatement.1,
            List.forall_mem_append.mpr
              ⟨phrase_of_statement thenBranch isStatement.2.1,
                phrase_of_statement elseBranch isStatement.2.2⟩⟩⟩
  | call name args, isStatement => by
      rw [subtrees]
      exact List.forall_mem_cons.mpr ⟨Or.inl isStatement, fun tree member =>
        Or.inr (isExpression_of_subtrees args isStatement.2 tree member)⟩

theorem phrase_of_statements :
    (nodes : List Node) → AreStatements nodes →
      ∀ tree ∈ allSubtrees nodes, tree.IsStatement ∨ tree.IsExpression
  | [], _ => by
      simp [allSubtrees]
  | node :: nodes, ⟨isStatement, areStatements⟩ => by
      rw [allSubtrees]
      exact List.forall_mem_append.mpr
        ⟨phrase_of_statement node isStatement,
          phrase_of_statements nodes areStatements⟩

end

theorem AreExpressions.of_mem {nodes : List Node} {node : Node}
    (areExpressions : AreExpressions nodes) (member : node ∈ nodes) :
    node.IsExpression :=
  isExpression_of_subtrees nodes areExpressions node
    (subtrees_subset_of_mem member node.mem_subtrees_self)

/-- Trees that stand for a value which is only known when the script runs. -/
inductive IsComputed : Node → Prop
  | var (name : String) : IsComputed (.var name)
  | call (name : String) (args : List Node) : IsComputed (.call name args)
  | compare (left : Node) (comparator : Token.Kind) (right : Node) :
      IsComputed (.compare left comparator right)

theorem isComputed_of_untyped {node : Node}
    (isExpression : node.IsExpression)
    (untyped : node.staticType? = none) : node.IsComputed := by
  cases node with
  | literal value =>
      cases untyped
  | var name =>
      exact .var name
  | call name args =>
      exact .call name args
  | compare left comparator right =>
      exact .compare left comparator right
  | trigger | proc | block | declare | assign | branch =>
      exact isExpression.elim

end Node

namespace CompileError

/-- Errors that source text with these trees can cause. -/
def OfSource (trees : List Node) : CompileError → Prop
  | untypedArgument callee position kind =>
      ∃ arg, Node.UntypedArgument trees callee position arg ∧
        arg.IsComputed ∧ kind = arg.kindName
  | invalidPosition _ _ | outsideMethod _ | procWithoutMethod _ => False
  | _ => True

theorem OfHeading.ofSource {trees : List Node} {error : CompileError}
    (fromHeading : error.OfHeading) : error.OfSource trees := by
  cases error with
  | duplicateProc | duplicateVariable | unknownType =>
      trivial
  | undefinedVariable | unresolvedCall | untypedArgument | unknownListener
  | invalidFilter | unknownComparator | invalidPosition | outsideMethod
  | procWithoutMethod =>
      exact fromHeading.elim

/-- In a statement no declaration is nested, and arguments are
expressions. -/
theorem OfBody.ofSource {body : Node} {trees : List Node}
    {error : CompileError} (isStatement : body.IsStatement)
    (included : body.subtrees ⊆ trees)
    (fromBody : error.OfBody body.subtrees) : error.OfSource trees := by
  have phrases := body.phrase_of_statement isStatement
  cases error with
  | duplicateVariable | undefinedVariable | unknownType | unresolvedCall
  | unknownComparator =>
      trivial
  | untypedArgument callee position kind =>
      obtain ⟨arg, ⟨args, member, behind, argAt, untyped⟩, kindEq⟩ :=
        fromBody
      have areExpressions : Node.AreExpressions args := by
        rcases phrases _ member with isStatement | isExpression
        · exact isStatement.2
        · exact isExpression.2
      have computed : arg.IsComputed := by
        apply Node.isComputed_of_untyped _ untyped
        exact areExpressions.of_mem (List.mem_of_getElem? argAt)
      exact ⟨arg, ⟨args, included member, behind, argAt, untyped⟩, computed,
        kindEq⟩
  | invalidPosition kind name =>
      rcases fromBody with ⟨filter, inner, member⟩ | ⟨params, inner, member⟩
      · rcases phrases _ member with impossible | impossible
        · exact impossible
        · exact impossible
      · rcases phrases _ member with impossible | impossible
        · exact impossible
        · exact impossible
  | duplicateProc | unknownListener | invalidFilter | outsideMethod
  | procWithoutMethod =>
      exact fromBody.elim

theorem OfDeclaration.ofSource {node : Node} {trees : List Node}
    {error : CompileError} (declared : node.IsDeclaration)
    (included : node.subtrees ⊆ trees)
    (fromNode : OfDeclaration node error) : error.OfSource trees := by
  cases fromNode with
  | listener =>
      trivial
  | filter =>
      trivial
  | @triggerBody event filter body _ fromBody =>
      apply fromBody.ofSource declared.2.2
      intro tree member
      apply included
      simp [Node.subtrees, member]
  | @procBody name params body _ fromBody =>
      apply fromBody.ofSource declared.proc.2
      intro tree member
      apply included
      simp [Node.subtrees, member]
  | outside notDeclared =>
      exact absurd declared notDeclared

end CompileError

namespace Program

theorem compile_error_ofSource {catalog : Catalog} {source : String}
    {error : CompileError}
    (failed : compile catalog source = .error (.compile error)) :
    ∃ tokens nodes, Token.scan source = .ok tokens ∧
      Node.parse tokens = .ok nodes ∧
      error.OfSource (Node.allSubtrees nodes) := by
  cases scanned : Token.scan source with
  | error scanError =>
      rw [compile_of_scan_error scanned] at failed
      cases failed
  | ok tokens =>
      cases parsed : Node.parse tokens with
      | error parseError =>
          rw [compile_of_parse_error scanned parsed] at failed
          cases failed
      | ok nodes =>
          rw [compile_of_parse scanned parsed] at failed
          cases assembled : assemble catalog nodes with
          | ok program =>
              rw [assembled] at failed
              cases failed
          | error other =>
              rw [assembled] at failed
              cases failed
              refine ⟨tokens, nodes, rfl, parsed, ?_⟩
              rcases assemble_error assembled with
                heading | ⟨node, member, fromNode⟩
              · exact heading.ofSource
              · have declared :=
                  (Node.printable_of_scan scanned parsed node member).1
                exact fromNode.ofSource declared
                  (Node.subtrees_subset_of_mem member)

/-- Source text is never refused for a nested declaration, for a statement
outside of a body or for a procedure without a method, and an argument that it
is refused for is a variable, a call or a comparison.  No tree whatever is
refused for a procedure without a method. -/
theorem compile_error_reachable :
    (∀ (catalog : Catalog) (source : String) (error : CompileError),
      compile catalog source = .error (.compile error) →
        (∀ kind name, error ≠ .invalidPosition kind name) ∧
          (∀ kind, error ≠ .outsideMethod kind) ∧
          (∀ name, error ≠ .procWithoutMethod name) ∧
          ∀ callee position kind,
            error = .untypedArgument callee position kind →
              ∃ tokens nodes arg, Token.scan source = .ok tokens ∧
                Node.parse tokens = .ok nodes ∧
                Node.UntypedArgument (Node.allSubtrees nodes) callee
                  position arg ∧
                arg.IsComputed ∧ kind = arg.kindName) ∧
      ∀ (catalog : Catalog) (nodes : List Node) (name : String),
        assemble catalog nodes ≠ .error (.procWithoutMethod name) := by
  constructor
  · intro catalog source error failed
    obtain ⟨tokens, nodes, scanned, parsed, fromSource⟩ :=
      compile_error_ofSource failed
    refine ⟨?_, ?_, ?_, ?_⟩
    · rintro kind name rfl
      exact fromSource
    · rintro kind rfl
      exact fromSource
    · rintro name rfl
      exact fromSource
    · rintro callee position kind rfl
      obtain ⟨arg, untyped, computed, kindEq⟩ := fromSource
      exact ⟨tokens, nodes, arg, scanned, parsed, untyped, computed, kindEq⟩
  · intro catalog nodes name failed
    rcases assemble_error failed with heading | ⟨node, _, fromNode⟩
    · exact heading
    · exact fromNode.ne_procWithoutMethod name rfl

end Program

theorem compile_faulty :
    Program.compile doorCatalog (Node.render faultyScript) =
      .error (.compile (.untypedArgument "greet" 2 "identifier")) := by
  have printable : Node.Printable faultyScript := by
    simp [faultyScript, Node.Printable, Node.IsDeclaration, Node.IsStatement,
      Node.AreStatements, Node.IsExpression, Node.AreExpressions,
      Literal.Printable, Node.NearestElse, Node.AllNearestElse]
    decide
  obtain ⟨tokens, scanned, parsed⟩ := Node.parse_scan_render printable
  rw [Program.compile_of_parse scanned parsed]
  have checked : Script.checkWithTriggers doorCatalog faultyScript =
      .error (.untypedArgument "greet" 2 "identifier") := by
    rfl
  rcases Program.assemble_outcome doorCatalog faultyScript with
    ⟨error, ran, failed⟩ | ⟨program, _, passed⟩
  · rw [checked] at failed
    cases failed
    rw [ran]
    rfl
  · rw [checked] at passed
    cases passed

theorem compile_error_reachable_faulty :
    Program.compile doorCatalog (Node.render faultyScript) =
        .error (.compile (.untypedArgument "greet" 2 "identifier")) ∧
      ∃ tokens nodes arg,
        Token.scan (Node.render faultyScript) = .ok tokens ∧
          Node.parse tokens = .ok nodes ∧
          Node.UntypedArgument (Node.allSubtrees nodes) "greet" 2 arg ∧
          arg.IsComputed ∧ "identifier" = arg.kindName :=
  ⟨compile_faulty,
    (Program.compile_error_reachable.1 _ _ _ compile_faulty).2.2.2
      _ _ _ rfl⟩

end TriggerScript
