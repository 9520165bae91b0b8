import TriggerScript.Proofs.Subtrees
import Mathlib.Data.List.Find
import Mathlib.Logic.Function.Basic

/-!
# Renamed scripts

Names of variables and of procedures carry no meaning of their own.  A renaming
gives new names to both; it is injective, so that different names stay
different.  A script is renamed as a whole, and a renaming that leaves the
functions of the host alone does not change what the checker finds: it accepts
the renamed script if it accepts the script, and otherwise stops at the same
place with the same error about the renamed name.
-/

namespace TriggerScript

/-- New names for the variables and for the procedures of a script. -/
structure Renaming where
  vars : String → String
  procs : String → String
  vars_injective : Function.Injective vars
  procs_injective : Function.Injective procs

/-- The functions of the host keep their names. -/
def Renaming.Fixes (naming : Renaming) (catalog : Catalog) : Prop :=
  ∀ native ∈ catalog.functions, naming.procs native.name = native.name

/-! ## Trees -/

def Param.rename (naming : Renaming) (param : Param) : Param :=
  { param with name := naming.vars param.name }

namespace Node

mutual

def rename (naming : Renaming) : Node → Node
  | trigger event filter body => trigger event filter (body.rename naming)
  | proc name params body =>
      proc (naming.procs name) (params.map (Param.rename naming))
        (body.rename naming)
  | block statements => block (renameAll naming statements)
  | declare type name value =>
      declare type (naming.vars name) (renameOptional naming value)
  | assign name value =>
      assign (naming.vars name) (value.rename naming)
  | branch condition thenBranch elseBranch =>
      branch (condition.rename naming) (thenBranch.rename naming)
        (renameOptional naming elseBranch)
  | call name args => call (naming.procs name) (renameAll naming args)
  | literal value => literal value
  | compare left comparator right =>
      compare (left.rename naming) comparator (right.rename naming)
  | var name => var (naming.vars name)

def renameAll (naming : Renaming) : List Node → List Node
  | [] => []
  | node :: nodes => node.rename naming :: renameAll naming nodes

def renameOptional (naming : Renaming) : Option Node → Option Node
  | none => none
  | some node => some (node.rename naming)

end

variable (naming : Renaming)

theorem renameAll_eq_map (nodes : List Node) :
    renameAll naming nodes = nodes.map (rename naming) := by
  induction nodes with
  | nil =>
      rw [renameAll, List.map_nil]
  | cons node nodes inductionHypothesis =>
      rw [renameAll, inductionHypothesis, List.map_cons]

@[simp]
theorem staticType?_rename (node : Node) :
    (node.rename naming).staticType? = node.staticType? := by
  cases node <;> simp [rename, staticType?]

@[simp]
theorem kindName_rename (node : Node) :
    (node.rename naming).kindName = node.kindName := by
  cases node <;> simp [rename, kindName]

mutual

theorem subtrees_rename :
    (node : Node) → (node.rename naming).subtrees =
      node.subtrees.map (rename naming)
  | trigger event filter body => by
      rw [subtrees, List.map_cons, rename, subtrees, subtrees_rename body]
  | proc name params body => by
      rw [subtrees, List.map_cons, rename, subtrees, subtrees_rename body]
  | block statements => by
      rw [subtrees, List.map_cons, rename, subtrees,
        allSubtrees_rename statements]
  | declare type name value => by
      rw [subtrees, List.map_cons, rename, subtrees,
        optionalSubtrees_rename value]
  | assign name value => by
      rw [subtrees, List.map_cons, rename, subtrees, subtrees_rename value]
  | branch condition thenBranch elseBranch => by
      rw [subtrees, List.map_cons, rename, subtrees,
        subtrees_rename condition, subtrees_rename thenBranch,
        optionalSubtrees_rename elseBranch, List.map_append,
        List.map_append]
  | call name args => by
      rw [subtrees, List.map_cons, rename, subtrees, allSubtrees_rename args]
  | literal value => by
      rw [subtrees, List.map_singleton, rename, subtrees]
  | compare left comparator right => by
      rw [subtrees, List.map_cons, rename, subtrees, subtrees_rename left,
        subtrees_rename right, List.map_append]
  | var name => by
      rw [subtrees, List.map_singleton, rename, subtrees]

theorem allSubtrees_rename :
    (nodes : List Node) → allSubtrees (renameAll naming nodes) =
      (allSubtrees nodes).map (rename naming)
  | [] => by
      rw [renameAll, allSubtrees, List.map_nil]
  | node :: nodes => by
      rw [renameAll, allSubtrees, allSubtrees, subtrees_rename node,
        allSubtrees_rename nodes, List.map_append]

theorem optionalSubtrees_rename :
    (node : Option Node) →
      optionalSubtrees (renameOptional naming node) =
        (optionalSubtrees node).map (rename naming)
  | none => by
      rw [renameOptional, optionalSubtrees, List.map_nil]
  | some node => by
      rw [renameOptional, optionalSubtrees, optionalSubtrees,
        subtrees_rename node]

end

theorem calledNames_rename (node : Node) :
    (node.rename naming).calledNames =
      node.calledNames.map naming.procs := by
  have callees : callee? ∘ rename naming =
      fun tree => (callee? tree).map naming.procs := by
    funext tree
    cases tree <;> simp [rename, callee?]
  rw [calledNames_eq, calledNames_eq, subtrees_rename, List.filterMap_map,
    callees, List.map_filterMap]

end Node

/-! ## Outcomes -/

namespace Renaming

variable (naming : Renaming)

def error : CompileError → CompileError
  | .duplicateProc name => .duplicateProc (naming.procs name)
  | .duplicateVariable name => .duplicateVariable (naming.vars name)
  | .undefinedVariable name => .undefinedVariable (naming.vars name)
  | .unresolvedCall name types => .unresolvedCall (naming.procs name) types
  | .untypedArgument callee position kind =>
      .untypedArgument (naming.procs callee) position kind
  | .invalidPosition kind name =>
      .invalidPosition kind
        (if kind = "func" then naming.procs name else name)
  | .procWithoutMethod name => .procWithoutMethod (naming.procs name)
  | .unknownType name => .unknownType name
  | .unknownListener name => .unknownListener name
  | .invalidFilter filter => .invalidFilter filter
  | .unknownComparator comparator => .unknownComparator comparator
  | .outsideMethod kind => .outsideMethod kind

/-- The outcome for a renamed script, with a changed value or a renamed
error. -/
def outcome {α β : Type} (change : α → β) :
    Except CompileError α → Except CompileError β
  | .ok value => .ok (change value)
  | .error error => .error (naming.error error)

variable {α β γ δ : Type}

@[simp]
theorem outcome_ok (change : α → β) (value : α) :
    naming.outcome change (.ok value) = .ok (change value) := rfl

@[simp]
theorem outcome_error (change : α → β) (found : CompileError) :
    naming.outcome change (.error found) = .error (naming.error found) :=
  rfl

/-- Renaming goes through a sequence of steps. -/
theorem outcome_bind {change : α → β} {other : γ → δ}
    {first : Except CompileError α} {next : α → Except CompileError γ}
    {renamed : β → Except CompileError δ}
    (continues : ∀ value,
      renamed (change value) = naming.outcome other (next value)) :
    (naming.outcome change first >>= renamed) =
      naming.outcome other (first >>= next) := by
  cases first with
  | error error =>
      rfl
  | ok value =>
      exact continues value

/-- Renaming goes through a change of the value. -/
theorem outcome_map {change : α → β} {verdict : Except CompileError α}
    {forget : α → γ} {forgetRenamed : β → γ}
    (same : ∀ value, forgetRenamed (change value) = forget value) :
    (naming.outcome change verdict).map forgetRenamed =
      naming.outcome id (verdict.map forget) := by
  cases verdict with
  | error error =>
      rfl
  | ok value =>
      exact congrArg Except.ok (same value)

/-- A function of the host has a renamed name only if it had the name. -/
theorem Fixes.name_eq_iff {naming : Renaming} {catalog : Catalog}
    (fixes : naming.Fixes catalog) {native : Catalog.Function}
    (member : native ∈ catalog.functions) (name : String) :
    native.name = naming.procs name ↔ native.name = name := by
  constructor
  · intro same
    apply naming.procs_injective
    rw [fixes native member, same]
  · intro same
    rw [← same, fixes native member]

end Renaming

/-! ## Checking renamed scripts -/

namespace Node

theorem checkNew_rename (naming : Renaming) (type name : String)
    (declared : List String) :
    checkNew type (naming.vars name) (declared.map naming.vars) =
      naming.outcome (List.map naming.vars)
        (checkNew type name declared) := by
  simp only [checkNew, List.mem_map_of_injective naming.vars_injective,
    apply_ite (naming.outcome _), Renaming.outcome_ok,
    Renaming.outcome_error, List.map_append, List.map_singleton]
  rfl

theorem checkKnown_rename (naming : Renaming) (name : String)
    (declared : List String) :
    checkKnown (naming.vars name) (declared.map naming.vars) =
      naming.outcome (List.map naming.vars) (checkKnown name declared) := by
  simp only [checkKnown, List.mem_map_of_injective naming.vars_injective,
    apply_ite (naming.outcome _), Renaming.outcome_ok,
    Renaming.outcome_error]
  rfl

/-- Renaming keeps the place of the first argument without a type. -/
theorem find?_untyped_rename (naming : Renaming) (args : List Node) :
    ((renameAll naming args).zipIdx 1).find?
        (fun (arg, _) => arg.staticType?.isNone) =
      ((args.zipIdx 1).find? fun (arg, _) => arg.staticType?.isNone).map
        (Prod.map (rename naming) id) := by
  rw [renameAll_eq_map, List.zipIdx_map, List.find?_map]
  congr 2
  funext arg
  simp

theorem filterMap_staticType?_rename (naming : Renaming)
    (args : List Node) :
    (renameAll naming args).filterMap staticType? =
      args.filterMap staticType? := by
  rw [renameAll_eq_map, List.filterMap_map]
  congr 1
  funext arg
  simp

variable {naming : Renaming} {catalog : Catalog}

theorem checkCall_rename (fixes : naming.Fixes catalog)
    (callable : List String) (name : String) (args : List Node)
    (declared : List String) :
    checkCall catalog (callable.map naming.procs) (naming.procs name)
        (renameAll naming args) (declared.map naming.vars) =
      naming.outcome (List.map naming.vars)
        (checkCall catalog callable name args declared) := by
  have resolved : (∃ native ∈ catalog.functions,
      native.name = naming.procs name ∧
        native.signature = args.filterMap staticType?) ↔
      ∃ native ∈ catalog.functions,
        native.name = name ∧
          native.signature = args.filterMap staticType? := by
    apply exists_congr
    intro native
    apply and_congr_right
    intro member
    rw [fixes.name_eq_iff member]
  unfold checkCall
  rw [find?_untyped_rename, filterMap_staticType?_rename]
  cases (args.zipIdx 1).find? fun (arg, _) => arg.staticType?.isNone with
  | some found =>
      obtain ⟨arg, position⟩ := found
      simp [Renaming.error]
  | none =>
      simp only [Option.map_none, resolved,
        List.mem_map_of_injective naming.procs_injective,
        apply_ite (naming.outcome _), Renaming.outcome_ok,
        Renaming.outcome_error]
      rfl

mutual

/-- The checker finds in a renamed body what it finds in the body. -/
theorem check_rename (fixes : naming.Fixes catalog)
    (callable : List String) : (node : Node) → ∀ declared,
    (node.rename naming).check catalog (callable.map naming.procs)
        (declared.map naming.vars) =
      naming.outcome (List.map naming.vars)
        (node.check catalog callable declared)
  | trigger event filter body, declared => by
      rw [rename, check, check]
      rfl
  | proc name params body, declared => by
      rw [rename, check, check]
      rfl
  | block statements, declared => by
      rw [rename, check, check]
      exact checkAll_rename fixes callable statements declared
  | declare type name value, declared => by
      rw [rename, check, check, checkNew_rename]
      exact naming.outcome_bind
        (checkOptional_rename fixes callable value)
  | assign name value, declared => by
      rw [rename, check, check, checkKnown_rename]
      exact naming.outcome_bind (check_rename fixes callable value)
  | branch condition thenBranch elseBranch, declared => by
      rw [rename, check, check, check_rename fixes callable condition]
      apply naming.outcome_bind
      intro declared
      rw [check_rename fixes callable thenBranch]
      exact naming.outcome_bind
        (checkOptional_rename fixes callable elseBranch)
  | call name args, declared => by
      rw [rename, check, check]
      exact checkCall_rename fixes callable name args declared
  | literal value, declared => by
      rw [rename, check, check]
      rfl
  | compare left comparator right, declared => by
      rw [rename, check, check, check_rename fixes callable left]
      apply naming.outcome_bind
      intro declared
      rw [check_rename fixes callable right]
      apply naming.outcome_bind
      intro declared
      rw [apply_ite (naming.outcome _)]
      rfl
  | var name, declared => by
      rw [rename, check, check]
      exact checkKnown_rename naming name declared

theorem checkAll_rename (fixes : naming.Fixes catalog)
    (callable : List String) : (nodes : List Node) → ∀ declared,
    checkAll catalog (callable.map naming.procs) (renameAll naming nodes)
        (declared.map naming.vars) =
      naming.outcome (List.map naming.vars)
        (checkAll catalog callable nodes declared)
  | [], declared => by
      rw [renameAll, checkAll, checkAll]
      rfl
  | node :: nodes, declared => by
      rw [renameAll, checkAll, checkAll, check_rename fixes callable node]
      exact naming.outcome_bind (checkAll_rename fixes callable nodes)

theorem checkOptional_rename (fixes : naming.Fixes catalog)
    (callable : List String) : (node : Option Node) → ∀ declared,
    checkOptional catalog (callable.map naming.procs)
        (renameOptional naming node) (declared.map naming.vars) =
      naming.outcome (List.map naming.vars)
        (checkOptional catalog callable node declared)
  | none, declared => by
      rw [renameOptional, checkOptional, checkOptional]
      rfl
  | some node, declared => by
      rw [renameOptional, checkOptional, checkOptional]
      exact check_rename fixes callable node declared

end

end Node

namespace Script

variable (naming : Renaming)

theorem checkParams_rename (params : List Param)
    (declared : List String) :
    checkParams (params.map (Param.rename naming))
        (declared.map naming.vars) =
      naming.outcome (List.map naming.vars)
        (checkParams params declared) := by
  induction params generalizing declared with
  | nil =>
      rfl
  | cons param params inductionHypothesis =>
      rw [List.map_cons, checkParams, checkParams]
      have first := Node.checkNew_rename naming param.type param.name
        declared
      rw [Param.rename, first]
      exact naming.outcome_bind inductionHypothesis

theorem checkHeading_rename (procs : List String) (name : String)
    (params : List Param) :
    checkHeading (procs.map naming.procs) (naming.procs name)
        (params.map (Param.rename naming)) =
      naming.outcome (List.map naming.vars)
        (checkHeading procs name params) := by
  simp only [checkHeading, List.mem_map_of_injective naming.procs_injective,
    apply_ite (naming.outcome _), ← checkParams_rename]
  rfl

theorem checkHeadings_rename (nodes : List Node) (procs : List String) :
    checkHeadings (nodes.map (Node.rename naming))
        (procs.map naming.procs) =
      naming.outcome (List.map naming.procs)
        (checkHeadings nodes procs) := by
  induction nodes generalizing procs with
  | nil =>
      rfl
  | cons node rest inductionHypothesis =>
      cases node with
      | proc name params body =>
          rw [List.map_cons, Node.rename, checkHeadings, checkHeadings,
            checkHeading_rename]
          apply naming.outcome_bind
          intro _
          have next := inductionHypothesis (procs ++ [name])
          rwa [List.map_append] at next
      | trigger | block | declare | assign | branch | call | literal
      | compare | var =>
          rw [List.map_cons, Node.rename]
          exact inductionHypothesis procs

variable {naming} {catalog : Catalog}

theorem checkDeclaration_rename (fixes : naming.Fixes catalog)
    (callable : List String) (node : Node) :
    checkDeclaration catalog (callable.map naming.procs)
        (node.rename naming) =
      naming.outcome id (checkDeclaration catalog callable node) := by
  cases node with
  | trigger event filter body =>
      have checked := Node.check_rename fixes callable body []
      rw [List.map_nil] at checked
      simp only [Node.rename, checkDeclaration, apply_ite (naming.outcome _),
        checked]
      rw [naming.outcome_map fun _ => rfl]
      rfl
  | proc name params body =>
      have names : (params.map (Param.rename naming)).map Param.name =
          (params.map Param.name).map naming.vars := by
        rw [List.map_map, List.map_map]
        rfl
      simp only [Node.rename, checkDeclaration, names,
        Node.check_rename fixes callable body]
      exact naming.outcome_map fun _ => rfl
  | block | declare | assign | branch | call | literal | compare | var =>
      simp [Node.rename, checkDeclaration, Node.kindName, Renaming.error]

theorem checkFrom_rename (fixes : naming.Fixes catalog)
    (callable : List String) (begun renamed rest : List Node) :
    checkFrom catalog (fun _ => callable.map naming.procs) renamed
        (rest.map (Node.rename naming)) =
      naming.outcome id
        (checkFrom catalog (fun _ => callable) begun rest) := by
  induction rest generalizing begun renamed with
  | nil =>
      rfl
  | cons node rest inductionHypothesis =>
      rw [List.map_cons, checkFrom, checkFrom,
        checkDeclaration_rename fixes]
      exact naming.outcome_bind fun _ => inductionHypothesis _ _

/-- The checker finds in a renamed script what it finds in the script. -/
theorem check_rename (fixes : naming.Fixes catalog) (nodes : List Node) :
    check catalog (nodes.map (Node.rename naming)) =
      naming.outcome id (check catalog nodes) := by
  have headings := checkHeadings_rename naming nodes []
  rw [List.map_nil] at headings
  rw [check, headings, check]
  exact naming.outcome_bind fun procs =>
    checkFrom_rename fixes procs [] [] nodes

end Script

end TriggerScript
