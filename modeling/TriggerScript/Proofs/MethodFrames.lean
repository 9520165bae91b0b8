import Mathlib.Logic.Relation
import TriggerScript.Proofs.BranchPatches

/-!
# What assembling a tree leaves alone

A program under construction changes by small steps: an event is reported, a
label is taken, a method or a trigger is added, one draft is changed a little,
or code and addresses are changed as linking does it.  `Assembly.Reachable`
collects all programs that such steps lead to from the empty one.  Whatever the
assembler does, it does by such steps, even where it stops with an error.

* In reachable programs every method has the number of its place, and its
  variables are numbered in order.
* Hence a tree that is assembled in one method changes nothing but that
  method and the shared tables, and these it only lengthens.
-/

namespace TriggerScript

open Relation (ReflTransGen)

/-! ## Work in steps -/

section Steps

variable {ε σ α β : Type} {step : σ → σ → Prop}

/-- The state that some work leaves, whether it succeeds or fails. -/
def leftBy : EStateM.Result ε σ α → σ
  | .ok _ after => after
  | .error _ after => after

/-- Work that changes a state by steps of one kind only. -/
def GoesBy (step : σ → σ → Prop) (work : EStateM ε σ α) : Prop :=
  ∀ before, ReflTransGen step before (leftBy (work before))

theorem goesBy_pure (value : α) :
    GoesBy step (pure value : EStateM ε σ α) :=
  fun _ => .refl

theorem goesBy_throw (error : ε) :
    GoesBy step (throw error : EStateM ε σ α) :=
  fun _ => .refl

theorem goesBy_get : GoesBy step (get : EStateM ε σ σ) :=
  fun _ => .refl

theorem goesBy_liftExcept (outcome : Except ε α) :
    GoesBy step (liftExcept outcome : EStateM ε σ α) := by
  cases outcome with
  | error error =>
      exact goesBy_throw error
  | ok value =>
      exact goesBy_pure value

theorem goesBy_modify {change : σ → σ}
    (single : ∀ before, step before (change before)) :
    GoesBy step (modify change : EStateM ε σ PUnit) :=
  fun before => .single (single before)

theorem GoesBy.bind {first : EStateM ε σ α} {next : α → EStateM ε σ β}
    (firstGoes : GoesBy step first)
    (nextGoes : ∀ value, GoesBy step (next value)) :
    GoesBy step (first >>= next) := by
  intro before
  have begun := firstGoes before
  change ReflTransGen step before (leftBy (EStateM.bind first next before))
  unfold EStateM.bind
  cases outcome : first before with
  | error error middle =>
      rw [outcome] at begun
      exact begun
  | ok value middle =>
      rw [outcome] at begun
      exact begun.trans (nextGoes value middle)

theorem goesBy_forM {ι : Type} {work : ι → EStateM ε σ PUnit}
    (each : ∀ item, GoesBy step (work item)) (items : List ι) :
    GoesBy step (items.forM work) := by
  induction items with
  | nil =>
      exact goesBy_pure _
  | cons item rest inductionHypothesis =>
      exact (each item).bind fun _ => inductionHypothesis

end Steps

/-! ## Drafts step by step -/

inductive Draft.Step (draft : Draft) : Draft → Prop
  | emit (instruction : Instruction) :
      draft.Step
        { method := (draft.method.emit instruction).2
          tables := draft.tables.log
            (.instructionEmitted draft.method.index instruction.opcode
              instruction.i) }
  | newLabel :
      draft.Step { draft with tables := draft.tables.newLabel.2 }
  | patch (label position : Nat) :
      draft.Step
        { draft with
          tables.patches := draft.tables.patches.push
            ⟨label, draft.method.index, position, .i⟩ }
  | intern (constant : Constant) :
      draft.Step
        { draft with
          tables.constants :=
            (draft.tables.constants.intern constant).2 }
  | define {name : String} (type : ValueType) :
      draft.method.variableNamed? name = none →
      draft.Step
        { draft with method := (draft.method.define name type).2 }
  | param (index : Nat) :
      draft.Step
        { draft with method.params := draft.method.params ++ [index] }

namespace DraftM

theorem emit_goesBy (instruction : Instruction) :
    GoesBy Draft.Step (emit instruction) :=
  goesBy_modify fun _ => .emit instruction

theorem newLabel_goesBy : GoesBy Draft.Step newLabel :=
  fun _ => .single .newLabel

theorem emitBranch_goesBy (opcode : Opcode) (label : Nat) :
    GoesBy Draft.Step (emitBranch opcode label) :=
  goesBy_get.bind fun draft => (emit_goesBy { opcode }).bind fun _ =>
    goesBy_modify fun _ => .patch label draft.method.instructions.size

theorem pushLiteral_goesBy (literal : Literal) :
    GoesBy Draft.Step (pushLiteral literal) := by
  refine GoesBy.bind (fun _ => .single ?_) fun index =>
    emit_goesBy { opcode := .pushConst, i := index }
  exact .intern (.ofLiteral literal)

theorem variableIndex_goesBy (name : String) :
    GoesBy Draft.Step (variableIndex name) := by
  refine goesBy_get.bind fun draft => ?_
  cases draft.method.variableNamed? name with
  | none =>
      exact goesBy_throw _
  | some found =>
      exact goesBy_pure found.index

theorem declare_goesBy (type name : String) :
    GoesBy Draft.Step (declare type name) := by
  unfold declare
  cases ValueType.ofVariableName? type with
  | none =>
      exact goesBy_throw _
  | some valueType =>
      -- Here the change depends on what was found in the draft before.
      intro before
      dsimp only
      rw [get_bind_apply]
      cases lookup : before.method.variableNamed? name with
      | some found =>
          exact .refl
      | none =>
          exact .single (.define valueType lookup)

theorem declareParam_goesBy (param : Param) :
    GoesBy Draft.Step (declareParam param) :=
  (declare_goesBy param.type param.name).bind fun index =>
    goesBy_modify fun _ => .param index

end DraftM

namespace Node

mutual

theorem assemble_goesBy (scope : Scope) :
    (node : Node) → GoesBy Draft.Step (node.assemble scope)
  | .trigger event filter body => by
      rw [assemble]
      exact goesBy_throw _
  | .proc name params body => by
      rw [assemble]
      exact goesBy_throw _
  | .block statements => by
      rw [assemble]
      exact assembleAll_goesBy scope statements
  | .declare type name none => by
      rw [assemble]
      exact (DraftM.declare_goesBy type name).bind fun _ => goesBy_pure _
  | .declare type name (some value) => by
      rw [assemble]
      exact (DraftM.declare_goesBy type name).bind fun _ =>
        (assemble_goesBy scope value).bind fun _ => DraftM.emit_goesBy _
  | .assign name value => by
      rw [assemble]
      exact (DraftM.variableIndex_goesBy name).bind fun _ =>
        (assemble_goesBy scope value).bind fun _ => DraftM.emit_goesBy _
  | .branch condition thenBranch elseBranch => by
      rw [assemble_branch]
      exact (assemble_goesBy scope condition).bind fun _ =>
        DraftM.newLabel_goesBy.bind fun other =>
        DraftM.newLabel_goesBy.bind fun done =>
        (DraftM.emitBranch_goesBy .jumpIfZero other).bind fun _ =>
        (assemble_goesBy scope thenBranch).bind fun _ =>
        (DraftM.emitBranch_goesBy .jump done).bind fun _ =>
        (DraftM.emit_goesBy (.marker other)).bind fun _ =>
        (assembleOptional_goesBy scope elseBranch).bind fun _ =>
        DraftM.emit_goesBy (.marker done)
  | .call name args => by
      rw [assemble]
      exact (goesBy_liftExcept _).bind fun _ =>
        (goesBy_liftExcept _).bind fun instruction =>
        (assembleAll_goesBy scope args).bind fun _ =>
        DraftM.emit_goesBy instruction
  | .literal value => by
      rw [assemble]
      exact DraftM.pushLiteral_goesBy value
  | .compare left comparator right => by
      rw [assemble]
      refine (assemble_goesBy scope left).bind fun _ =>
        (assemble_goesBy scope right).bind fun _ => ?_
      split
      · exact DraftM.emit_goesBy _
      · exact goesBy_throw _
  | .var name => by
      rw [assemble]
      exact (DraftM.variableIndex_goesBy name).bind fun _ =>
        DraftM.emit_goesBy _

theorem assembleAll_goesBy (scope : Scope) :
    (nodes : List Node) → GoesBy Draft.Step (assembleAll scope nodes)
  | [] => by
      rw [assembleAll]
      exact goesBy_pure _
  | node :: nodes => by
      rw [assembleAll]
      exact (assemble_goesBy scope node).bind fun _ =>
        assembleAll_goesBy scope nodes

theorem assembleOptional_goesBy (scope : Scope) :
    (node : Option Node) → GoesBy Draft.Step (assembleOptional scope node)
  | none => by
      rw [assembleOptional]
      exact goesBy_pure _
  | some node => by
      rw [assembleOptional]
      exact assemble_goesBy scope node

end

end Node

/-! ## Programs step by step -/

inductive Assembly.Step (assembly : Assembly) : Assembly → Prop
  | log (event : Event) :
      assembly.Step { assembly with tables := assembly.tables.log event }
  | newLabel :
      assembly.Step { assembly with tables := assembly.tables.newLabel.2 }
  | method (name : String) :
      assembly.Step (AssembleM.withMethod assembly name)
  | trigger (entry : TriggerEntry) :
      assembly.Step
        { assembly with triggers := assembly.triggers ++ [entry] }
  | draft {index : Nat} {method : Method} {changed : Draft} :
      assembly.methods[index]? = some method →
      Draft.Step ⟨method, assembly.tables⟩ changed →
      assembly.Step (assembly.putBack index changed)
  | code {methods : List Method} :
      methods.map Method.withoutCode =
        assembly.methods.map Method.withoutCode →
      assembly.Step { assembly with methods }
  | addresses (address : Method → Nat) :
      assembly.Step
        { assembly with
          methods := assembly.methods.map fun method =>
            { method with address := address method } }
  | triggerAddresses (address : TriggerEntry → Nat) :
      assembly.Step
        { assembly with
          triggers := assembly.triggers.map fun trigger =>
            { trigger with address := address trigger } }
  | pending (patches : Array Patch) :
      assembly.Step { assembly with tables.patches := patches }

/-- The programs that small changes lead to. -/
def Assembly.Reachable (assembly : Assembly) : Prop :=
  ReflTransGen Assembly.Step {} assembly

namespace Assembly

variable {assembly : Assembly} {index : Nat} {method : Method}

theorem putBack_self (found : assembly.methods[index]? = some method) :
    assembly.putBack index ⟨method, assembly.tables⟩ = assembly := by
  obtain ⟨bound, rfl⟩ := List.getElem?_eq_some_iff.mp found
  simp [putBack]

theorem getElem?_putBack_of_ne {other : Nat} (different : other ≠ index)
    (draft : Draft) :
    (assembly.putBack index draft).methods[other]? =
      assembly.methods[other]? := by
  simp [putBack, List.getElem?_set_ne different.symm]

/-- The changes of a draft are changes of its program. -/
theorem steps_putBack (found : assembly.methods[index]? = some method)
    {draft : Draft}
    (steps : ReflTransGen Draft.Step ⟨method, assembly.tables⟩ draft) :
    ReflTransGen Step assembly (assembly.putBack index draft) := by
  induction steps with
  | refl =>
      rw [putBack_self found]
  | @tail middle last _ step inductionHypothesis =>
      have further := Step.draft (getElem?_putBack found middle) step
      rw [putBack_putBack] at further
      exact inductionHypothesis.tail further

end Assembly

namespace AssembleM

theorem inMethod_goesBy {work : DraftM Unit} (goes : GoesBy Draft.Step work)
    (index : Nat) : GoesBy Assembly.Step (inMethod index work) := by
  intro before
  unfold inMethod
  cases found : before.methods[index]? with
  | none =>
      exact .refl
  | some method =>
      have steps := goes ⟨method, before.tables⟩
      dsimp only
      cases outcome : work ⟨method, before.tables⟩ with
      | ok value draft =>
          rw [outcome] at steps
          exact Assembly.steps_putBack found steps
      | error error draft =>
          rw [outcome] at steps
          exact Assembly.steps_putBack found steps

theorem log_goesBy (event : Event) : GoesBy Assembly.Step (log event) :=
  goesBy_modify fun _ => .log event

theorem newLabel_goesBy : GoesBy Assembly.Step newLabel :=
  fun _ => .single .newLabel

theorem defineMethod_goesBy (name : String) :
    GoesBy Assembly.Step (defineMethod name) :=
  fun _ => .single (.method name)

theorem methodIndex?_goesBy (name : String) :
    GoesBy Assembly.Step (methodIndex? name) :=
  goesBy_get.bind fun _ => goesBy_pure _

theorem scope_goesBy (catalog : Catalog) :
    GoesBy Assembly.Step (scope catalog) :=
  goesBy_get.bind fun _ => goesBy_pure _

theorem hoist_goesBy (name : String) (params : List Param) :
    GoesBy Assembly.Step (hoist name params) := by
  refine (methodIndex?_goesBy name).bind fun found => ?_
  split
  · exact goesBy_throw _
  · exact (defineMethod_goesBy name).bind fun index =>
      inMethod_goesBy (goesBy_forM DraftM.declareParam_goesBy params) index

theorem hoistAll_goesBy (nodes : List Node) :
    GoesBy Assembly.Step (hoistAll nodes) := by
  induction nodes with
  | nil =>
      exact goesBy_pure _
  | cons node rest inductionHypothesis =>
      cases node with
      | proc name params body =>
          exact (hoist_goesBy name params).bind fun _ => inductionHypothesis
      | trigger | block | declare | assign | branch | call | literal
      | compare | var =>
          exact inductionHypothesis

theorem assembleTree_goesBy (catalog : Catalog) (index : Nat)
    (tree : Node) :
    GoesBy Assembly.Step (assembleTree catalog index tree) :=
  (scope_goesBy catalog).bind fun scope =>
    inMethod_goesBy (tree.assemble_goesBy scope) index

theorem assembleBody_goesBy (catalog : Catalog) (index : Nat)
    (body : Node) :
    GoesBy Assembly.Step (assembleBody catalog index body) :=
  (assembleTree_goesBy catalog index body).bind fun _ =>
    inMethod_goesBy (DraftM.emit_goesBy _) index

theorem openTrigger_goesBy (catalog : Catalog) (event filter : String) :
    GoesBy Assembly.Step (openTrigger catalog event filter) := by
  unfold openTrigger
  cases catalog.listener? event with
  | none =>
      exact goesBy_throw _
  | some listener =>
      exact (goesBy_liftExcept _).bind fun value =>
        goesBy_get.bind fun _ =>
        (defineMethod_goesBy _).bind fun index =>
        newLabel_goesBy.bind fun entry =>
        (inMethod_goesBy (DraftM.emit_goesBy (.marker entry)) index).bind
          fun _ =>
        (goesBy_modify fun _ => .trigger _).bind fun _ =>
        (log_goesBy _).bind fun _ =>
        goesBy_pure index

theorem assembleTrigger_goesBy (catalog : Catalog) (event filter : String)
    (body : Node) :
    GoesBy Assembly.Step (assembleTrigger catalog event filter body) :=
  (openTrigger_goesBy catalog event filter).bind fun index =>
    assembleBody_goesBy catalog index body

theorem assembleDeclaration_goesBy (catalog : Catalog) (node : Node) :
    GoesBy Assembly.Step (assembleDeclaration catalog node) := by
  cases node with
  | trigger event filter body =>
      exact assembleTrigger_goesBy catalog event filter body
  | proc name params body =>
      refine (methodIndex?_goesBy name).bind fun found => ?_
      cases found with
      | none =>
          exact goesBy_throw _
      | some index =>
          exact assembleBody_goesBy catalog index body
  | block | declare | assign | branch | call | literal | compare | var =>
      exact goesBy_throw _

/-- The stages of assembling a script, from trees up to all of it. -/
inductive Stage (catalog : Catalog) : AssembleM Unit → Prop
  | hoist (name : String) (params : List Param) :
      Stage catalog (hoist name params)
  | hoistAll (nodes : List Node) : Stage catalog (hoistAll nodes)
  | tree (index : Nat) (tree : Node) :
      Stage catalog (assembleTree catalog index tree)
  | body (index : Nat) (body : Node) :
      Stage catalog (assembleBody catalog index body)
  | declaration (node : Node) :
      Stage catalog (assembleDeclaration catalog node)
  | script (nodes : List Node) :
      Stage catalog (assembleScript catalog nodes)

theorem Stage.goesBy {catalog : Catalog} {work : AssembleM Unit}
    (stage : Stage catalog work) : GoesBy Assembly.Step work := by
  cases stage with
  | hoist name params =>
      exact hoist_goesBy name params
  | hoistAll nodes =>
      exact hoistAll_goesBy nodes
  | tree index tree =>
      exact assembleTree_goesBy catalog index tree
  | body index body =>
      exact assembleBody_goesBy catalog index body
  | declaration node =>
      exact assembleDeclaration_goesBy catalog node
  | script nodes =>
      exact (hoistAll_goesBy nodes).bind fun _ =>
        goesBy_forM (assembleDeclaration_goesBy catalog) nodes

end AssembleM

/-! ## Linking step by step -/

/-- A program under construction while its methods are being linked. -/
def Linking.within (assembly : Assembly) (linking : Linking) : Assembly :=
  { assembly with
    methods := linking.methods
    tables := { assembly.tables with
      patches := linking.pending
      events := linking.events } }

namespace Linking

variable (assembly : Assembly)

theorem apply_steps (linking : Linking) (label address : Nat)
    (patch : Patch) :
    ReflTransGen Assembly.Step (linking.within assembly)
      ((linking.apply label address patch).within assembly) :=
  .tail (.single (.code (patch.apply_withoutCode address linking.methods)))
    (.log (.branchPatched label address patch.method))

theorem foldl_apply_steps (linking : Linking) (label address : Nat)
    (due : List Patch) :
    ReflTransGen Assembly.Step (linking.within assembly)
      ((due.foldl (fun current patch => current.apply label address patch)
        linking).within assembly) := by
  induction due generalizing linking with
  | nil =>
      exact .refl
  | cons patch rest inductionHypothesis =>
      exact (linking.apply_steps assembly label address patch).trans
        (inductionHypothesis _)

theorem reach_steps (linking : Linking) (label address : Nat) :
    ReflTransGen Assembly.Step (linking.within assembly)
      ((linking.reach label address).within assembly) := by
  -- The patches that are due leave the table before the first is applied.
  have taken (pending : Array Patch) : (linking.within assembly).Step
      (within assembly { linking with pending }) :=
    .pending pending
  rw [reach, ← Array.foldl_toList]
  exact .head (taken _) (foldl_apply_steps assembly _ label address _)

theorem reachAll_steps (linking : Linking) (labels : List (Nat × Nat)) :
    ReflTransGen Assembly.Step (linking.within assembly)
      ((linking.reachAll labels).within assembly) := by
  induction labels generalizing linking with
  | nil =>
      exact .refl
  | cons pair rest inductionHypothesis =>
      exact (linking.reach_steps assembly pair.1 pair.2).trans
        (inductionHypothesis _)

end Linking

/-- A program under construction once its addresses are assigned. -/
def Assembly.addressed (assembly : Assembly) : Assembly :=
  let program :=
    Program.link assembly.methods assembly.triggers assembly.tables
  { methods := program.1.methods
    triggers := program.1.triggers
    tables := { assembly.tables with
      patches := assembly.linked.pending
      events := program.2 } }

theorem Assembly.addressed_steps (assembly : Assembly) :
    ReflTransGen Step assembly assembly.addressed := by
  have placing : assembly.Step (assembly.linking.within assembly) :=
    .code (Method.place_withoutCode 0 assembly.methods)
  have linking : ReflTransGen Step assembly
      (assembly.linked.within assembly) :=
    .head placing (assembly.linking.reachAll_steps assembly _)
  exact .tail (.tail (.tail linking (.addresses _)) (.triggerAddresses _))
    (.log _)

/-! ## Numbers of methods and variables -/

/-- A method has the number of its place, and its variables are numbered. -/
structure Method.SitsAt (method : Method) (index : Nat) : Prop where
  index_eq : method.index = index
  numbered : method.Numbered

theorem Draft.Step.sitsAt {before after : Draft} {index : Nat}
    (step : before.Step after) (sits : before.method.SitsAt index) :
    after.method.SitsAt index := by
  obtain ⟨same, numbered⟩ := sits
  cases step with
  | emit | param =>
      exact ⟨same, numbered.index, numbered.distinct⟩
  | newLabel | patch | intern =>
      exact ⟨same, numbered⟩
  | define type fresh =>
      exact ⟨same, numbered.define type
        (Method.notMem_localNames_of_variableNamed? fresh)⟩

/-- Whether a method sits at its place does not depend on its code. -/
theorem Method.SitsAt.of_withoutCode {method other : Method} {index : Nat}
    (sits : method.SitsAt index)
    (same : method.withoutCode = other.withoutCode) :
    other.SitsAt index where
  index_eq := (congrArg Method.index same).symm.trans sits.index_eq
  numbered := by
    have locals : method.withoutCode.locals = other.withoutCode.locals :=
      congrArg Method.locals same
    change method.locals = other.locals at locals
    refine ⟨locals ▸ sits.numbered.index, ?_⟩
    rw [Method.localNames, ← locals]
    exact sits.numbered.distinct

namespace Assembly

def Placed (assembly : Assembly) : Prop :=
  ∀ (index : Nat) (method : Method),
    assembly.methods[index]? = some method → method.SitsAt index

theorem Step.placed {before after : Assembly} (step : before.Step after)
    (placed : before.Placed) : after.Placed := by
  intro place method found
  cases step with
  | log | newLabel | trigger | triggerAddresses | pending =>
      exact placed place method found
  | method name =>
      rw [AssembleM.withMethod, List.getElem?_append] at found
      split at found
      · exact placed place method found
      · rename_i notBefore
        obtain ⟨bound, rfl⟩ := List.getElem?_eq_some_iff.mp found
        rw [List.length_singleton] at bound
        have placeEq : place = before.methods.length := by
          omega
        simp only [placeEq, Nat.sub_self, List.getElem_cons_zero]
        exact ⟨rfl, Method.start_numbered _ _ _⟩
  | @draft index old changed isOld step =>
      by_cases same : place = index
      · rw [same, getElem?_putBack isOld] at found
        cases found
        rw [same]
        exact step.sitsAt (placed index old isOld)
      · rw [getElem?_putBack_of_ne same] at found
        exact placed place method found
  | code unchanged =>
      have sameAt := congrArg (·[place]?) unchanged
      simp only [List.getElem?_map, found, Option.map_some] at sameAt
      obtain ⟨old, oldAt, same⟩ := Option.map_eq_some_iff.mp sameAt.symm
      exact (placed place old oldAt).of_withoutCode same
  | addresses =>
      rw [List.getElem?_map] at found
      obtain ⟨old, oldAt, rfl⟩ := Option.map_eq_some_iff.mp found
      obtain ⟨index_eq, numbered⟩ := placed place old oldAt
      exact ⟨index_eq, numbered.index, numbered.distinct⟩

theorem Reachable.placed {assembly : Assembly}
    (reachable : assembly.Reachable) : assembly.Placed := by
  induction reachable with
  | refl =>
      intro index method found
      cases found
  | tail _ step inductionHypothesis =>
      exact step.placed inductionHypothesis

end Assembly

/-! ## Trees in methods -/

/-- `before.ExtendedBy index old new code waiting after` says that a program
changed in one method only.  This method got code and perhaps variables, and
the patches wait for labels that were taken on the way. -/
structure Assembly.ExtendedBy (before : Assembly) (index : Nat)
    (old new : Method) (code : List Instruction) (waiting : List Patch)
    (after : Assembly) : Prop where
  length : after.methods.length = before.methods.length
  triggers : after.triggers = before.triggers
  ordinal : after.triggerOrdinal = before.triggerOrdinal
  others : ∀ other, other ≠ index →
    after.methods[other]? = before.methods[other]?
  oldAt : before.methods[index]? = some old
  newAt : after.methods[index]? = some new
  name : new.name = old.name
  number : new.index = old.index
  entry : new.entry = old.entry
  params : new.params = old.params
  instructions : new.instructions.toList = old.instructions.toList ++ code
  locals : old.locals <+: new.locals
  constants : before.tables.constants.entries <+:
    after.tables.constants.entries
  labels : before.tables.nextLabel ≤ after.tables.nextLabel
  markers : ∀ instruction ∈ code, ∀ label,
    instruction.label? = some label →
      before.tables.nextLabel ≤ label ∧ label < after.tables.nextLabel
  patches : after.tables.patches.toList =
    before.tables.patches.toList ++ waiting
  waits : ∀ patch ∈ waiting,
    patch.method = index ∧
      before.tables.nextLabel ≤ patch.label ∧
      patch.label < after.tables.nextLabel ∧
      ∃ offset instruction,
        patch.position = old.instructions.size + offset ∧
          code[offset]? = some instruction ∧
          (instruction.opcode = .jumpIfZero ∨ instruction.opcode = .jump)

/-- The code of trees branches with two operations only. -/
theorem Emits.branch_opcode {bindings : Bindings} {nodes : List Node}
    {first last target : Nat} {code : List Symbol} {opcode : Opcode}
    (emitted : Emits bindings nodes first code last)
    (member : Symbol.branch opcode target ∈ code) :
    opcode = .jumpIfZero ∨ opcode = .jump := by
  have isBranch : opcode.isBranch = true := emitted.fits _ member
  cases opcode with
  | jumpIfZero =>
      exact Or.inl rfl
  | jump =>
      exact Or.inr rfl
  | pushConst | getLocal | setLocal | ret | equal | call | callNative
  | getVariable | setVariable | label =>
      cases isBranch

/-- Labels that the code of trees branches to are marked in it. -/
theorem Emits.target_bounds {bindings : Bindings} {nodes : List Node}
    {first last target offset : Nat} {code : List Symbol} {opcode : Opcode}
    (emitted : Emits bindings nodes first code last)
    (branchAt : code[offset]? = some (.branch opcode target)) :
    first ≤ target ∧ target < last := by
  obtain ⟨place, _, placed⟩ := emitted.forward.exists_marker branchAt rfl
  exact emitted.mem_labels_bounds target
    (List.mem_filterMap.mpr ⟨_, List.mem_of_getElem? placed, rfl⟩)

def Draft.bindings (scope : Scope) (draft : Draft) : Bindings :=
  ⟨scope.catalog, scope.methods, draft.tables.constants.entries,
    draft.method.localNames⟩

theorem Draft.bindings_covers (scope : Scope) (draft : Draft) :
    (draft.bindings scope).Covers scope draft :=
  ⟨rfl, List.prefix_rfl, List.prefix_rfl, List.prefix_rfl⟩

/-- A draft that has grown by the code of trees extends its program. -/
theorem Draft.Assembles.extendedBy {assembly : Assembly} {index : Nat}
    {method : Method} {scope : Scope} {nodes : List Node} {draft : Draft}
    {code : List Symbol} (found : assembly.methods[index]? = some method)
    (sits : method.SitsAt index)
    (assembles : Assembles scope nodes ⟨method, assembly.tables⟩ draft code) :
    assembly.ExtendedBy index method draft.method (code.map Symbol.draft)
      (Symbol.patches index method.instructions.size code)
      (assembly.putBack index draft) := by
  have grows := assembles.grows
  have emitted := assembles.emits _ (draft.bindings_covers scope)
  constructor
  case length =>
    exact List.length_set
  case triggers =>
    rfl
  case ordinal =>
    rfl
  case others =>
    exact fun other different =>
      Assembly.getElem?_putBack_of_ne different draft
  case oldAt =>
    exact found
  case newAt =>
    exact Assembly.getElem?_putBack found draft
  case name =>
    exact grows.field_eq Method.name fun _ => rfl
  case number =>
    exact grows.field_eq Method.index fun _ => rfl
  case entry =>
    exact grows.field_eq Method.entry fun _ => rfl
  case params =>
    exact grows.field_eq Method.params fun _ => rfl
  case instructions =>
    exact grows.instructions
  case locals =>
    exact grows.locals
  case constants =>
    exact grows.constants
  case labels =>
    exact emitted.first_le_last
  case markers =>
    intro instruction member label marks
    obtain ⟨symbol, inCode, rfl⟩ := List.mem_map.mp member
    rw [Symbol.draft_label?] at marks
    exact emitted.mem_labels_bounds label
      (List.mem_filterMap.mpr ⟨symbol, inCode, marks⟩)
  case patches =>
    have appended := grows.patches
    rw [sits.index_eq] at appended
    exact appended
  case waits =>
    intro patch member
    obtain ⟨offset, opcode, branchAt, patchEq⟩ :=
      Symbol.mem_patches_iff.mp member
    obtain ⟨lower, upper⟩ := emitted.target_bounds branchAt
    refine ⟨by rw [patchEq], lower, upper, offset,
      (Symbol.branch opcode patch.label).draft, by rw [patchEq], ?_,
      emitted.branch_opcode (List.mem_of_getElem? branchAt)⟩
    rw [List.getElem?_map, branchAt]
    rfl

theorem AssembleM.assembleTree_spec {catalog : Catalog} {index : Nat}
    {tree : Node} {before after : Assembly} {method : Method}
    (found : before.methods[index]? = some method)
    (run : assembleTree catalog index tree before = .ok () after) :
    ∃ draft,
      tree.assemble ⟨catalog, before.methodNames⟩
          ⟨method, before.tables⟩ = .ok () draft ∧
        after = before.putBack index draft := by
  obtain ⟨scope, middle, looked, inside⟩ := bind_eq_ok.mp run
  cases looked
  exact inMethod_spec found inside

/-- All programs that assembling and linking come to are reachable.  A tree
that is assembled in a method of such a program lengthens this method and the
shared tables, and leaves everything else alone. -/
theorem AssembleM.assembleTree_extends (catalog : Catalog) :
    Assembly.Reachable {} ∧
      (∀ before : Assembly, before.Reachable →
        before.addressed.Reachable ∧
          ∀ work, Stage catalog work →
            Assembly.Reachable (leftBy (work before))) ∧
      ∀ before : Assembly, before.Reachable →
        ∀ index tree after, index < before.methods.length →
          assembleTree catalog index tree before = .ok () after →
            ∃ old new code waiting,
              before.ExtendedBy index old new code waiting after := by
  refine ⟨.refl, ?_, ?_⟩
  · intro before reachable
    refine ⟨reachable.trans before.addressed_steps, ?_⟩
    intro work stage
    exact reachable.trans (stage.goesBy before)
  · intro before reachable index tree after bound run
    have found := List.getElem?_eq_getElem bound
    have sits := reachable.placed index _ found
    obtain ⟨draft, assembled, rfl⟩ := assembleTree_spec found run
    obtain ⟨code, assembles⟩ :=
      Node.assemble_assembles sits.numbered assembled
    exact ⟨_, _, _, _, assembles.extendedBy found sits⟩

def twoMethods : Assembly :=
  AssembleM.withMethod (AssembleM.withMethod {} "open") "close"

/-- A conditional with a variable and a constant of its own. -/
def countingBranch : Node :=
  .branch (.literal (.bool true))
    (.declare "int" "count" (some (.literal (.int 7)))) none

/-- In the second method, the conditional takes the labels two and three, and
its two branches wait for them. -/
theorem AssembleM.assembleTree_extends_second :
    twoMethods.Reachable ∧
      ∃ after, assembleTree {} 1 countingBranch twoMethods = .ok () after ∧
        after.tables.nextLabel = 4 ∧
        after.tables.patches.toList = [⟨2, 1, 2, .i⟩, ⟨3, 1, 5, .i⟩] ∧
        ∃ old new code waiting,
          twoMethods.ExtendedBy 1 old new code waiting after := by
  have reachable : twoMethods.Reachable :=
    .tail (.tail .refl (.method "open")) (.method "close")
  have run : assembleTree {} 1 countingBranch twoMethods =
      .ok () (leftBy (assembleTree {} 1 countingBranch twoMethods)) := by
    rfl
  refine ⟨reachable, _, run, by rfl, by rfl, ?_⟩
  exact (assembleTree_extends {}).2.2 twoMethods reachable 1 countingBranch _
    (by decide) run

end TriggerScript
