import TriggerScript.Proofs.Declarations

/-!
# Static checks

A script can be checked without making any code.  The checker only remembers
the names of the procedures and, inside a body, the names declared so far:

* `Script.checkHeadings` reads the headings of all procedures;
* `Node.check` follows a body in the order in which it is assembled;
* `Script.check` checks a whole script.

Assembling succeeds exactly when the checker finds nothing, and otherwise
stops with the error that the checker finds first.

The method of a trigger has a name too, which starts with `@`.  No source text
can spell such a name, but a tree made by hand can call it;
`Script.checkWithTriggers` admits these calls.
-/

namespace TriggerScript

/-! ## The checker -/

namespace Node

/-- Declaring a name: its type must exist and the name must be new. -/
def checkNew (type name : String) (declared : List String) :
    Except CompileError (List String) :=
  if (ValueType.ofVariableName? type).isNone then
    .error (.unknownType type)
  else if name ∈ declared then
    .error (.duplicateVariable name)
  else
    .ok (declared ++ [name])

def checkKnown (name : String) (declared : List String) :
    Except CompileError (List String) :=
  if name ∈ declared then .ok declared else .error (.undefinedVariable name)

/-- A call needs typed arguments and something to go to.  The arguments are
counted from one. -/
def checkCall (catalog : Catalog) (callable : List String) (name : String)
    (args : List Node) (declared : List String) :
    Except CompileError (List String) :=
  match (args.zipIdx 1).find? fun (arg, _) => arg.staticType?.isNone with
  | some (arg, position) =>
      .error (.untypedArgument name position arg.kindName)
  | none =>
      let types := args.filterMap staticType?
      if (∃ native ∈ catalog.functions,
            native.name = name ∧ native.signature = types) ∨
          name ∈ callable then
        .ok declared
      else
        .error (.unresolvedCall name types)

mutual

def check (catalog : Catalog) (callable : List String) :
    Node → List String → Except CompileError (List String)
  | trigger event _ _, _ => .error (.invalidPosition "trigger" event)
  | proc name _ _, _ => .error (.invalidPosition "func" name)
  | block statements, declared =>
      checkAll catalog callable statements declared
  | declare type name value, declared => do
      let declared ← checkNew type name declared
      checkOptional catalog callable value declared
  | assign name value, declared => do
      let declared ← checkKnown name declared
      value.check catalog callable declared
  | branch condition thenBranch elseBranch, declared => do
      let declared ← condition.check catalog callable declared
      let declared ← thenBranch.check catalog callable declared
      checkOptional catalog callable elseBranch declared
  | call name args, declared =>
      checkCall catalog callable name args declared
  | literal _, declared => .ok declared
  | compare left comparator right, declared => do
      let declared ← left.check catalog callable declared
      let declared ← right.check catalog callable declared
      if comparator = .equal then
        .ok declared
      else
        .error (.unknownComparator comparator)
  | var name, declared => checkKnown name declared

def checkAll (catalog : Catalog) (callable : List String) :
    List Node → List String → Except CompileError (List String)
  | [], declared => .ok declared
  | node :: nodes, declared => do
      let declared ← node.check catalog callable declared
      checkAll catalog callable nodes declared

def checkOptional (catalog : Catalog) (callable : List String) :
    Option Node → List String → Except CompileError (List String)
  | none, declared => .ok declared
  | some node, declared => node.check catalog callable declared

end

end Node

def Declaration.triggerNames (nodes : List Node) : List String :=
  (triggers 0 nodes).map Declaration.name

namespace Script

def checkParams : List Param → List String →
    Except CompileError (List String)
  | [], declared => .ok declared
  | param :: params, declared => do
      let declared ← Node.checkNew param.type param.name declared
      checkParams params declared

/-- The heading of a procedure: its name must be new, then its parameters are
checked. -/
def checkHeading (procs : List String) (name : String)
    (params : List Param) : Except CompileError (List String) :=
  if name ∈ procs then
    .error (.duplicateProc name)
  else
    checkParams params []

def checkHeadings : List Node → List String →
    Except CompileError (List String)
  | [], procs => .ok procs
  | .proc name params _ :: nodes, procs => do
      let _ ← checkHeading procs name params
      checkHeadings nodes (procs ++ [name])
  | _ :: nodes, procs => checkHeadings nodes procs

/-- A filter is a row of decimal digits that fits into 64 bits. -/
def IsFilter (filter : String) : Prop :=
  filter.toList ≠ [] ∧ filter.toList.all Char.isDigit ∧
    Text.digitsValue filter.toList < UInt64.size

instance (filter : String) : Decidable (IsFilter filter) :=
  inferInstanceAs (Decidable (_ ∧ _ ∧ _))

def checkDeclaration (catalog : Catalog) (callable : List String) :
    Node → Except CompileError Unit
  | .trigger event filter body =>
      if ∀ listener ∈ catalog.listeners, listener.name ≠ event then
        .error (.unknownListener event)
      else if ¬ IsFilter filter then
        .error (.invalidFilter filter)
      else
        (body.check catalog callable []).map fun _ => ()
  | .proc _ params body =>
      (body.check catalog callable (params.map Param.name)).map fun _ => ()
  | node => .error (.outsideMethod node.kindName)

/-- Check declarations one after another.  What they may call depends on the
declarations that have begun. -/
def checkFrom (catalog : Catalog) (callable : List Node → List String)
    (begun : List Node) : List Node → Except CompileError Unit
  | [] => .ok ()
  | node :: rest => do
      checkDeclaration catalog (callable (begun ++ [node])) node
      checkFrom catalog callable (begun ++ [node]) rest

/-- Check a script.  Calls go to host functions and procedures. -/
def check (catalog : Catalog) (nodes : List Node) :
    Except CompileError Unit := do
  let procs ← checkHeadings nodes []
  checkFrom catalog (fun _ => procs) [] nodes

/-- Check a script whose calls may also go to the methods of the triggers that
have begun. -/
def checkWithTriggers (catalog : Catalog) (nodes : List Node) :
    Except CompileError Unit := do
  let procs ← checkHeadings nodes []
  checkFrom catalog
    (fun begun =>
      procs ++ Declaration.triggerNames begun)
    [] nodes

end Script

/-! ## Runs that agree with a verdict -/

/-- A run ends as a verdict says: with the same error, or in a state that fits
the value of the verdict. -/
def Agrees {ε σ α β : Type} (run : EStateM.Result ε σ α)
    (verdict : Except ε β) (fits : σ → β → Prop) : Prop :=
  (∃ error after, run = .error error after ∧ verdict = .error error) ∨
    (∃ result after value, run = .ok result after ∧
      verdict = .ok value ∧ fits after value)

namespace Agrees

variable {ε σ α β γ δ : Type} {before : σ}

theorem of_ok {result : α} {after : σ} {value : β} {fits : σ → β → Prop}
    (fitting : fits after value) :
    Agrees (.ok result after : EStateM.Result ε σ α) (.ok value) fits :=
  Or.inr ⟨result, after, value, rfl, rfl, fitting⟩

theorem of_error {error : ε} {after : σ} {fits : σ → β → Prop} :
    Agrees (.error error after : EStateM.Result ε σ α) (.error error)
      fits :=
  Or.inl ⟨error, after, rfl, rfl⟩

theorem mono {run : EStateM.Result ε σ α} {verdict : Except ε β}
    {fits weaker : σ → β → Prop} (agrees : Agrees run verdict fits)
    (weaken : ∀ after value, verdict = .ok value → fits after value →
      weaker after value) :
    Agrees run verdict weaker := by
  rcases agrees with failed | ⟨result, after, value, ran, ruled, fitting⟩
  · exact Or.inl failed
  · exact Or.inr ⟨result, after, value, ran, ruled,
      weaken after value ruled fitting⟩

/-- Runs one after another agree with verdicts one after another. -/
theorem bind {first : EStateM ε σ α} {next : α → EStateM ε σ γ}
    {verdict : Except ε β} {rule : β → Except ε δ}
    {fits : σ → β → Prop} {ending : σ → δ → Prop}
    (agrees : Agrees (first before) verdict fits)
    (continues : ∀ result after value, fits after value →
      Agrees (next result after) (rule value) ending) :
    Agrees ((first >>= next) before) (verdict >>= rule) ending := by
  have unfolded : (first >>= next) before = EStateM.bind first next before :=
    rfl
  rw [unfolded, EStateM.bind]
  rcases agrees with
    ⟨error, after, ran, ruled⟩ | ⟨result, after, value, ran, ruled, fitting⟩
  · rw [ran, ruled]
    exact of_error
  · rw [ran, ruled]
    exact continues result after value fitting

end Agrees

theorem get_bind_apply {ε σ α : Type} (next : σ → EStateM ε σ α)
    (state : σ) : (get >>= next) state = next state state :=
  rfl

/-! ## Work on drafts -/

/-- Work on a draft fails or succeeds as the rule says for the names declared
so far, and the name of the method stays. -/
def DraftM.Follows {α : Type} (work : DraftM α)
    (rule : List String → Except CompileError (List String)) : Prop :=
  ∀ draft, Agrees (work draft) (rule draft.method.localNames)
    fun after names => after.method.localNames = names ∧
      after.method.name = draft.method.name

theorem Method.isSome_variableNamed? {method : Method} {name : String} :
    (method.variableNamed? name).isSome ↔ name ∈ method.localNames := by
  rw [variableNamed?, List.find?_isSome, localNames, List.mem_map]
  simp only [beq_iff_eq]

namespace DraftM

variable {α β : Type}
  {rule nextRule : List String → Except CompileError (List String)}

theorem Follows.bind {first : DraftM α} {next : α → DraftM β}
    (firstFollows : first.Follows rule)
    (nextFollows : ∀ value, (next value).Follows nextRule) :
    (first >>= next).Follows
      (fun declared => rule declared >>= nextRule) := by
  intro draft
  refine Agrees.bind (firstFollows draft) ?_
  rintro value middle names ⟨rfl, named⟩
  refine (nextFollows value middle).mono ?_
  rintro after final _ ⟨finalEq, nextNamed⟩
  exact ⟨finalEq, nextNamed.trans named⟩

theorem Follows.of_eq {work : DraftM α} (follows : work.Follows rule)
    (same : ∀ declared, nextRule declared = rule declared) :
    work.Follows nextRule := by
  rwa [funext same]

/-- Work that cannot fail and declares nothing. -/
def Silent (work : DraftM α) : Prop :=
  work.Follows .ok

theorem Silent.bind {first : DraftM α} {next : α → DraftM β}
    (firstSilent : first.Silent)
    (nextFollows : ∀ value, (next value).Follows rule) :
    (first >>= next).Follows rule :=
  Follows.bind firstSilent nextFollows

theorem Follows.bind_silent {first : DraftM α} {next : α → DraftM β}
    (firstFollows : first.Follows rule)
    (nextSilent : ∀ value, (next value).Silent) :
    (first >>= next).Follows rule := by
  refine (firstFollows.bind nextSilent).of_eq ?_
  intro declared
  cases rule declared with
  | error error =>
      rfl
  | ok names =>
      rfl

theorem pure_silent (value : α) : (pure value : DraftM α).Silent :=
  fun _ => .of_ok ⟨rfl, rfl⟩

theorem throw_follows (error : CompileError) :
    (throw error : DraftM α).Follows (fun _ => .error error) :=
  fun _ => .of_error

theorem emit_silent (instruction : Instruction) :
    (emit instruction).Silent :=
  fun _ => .of_ok ⟨rfl, rfl⟩

theorem newLabel_silent : newLabel.Silent :=
  fun _ => .of_ok ⟨rfl, rfl⟩

theorem emitBranch_silent (opcode : Opcode) (label : Nat) :
    (emitBranch opcode label).Silent :=
  fun _ => .of_ok ⟨rfl, rfl⟩

theorem pushLiteral_silent (literal : Literal) :
    (pushLiteral literal).Silent :=
  fun _ => .of_ok ⟨rfl, rfl⟩

theorem variableIndex_follows (name : String) :
    (variableIndex name).Follows (Node.checkKnown name) := by
  intro draft
  rw [variableIndex, get_bind_apply, Node.checkKnown]
  cases lookup : draft.method.variableNamed? name with
  | none =>
      have unknown : name ∉ draft.method.localNames :=
        Method.notMem_localNames_of_variableNamed? lookup
      rw [if_neg unknown]
      exact .of_error
  | some found =>
      have known : name ∈ draft.method.localNames :=
        Method.isSome_variableNamed?.mp (by rw [lookup]; rfl)
      rw [if_pos known]
      exact .of_ok ⟨rfl, rfl⟩

theorem declare_follows (type name : String) :
    (declare type name).Follows (Node.checkNew type name) := by
  intro draft
  unfold declare Node.checkNew
  cases ValueType.ofVariableName? type with
  | none =>
      exact .of_error
  | some valueType =>
      change Agrees ((if _ then _ else _ : DraftM Nat) draft) (if _ then _
        else _) _
      by_cases known : name ∈ draft.method.localNames
      · have found : (draft.method.variableNamed? name).isSome :=
          Method.isSome_variableNamed?.mpr known
        rw [if_pos found, if_pos known]
        exact .of_error
      · have missing : ¬ (draft.method.variableNamed? name).isSome :=
          fun found => known (Method.isSome_variableNamed?.mp found)
        rw [if_neg missing, if_neg known]
        refine .of_ok ⟨?_, rfl⟩
        simp [Method.localNames]

theorem declareParam_follows (param : Param) :
    (declareParam param).Follows
      (Node.checkNew param.type param.name) :=
  (declare_follows param.type param.name).bind_silent
    fun _ _ => .of_ok ⟨rfl, rfl⟩

theorem declareParams_follows (params : List Param) :
    (params.forM declareParam).Follows (Script.checkParams params) := by
  induction params with
  | nil =>
      exact pure_silent ()
  | cons param rest inductionHypothesis =>
      exact (declareParam_follows param).bind fun _ => inductionHypothesis

end DraftM

/-! ## Calls -/

namespace Node

/-- Either all arguments are literals and their types are known, or the first
that is not a literal is the error. -/
theorem argumentTypes_eq (callee : String) (position : Nat)
    (args : List Node) :
    argumentTypes callee position args =
      match (args.zipIdx position).find?
          fun (arg, _) => arg.staticType?.isNone with
      | some (arg, place) =>
          .error (.untypedArgument callee place arg.kindName)
      | none => .ok (args.filterMap staticType?) := by
  induction args generalizing position with
  | nil =>
      rfl
  | cons arg rest inductionHypothesis =>
      rw [argumentTypes, List.zipIdx_cons, List.find?_cons]
      cases typed : arg.staticType? with
      | none =>
          simp only [typed, Option.isNone_none]
      | some type =>
          rw [inductionHypothesis]
          simp only [Option.isNone_some, List.filterMap_cons, typed]
          cases (rest.zipIdx (position + 1)).find?
              fun (arg, _) => arg.staticType?.isNone with
          | none =>
              rfl
          | some found =>
              rfl

end Node

theorem Scope.resolveCall_eq (scope : Scope) (name : String)
    (types : List ValueType) :
    ((∃ native ∈ scope.catalog.functions,
          native.name = name ∧ native.signature = types) ∨
        name ∈ scope.methods) ∧
      (∃ instruction, scope.resolveCall name types = .ok instruction) ∨
    ¬ ((∃ native ∈ scope.catalog.functions,
          native.name = name ∧ native.signature = types) ∨
        name ∈ scope.methods) ∧
      scope.resolveCall name types = .error (.unresolvedCall name types) := by
  have overloaded : (∃ native ∈ scope.catalog.functions,
      native.name = name ∧ native.signature = types) ↔
        (scope.catalog.overload? name types).isSome := by
    simp [Catalog.overload?]
  unfold resolveCall
  rw [overloaded]
  cases scope.catalog.overload? name types with
  | some native =>
      exact Or.inl ⟨Or.inl rfl, _, rfl⟩
  | none =>
      cases found : scope.methods.idxOf? name with
      | some index =>
          have member : name ∈ scope.methods :=
            List.isSome_idxOf?.mp (by rw [found]; rfl)
          exact Or.inl ⟨Or.inr member, _, rfl⟩
      | none =>
          have absent : name ∉ scope.methods :=
            List.idxOf?_eq_none_iff.mp found
          exact Or.inr ⟨by simp [absent], rfl⟩

/-! ## Bodies -/

namespace Node

open DraftM

/-- Literals declare nothing, so the arguments of a typed call pass every
check. -/
theorem checkAll_of_typed (catalog : Catalog) (callable : List String)
    (declared : List String) {args : List Node}
    (typed : ∀ arg ∈ args, arg.staticType?.isSome) :
    checkAll catalog callable args declared = .ok declared := by
  induction args with
  | nil =>
      rw [checkAll]
  | cons arg rest inductionHypothesis =>
      have restTyped := inductionHypothesis fun other member =>
        typed other (List.mem_cons_of_mem arg member)
      have argTyped := typed arg List.mem_cons_self
      rw [checkAll]
      cases arg with
      | literal value =>
          rw [check]
          exact restTyped
      | trigger | proc | block | declare | assign | branch | call | compare
      | var =>
          cases argTyped

theorem call_follows (scope : Scope) (name : String) (args : List Node)
    (argsFollow : (assembleAll scope args).Follows
      (checkAll scope.catalog scope.methods args)) :
    (assemble scope (.call name args)).Follows
      (checkCall scope.catalog scope.methods name args) := by
  have typesEq := argumentTypes_eq name 1 args
  rw [assemble]
  cases untyped : (args.zipIdx 1).find?
      fun (arg, _) => arg.staticType?.isNone with
  | some found =>
      rw [untyped] at typesEq
      rw [typesEq]
      refine (throw_follows _).of_eq ?_
      intro declared
      simp only [checkCall, untyped]
  | none =>
      rw [untyped] at typesEq
      rw [typesEq]
      have typed : ∀ arg ∈ args, arg.staticType?.isSome := by
        intro arg member
        have listed : arg.staticType? ∈ args.map staticType? :=
          List.mem_map_of_mem member
        rw [argumentTypes_spec typesEq, List.mem_map] at listed
        obtain ⟨type, _, known⟩ := listed
        rw [← known]
        rfl
      have argsSilent : (assembleAll scope args).Silent :=
        argsFollow.of_eq fun declared =>
          (checkAll_of_typed _ _ declared typed).symm
      rcases scope.resolveCall_eq name (args.filterMap staticType?) with
        ⟨resolvable, instruction, resolved⟩ | ⟨unresolvable, failed⟩
      · have run := argsSilent.bind fun _ => emit_silent instruction
        change Follows (liftExcept (scope.resolveCall name _) >>= _) _
        rw [resolved]
        refine run.of_eq ?_
        intro declared
        simp only [checkCall, untyped, if_pos resolvable]
      · change Follows (liftExcept (scope.resolveCall name _) >>= _) _
        rw [failed]
        refine (throw_follows _).of_eq ?_
        intro declared
        simp only [checkCall, untyped, if_neg unresolvable]

mutual

theorem assemble_follows (scope : Scope) :
    (node : Node) → (node.assemble scope).Follows
      (node.check scope.catalog scope.methods)
  | .trigger event filter body => by
      rw [assemble]
      refine (throw_follows _).of_eq ?_
      intro declared
      rw [check]
      rfl
  | .proc name params body => by
      rw [assemble]
      refine (throw_follows _).of_eq ?_
      intro declared
      rw [check]
      rfl
  | .block statements => by
      rw [assemble]
      refine (assembleAll_follows scope statements).of_eq ?_
      intro declared
      rw [check]
  | .declare type name none => by
      rw [assemble]
      have run := (declare_follows type name).bind fun _ =>
        pure_silent PUnit.unit
      refine run.of_eq ?_
      intro declared
      rw [check]
      rfl
  | .declare type name (some value) => by
      rw [assemble]
      have run := (declare_follows type name).bind fun index =>
        (assemble_follows scope value).bind_silent fun _ =>
          emit_silent { opcode := .setVariable, i := index }
      refine run.of_eq ?_
      intro declared
      rw [check]
      rfl
  | .assign name value => by
      rw [assemble]
      have run := (variableIndex_follows name).bind fun index =>
        (assemble_follows scope value).bind_silent fun _ =>
          emit_silent { opcode := .setVariable, i := index }
      refine run.of_eq ?_
      intro declared
      rw [check]
  | .branch condition thenBranch elseBranch => by
      rw [assemble_branch]
      have run := (assemble_follows scope condition).bind fun _ =>
        newLabel_silent.bind fun otherwise =>
          newLabel_silent.bind fun done =>
            (emitBranch_silent .jumpIfZero otherwise).bind fun _ =>
              (assemble_follows scope thenBranch).bind fun _ =>
                (emitBranch_silent .jump done).bind fun _ =>
                  (emit_silent (.marker otherwise)).bind fun _ =>
                    (assembleOptional_follows scope
                      elseBranch).bind_silent fun _ =>
                        emit_silent (.marker done)
      refine run.of_eq ?_
      intro declared
      rw [check]
  | .call name args => by
      refine (call_follows scope name args
        (assembleAll_follows scope args)).of_eq ?_
      intro declared
      rw [check]
  | .literal value => by
      rw [assemble]
      refine Follows.of_eq (pushLiteral_silent value) ?_
      intro declared
      rw [check]
  | .compare left comparator right => by
      rw [assemble]
      have ending : (if comparator = .equal then emitWith .equal 0
          else throw (.unknownComparator comparator)).Follows
          (fun declared => if comparator = .equal then .ok declared
            else .error (.unknownComparator comparator)) := by
        by_cases isEqual : comparator = .equal
        · simp only [if_pos isEqual]
          exact emit_silent _
        · simp only [if_neg isEqual]
          exact throw_follows _
      have run := (assemble_follows scope left).bind fun _ =>
        (assemble_follows scope right).bind fun _ => ending
      refine run.of_eq ?_
      intro declared
      rw [check]
  | .var name => by
      rw [assemble]
      have run := (variableIndex_follows name).bind_silent fun index =>
        emit_silent { opcode := .getVariable, i := index }
      refine run.of_eq ?_
      intro declared
      rw [check]

theorem assembleAll_follows (scope : Scope) :
    (nodes : List Node) → (assembleAll scope nodes).Follows
      (checkAll scope.catalog scope.methods nodes)
  | [] => by
      rw [assembleAll]
      refine Follows.of_eq (pure_silent ()) ?_
      intro declared
      rw [checkAll]
  | node :: nodes => by
      rw [assembleAll]
      have run := (assemble_follows scope node).bind fun _ =>
        assembleAll_follows scope nodes
      refine run.of_eq ?_
      intro declared
      rw [checkAll]

theorem assembleOptional_follows (scope : Scope) :
    (node : Option Node) → (assembleOptional scope node).Follows
      (checkOptional scope.catalog scope.methods node)
  | none => by
      rw [assembleOptional]
      refine Follows.of_eq (pure_silent ()) ?_
      intro declared
      rw [checkOptional]
  | some node => by
      rw [assembleOptional]
      refine (assemble_follows scope node).of_eq ?_
      intro declared
      rw [checkOptional]

end

end Node

end TriggerScript
