import TriggerScript.Proofs.Script
import TriggerScript.Proofs.StaticCheck

/-!
# Scripts that can be assembled

The first pass gives every procedure a method that holds its parameters.  The
second pass takes the declarations in order: a procedure finds its own method
again, because no two procedures have the same name, and a trigger gets a new
one.  All that decides about errors is in the *ledger* of a program under
construction, the names of its methods with the names declared in each.

`Script.Reached` says how the ledger looks between two declarations, and
`Program.assemble_eq_check` concludes that assembling and checking always have
the same outcome.
-/

namespace TriggerScript

/-! ## Methods and their declared names -/

/-- The names of the methods, each with the names declared in it. -/
def Assembly.ledger (assembly : Assembly) : List (String × List String) :=
  assembly.methods.map fun method => (method.name, method.localNames)

theorem Assembly.methodNames_eq_ledger (assembly : Assembly) :
    assembly.methodNames = assembly.ledger.map Prod.fst := by
  simp [methodNames, ledger]

theorem Assembly.length_ledger (assembly : Assembly) :
    assembly.ledger.length = assembly.methods.length := by
  simp [ledger]

/-- What the ledger says about the procedures of a script before their bodies
are assembled. -/
def Declaration.headings (nodes : List Node) : List (String × List String) :=
  (procs nodes).map fun declared =>
    (declared.name, declared.params.map Param.name)

theorem Script.checkParams_eq_ok {params : List Param}
    {declared names : List String}
    (checked : checkParams params declared = .ok names) :
    names = declared ++ params.map Param.name := by
  induction params generalizing declared with
  | nil =>
      cases checked
      simp
  | cons param rest inductionHypothesis =>
      rw [checkParams] at checked
      unfold Node.checkNew at checked
      split at checked
      · cases checked
      · split at checked
        · cases checked
        · have restNames := inductionHypothesis checked
          simpa using restNames

namespace AssembleM

open DraftM

variable {before : Assembly} {left right : List (String × List String)}
  {name : String} {declared : List String}

/-- Work on one method changes its row of the ledger as the rule says. -/
theorem inMethod_agrees {work : DraftM Unit}
    {rule : List String → Except CompileError (List String)}
    (follows : work.Follows rule)
    (rows : before.ledger = left ++ (name, declared) :: right) :
    Agrees (inMethod left.length work before) (rule declared)
      fun after names =>
        after.ledger = left ++ (name, names) :: right ∧
          after.triggers = before.triggers := by
  have row : before.ledger[left.length]? = some (name, declared) := by
    simp [rows]
  rw [Assembly.ledger, List.getElem?_map, Option.map_eq_some_iff] at row
  obtain ⟨method, found, rowEq⟩ := row
  obtain ⟨rfl, rfl⟩ := Prod.mk.inj rowEq
  unfold inMethod
  rw [found]
  rcases follows ⟨method, before.tables⟩ with
    ⟨error, after, ran, ruled⟩ |
      ⟨result, after, names, ran, ruled, rfl, named⟩
  · simp only [ran, ruled]
    exact .of_error
  · have changed : (before.putBack left.length after).ledger =
        before.ledger.set left.length
          (after.method.name, after.method.localNames) := by
      simp [Assembly.ledger, Assembly.putBack, List.map_set]
    simp only [ran, ruled]
    refine .of_ok ⟨?_, rfl⟩
    rw [changed, rows, named]
    simp

theorem withMethod_ledger (assembly : Assembly) (name : String) :
    (withMethod assembly name).ledger = assembly.ledger ++ [(name, [])] := by
  simp [Assembly.ledger, withMethod, Method.start, Method.localNames]

/-! ## Procedures get their methods -/

theorem hoist_agrees (name : String) (params : List Param)
    (before : Assembly) :
    Agrees (hoist name params before)
      (Script.checkHeading before.methodNames name params)
      fun after names =>
        after.ledger = before.ledger ++ [(name, names)] ∧
          after.triggers = before.triggers ∧
          name ∉ before.methodNames ∧ names = params.map Param.name := by
  have unfolded : hoist name params before =
      (if (before.methodNames.idxOf? name).isSome then
        throw (.duplicateProc name)
      else do
        let index ← defineMethod name
        inMethod index (params.forM declareParam) : AssembleM Unit)
        before :=
    rfl
  rw [unfolded, Script.checkHeading]
  by_cases known : name ∈ before.methodNames
  · rw [if_pos (List.isSome_idxOf?.mpr known), if_pos known]
    exact .of_error
  · have missing : ¬ (before.methodNames.idxOf? name).isSome :=
      fun found => known (List.isSome_idxOf?.mp found)
    rw [if_neg missing, if_neg known]
    change Agrees (inMethod before.methods.length _
      (withMethod before name)) _ _
    rw [← before.length_ledger]
    refine (inMethod_agrees (declareParams_follows params)
      (withMethod_ledger before name)).mono ?_
    rintro after names checked ⟨rows, same⟩
    exact ⟨rows, same, known, Script.checkParams_eq_ok checked⟩

/-- The first pass stops as the headings say; otherwise every procedure has a
row with its parameters. -/
theorem hoistAll_agrees (nodes : List Node) (before : Assembly)
    (distinct : before.methodNames.Nodup) :
    Agrees (hoistAll nodes before)
      (Script.checkHeadings nodes before.methodNames)
      fun after procs =>
        after.methodNames = procs ∧ procs.Nodup ∧
          after.ledger = before.ledger ++ Declaration.headings nodes ∧
          after.triggers = before.triggers := by
  induction nodes generalizing before with
  | nil =>
      refine .of_ok ⟨rfl, distinct, ?_, rfl⟩
      simp [Declaration.headings, Declaration.procs]
  | cons node rest inductionHypothesis =>
      cases node with
      | proc name params body =>
          refine Agrees.bind (hoist_agrees name params before) ?_
          rintro _ middle _ ⟨rows, same, fresh, rfl⟩
          have namesEq :
              middle.methodNames = before.methodNames ++ [name] := by
            simp [Assembly.methodNames_eq_ledger, rows]
          have stillDistinct : middle.methodNames.Nodup := by
            rw [namesEq]
            refine distinct.append (List.nodup_singleton name) ?_
            simpa using fresh
          rw [← namesEq]
          refine (inductionHypothesis middle stillDistinct).mono ?_
          rintro after procs _ ⟨namesAfter, distinctAfter, rest, triggers⟩
          refine ⟨namesAfter, distinctAfter, ?_, triggers.trans same⟩
          rw [rest, rows, List.append_assoc]
          rfl
      | trigger | block | declare | assign | branch | call | literal
      | compare | var =>
          exact inductionHypothesis before distinct

/-! ## Bodies in their methods -/

theorem assembleBody_agrees (catalog : Catalog) (body : Node)
    (rows : before.ledger = left ++ (name, declared) :: right) :
    Agrees (assembleBody catalog left.length body before)
      (body.check catalog before.methodNames declared)
      fun after names =>
        after.ledger = left ++ (name, names) :: right ∧
          after.triggers = before.triggers := by
  rw [assembleBody_eq]
  exact inMethod_agrees
    ((Node.assemble_follows ⟨catalog, before.methodNames⟩ body).bind_silent
      fun _ => emit_silent { opcode := .ret })
    rows

/-- The method of a trigger is added without names. -/
theorem openTrigger_eq {catalog : Catalog} {event filter : String}
    {listener : Catalog.Listener} {value : UInt64}
    (listening : catalog.listener? event = some listener)
    (reading : TriggerEntry.readFilter filter = .ok value)
    (before : Assembly) :
    ∃ middle,
      openTrigger catalog event filter before =
        .ok before.ledger.length middle ∧
      middle.ledger = before.ledger ++
        [("@" ++ event ++ "@" ++ filter ++ "@" ++
          toString before.triggers.length, [])] ∧
      middle.triggers.length = before.triggers.length + 1 := by
  let name := "@" ++ event ++ "@" ++ filter ++ "@" ++
    toString before.triggers.length
  let entry := before.tables.nextLabel + 1
  -- The program once the method has its number and the trigger its label.
  let started : Assembly :=
    { withMethod before name with
      tables := (withMethod before name).tables.newLabel.2 }
  have startedRows : started.ledger = before.ledger ++ [(name, [])] :=
    withMethod_ledger before name
  rcases inMethod_agrees (emit_silent (.marker entry)) startedRows with
    ⟨error, after, _, impossible⟩ |
      ⟨_, marked, names, marking, unchanged, rows, same⟩
  · cases impossible
  · cases unchanged
    refine ⟨{ marked with
        triggers := marked.triggers ++
          [⟨event, listener.id, value, entry, 0⟩]
        tables := marked.tables.log
          (.triggerRegistered event value before.ledger.length) },
      ?_, rows, ?_⟩
    · unfold openTrigger
      rw [listening, reading]
      rw [before.length_ledger] at marking ⊢
      have entered : inMethod before.methods.length (emitMarker entry)
          started = .ok () marked :=
        marking
      change EStateM.bind
        (inMethod before.methods.length (emitMarker entry)) _ started = _
      rw [EStateM.bind, entered]
      rfl
    · simp [same, started, withMethod]

end AssembleM

/-! ## Declarations in order -/

theorem TriggerEntry.readFilter_cases (filter : String) :
    (Script.IsFilter filter ∧ ∃ value, readFilter filter = .ok value) ∨
      (¬ Script.IsFilter filter ∧
        readFilter filter = .error (.invalidFilter filter)) := by
  unfold readFilter Text.readNat? Script.IsFilter
  by_cases digits : filter.toList = [] ∨
      ¬ filter.toList.all Char.isDigit
  · right
    have refused : (filter.toList.isEmpty ||
        !filter.toList.all Char.isDigit) = true := by
      simpa only [Bool.or_eq_true, List.isEmpty_iff, Bool.not_eq_true',
        Bool.not_eq_true] using digits
    rw [if_pos refused]
    exact ⟨fun ⟨nonempty, all, _⟩ => digits.elim nonempty (· all), rfl⟩
  · have accepted : ¬ (filter.toList.isEmpty ||
        !filter.toList.all Char.isDigit) = true := by
      simpa only [Bool.or_eq_true, List.isEmpty_iff, Bool.not_eq_true',
        Bool.not_eq_true] using digits
    rw [not_or, not_not] at digits
    rw [if_neg accepted]
    by_cases bound : Text.digitsValue filter.toList < UInt64.size
    · left
      exact ⟨⟨digits.1, digits.2, bound⟩, _, if_pos bound⟩
    · right
      exact ⟨fun ⟨_, _, small⟩ => bound small, if_neg bound⟩

theorem Catalog.listener?_eq_none_iff {catalog : Catalog}
    {event : String} :
    catalog.listener? event = none ↔
      ∀ listener ∈ catalog.listeners, listener.name ≠ event := by
  simp [listener?, List.find?_eq_none]

theorem Declaration.triggers_append (ordinal : Nat)
    (nodes more : List Node) :
    triggers ordinal (nodes ++ more) = triggers ordinal nodes ++
      triggers (ordinal + (triggers ordinal nodes).length) more := by
  induction nodes generalizing ordinal with
  | nil =>
      rfl
  | cons node rest inductionHypothesis =>
      cases node with
      | trigger event filter body =>
          simp only [List.cons_append, triggers, inductionHypothesis,
            List.length_cons, Nat.add_assoc, Nat.add_comm 1]
      | proc | block | declare | assign | branch | call | literal
      | compare | var =>
          exact inductionHypothesis ordinal

namespace Script

/-- How far a script is assembled when the declarations in `begun` are done
and those in `rest` are to come: procedures whose bodies are still to come
have rows with their parameters. -/
structure Reached (procs : List String) (begun rest : List Node)
    (assembly : Assembly) (done made : List (String × List String)) :
    Prop where
  rows : assembly.ledger = done ++ (Declaration.headings rest ++ made)
  procNames : (done ++ Declaration.headings rest).map Prod.fst = procs
  distinct : procs.Nodup
  triggerNames : made.map Prod.fst = Declaration.triggerNames begun
  count : assembly.triggers.length = made.length

namespace Reached

variable {catalog : Catalog} {procs : List String}
  {begun rest : List Node} {before : Assembly}
  {done made : List (String × List String)}

/-- Behind the headings no body is assembled. -/
theorem start {nodes : List Node} {hoisted : Assembly}
    (namesEq : hoisted.methodNames = procs) (distinct : procs.Nodup)
    (rows : hoisted.ledger =
      ({} : Assembly).ledger ++ Declaration.headings nodes)
    (triggersEq : hoisted.triggers = ({} : Assembly).triggers) :
    Reached procs [] nodes hoisted [] [] := by
  constructor
  · simpa [Assembly.ledger] using rows
  · rw [← namesEq, hoisted.methodNames_eq_ledger, rows]
    simp [Assembly.ledger]
  · exact distinct
  · rfl
  · rw [triggersEq]
    rfl

theorem methodNames_eq
    (reached : Reached procs begun rest before done made) :
    before.methodNames = procs ++ Declaration.triggerNames begun := by
  rw [before.methodNames_eq_ledger, reached.rows, ← List.append_assoc,
    List.map_append, reached.procNames, reached.triggerNames]

/-- The row of the next procedure is found by its name. -/
theorem idxOf?_name {name : String} {params : List Param} {body : Node}
    (reached : Reached procs begun (.proc name params body :: rest)
      before done made) :
    before.methodNames.idxOf? name = some done.length := by
  have namesEq : procs = done.map Prod.fst ++
      name :: (Declaration.headings rest).map Prod.fst := by
    rw [← reached.procNames, List.map_append]
    rfl
  have distinct := reached.distinct
  rw [namesEq] at distinct
  have absent : name ∉ done.map Prod.fst := fun member =>
    (List.nodup_append.mp distinct).2.2 name member name
      List.mem_cons_self rfl
  have member : name ∈ before.methodNames := by
    rw [reached.methodNames_eq, namesEq]
    simp
  rw [idxOf?_eq_some_idxOf member, reached.methodNames_eq, namesEq,
    List.append_assoc, List.idxOf_append_of_notMem absent,
    List.cons_append, List.idxOf_cons_self, List.length_map,
    Nat.add_zero]

theorem proc_step {name : String} {params : List Param} {body : Node}
    (reached : Reached procs begun (.proc name params body :: rest)
      before done made) :
    Agrees
      (AssembleM.assembleDeclaration catalog (.proc name params body)
        before)
      (checkDeclaration catalog
        (procs ++ Declaration.triggerNames
          (begun ++ [.proc name params body]))
        (.proc name params body))
      fun after _ => ∃ names,
        Reached procs (begun ++ [.proc name params body]) rest after
          (done ++ [(name, names)]) made := by
  have found : AssembleM.methodIndex? name before =
      .ok (some done.length) before := by
    rw [AssembleM.methodIndex?, get_bind_apply, reached.idxOf?_name]
    rfl
  have unfolded : AssembleM.assembleDeclaration catalog
      (.proc name params body) before =
        AssembleM.assembleBody catalog done.length body before := by
    unfold AssembleM.assembleDeclaration
    change EStateM.bind (AssembleM.methodIndex? name) _ before = _
    rw [EStateM.bind, found]
  have triggersEq : Declaration.triggerNames
      (begun ++ [.proc name params body]) =
        Declaration.triggerNames begun := by
    rw [Declaration.triggerNames, Declaration.triggers_append]
    simp [Declaration.triggers, Declaration.triggerNames]
  have rows : before.ledger = done ++
      (name, params.map Param.name) ::
        (Declaration.headings rest ++ made) :=
    reached.rows
  rw [unfolded, checkDeclaration, triggersEq, ← reached.methodNames_eq]
  rcases AssembleM.assembleBody_agrees catalog body rows with
    ⟨error, after, ran, checked⟩ |
      ⟨_, after, names, ran, checked, changed, same⟩
  · simp only [ran, checked]
    exact .of_error
  · simp only [ran, checked]
    refine .of_ok ⟨names, ?_⟩
    constructor
    · simpa using changed
    · have procsEq := reached.procNames
      simpa [Declaration.headings, Declaration.procs] using procsEq
    · exact reached.distinct
    · rw [reached.triggerNames, triggersEq]
    · rw [same]
      exact reached.count

/-- The method of the next trigger is named after the number of triggers
before it. -/
theorem triggerNames_append (event filter : String) (body : Node)
    (reached : Reached procs begun rest before done made) :
    Declaration.triggerNames (begun ++ [.trigger event filter body]) =
      Declaration.triggerNames begun ++
        ["@" ++ event ++ "@" ++ filter ++ "@" ++
          toString before.triggers.length] := by
  have madeCount : (Declaration.triggers 0 begun).length =
      before.triggers.length := by
    have lengths := congrArg List.length reached.triggerNames
    rw [reached.count]
    simpa [Declaration.triggerNames] using lengths.symm
  rw [Declaration.triggerNames, Declaration.triggers_append, madeCount]
  simp [Declaration.triggers, Declaration.triggerNames]

theorem trigger_step {event filter : String} {body : Node}
    (reached : Reached procs begun (.trigger event filter body :: rest)
      before done made) :
    Agrees
      (AssembleM.assembleDeclaration catalog (.trigger event filter body)
        before)
      (checkDeclaration catalog
        (procs ++ Declaration.triggerNames
          (begun ++ [.trigger event filter body]))
        (.trigger event filter body))
      fun after _ => ∃ row,
        Reached procs (begun ++ [.trigger event filter body]) rest after
          done (made ++ [row]) := by
  have unfolded : AssembleM.assembleDeclaration catalog
      (.trigger event filter body) before =
        AssembleM.assembleTrigger catalog event filter body before :=
    rfl
  rw [unfolded, checkDeclaration]
  cases listening : catalog.listener? event with
  | none =>
      rw [if_pos (Catalog.listener?_eq_none_iff.mp listening),
        AssembleM.assembleTrigger, AssembleM.openTrigger, listening]
      exact .of_error
  | some listener =>
      have known : ¬ ∀ listener ∈ catalog.listeners,
          listener.name ≠ event := by
        rw [← Catalog.listener?_eq_none_iff, listening]
        simp
      rw [if_neg known]
      rcases TriggerEntry.readFilter_cases filter with
        ⟨isFilter, value, reading⟩ | ⟨noFilter, reading⟩
      · rw [if_neg (not_not.mpr isFilter)]
        obtain ⟨middle, opened, rows, count⟩ :=
          AssembleM.openTrigger_eq listening reading before
        have triggersEq := reached.triggerNames_append event filter body
        have namesEq : middle.methodNames =
            procs ++ Declaration.triggerNames
              (begun ++ [.trigger event filter body]) := by
          rw [middle.methodNames_eq_ledger, rows, List.map_append,
            ← before.methodNames_eq_ledger, reached.methodNames_eq,
            triggersEq, List.append_assoc]
          rfl
        rw [AssembleM.assembleTrigger, bind_eq_of_ok opened, ← namesEq]
        rcases AssembleM.assembleBody_agrees catalog body rows with
          ⟨error, after, ran, checked⟩ |
            ⟨_, after, names, ran, checked, changed, same⟩
        · simp only [ran, checked]
          exact .of_error
        · simp only [ran, checked]
          refine .of_ok ⟨("@" ++ event ++ "@" ++ filter ++ "@" ++
            toString before.triggers.length, names), ?_⟩
          constructor
          · rw [changed, reached.rows]
            simp [Declaration.headings, Declaration.procs]
          · exact reached.procNames
          · exact reached.distinct
          · rw [List.map_append, reached.triggerNames, triggersEq]
            rfl
          · rw [same, count, reached.count, List.length_append]
            rfl
      · rw [if_pos noFilter, AssembleM.assembleTrigger,
          AssembleM.openTrigger, listening, reading]
        exact .of_error

/-- Working off all declarations that are left. -/
theorem run
    (reached : Reached procs begun rest before done made) :
    Agrees (rest.forM (AssembleM.assembleDeclaration catalog) before)
      (checkFrom catalog
        (fun begun => procs ++ Declaration.triggerNames begun) begun rest)
      fun _ _ => True := by
  induction rest generalizing begun before done made with
  | nil =>
      exact .of_ok trivial
  | cons node rest inductionHypothesis =>
      cases node with
      | trigger event filter body =>
          refine Agrees.bind reached.trigger_step ?_
          rintro _ middle _ ⟨row, next⟩
          exact inductionHypothesis next
      | proc name params body =>
          refine Agrees.bind reached.proc_step ?_
          rintro _ middle _ ⟨names, next⟩
          exact inductionHypothesis next
      | block | declare | assign | branch | call | literal | compare
      | var =>
          exact .of_error

end Reached

end Script

/-! ## Names that only a tree can call -/

namespace Node

mutual

def calledNames : Node → List String
  | trigger _ _ body => body.calledNames
  | proc _ _ body => body.calledNames
  | block statements => allCalledNames statements
  | declare _ _ value => optionalCalledNames value
  | assign _ value => value.calledNames
  | branch condition thenBranch elseBranch =>
      condition.calledNames ++
        (thenBranch.calledNames ++ optionalCalledNames elseBranch)
  | call name args => name :: allCalledNames args
  | literal _ => []
  | compare left _ right => left.calledNames ++ right.calledNames
  | var _ => []

def allCalledNames : List Node → List String
  | [] => []
  | node :: nodes => node.calledNames ++ allCalledNames nodes

def optionalCalledNames : Option Node → List String
  | none => []
  | some node => node.calledNames

end

variable {catalog : Catalog} {callable other : List String}

theorem checkCall_congr {name : String} (args : List Node)
    (same : name ∈ callable ↔ name ∈ other) (declared : List String) :
    checkCall catalog callable name args declared =
      checkCall catalog other name args declared := by
  simp only [checkCall, same]

mutual

/-- Checking a body depends on what can be called only through the names that
are called. -/
theorem check_congr :
    (node : Node) →
    (∀ name ∈ node.calledNames, name ∈ callable ↔ name ∈ other) →
    ∀ declared, node.check catalog callable declared =
      node.check catalog other declared
  | .trigger event filter body, _, declared => by
      rw [check, check]
  | .proc name params body, _, declared => by
      rw [check, check]
  | .block statements, same, declared => by
      rw [calledNames] at same
      rw [check, check, checkAll_congr statements same]
  | .declare type name value, same, declared => by
      rw [calledNames] at same
      simp only [check, checkOptional_congr value same]
  | .assign name value, same, declared => by
      rw [calledNames] at same
      simp only [check, check_congr value same]
  | .branch condition thenBranch elseBranch, same, declared => by
      rw [calledNames] at same
      simp only [List.forall_mem_append] at same
      simp only [check, check_congr condition same.1,
        check_congr thenBranch same.2.1,
        checkOptional_congr elseBranch same.2.2]
  | .call name args, same, declared => by
      rw [calledNames] at same
      rw [check, check, checkCall_congr args (same name List.mem_cons_self)]
  | .literal value, _, declared => by
      rw [check, check]
  | .compare left comparator right, same, declared => by
      rw [calledNames] at same
      simp only [List.forall_mem_append] at same
      simp only [check, check_congr left same.1, check_congr right same.2]
  | .var name, _, declared => by
      rw [check, check]

theorem checkAll_congr :
    (nodes : List Node) →
    (∀ name ∈ allCalledNames nodes, name ∈ callable ↔ name ∈ other) →
    ∀ declared, checkAll catalog callable nodes declared =
      checkAll catalog other nodes declared
  | [], _, declared => by
      rw [checkAll, checkAll]
  | node :: nodes, same, declared => by
      rw [allCalledNames] at same
      simp only [List.forall_mem_append] at same
      simp only [checkAll, check_congr node same.1,
        checkAll_congr nodes same.2]

theorem checkOptional_congr :
    (node : Option Node) →
    (∀ name ∈ optionalCalledNames node,
      name ∈ callable ↔ name ∈ other) →
    ∀ declared, checkOptional catalog callable node declared =
      checkOptional catalog other node declared
  | none, _, declared => by
      rw [checkOptional, checkOptional]
  | some node, same, declared => by
      rw [optionalCalledNames] at same
      rw [checkOptional, checkOptional, check_congr node same]

end

end Node

namespace Script

variable {catalog : Catalog}

theorem checkDeclaration_congr {callable other : List String} {node : Node}
    (same : ∀ name ∈ node.calledNames, name ∈ callable ↔ name ∈ other) :
    checkDeclaration catalog callable node =
      checkDeclaration catalog other node := by
  cases node with
  | trigger event filter body =>
      rw [Node.calledNames] at same
      simp only [checkDeclaration, Node.check_congr body same]
  | proc name params body =>
      rw [Node.calledNames] at same
      simp only [checkDeclaration, Node.check_congr body same]
  | block | declare | assign | branch | call | literal | compare | var =>
      rfl

theorem checkFrom_congr {callable other : List Node → List String}
    {begun rest : List Node}
    (same : ∀ begun, ∀ node ∈ rest, ∀ name ∈ node.calledNames,
      name ∈ callable begun ↔ name ∈ other begun) :
    checkFrom catalog callable begun rest =
      checkFrom catalog other begun rest := by
  induction rest generalizing begun with
  | nil =>
      rfl
  | cons node rest inductionHypothesis =>
      have first : checkDeclaration catalog (callable (begun ++ [node]))
          node = checkDeclaration catalog (other (begun ++ [node])) node :=
        checkDeclaration_congr
          (same (begun ++ [node]) node List.mem_cons_self)
      have others : checkFrom catalog callable (begun ++ [node]) rest =
          checkFrom catalog other (begun ++ [node]) rest :=
        inductionHypothesis fun begun later member =>
          same begun later (List.mem_cons_of_mem node member)
      rw [checkFrom, checkFrom, first, others]

/-- The methods of triggers have names that start with `@`. -/
theorem head?_of_mem_triggers {ordinal : Nat} {nodes : List Node}
    {declared : Declaration}
    (member : declared ∈ Declaration.triggers ordinal nodes) :
    declared.name.toList.head? = some '@' := by
  induction nodes generalizing ordinal with
  | nil =>
      cases member
  | cons node rest inductionHypothesis =>
      cases node with
      | trigger event filter body =>
          rcases List.mem_cons.mp member with rfl | later
          · simp [String.toList_append]
          · exact inductionHypothesis later
      | proc | block | declare | assign | branch | call | literal
      | compare | var =>
          exact inductionHypothesis member

theorem notMem_triggers_of_head? {name : String}
    (plain : name.toList.head? ≠ some '@') (ordinal : Nat)
    (nodes : List Node) :
    name ∉ (Declaration.triggers ordinal nodes).map Declaration.name := by
  intro member
  obtain ⟨declared, made, rfl⟩ := List.mem_map.mp member
  exact plain (head?_of_mem_triggers made)

/-- A script that calls no name with `@` in front needs no triggers to be
known. -/
theorem check_eq_checkWithTriggers {nodes : List Node}
    (plain : ∀ node ∈ nodes, ∀ name ∈ node.calledNames,
      name.toList.head? ≠ some '@') :
    check catalog nodes = checkWithTriggers catalog nodes := by
  unfold check checkWithTriggers
  congr
  funext procs
  apply checkFrom_congr
  intro begun node member name called
  have notTrigger : name ∉ Declaration.triggerNames begun :=
    notMem_triggers_of_head? (plain node member name called) 0 begun
  simp [notTrigger]

end Script

theorem AssembleM.assembleScript_agrees (catalog : Catalog)
    (nodes : List Node) :
    Agrees (assembleScript catalog nodes {})
      (Script.checkWithTriggers catalog nodes) fun _ _ => True := by
  refine Agrees.bind (hoistAll_agrees nodes {} List.nodup_nil) ?_
  rintro _ middle procs ⟨namesEq, distinct, rows, triggersEq⟩
  exact (Script.Reached.start namesEq distinct rows triggersEq).run

/-- Assembling and checking fail alike or succeed alike. -/
theorem Program.assemble_outcome (catalog : Catalog) (nodes : List Node) :
    (∃ error, assemble catalog nodes = .error error ∧
        Script.checkWithTriggers catalog nodes = .error error) ∨
      ∃ program, assemble catalog nodes = .ok program ∧
        Script.checkWithTriggers catalog nodes = .ok () := by
  unfold assemble assembleLogged
  rcases AssembleM.assembleScript_agrees catalog nodes with
    ⟨error, after, ran, checked⟩ | ⟨_, after, value, ran, checked, _⟩
  · rw [ran]
    exact Or.inl ⟨error, rfl, checked⟩
  · rw [ran]
    exact Or.inr ⟨_, rfl, checked⟩

theorem Program.exists_assemble_iff {catalog : Catalog}
    {nodes : List Node} :
    (∃ program, assemble catalog nodes = .ok program) ↔
      Script.checkWithTriggers catalog nodes = .ok () := by
  rcases assemble_outcome catalog nodes with
    ⟨error, failed, found⟩ | ⟨program, assembled, nothing⟩
  · rw [failed, found]
    simp
  · rw [assembled, nothing]
    simp

/-- Assembling a script has the outcome of checking it: it succeeds when
nothing is wrong, and otherwise stops with the first error.  Calls may go to
procedures and, under names that start with `@`, to triggers; without such
names it is enough to know the procedures. -/
theorem Program.assemble_eq_check (catalog : Catalog) (nodes : List Node) :
    (assemble catalog nodes).map (fun _ => ()) =
        Script.checkWithTriggers catalog nodes ∧
      ((∀ node ∈ nodes, ∀ name ∈ node.calledNames,
          name.toList.head? ≠ some '@') →
        (assemble catalog nodes).map (fun _ => ()) =
          Script.check catalog nodes) := by
  have outcome : (assemble catalog nodes).map (fun _ => ()) =
      Script.checkWithTriggers catalog nodes := by
    rcases assemble_outcome catalog nodes with
      ⟨error, failed, found⟩ | ⟨program, assembled, nothing⟩
    · rw [failed, found]
      rfl
    · rw [assembled, nothing]
      rfl
  refine ⟨outcome, ?_⟩
  intro plain
  rw [Script.check_eq_checkWithTriggers plain]
  exact outcome

/-- A variable may stand in its own first value, but an argument must be a
literal; the missing procedure behind it is not reached. -/
def faultyScript : List Node :=
  [.trigger "knock" "2" (.block
      [.declare "int" "count" (some (.var "count")),
        .call "greet" [.literal (.int 1), .var "count"],
        .call "leave" []]),
    .proc "greet" [⟨"guest", "string"⟩] (.block [])]

theorem assemble_eq_check_faulty :
    (∀ node ∈ faultyScript, ∀ name ∈ node.calledNames,
        name.toList.head? ≠ some '@') ∧
      (Program.assemble doorCatalog faultyScript).map (fun _ => ()) =
        .error (.untypedArgument "greet" 2 "identifier") := by
  have plain : ∀ node ∈ faultyScript, ∀ name ∈ node.calledNames,
      name.toList.head? ≠ some '@' := by
    decide
  have checked : Script.check doorCatalog faultyScript =
      .error (.untypedArgument "greet" 2 "identifier") := by
    rfl
  refine ⟨plain, ?_⟩
  rw [(Program.assemble_eq_check doorCatalog faultyScript).2 plain, checked]

end TriggerScript
