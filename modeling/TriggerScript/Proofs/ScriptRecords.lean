import TriggerScript.Proofs.Records

/-!
# What scripts leave behind

The procedures of a script take one label each before any body is assembled.
Then the declarations are worked off in order, and each takes its labels and
puts its constants into the table where the one before it stopped.  So the
records of all methods and the table of constants are functions of the script.
-/

namespace TriggerScript

/-- A parameter is declared like a variable without a value. -/
def Param.tree (param : Param) : Node :=
  .declare param.type param.name none

def Param.signature (params : List Param) : List (String × ValueType) :=
  (params.map Param.tree).filterMap Node.declared?

/-- The variables of a declaration: its parameters, then those of its body. -/
def Declaration.signature (declaration : Declaration) :
    List (String × ValueType) :=
  Param.signature declaration.params ++
    declaration.body.subtrees.filterMap Node.declared?

namespace Script

/-- The records of procedures whose bodies are still to come; their labels
are taken from `entry` on. -/
def headingRecords (entry : Nat) : List Node → List Record
  | [] => []
  | .proc _ params _ :: rest =>
      ⟨Param.signature params, [entry]⟩ :: headingRecords (entry + 1) rest
  | _ :: rest => headingRecords entry rest

/-- The records of the procedures of a script.  The labels of their entries
are taken from `entry` on, those of all bodies from `next` on. -/
def procRecords (entry next : Nat) : List Node → List Record
  | [] => []
  | .proc _ params body :: rest =>
      Record.extend ⟨Param.signature params, [entry]⟩ body next ::
        procRecords (entry + 1) (next + Node.labelCount body.subtrees) rest
  | .trigger _ _ body :: rest =>
      procRecords entry (next + 2 + Node.labelCount body.subtrees) rest
  | _ :: rest => procRecords entry next rest

/-- The records of the triggers of a script.  A trigger takes two labels
before its body does. -/
def triggerRecords (next : Nat) : List Node → List Record
  | [] => []
  | .trigger _ _ body :: rest =>
      Record.extend ⟨[], [next, next + 1]⟩ body (next + 2) ::
        triggerRecords (next + 2 + Node.labelCount body.subtrees) rest
  | .proc _ _ body :: rest =>
      triggerRecords (next + Node.labelCount body.subtrees) rest
  | _ :: rest => triggerRecords next rest

def records (nodes : List Node) : List Record :=
  let count := (Declaration.procs nodes).length
  procRecords 0 count nodes ++ triggerRecords count nodes

def constants (nodes : List Node) : List Constant :=
  (ConstantPool.internAll {}
    ((Node.allSubtrees nodes).filterMap Node.pushed?)).entries

theorem mem_constants {nodes : List Node} {constant : Constant} :
    constant ∈ constants nodes ↔
      ∃ tree ∈ Node.allSubtrees nodes, tree.pushed? = some constant := by
  rw [constants, ConstantPool.mem_internAll, List.mem_filterMap]
  simp

theorem constants_nodup (nodes : List Node) : (constants nodes).Nodup :=
  ConstantPool.nodup_internAll List.nodup_nil _

theorem procRecords_signature (entry next : Nat) (nodes : List Node) :
    (procRecords entry next nodes).map Record.signature =
      (Declaration.procs nodes).map Declaration.signature := by
  induction nodes generalizing entry next with
  | nil =>
      rfl
  | cons node rest inductionHypothesis =>
      cases node with
      | proc name params body =>
          rw [procRecords, List.map_cons, inductionHypothesis]
          rfl
      | trigger event filter body =>
          exact inductionHypothesis _ _
      | block | declare | assign | branch | call | literal | compare
      | var =>
          exact inductionHypothesis _ _

theorem triggerRecords_signature (ordinal next : Nat)
    (nodes : List Node) :
    (triggerRecords next nodes).map Record.signature =
      (Declaration.triggers ordinal nodes).map Declaration.signature := by
  induction nodes generalizing ordinal next with
  | nil =>
      rfl
  | cons node rest inductionHypothesis =>
      cases node with
      | trigger event filter body =>
          rw [triggerRecords, List.map_cons,
            inductionHypothesis (ordinal + 1)]
          rfl
      | proc name params body =>
          exact inductionHypothesis _ _
      | block | declare | assign | branch | call | literal | compare
      | var =>
          exact inductionHypothesis _ _

theorem records_signature (nodes : List Node) :
    (records nodes).map Record.signature =
      (Declaration.all nodes).map Declaration.signature := by
  rw [records, List.map_append, procRecords_signature,
    triggerRecords_signature 0, Declaration.all, List.map_append]

end Script

/-! ## Procedures get their methods -/

theorem DraftM.declareParams_leaves (params : List Param) :
    (params.forM declareParam).Leaves (params.map Param.tree) := by
  induction params with
  | nil =>
      exact pure_leaves ()
  | cons param rest inductionHypothesis =>
      have pushed (index : Nat) : (modify fun draft : Draft =>
          { draft with method.params := draft.method.params ++ [index] } :
            DraftM Unit).Leaves [] := by
        intro before result after run
        cases run
        exact ⟨(List.append_nil _).symm, rfl⟩
      exact ((declare_leaves param.type param.name none).bind_nil
        pushed).bind fun _ => inductionHypothesis

namespace AssembleM

variable {catalog : Catalog} {before after : Assembly}

theorem hoist_records {name : String} {params : List Param}
    (run : hoist name params before = .ok () after) :
    after.records = before.records ++
        [⟨Param.signature params, [before.tables.nextLabel]⟩] ∧
      after.tables.constants = before.tables.constants ∧
      after.tables.nextLabel = before.tables.nextLabel + 1 := by
  obtain ⟨place?, _, looked, run⟩ := bind_eq_ok.mp run
  cases looked
  split at run
  · exact absurd run throw_ne_ok
  · obtain ⟨index, defining, defined, paramsRun⟩ := bind_eq_ok.mp run
    rw [defineMethod_eq] at defined
    cases defined
    obtain ⟨draft, declared, rfl⟩ :=
      inMethod_spec (withMethod_last before name) paramsRun
    obtain ⟨tables, _, _, frame⟩ :=
      declareParams_spec (Method.start_numbered _ _ _) rfl declared
    have leaves := DraftM.declareParams_leaves params _ () draft declared
    have recordEq : draft.method.record =
        ⟨Param.signature params, [before.tables.nextLabel]⟩ := by
      have codeEq := congrArg Method.code frame
      have codeSame : draft.method.code =
          [.marker before.tables.nextLabel] := codeEq
      rw [Method.record, leaves.1, codeSame]
      rfl
    refine ⟨?_, ?_, ?_⟩
    · simp [Assembly.records, Assembly.putBack, withMethod, recordEq]
    · change draft.tables.constants = before.tables.constants
      rw [tables]
      rfl
    · change draft.tables.nextLabel = before.tables.nextLabel + 1
      rw [tables]
      rfl

theorem hoistAll_records {nodes : List Node}
    (run : hoistAll nodes before = .ok () after) :
    after.records = before.records ++
        Script.headingRecords before.tables.nextLabel nodes ∧
      after.tables.constants = before.tables.constants ∧
      after.tables.nextLabel = before.tables.nextLabel +
        (Declaration.procs nodes).length := by
  induction nodes generalizing before with
  | nil =>
      obtain ⟨_, rfl⟩ := pure_eq_ok.mp run
      exact ⟨(List.append_nil _).symm, rfl, rfl⟩
  | cons node rest inductionHypothesis =>
      cases node with
      | proc name params body =>
          obtain ⟨_, middle, hoisted, restRun⟩ := bind_eq_ok.mp run
          obtain ⟨rows, constantsEq, labelEq⟩ := hoist_records hoisted
          obtain ⟨laterRows, laterConstants, laterLabel⟩ :=
            inductionHypothesis restRun
          refine ⟨?_, laterConstants.trans constantsEq, ?_⟩
          · rw [laterRows, rows, labelEq, List.append_assoc]
            rfl
          · rw [laterLabel, labelEq, Declaration.procs, List.length_cons]
            omega
      | trigger | block | declare | assign | branch | call | literal
      | compare | var =>
          exact inductionHypothesis run

/-- A trigger gets a method with two markers before its body is assembled. -/
theorem assembleTrigger_records {event filter : String} {body : Node}
    (numbered : ∀ method ∈ before.methods, method.Numbered)
    (run : assembleTrigger catalog event filter body before =
      .ok () after) :
    after.records = before.records ++
        [Record.extend ⟨[], [before.tables.nextLabel,
          before.tables.nextLabel + 1]⟩ body
          (before.tables.nextLabel + 2)] ∧
      after.tables.constants = before.tables.constants.internAll
        (body.subtrees.filterMap Node.pushed?) ∧
      after.tables.nextLabel = before.tables.nextLabel + 2 +
        Node.labelCount body.subtrees := by
  obtain ⟨_, middle, opened, bodyRun⟩ := bind_eq_ok.mp run
  obtain ⟨_, _, method, _, _, rfl, opens⟩ := openTrigger_spec opened
  have recordEq : method.record = ⟨[], [before.tables.nextLabel,
      before.tables.nextLabel + 1]⟩ := by
    rw [Method.record, Method.signature, opens.locals, opens.code]
    rfl
  have rows : middle.records = before.records ++ [method.record] := by
    rw [Assembly.records, opens.methods, List.map_append]
    rfl
  have middleNumbered : ∀ other ∈ middle.methods, other.Numbered := by
    intro other member
    rw [opens.methods, List.mem_append, List.mem_singleton] at member
    rcases member with old | rfl
    · exact numbered other old
    · constructor
      · simp [opens.locals]
      · simp [Method.localNames, opens.locals]
  have lengthEq : before.methods.length = before.records.length := by
    rw [Assembly.records, List.length_map]
  rw [lengthEq] at bodyRun
  obtain ⟨bodyRows, bodyConstants, bodyLabel⟩ :=
    assembleBody_records middleNumbered rows bodyRun
  rw [bodyRows, bodyConstants, bodyLabel, recordEq, opens.constants,
    opens.nextLabel]
  exact ⟨rfl, rfl, rfl⟩

end AssembleM

/-! ## Declarations in order -/

theorem Assembly.Holds.numbered {catalog : Catalog} {assembly : Assembly}
    {pieces : List Piece} (holds : assembly.Holds catalog pieces) :
    ∀ method ∈ assembly.methods, method.Numbered := by
  intro method member
  rw [holds.methods] at member
  obtain ⟨piece, inPieces, rfl⟩ := List.mem_map.mp member
  exact (holds.valid piece inPieces).numbered

namespace Progress

variable {catalog : Catalog} {rest : List Node}
  {before after : Assembly} {finished waiting triggers : List Piece}

/-- The body of the next procedure is assembled into the first method whose
body is still to come. -/
theorem proc_run {name : String} {params : List Param} {body : Node}
    (progress : Progress catalog (.proc name params body :: rest)
      before finished waiting triggers)
    (run : AssembleM.assembleDeclaration catalog
      (.proc name params body) before = .ok () after) :
    AssembleM.assembleBody catalog finished.length body before =
      .ok () after := by
  cases waiting with
  | nil =>
      cases progress.pending
  | cons piece unfinished =>
      have declared := (List.cons.inj progress.pending).1
      have found := progress.idxOf?_name
      rw [declared] at found
      obtain ⟨index?, _, looked, bodyRun⟩ := bind_eq_ok.mp run
      cases looked
      rw [found] at bodyRun
      exact bodyRun

/-- The records once all declarations that are left were worked off. -/
theorem run_records {done made : List Record} {entry : Nat}
    (progress : Progress catalog rest before finished waiting triggers)
    (aligned : done.length = finished.length)
    (rows : before.records =
      done ++ (Script.headingRecords entry rest ++ made))
    (run : rest.forM (AssembleM.assembleDeclaration catalog) before =
      .ok () after) :
    after.records =
        done ++ Script.procRecords entry before.tables.nextLabel rest ++
          (made ++ Script.triggerRecords before.tables.nextLabel rest) ∧
      after.tables.constants = before.tables.constants.internAll
        ((Node.allSubtrees rest).filterMap Node.pushed?) := by
  induction rest generalizing before finished waiting triggers done made
    entry with
  | nil =>
      obtain ⟨_, rfl⟩ := pure_eq_ok.mp run
      rw [rows, Node.allSubtrees]
      simp [Script.headingRecords, Script.procRecords,
        Script.triggerRecords, ConstantPool.internAll]
  | cons node rest inductionHypothesis =>
      obtain ⟨_, middle, nodeRun, restRun⟩ := bind_eq_ok.mp run
      have numbered := progress.holds.numbered
      rw [Node.allSubtrees, List.filterMap_append,
        ConstantPool.internAll_append]
      cases node with
      | proc name params body =>
          have bodyRun := progress.proc_run nodeRun
          rw [← aligned] at bodyRun
          obtain ⟨bodyRows, constantsEq, labelEq⟩ :=
            AssembleM.assembleBody_records numbered rows bodyRun
          obtain ⟨piece, unfinished, next, _⟩ := progress.proc_step nodeRun
          have nextAligned :
              (done ++ [Record.extend ⟨Param.signature params, [entry]⟩
                body before.tables.nextLabel]).length =
                (finished ++ [piece]).length := by
            simp [aligned]
          have nextRows : middle.records =
              done ++ [Record.extend ⟨Param.signature params, [entry]⟩ body
                before.tables.nextLabel] ++
                (Script.headingRecords (entry + 1) rest ++ made) := by
            simpa using bodyRows
          obtain ⟨finalRows, finalConstants⟩ :=
            inductionHypothesis next nextAligned nextRows restRun
          rw [finalRows, finalConstants, constantsEq, labelEq,
            Node.subtrees]
          refine ⟨?_, rfl⟩
          simp [Script.procRecords, Script.triggerRecords]
      | trigger event filter body =>
          obtain ⟨bodyRows, constantsEq, labelEq⟩ :=
            AssembleM.assembleTrigger_records numbered nodeRun
          obtain ⟨piece, next, _⟩ := progress.trigger_step nodeRun
          rw [rows, List.append_assoc, List.append_assoc] at bodyRows
          obtain ⟨finalRows, finalConstants⟩ :=
            inductionHypothesis next aligned bodyRows restRun
          rw [finalRows, finalConstants, constantsEq, labelEq,
            Node.subtrees]
          refine ⟨?_, rfl⟩
          simp [Script.procRecords, Script.triggerRecords]
      | block | declare | assign | branch | call | literal | compare
      | var =>
          exact absurd nodeRun throw_ne_ok

end Progress

theorem AssembleM.assembleScript_records {catalog : Catalog}
    {nodes : List Node} {assembly : Assembly}
    (run : assembleScript catalog nodes {} = .ok () assembly) :
    assembly.records = Script.records nodes ∧
      assembly.tables.constants.entries = Script.constants nodes := by
  obtain ⟨_, middle, hoisting, assembling⟩ := bind_eq_ok.mp run
  obtain ⟨waiting, progress⟩ : ∃ waiting,
      Progress catalog nodes middle [] waiting [] :=
    hoistAll_progress hoisting
  obtain ⟨rows, constantsEq, labelEq⟩ := hoistAll_records hoisting
  have startRows : middle.records =
      [] ++ (Script.headingRecords 0 nodes ++ []) := by
    simpa [Assembly.records] using rows
  obtain ⟨finalRows, finalConstants⟩ :=
    progress.run_records rfl startRows assembling
  have next : middle.tables.nextLabel =
      (Declaration.procs nodes).length := by
    rw [labelEq, Nat.zero_add]
  rw [next] at finalRows
  refine ⟨finalRows, ?_⟩
  rw [finalConstants, constantsEq]
  rfl

/-! ## Programs -/

/-- Linking keeps the labels that a method marks. -/
theorem Symbol.filterMap_place_resolve (addressOf : Nat → Nat) (base : Nat)
    (code : List Symbol) :
    (Instruction.place base (code.map (resolve addressOf))).1.filterMap
        Instruction.label? = labels code := by
  have placed : (Instruction.place base
      (code.map (resolve addressOf))).1.map Instruction.label? =
        code.map label? := by
    rw [Instruction.place_map_labels, List.map_map]
    apply List.map_congr_left
    intro symbol _
    exact symbol.resolve_label? addressOf
  have reduced := congrArg (List.filterMap id) placed
  rw [List.filterMap_map, List.filterMap_map] at reduced
  exact reduced

theorem Assembly.Holds.link_records {catalog : Catalog}
    {assembly : Assembly} {pieces : List Piece}
    (holds : assembly.Holds catalog pieces) (triggers : List TriggerEntry) :
    (Program.link assembly.methods triggers
      assembly.tables).1.methods.map Method.record = assembly.records := by
  have lengthEq : (Program.link assembly.methods triggers
      assembly.tables).1.methods.length = pieces.length :=
    holds.link_length
  apply List.ext_getElem?
  intro index
  rw [Assembly.records, List.getElem?_map, List.getElem?_map]
  by_cases bound : index < pieces.length
  · have pieceAt := List.getElem?_eq_getElem bound
    have methodAt := List.getElem?_eq_getElem (lengthEq ▸ bound)
    rw [methodAt, holds.draftAt pieceAt, Option.map_some, Option.map_some]
    congr 1
    have frame := holds.link_frame pieceAt methodAt
    have localsEq := Method.field_eq_of_frame frame Method.locals
      fun _ _ => rfl
    have valid := holds.valid _ (List.mem_of_getElem? pieceAt)
    simp only [Method.record, Method.signature, localsEq,
      holds.link_code pieceAt methodAt, valid.drafted,
      Symbol.filterMap_draft, Symbol.filterMap_place_resolve]
  · have noMethod : assembly.methods.length ≤ index := by
      rw [holds.length_methods]
      omega
    rw [List.getElem?_eq_none (by omega), List.getElem?_eq_none noMethod]

/-- The variables, the labels and the constants of an assembled program are
those of its script. -/
theorem Program.assemble_records {catalog : Catalog} {nodes : List Node}
    {program : Program}
    (assembled : assemble catalog nodes = .ok program) :
    program.methods.map Method.record = Script.records nodes ∧
      program.constants = Script.constants nodes := by
  obtain ⟨assembly, run, rfl, _⟩ := assemble_eq_ok assembled
  obtain ⟨procs, triggers, holds, _⟩ := AssembleM.assembleScript_spec run
  obtain ⟨rows, constantsEq⟩ := AssembleM.assembleScript_records run
  rw [holds.link_records, rows]
  exact ⟨rfl, constantsEq⟩

end TriggerScript
