import TriggerScript.Proofs.Acceptance
import TriggerScript.Proofs.Simulation
import TriggerScript.Proofs.SourceRoundTrip
import TriggerScript.Proofs.Stages
import TriggerScript.Proofs.TextPieces

/-!
# Triggers cannot be called

Methods are found by their names.  The name of a procedure is a word of the
source text, and so is every name that is called; the name of a trigger starts
with `@`, which no word does, and ends with the number of the trigger.  So all
names are distinct, and a call always leads to a procedure.
-/

namespace TriggerScript

open Token

/-! ## Called names -/

namespace Node

mutual

theorem isName_of_expression : (node : Node) → node.IsExpression →
    ∀ name ∈ node.calledNames, isName name = true
  | literal _, _ => by
      simp [calledNames]
  | var _, _ => by
      simp [calledNames]
  | call name args, ⟨named, areExpressions⟩ => by
      rw [calledNames]
      exact List.forall_mem_cons.mpr
        ⟨named, isName_of_expressions args areExpressions⟩
  | compare left _ right, ⟨_, isLeft, isRight⟩ => by
      rw [calledNames]
      exact List.forall_mem_append.mpr
        ⟨isName_of_expression left isLeft, isName_of_expression right isRight⟩

theorem isName_of_expressions : (nodes : List Node) → AreExpressions nodes →
    ∀ name ∈ allCalledNames nodes, isName name = true
  | [], _ => by
      simp [allCalledNames]
  | node :: nodes, ⟨isExpression, areExpressions⟩ => by
      rw [allCalledNames]
      exact List.forall_mem_append.mpr
        ⟨isName_of_expression node isExpression,
          isName_of_expressions nodes areExpressions⟩

end

mutual

theorem isName_of_statement : (node : Node) → node.IsStatement →
    ∀ name ∈ node.calledNames, isName name = true
  | block statements, areStatements => by
      rw [calledNames]
      exact isName_of_statements statements areStatements
  | declare _ _ none, _ => by
      simp [calledNames, optionalCalledNames]
  | declare _ _ (some value), ⟨_, _, isExpression⟩ => by
      rw [calledNames, optionalCalledNames]
      exact isName_of_expression value isExpression
  | assign _ value, ⟨_, isExpression⟩ => by
      rw [calledNames]
      exact isName_of_expression value isExpression
  | branch condition thenBranch none, ⟨isExpression, isStatement⟩ => by
      rw [calledNames, optionalCalledNames, List.append_nil]
      exact List.forall_mem_append.mpr
        ⟨isName_of_expression condition isExpression,
          isName_of_statement thenBranch isStatement⟩
  | branch condition thenBranch (some elseBranch),
      ⟨isExpression, isStatement, isOther⟩ => by
      rw [calledNames, optionalCalledNames]
      exact List.forall_mem_append.mpr
        ⟨isName_of_expression condition isExpression,
          List.forall_mem_append.mpr
            ⟨isName_of_statement thenBranch isStatement,
              isName_of_statement elseBranch isOther⟩⟩
  | call name args, ⟨named, areExpressions⟩ => by
      rw [calledNames]
      exact List.forall_mem_cons.mpr
        ⟨named, isName_of_expressions args areExpressions⟩

theorem isName_of_statements : (nodes : List Node) → AreStatements nodes →
    ∀ name ∈ allCalledNames nodes, isName name = true
  | [], _ => by
      simp [allCalledNames]
  | node :: nodes, ⟨isStatement, areStatements⟩ => by
      rw [allCalledNames]
      exact List.forall_mem_append.mpr
        ⟨isName_of_statement node isStatement,
          isName_of_statements nodes areStatements⟩

end

theorem allCalledNames_singleton (node : Node) :
    allCalledNames [node] = node.calledNames := by
  simp [allCalledNames]

theorem allCalledNames_toList (node : Option Node) :
    allCalledNames node.toList = optionalCalledNames node := by
  cases node with
  | none =>
      simp [allCalledNames, optionalCalledNames]
  | some node =>
      simp [allCalledNames, optionalCalledNames]

end Node

/-- A call in the code of trees goes to the first method of a name that is
called in them. -/
theorem Emits.operand_of_call {bindings : Bindings} {nodes : List Node}
    {first last : Nat} {code : List Symbol}
    (emitted : Emits bindings nodes first code last) {operand : Nat}
    (member : Symbol.op .call operand ∈ code) :
    ∃ name ∈ Node.allCalledNames nodes,
      name ∈ bindings.methods ∧ operand = bindings.methods.idxOf name := by
  -- Only the code of a call has a call that none of its parts has.
  induction emitted with
  | nil | declare | literal | var =>
      simp at member
  | block _ statements =>
      rw [Node.allCalledNames_singleton, Node.calledNames]
      exact statements member
  | define _ _ _ value =>
      simp only [List.mem_append, List.mem_singleton, Symbol.op.injEq,
        reduceCtorEq, false_and, or_false] at member
      rw [Node.allCalledNames_singleton] at value ⊢
      rw [Node.calledNames, Node.optionalCalledNames]
      exact value member
  | assign _ _ value =>
      simp only [List.mem_append, List.mem_singleton, Symbol.op.injEq,
        reduceCtorEq, false_and, or_false] at member
      rw [Node.allCalledNames_singleton] at value ⊢
      rw [Node.calledNames]
      exact value member
  | @call name args types _ _ _ _ callable _ arguments =>
      rw [Node.allCalledNames_singleton, Node.calledNames]
      rcases List.mem_append.mp member with inArgs | isCall
      · obtain ⟨name, called, found⟩ := arguments inArgs
        exact ⟨name, List.mem_cons_of_mem _ called, found⟩
      · rcases bindings.callee_cases callable with
          ⟨native, _, equality⟩ | ⟨_, isMethod, equality⟩
        · rw [equality] at isCall
          simp at isCall
        · rw [equality] at isCall
          refine ⟨name, List.mem_cons_self, isMethod, ?_⟩
          simpa using isCall
  | cons _ _ head tail =>
      rw [Node.allCalledNames_singleton] at head
      rw [Node.allCalledNames]
      rcases List.mem_append.mp member with inHead | inTail
      · obtain ⟨name, called, found⟩ := head inHead
        exact ⟨name, List.mem_append_left _ called, found⟩
      · obtain ⟨name, called, found⟩ := tail inTail
        exact ⟨name, List.mem_append_right _ called, found⟩
  | equal _ _ left right =>
      rw [Node.allCalledNames_singleton] at left right ⊢
      rw [Node.calledNames]
      simp only [List.mem_append, List.mem_singleton, Symbol.op.injEq,
        reduceCtorEq, false_and, or_false] at member
      rcases member with inLeft | inRight
      · obtain ⟨name, called, found⟩ := left inLeft
        exact ⟨name, List.mem_append_left _ called, found⟩
      · obtain ⟨name, called, found⟩ := right inRight
        exact ⟨name, List.mem_append_right _ called, found⟩
  | branch _ _ _ test positive negative =>
      rw [Node.allCalledNames_singleton] at test positive ⊢
      rw [Node.allCalledNames_toList] at negative
      rw [Node.calledNames]
      simp only [Symbol.conditional, List.mem_append, List.mem_cons,
        List.not_mem_nil, reduceCtorEq, or_false] at member
      rcases member with (inTest | inPositive) | inNegative
      · obtain ⟨name, called, found⟩ := test inTest
        exact ⟨name, List.mem_append_left _ called, found⟩
      · obtain ⟨name, called, found⟩ := positive inPositive
        exact ⟨name, by simp [called], found⟩
      · obtain ⟨name, called, found⟩ := negative inNegative
        exact ⟨name, by simp [called], found⟩

namespace Piece.Becomes

variable {catalog : Catalog} {program : Program} {addressOf : Nat → Nat}
  {base : Nat} {piece : Piece} {method : Method}

/-- Every call in a method goes to the first method of a name that the
declaration calls. -/
theorem operand_of_call
    (becomes : piece.Becomes catalog program addressOf base method)
    {instruction : Instruction} (member : instruction ∈ method.code)
    (isCall : instruction.opcode = .call) :
    ∃ name ∈ piece.declaration.body.calledNames,
      name ∈ program.methods.map Method.name ∧
        instruction.i = (program.methods.map Method.name).idxOf name := by
  obtain ⟨body, _, _, emitted, codeEq, _⟩ := becomes.method_code
  rw [codeEq, List.mem_append, List.mem_append] at member
  rcases member with (isMarker | inBody) | isReturn
  · obtain ⟨label, _, rfl⟩ := List.mem_map.mp isMarker
    cases isCall
  · obtain ⟨original, inCode, equality⟩ := Instruction.mem_place inBody
    obtain ⟨symbol, inSymbols, rfl⟩ := List.mem_map.mp inCode
    rw [equality] at isCall ⊢
    cases symbol with
    | op opcode operand =>
        have opcodeEq : opcode = .call := isCall
        subst opcodeEq
        obtain ⟨name, called, found⟩ := emitted.operand_of_call inSymbols
        rw [Node.allCalledNames_singleton] at called
        exact ⟨name, called, found⟩
    | branch opcode target =>
        have opcodeEq : opcode = .call := isCall
        subst opcodeEq
        cases emitted.fits _ inSymbols
    | marker label =>
        cases isCall
  · rw [List.mem_singleton.mp isReturn] at isCall
    cases isCall

end Piece.Becomes

/-! ## Names of methods -/

theorem Node.IsDeclaration.proc {name : String} {params : List Param}
    {body : Node} (declared : (Node.proc name params body).IsDeclaration) :
    isName name = true ∧ body.IsStatement := by
  cases body with
  | block statements =>
      exact ⟨declared.1, declared.2.2⟩
  | trigger | proc | declare | assign | branch | call | literal | compare
  | var =>
      exact declared.elim

namespace Declaration

variable {nodes : List Node} {declaration : Declaration}

theorem isStatement_body (printable : Node.Printable nodes)
    (member : declaration ∈ all nodes) : declaration.body.IsStatement := by
  rcases List.mem_append.mp member with isProc | isTrigger
  · exact (printable _ (node_of_mem_procs isProc)).1.proc.2
  · obtain ⟨event, filter, found⟩ := node_of_mem_triggers isTrigger
    exact (printable _ found).1.2.2

/-- Written scripts call words only. -/
theorem isName_of_called (printable : Node.Printable nodes)
    (member : declaration ∈ all nodes) {name : String}
    (called : name ∈ declaration.body.calledNames) :
    isName name = true :=
  Node.isName_of_statement _ (isStatement_body printable member) name called

/-- Words are no names of triggers. -/
theorem notMem_triggers {name : String} (named : isName name = true)
    {ordinal : Nat} :
    name ∉ (triggers ordinal nodes).map Declaration.name := by
  apply Script.notMem_triggers_of_head?
  intro head
  obtain ⟨first, rest, split, starts, _⟩ := isName_iff.mp named
  rw [split, List.head?_cons, Option.some.injEq] at head
  rw [head] at starts
  cases starts

/-- The number at the end of the name of a trigger. -/
def ordinalOf (name : String) : Nat :=
  Text.digitsValue (name.toList.rtakeWhile fun c => c != '@')

theorem ordinalOf_append (front : String) (ordinal : Nat) :
    ordinalOf (front ++ "@" ++ toString ordinal) = ordinal := by
  have digits : (toString ordinal).toList = Nat.toDigits 10 ordinal :=
    Nat.toList_repr
  have noMark : ∀ c ∈ (Nat.toDigits 10 ordinal).reverse,
      (c != '@') = true := by
    intro c member
    have isDigit := Text.areDigits_toDigits ordinal c
      (List.mem_reverse.mp member)
    rw [bne_iff_ne]
    rintro rfl
    cases isDigit
  rw [ordinalOf, String.toList_append, String.toList_append, digits,
    List.rtakeWhile, List.reverse_append, List.reverse_append,
    List.takeWhile_append_of_pos noMark]
  have mark : ("@".toList.reverse ++ front.toList.reverse).takeWhile
      (fun c => c != '@') = [] := rfl
  rw [mark, List.append_nil, List.reverse_reverse,
    Text.digitsValue_toDigits]

theorem ordinals_triggers (ordinal : Nat) (nodes : List Node) :
    (triggers ordinal nodes).map
        (ordinalOf ∘ Declaration.name) =
      List.range' ordinal (triggers ordinal nodes).length := by
  induction nodes generalizing ordinal with
  | nil =>
      rfl
  | cons node rest inductionHypothesis =>
      cases node with
      | trigger event filter body =>
          rw [triggers, List.map_cons, inductionHypothesis,
            List.length_cons, List.range'_succ, Function.comp_apply,
            ordinalOf_append]
      | proc | block | declare | assign | branch | call | literal
      | compare | var =>
          exact inductionHypothesis ordinal

/-- Names of triggers differ at least in the number at their end. -/
theorem nodup_triggers (ordinal : Nat) (nodes : List Node) :
    ((triggers ordinal nodes).map Declaration.name).Nodup := by
  apply List.Nodup.of_map ordinalOf
  rw [List.map_map, ordinals_triggers]
  exact List.nodup_range'

end Declaration

/-- No two procedures have the same name. -/
theorem AssembleM.nodup_procs {catalog : Catalog} {nodes : List Node}
    {assembly : Assembly}
    (run : assembleScript catalog nodes {} = .ok () assembly) :
    ((Declaration.procs nodes).map Declaration.name).Nodup := by
  obtain ⟨_, middle, hoisting, _⟩ := bind_eq_ok.mp run
  obtain ⟨waiting, holds, distinct, _, declarations, _⟩ :=
    hoistAll_holds (Assembly.Holds.empty catalog) List.nodup_nil hoisting
  rw [List.nil_append] at holds
  rw [holds.methodNames_eq] at distinct
  rw [← declarations, List.map_map]
  have sameNames : waiting.map (Declaration.name ∘ Piece.declaration) =
      waiting.map fun piece => piece.method.name := by
    apply List.map_congr_left
    intro piece member
    exact (holds.valid piece member).name.symm
  rw [sameNames]
  exact distinct

theorem Program.nodup_methodNames {catalog : Catalog} {nodes : List Node}
    {program : Program} (printable : Node.Printable nodes)
    (assembled : assemble catalog nodes = .ok program) :
    (program.methods.map Method.name).Nodup := by
  obtain ⟨procs, triggers, addressOf, linked⟩ := assemble_linked assembled
  obtain ⟨assembly, run, _⟩ := assemble_eq_ok assembled
  rw [linked.methodNames_eq, Declaration.all, List.map_append]
  apply List.Nodup.append (AssembleM.nodup_procs run)
    (Declaration.nodup_triggers 0 nodes)
  intro name isProc isTrigger
  obtain ⟨declaration, member, rfl⟩ := List.mem_map.mp isProc
  have declared := (printable _ (Declaration.node_of_mem_procs member)).1
  exact Declaration.notMem_triggers declared.proc.1 isTrigger

/-! ## Compiled programs -/

/-- A method that was made for a declaration. -/
structure Method.BelongsTo (catalog : Catalog) (program : Program)
    (declaration : Declaration) (method : Method) : Prop where
  name : method.name = declaration.name
  params : method.params = List.range declaration.params.length
  operations : method.operations =
    declaration.body.generate (program.bindings catalog method)
        method.address ++
      [{ opcode := .ret
         address := method.address +
          (declaration.body.generate (program.bindings catalog method)
            method.address).length }]

/-- A row of the trigger table that was made for a trigger: it has the event,
the number of the first listener of that name, and the value of the digits of
the filter. -/
def TriggerEntry.AnswersTo (catalog : Catalog) (declaration : Declaration)
    (row : TriggerEntry) : Prop :=
  ∃ filter listener,
    declaration.trigger? = some (row.event, filter) ∧
      catalog.listener? row.event = some listener ∧
      row.listenerId = listener.id ∧
      filter.toList ≠ [] ∧
      (∀ c ∈ filter.toList, c.isDigit = true) ∧
      row.filter.toNat = Text.digitsValue filter.toList

/-- How the methods and the trigger table of a program come from a script, and
how they are kept apart. -/
structure Program.Isolates (catalog : Catalog) (nodes : List Node)
    (program : Program) : Prop where
  count : program.methods.length =
    (Declaration.procs nodes).length +
      (Declaration.triggers 0 nodes).length
  methods : List.Forall₂ (Method.BelongsTo catalog program)
    (Declaration.procs nodes ++ Declaration.triggers 0 nodes)
    program.methods
  names : (program.methods.map Method.name).Nodup
  rows : List.Forall₂ (TriggerEntry.AnswersTo catalog)
    (Declaration.triggers 0 nodes) program.triggers
  entered : program.triggers.map TriggerEntry.address =
    (program.methods.drop (Declaration.procs nodes).length).map
      Method.address
  addresses : (program.triggers.map TriggerEntry.address).Nodup
  calls : ∀ method ∈ program.methods, ∀ instruction ∈ method.code,
    instruction.opcode = .call →
      instruction.i < (Declaration.procs nodes).length

theorem TriggerEntry.readFilter_eq_ok {filter : String} {value : UInt64}
    (reading : readFilter filter = .ok value) :
    filter.toList ≠ [] ∧ (∀ c ∈ filter.toList, c.isDigit = true) ∧
      value.toNat = Text.digitsValue filter.toList := by
  unfold readFilter at reading
  split at reading
  · rename_i number found
    obtain ⟨nonempty, areDigits, rfl⟩ := Text.readNat?_eq_some_iff.mp found
    split at reading
    · rename_i bound
      cases reading
      exact ⟨nonempty, areDigits, UInt64.toNat_ofNat_of_lt' bound⟩
    · cases reading
  · cases reading

namespace Linked

variable {catalog : Catalog} {nodes : List Node} {program : Program}
  {procs triggers : List Piece} {addressOf : Nat → Nat}

theorem belongs
    (linked : Linked catalog nodes program procs triggers addressOf) :
    List.Forall₂ (Method.BelongsTo catalog program)
      (Declaration.all nodes) program.methods := by
  apply linked.forall₂
  intro piece method base _ becomes
  have operations := becomes.operations_eq
  rw [← becomes.address_eq] at operations
  exact ⟨becomes.name, becomes.params, operations⟩

theorem answers
    (linked : Linked catalog nodes program procs triggers addressOf) :
    List.Forall₂ (TriggerEntry.AnswersTo catalog)
      (Declaration.triggers 0 nodes) program.triggers := by
  rw [← linked.ofTriggers, List.forall₂_map_left_iff]
  apply linked.rows.imp
  intro piece row registered
  obtain ⟨filter, listener, source, listening, idEq, reading⟩ :=
    registered.1.source
  exact ⟨filter, listener, source, listening, idEq,
    TriggerEntry.readFilter_eq_ok reading⟩

/-- Triggers are entered at the methods behind those of the procedures. -/
theorem entered
    (linked : Linked catalog nodes program procs triggers addressOf) :
    program.triggers.map TriggerEntry.address =
      (program.methods.drop (Declaration.procs nodes).length).map
        Method.address := by
  have count := linked.belongs.length_eq
  rw [Declaration.all, List.length_append] at count
  apply List.ext_getElem?
  intro number
  rw [List.getElem?_map, List.getElem?_map, List.getElem?_drop]
  by_cases bound : number < (Declaration.triggers 0 nodes).length
  · obtain ⟨row, method, rowAt, methodAt, _, _, _, addressEq⟩ :=
      linked.enters.address number _ (List.getElem?_eq_getElem bound)
    rw [rowAt, methodAt, Option.map_some, Option.map_some, addressEq]
  · have noRow : program.triggers.length ≤ number := by
      rw [linked.enters.length]
      omega
    rw [List.getElem?_eq_none noRow, List.getElem?_eq_none (by omega),
      Option.map_none, Option.map_none]

theorem nodup_entered
    (linked : Linked catalog nodes program procs triggers addressOf) :
    (program.triggers.map TriggerEntry.address).Nodup := by
  rw [linked.entered]
  have increasing := linked.addresses_increasing
  have behind := (List.drop_sublist (Declaration.procs nodes).length
    program.methods).map Method.address
  exact (increasing.sublist behind).imp Nat.ne_of_lt

theorem declaration_of_mem
    (linked : Linked catalog nodes program procs triggers addressOf)
    {method : Method} (member : method ∈ program.methods) :
    ∃ (piece : Piece) (base : Nat),
      piece.declaration ∈ Declaration.all nodes ∧
        piece.Becomes catalog program addressOf base method := by
  obtain ⟨index, bound, rfl⟩ := List.mem_iff_getElem.mp member
  have pieceBound : index < (procs ++ triggers).length := by
    rw [← linked.length]
    exact bound
  refine ⟨_, _, ?_, linked.becomes index _ _
    (List.getElem?_eq_getElem pieceBound) (List.getElem?_eq_getElem bound)⟩
  rw [Declaration.all, ← linked.ofProcs, ← linked.ofTriggers,
    ← List.map_append]
  exact List.mem_map_of_mem (List.getElem_mem pieceBound)

/-- Written scripts call procedures only. -/
theorem operand_lt
    (linked : Linked catalog nodes program procs triggers addressOf)
    (printable : Node.Printable nodes) {method : Method}
    (inProgram : method ∈ program.methods) {instruction : Instruction}
    (inMethod : instruction ∈ method.code)
    (isCall : instruction.opcode = .call) :
    instruction.i < (Declaration.procs nodes).length := by
  obtain ⟨piece, base, declared, becomes⟩ :=
    linked.declaration_of_mem inProgram
  obtain ⟨name, called, isMethod, operandEq⟩ :=
    becomes.operand_of_call inMethod isCall
  have named := Declaration.isName_of_called printable declared called
  rw [linked.methodNames_eq, Declaration.all, List.map_append]
    at isMethod operandEq
  have isProc : name ∈ (Declaration.procs nodes).map Declaration.name :=
    (List.mem_append.mp isMethod).resolve_right
      (Declaration.notMem_triggers named)
  rw [operandEq, List.idxOf_append_of_mem isProc]
  have bound := List.idxOf_lt_length_of_mem isProc
  rwa [List.length_map] at bound

end Linked

namespace Program

theorem assemble_isolates {catalog : Catalog} {nodes : List Node}
    {program : Program} (printable : Node.Printable nodes)
    (assembled : assemble catalog nodes = .ok program) :
    program.Isolates catalog nodes := by
  obtain ⟨procs, triggers, addressOf, linked⟩ := assemble_linked assembled
  have belongs := linked.belongs
  rw [Declaration.all] at belongs
  have count := belongs.length_eq
  rw [List.length_append] at count
  refine ⟨count.symm, belongs, nodup_methodNames printable assembled,
    linked.answers, linked.entered, linked.nodup_entered, ?_⟩
  intro method inProgram instruction inMethod isCall
  exact linked.operand_lt printable inProgram inMethod isCall

/-- Every compiled program has one method for each procedure and behind them
one for each trigger, all with names of their own; its trigger table leads to
the methods of the triggers, and no call does. -/
theorem compile_isolates {catalog : Catalog} {source : String}
    {program : Program} (compiled : compile catalog source = .ok program) :
    ∃ tokens nodes, Token.scan source = .ok tokens ∧
      Node.parse tokens = .ok nodes ∧ program.Isolates catalog nodes := by
  obtain ⟨tokens, nodes, scanned, parsed, assembled⟩ :=
    compile_eq_ok compiled
  have printable := Node.printable_of_scan scanned parsed
  exact ⟨tokens, nodes, scanned, parsed,
    assemble_isolates printable assembled⟩

end Program

/-- The text of a script is compiled to the program that its trees are
assembled to. -/
theorem Program.compile_render {catalog : Catalog} {nodes : List Node}
    {program : Program} (printable : Node.Printable nodes)
    (assembled : (assemble catalog nodes).toOption = some program) :
    compile catalog (Node.render nodes) = .ok program := by
  obtain ⟨tokens, scanned, parsed⟩ := Node.parse_scan_render printable
  rw [compile_of_parse scanned parsed]
  cases result : assemble catalog nodes with
  | error error =>
      rw [result] at assembled
      cases assembled
  | ok made =>
      rw [result] at assembled
      cases assembled
      rfl

/-- Two triggers with the same event and filter around a procedure. -/
def twinScript : List Node :=
  [.trigger "knock" "2" (.block [.call "greet" []]),
    .proc "greet" [] (.block []),
    .trigger "knock" "2" (.block [.call "greet" []])]

def twinProgram : Program where
  methods :=
    [{ name := "greet"
       index := 0
       instructions :=
        #[⟨.label, 0, 0, 0, 0, some 0⟩, ⟨.ret, 0, 0, 0, 0, none⟩]
       entry := 0
       address := 0 },
     { name := "@knock@2@0"
       index := 1
       instructions :=
        #[⟨.label, 0, 0, 0, 1, some 1⟩, ⟨.label, 0, 0, 0, 1, some 2⟩,
          ⟨.call, 0, 0, 0, 1, none⟩, ⟨.ret, 0, 0, 0, 2, none⟩]
       entry := 1
       address := 1 },
     { name := "@knock@2@1"
       index := 2
       instructions :=
        #[⟨.label, 0, 0, 0, 3, some 3⟩, ⟨.label, 0, 0, 0, 3, some 4⟩,
          ⟨.call, 0, 0, 0, 3, none⟩, ⟨.ret, 0, 0, 0, 4, none⟩]
       entry := 3
       address := 3 }]
  constants := []
  triggers := [⟨"knock", 3, 2, 2, 1⟩, ⟨"knock", 3, 2, 4, 3⟩]

theorem compile_twins :
    Program.compile doorCatalog (Node.render twinScript) =
      .ok twinProgram := by
  have printable : Node.Printable twinScript := by
    simp [twinScript, Node.Printable, Node.IsDeclaration, Node.IsStatement,
      Node.AreStatements, Node.AreExpressions, Node.NearestElse,
      Node.AllNearestElse]
    decide
  exact Program.compile_render printable (by decide +kernel)

theorem compile_isolates_twins :
    Program.compile doorCatalog (Node.render twinScript) =
        .ok twinProgram ∧
      ∃ tokens nodes,
        Token.scan (Node.render twinScript) = .ok tokens ∧
          Node.parse tokens = .ok nodes ∧
          twinProgram.Isolates doorCatalog nodes :=
  ⟨compile_twins, Program.compile_isolates compile_twins⟩

end TriggerScript
