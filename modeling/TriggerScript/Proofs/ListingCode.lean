import TriggerScript.Proofs.ListingLines
import TriggerScript.Proofs.ScriptPrograms
import TriggerScript.Proofs.TriggerIsolation
import TriggerScript.Proofs.UnreachableErrors

/-!
# Listings determine the code

Two programs with the same listing have the same constants, the same trigger
table and the same code; only the names and types of variables and the lists
of parameters may differ.

* `Program.Listable` is what listings rely on.  Names have no blanks and no
  line breaks in them, and code lies where its place says.
* Compiled programs are listable, because names come from the words of source
  text.
-/

namespace TriggerScript

open Text

/-! ## Lines of a text -/

/-- Lines without line breaks are known from the text that they make up. -/
theorem Text.join_lines_inj {first second : List String}
    (oneLine : ∀ line ∈ first, OneLine line)
    (otherOneLine : ∀ line ∈ second, OneLine line)
    (same : String.join (first.map (· ++ "\n")) =
      String.join (second.map (· ++ "\n"))) :
    first = second := by
  have shown := congrArg String.toList same
  simp only [String.toList_join, List.flatMap_map, String.toList_append,
    String.reduceToList] at shown
  clear same
  induction first generalizing second with
  | nil =>
      cases second with
      | nil =>
          rfl
      | cons line second =>
          simp at shown
  | cons line first inductionHypothesis =>
      cases second with
      | nil =>
          simp at shown
      | cons other second =>
          obtain ⟨lineOne, othersOne⟩ := List.forall_mem_cons.mp oneLine
          obtain ⟨otherOne, restOne⟩ := List.forall_mem_cons.mp otherOneLine
          simp only [List.flatMap_cons, List.append_assoc, List.cons_append,
            List.nil_append] at shown
          obtain ⟨lines, behind⟩ := cut_at_inj shown lineOne otherOne
          rw [String.toList_injective lines,
            inductionHypothesis othersOne restOne behind]

namespace Program

/-! ## Listable programs -/

/-- What a listing relies on to be read back. -/
structure Listable (program : Program) : Prop where
  methods : ∀ method ∈ program.methods, method.Listable
  increasing : (program.methods.map Method.address).Pairwise (· < ·)
  words : ∀ row ∈ program.triggers, '(' ∉ row.event.toList
  events : ∀ row ∈ program.triggers, OneLine row.event
  /-- A trigger goes to a method, and its label is the second one there. -/
  entered : ∀ row ∈ program.triggers, ∃ method ∈ program.methods,
    method.address = row.address ∧
      (method.code.filterMap Instruction.label?)[1]? = some row.entry

variable {program twin : Program}

theorem oneLine_listingLines (listable : program.Listable) :
    ∀ line ∈ program.listingLines, OneLine line := by
  intro line member
  simp only [listingLines, List.mem_append, List.mem_cons,
    List.not_mem_nil, or_false, List.mem_mapIdx, List.mem_map,
    List.mem_flatMap] at member
  rcases member with ((((((isTitle | isEmpty | isCount) |
    ⟨index, bound, isConstant⟩) | isEmpty | isCount) |
    ⟨row, isRow, isTrigger⟩) | isEmpty) |
    ⟨method, isMethod, inMethod⟩) | isLength
  · rw [isTitle]
    decide
  · rw [isEmpty]
    decide
  · rw [isCount]
    simp only [oneLine_append, oneLine_toString, and_true]
    decide
  · rw [← isConstant]
    exact Constant.oneLine_listingLine _ index
  · rw [isEmpty]
    decide
  · rw [isCount]
    simp only [oneLine_append, oneLine_toString, and_true]
    decide
  · rw [← isTrigger]
    exact TriggerEntry.oneLine_listingLine (listable.events row isRow)
  · rw [isEmpty]
    decide
  · exact Method.oneLine_listingLines (listable.methods method isMethod) line
      inMethod
  · rw [isLength]
    simp only [oneLine_append, oneLine_toString, true_and]
    decide

/-- Methods with the same lines have the same code. -/
theorem methods_sameCode {first second : List Method}
    {constants otherConstants : List Constant}
    {targets otherTargets : Std.HashSet Nat} {last other : String}
    (listable : ∀ method ∈ first, method.Listable)
    (otherListable : ∀ method ∈ second, method.Listable)
    (same : first.flatMap (Method.listingLines constants targets) ++ [last] =
      second.flatMap (Method.listingLines otherConstants otherTargets) ++
        [other]) :
    List.Forall₂ Method.SameCode first second := by
  induction first generalizing second with
  | nil =>
      cases second with
      | nil =>
          exact .nil
      | cons method second =>
          have lengths := congrArg List.length same
          simp [Method.listingLines] at lengths
  | cons method first inductionHypothesis =>
      cases second with
      | nil =>
          have lengths := congrArg List.length same
          simp [Method.listingLines] at lengths
      | cons twin second =>
          obtain ⟨here, behind⟩ := List.forall_mem_cons.mp listable
          obtain ⟨twinHere, twinBehind⟩ :=
            List.forall_mem_cons.mp otherListable
          rw [List.flatMap_cons, List.flatMap_cons, List.append_assoc,
            List.append_assoc] at same
          obtain ⟨sameCode, rest⟩ :=
            Method.listingLines_append_inj here twinHere same
          exact .cons sameCode (inductionHypothesis behind twinBehind rest)

theorem constants_eq_of_lines {first second : List Constant}
    (same : first.mapIdx (fun index constant => constant.listingLine index) =
      second.mapIdx fun index constant => constant.listingLine index) :
    first = second := by
  apply List.ext_getElem?
  intro place
  have lines := congrArg (fun lines => lines[place]?) same
  simp only [List.getElem?_mapIdx] at lines
  exact Option.map_injective (fun _ _ => Constant.listingLine_inj) lines

/-- Rows with the same line are equal if they go to methods with the same
code. -/
theorem row_eq_of_line (listable : program.Listable)
    (twinListable : twin.Listable)
    (sameCode : List.Forall₂ Method.SameCode program.methods twin.methods)
    {row other : TriggerEntry} (member : row ∈ program.triggers)
    (otherMember : other ∈ twin.triggers)
    (same : row.listingLine = other.listingLine) : row = other := by
  obtain ⟨events, ids, filters, addresses⟩ := TriggerEntry.listingLine_inj
    (listable.words row member) (twinListable.words other otherMember) same
  obtain ⟨method, inMethods, atRow, entry⟩ := listable.entered row member
  obtain ⟨goal, inTwin, atOther, otherEntry⟩ :=
    twinListable.entered other otherMember
  obtain ⟨found, foundMember, corresponds⟩ :=
    exists_of_forall₂ sameCode inMethods
  have distinct : (twin.methods.map Method.address).Nodup :=
    twinListable.increasing.imp Nat.ne_of_lt
  have sameGoal : found = goal := by
    apply List.inj_on_of_nodup_map distinct foundMember inTwin
    rw [← corresponds.address, atRow, addresses, atOther]
  have codes : method.code = goal.code := by
    rw [Method.code, corresponds.instructions, sameGoal, Method.code]
  rw [← codes, entry, Option.some.injEq] at otherEntry
  cases row
  cases other
  cases events
  cases ids
  cases filters
  cases addresses
  cases otherEntry
  rfl

theorem count_inj {title : String} {count other : Nat}
    (same : title ++ toString count ++ ")" = title ++ toString other ++ ")") :
    count = other := by
  have shown := congrArg String.toList same
  simp only [String.toList_append, List.append_assoc] at shown
  exact (numeral_inj (List.append_cancel_left shown) (numeral_toString _)
    (numeral_toString _) rfl rfl).1

/-- A listable program is known from its listing, up to the names and types of
variables and the lists of parameters. -/
theorem listing_inj (listable : program.Listable)
    (twinListable : twin.Listable)
    (same : program.listing = twin.listing) :
    program.constants = twin.constants ∧
      program.triggers = twin.triggers ∧
      List.Forall₂ Method.SameCode program.methods twin.methods := by
  have lines := join_lines_inj (oneLine_listingLines listable)
    (oneLine_listingLines twinListable) same
  simp only [listingLines, List.append_assoc, List.cons_append,
    List.nil_append, List.cons.injEq, true_and] at lines
  -- The counts in front of both tables say where the tables end.
  obtain ⟨constantCounts, behindConstantCount⟩ := lines
  obtain ⟨constantLines, behindConstants⟩ :=
    List.append_inj behindConstantCount (by
      rw [List.length_mapIdx, List.length_mapIdx, count_inj constantCounts])
  simp only [List.cons.injEq, true_and] at behindConstants
  obtain ⟨triggerCounts, behindTriggerCount⟩ := behindConstants
  obtain ⟨triggerLines, behindTriggers⟩ :=
    List.append_inj behindTriggerCount (by
      rw [List.length_map, List.length_map, count_inj triggerCounts])
  have sameCode := methods_sameCode listable.methods twinListable.methods
    (List.cons.inj behindTriggers).2
  refine ⟨constants_eq_of_lines constantLines, ?_, sameCode⟩
  rw [← List.forall₂_eq_eq_eq]
  apply forall₂_of_getElem? (count_inj triggerCounts)
  intro place row other found otherFound
  apply row_eq_of_line listable twinListable sameCode
    (List.mem_of_getElem? found) (List.mem_of_getElem? otherFound)
  have line := congrArg (fun lines => lines[place]?) triggerLines
  simp only [List.getElem?_map, found, otherFound, Option.map_some,
    Option.some.injEq] at line
  exact line

end Program

/-! ## Names in scripts -/

namespace Token

theorem notMem_of_isName {text : String} (named : isName text = true)
    {c : Char} (refused : isWordPart c = false) : c ∉ text.toList := by
  obtain ⟨first, rest, split, starts, parts, _⟩ := isName_iff.mp named
  rw [split]
  apply notMem_of_refused _ refused
  rw [List.forall_mem_cons, isWordPart, starts, Bool.true_or]
  exact ⟨rfl, parts⟩

theorem notMem_of_isNumeral {text : String} (numeral : isNumeral text = true)
    {c : Char} (refused : c.isDigit = false) (unsigned : c ≠ '-') :
    c ∉ text.toList := by
  obtain ⟨digits, _, areDigits, plain | signed⟩ := isNumeral_iff.mp numeral
  · rw [plain]
    exact notMem_of_refused areDigits refused
  · rw [signed, List.mem_cons, not_or]
    exact ⟨unsigned, notMem_of_refused areDigits refused⟩

end Token

theorem Node.IsDeclaration.params {name : String} {params : List Param}
    {body : Node} (declared : (Node.proc name params body).IsDeclaration) :
    ∀ param ∈ params, param.tree.IsStatement := by
  cases body with
  | block statements =>
      exact declared.2.1
  | trigger | proc | declare | assign | branch | call | literal | compare
  | var =>
      exact declared.elim

theorem Node.isName_of_declared {tree : Node} {known : String × ValueType}
    (phrase : tree.IsStatement ∨ tree.IsExpression)
    (declared : tree.declared? = some known) :
    Token.isName known.1 = true := by
  cases tree with
  | declare type name value =>
      obtain ⟨_, _, rfl⟩ := Option.map_eq_some_iff.mp declared
      rcases phrase with isStatement | isExpression
      · cases value with
        | none =>
            exact isStatement.2
        | some value =>
            exact isStatement.2.1
      · exact isExpression.elim
  | trigger | proc | block | assign | branch | call | literal | compare
  | var =>
      cases declared

namespace Declaration

variable {nodes : List Node} {declaration : Declaration}

/-- Names of methods are made of words, numerals and the mark of triggers. -/
theorem notMem_name (printable : Node.Printable nodes)
    (member : declaration ∈ all nodes) {c : Char}
    (refused : Token.isWordPart c = false) (unsigned : c ≠ '-')
    (unmarked : c ≠ '@') : c ∉ declaration.name.toList := by
  rcases List.mem_append.mp member with isProc | isTrigger
  · exact Token.notMem_of_isName
      (printable _ (node_of_mem_procs isProc)).1.proc.1 refused
  · obtain ⟨event, filter, body, number, found, rfl⟩ :=
      eq_of_mem_triggers isTrigger
    obtain ⟨named, numeral, _⟩ := (printable _ found).1
    have noDigit : c.isDigit = false := (Bool.or_eq_false_iff.mp refused).2
    have notInEvent := Token.notMem_of_isName named refused
    have notInFilter := Token.notMem_of_isNumeral numeral noDigit unsigned
    have notInNumber :=
      notMem_of_refused (numeral_toString number).digits noDigit
    simp only [String.toList_append, String.reduceToList, List.mem_append,
      List.mem_singleton, unmarked, notInEvent, notInFilter, notInNumber,
      or_self, not_false_eq_true]

/-- Variables are called by words. -/
theorem isName_of_signature (printable : Node.Printable nodes)
    (member : declaration ∈ all nodes) :
    ∀ known ∈ declaration.signature, Token.isName known.1 = true := by
  intro known declared
  rcases List.mem_append.mp declared with isParam | inBody
  · obtain ⟨tree, isTree, names⟩ := List.mem_filterMap.mp isParam
    obtain ⟨param, inParams, rfl⟩ := List.mem_map.mp isTree
    rcases List.mem_append.mp member with isProc | isTrigger
    · have words := (printable _ (node_of_mem_procs isProc)).1.params
      exact Node.isName_of_declared (.inl (words param inParams)) names
    · obtain ⟨event, filter, body, number, _, rfl⟩ :=
        eq_of_mem_triggers isTrigger
      cases inParams
  · obtain ⟨tree, isTree, names⟩ := List.mem_filterMap.mp inBody
    exact Node.isName_of_declared (declaration.body.phrase_of_statement
      (isStatement_body printable member) tree isTree) names

theorem isName_of_trigger? (printable : Node.Printable nodes)
    {ordinal : Nat} (member : declaration ∈ triggers ordinal nodes)
    {event filter : String}
    (declared : declaration.trigger? = some (event, filter)) :
    Token.isName event = true := by
  obtain ⟨event, filter, body, number, found, rfl⟩ :=
    eq_of_mem_triggers member
  cases declared
  exact (printable _ found).1.1

end Declaration

/-! ## Compiled programs -/

/-- Operations that work on nothing get no operand, and only markers get a
label. -/
theorem Bindings.plain_instruction (bindings : Bindings)
    (step : Nat × NamedInstruction) :
    (bindings.instruction step).Plain := by
  obtain ⟨address, named⟩ := step
  cases named with
  | push | get | set | equal | jump | jumpIfZero | ret | marker =>
      constructor
      all_goals simp [instruction, Instruction.marker, Opcode.takesOperand]
  | call name types =>
      rcases bindings.callee_opcode name types with native | method
      · constructor
        all_goals simp [instruction, native, Opcode.takesOperand]
      · constructor
        all_goals simp [instruction, method, Opcode.takesOperand]

theorem Instruction.plain_of_nameless {instruction : Instruction}
    (plain : instruction.nameless.Plain) : instruction.Plain :=
  ⟨plain.l, plain.s, plain.idle, instruction.nameless_isSome ▸ plain.marks⟩

theorem Declaration.Yields.plain {catalog : Catalog} {nodes : List Node}
    {place : Nat} {declaration : Declaration} {method : Method}
    (yields : declaration.Yields catalog nodes place method) :
    ∀ instruction ∈ method.code, instruction.Plain := by
  intro instruction member
  have sketched : instruction.nameless ∈
      method.code.map Instruction.nameless := List.mem_map_of_mem member
  rw [yields.code, List.mem_map] at sketched
  obtain ⟨step, _, same⟩ := sketched
  apply Instruction.plain_of_nameless
  rw [← same]
  exact Bindings.plain_instruction _ step

namespace Program

variable {catalog : Catalog} {nodes : List Node} {program : Program}

theorem assemble_listable_method (printable : Node.Printable nodes)
    (assembled : assemble catalog nodes = .ok program) :
    ∀ method ∈ program.methods, method.Listable := by
  intro method member
  obtain ⟨place, found⟩ := List.mem_iff_getElem?.mp member
  obtain ⟨declaration, declared, yields⟩ := assemble_yields assembled found
  have isDeclared := List.mem_of_getElem? declared
  obtain ⟨procs, triggers, addressOf, linked⟩ := assemble_linked assembled
  obtain ⟨piece, base, becomes⟩ := linked.becomes_of_mem member
  refine ⟨?_, ?_, ?_, yields.plain, ?_, ?_⟩
  · rw [yields.name]
    exact Declaration.notMem_name printable isDeclared rfl (by decide)
      (by decide)
  · rw [yields.name]
    exact Declaration.notMem_name printable isDeclared rfl (by decide)
      (by decide)
  · intro known inLocals
    rw [yields.locals, Variable.number, List.mem_mapIdx] at inLocals
    obtain ⟨index, bound, rfl⟩ := inLocals
    have named := Declaration.isName_of_signature printable isDeclared _
      (List.getElem_mem bound)
    exact Token.notMem_of_isName named rfl
  · rw [becomes.address_eq, becomes.code]
    exact Instruction.placed_place base _
  · rw [yields.labels]
    exact yields.entry

theorem assemble_listable (printable : Node.Printable nodes)
    (assembled : assemble catalog nodes = .ok program) :
    program.Listable := by
  obtain ⟨procs, triggers, addressOf, linked⟩ := assemble_linked assembled
  have eventNamed : ∀ row ∈ program.triggers,
      Token.isName row.event = true := by
    intro row member
    obtain ⟨number, rowAt⟩ := List.mem_iff_getElem?.mp member
    obtain ⟨declaration, declared, enters⟩ := assemble_enters assembled rowAt
    obtain ⟨filter, _, isTrigger, _⟩ := enters.source
    exact Declaration.isName_of_trigger? printable
      (List.mem_of_getElem? declared) isTrigger
  refine ⟨assemble_listable_method printable assembled,
    linked.addresses_increasing, ?_, ?_, ?_⟩
  · intro row member
    exact Token.notMem_of_isName (eventNamed row member) rfl
  · intro row member
    exact Token.notMem_of_isName (eventNamed row member) rfl
  · intro row member
    obtain ⟨number, rowAt⟩ := List.mem_iff_getElem?.mp member
    obtain ⟨_, _, enters⟩ := assemble_enters assembled rowAt
    obtain ⟨_, method, _, methodAt, _⟩ := linked.row_becomes rowAt
    obtain ⟨_, _, yields⟩ := assemble_yields assembled methodAt
    refine ⟨method, List.mem_of_getElem? methodAt, ?_, ?_⟩
    · rw [yields.address, enters.address]
    · rw [yields.labels, enters.entry]

theorem compile_listable {source : String}
    (compiled : compile catalog source = .ok program) :
    program.Listable := by
  obtain ⟨tokens, nodes, scanned, parsed, assembled⟩ :=
    compile_eq_ok compiled
  exact assemble_listable (Node.printable_of_scan scanned parsed) assembled

/-- Compiled programs with the same listing have the same constants, the same
trigger table and, method by method, the same code. -/
theorem listing_determines_code {other : Catalog} {source second : String}
    {twin : Program} (compiled : compile catalog source = .ok program)
    (again : compile other second = .ok twin)
    (same : program.listing = twin.listing) :
    program.constants = twin.constants ∧
      program.triggers = twin.triggers ∧
      List.Forall₂ Method.SameCode program.methods twin.methods :=
  listing_inj (compile_listable compiled) (compile_listable again) same

end Program

def greetScript (params : List Param) (statements : List Node) : List Node :=
  [.proc "greet" params (.block statements),
    .trigger "knock" "2" (.block [.call "open" [.literal (.int 1)]])]

def greetProgram (known : Variable) (params : List Nat) : Program where
  methods :=
    [{ name := "greet"
       index := 0
       instructions :=
        #[⟨.label, 0, 0, 0, 0, some 0⟩, ⟨.ret, 0, 0, 0, 0, none⟩]
       locals := [known]
       params := params
       entry := 0
       address := 0 },
     { name := "@knock@2@0"
       index := 1
       instructions :=
        #[⟨.label, 0, 0, 0, 1, some 1⟩, ⟨.label, 0, 0, 0, 1, some 2⟩,
          ⟨.pushConst, 0, 0, 0, 1, none⟩, ⟨.callNative, 7, 0, 0, 2, none⟩,
          ⟨.ret, 0, 0, 0, 3, none⟩]
       entry := 1
       address := 1 }]
  constants := [.int 1]
  triggers := [⟨"knock", 3, 2, 2, 1⟩]

/-- Nothing shows what the variable is called. -/
theorem listing_greetProgram (known other : Variable)
    (params others : List Nat) :
    (greetProgram known params).listing =
      (greetProgram other others).listing := by
  have targets : ∀ (known : Variable) (params : List Nat),
      (greetProgram known params).branchTargets = [] := by
    intro known params
    rfl
  have length : ∀ (known : Variable) (params : List Nat),
      (greetProgram known params).length = 4 := by
    intro known params
    rfl
  simp only [Program.listing, Program.listingLines, targets, length]
  simp only [greetProgram, List.flatMap_cons, Method.listingLines,
    List.map_cons, List.map_nil, Instruction.listingLine, Instruction.text,
    Method.size, List.length_singleton]

theorem compile_greetScript {params : List Param} {statements : List Node}
    {program : Program}
    (named : ∀ param ∈ params, param.tree.IsStatement)
    (areStatements : Node.AreStatements statements)
    (nearest : Node.AllNearestElse statements)
    (assembled :
      (Program.assemble doorCatalog (greetScript params statements)).toOption =
        some program) :
    Program.compile doorCatalog
        (Node.render (greetScript params statements)) =
      .ok program := by
  apply Program.compile_render _ assembled
  have trigger : (Node.trigger "knock" "2" (.block
      [.call "open" [.literal (.int 1)]])).IsDeclaration :=
    ⟨by decide, by decide, ⟨by decide, trivial, trivial⟩, trivial⟩
  exact List.forall_mem_cons.mpr
    ⟨⟨⟨by decide, named, areStatements⟩, nearest⟩,
      List.forall_mem_singleton.mpr ⟨trigger, trivial, trivial⟩⟩

def guestProgram : Program :=
  greetProgram ⟨"guest", 0, .string⟩ [0]

def countProgram : Program :=
  greetProgram ⟨"count", 0, .int⟩ []

theorem compile_guest :
    Program.compile doorCatalog
        (Node.render (greetScript [⟨"guest", "string"⟩] [])) =
      .ok guestProgram :=
  compile_greetScript
    (List.forall_mem_singleton.mpr ⟨by decide, by decide⟩) trivial trivial
    (by decide +kernel)

theorem compile_count :
    Program.compile doorCatalog
        (Node.render (greetScript [] [.declare "int" "count" none])) =
      .ok countProgram :=
  compile_greetScript (by simp) ⟨⟨by decide, by decide⟩, trivial⟩
    ⟨trivial, trivial⟩ (by decide +kernel)

/-- A parameter and a variable of another type in its place. -/
theorem listing_determines_code_greet :
    guestProgram ≠ countProgram ∧
      guestProgram.listing = countProgram.listing ∧
      guestProgram.constants = countProgram.constants ∧
      guestProgram.triggers = countProgram.triggers ∧
      List.Forall₂ Method.SameCode guestProgram.methods
        countProgram.methods := by
  have same : guestProgram.listing = countProgram.listing :=
    listing_greetProgram _ _ _ _
  exact ⟨by decide, same,
    Program.listing_determines_code compile_guest compile_count same⟩

end TriggerScript
