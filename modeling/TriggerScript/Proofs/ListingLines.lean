import TriggerScript.Program.Listing
import TriggerScript.Proofs.ListingText
import TriggerScript.Proofs.Placement

/-!
# Reading the lines of a listing back

What each kind of line determines.  A constant is known from its line.  The
line of a trigger leaves only the label of its code open, and the lines of a
method leave the names and types of its variables open.  The line of a marker
does not show its address; addresses follow from the place of an instruction
in its method.
-/

namespace TriggerScript

open Text

/-! ## Constants -/

namespace ValueType

theorem oneLine_name (type : ValueType) : OneLine type.name := by
  cases type
  all_goals decide

/-- All types fill the same column. -/
theorem length_column (type : ValueType) :
    (column 6 type.name).toList.length = 6 := by
  have fits : type.name.toList.length ≤ 6 := by
    cases type
    all_goals decide
  rw [toList_column, List.length_append, List.length_replicate,
    ← String.length_toList]
  omega

theorem column_inj {first second : ValueType}
    (same : column 6 first.name = column 6 second.name) :
    first = second := by
  have distinct : ([int, long, string, bool, void].map
      fun type => column 6 type.name).Nodup := by
    decide
  have listed : ∀ type : ValueType, type ∈ [int, long, string, bool, void] := by
    intro type
    cases type
    all_goals decide
  exact List.inj_on_of_nodup_map distinct (listed first) (listed second) same

end ValueType

namespace Constant

theorem listingLine_inj {first second : Constant} {index : Nat}
    (same : first.listingLine index = second.listingLine index) :
    first = second := by
  have shown := congrArg String.toList same
  simp only [listingLine, String.toList_append, List.append_assoc] at shown
  have behind := List.append_cancel_left (List.append_cancel_left
    (List.append_cancel_left shown))
  obtain ⟨types, texts⟩ := List.append_inj behind
    (first.type.length_column.trans second.type.length_column.symm)
  exact text_inj (ValueType.column_inj (String.toList_injective types))
    (String.toList_injective (List.append_cancel_left texts))

theorem oneLine_listingLine (constant : Constant) (index : Nat) :
    OneLine (constant.listingLine index) := by
  simp only [listingLine, oneLine_append, oneLine_column, oneLine_toString,
    constant.type.oneLine_name, constant.oneLine_text, and_true]
  decide

end Constant

/-! ## Triggers -/

namespace TriggerEntry

/-- The line of a trigger shows all but the label of its code. -/
theorem listingLine_inj {first second : TriggerEntry}
    (firstNamed : '(' ∉ first.event.toList)
    (secondNamed : '(' ∉ second.event.toList)
    (same : first.listingLine = second.listingLine) :
    first.event = second.event ∧ first.listenerId = second.listenerId ∧
      first.filter = second.filter ∧ first.address = second.address := by
  have shown := congrArg String.toList same
  simp only [listingLine, String.toList_append, String.reduceToList,
    List.append_assoc, List.cons_append, List.nil_append, List.cons.injEq,
    true_and] at shown
  obtain ⟨events, behindEvent⟩ := cut_at_inj shown firstNamed secondNamed
  obtain ⟨filters, behindFilter⟩ := numeral_inj behindEvent
    (numeral_toString _) (numeral_toString _) rfl rfl
  simp only [List.cons.injEq, true_and] at behindFilter
  obtain ⟨ids, behindId⟩ := numeral_inj behindFilter
    (numeral_toString _) (numeral_toString _) rfl rfl
  simp only [List.cons.injEq, true_and] at behindId
  have address := numeral_zeroPadded 4 first.address
  rw [behindId] at address
  have addresses := address.unique (numeral_zeroPadded 4 second.address)
  exact ⟨String.toList_injective events, UInt32.toNat_inj.mp ids,
    UInt64.toNat_inj.mp filters, addresses⟩

theorem oneLine_listingLine {trigger : TriggerEntry}
    (named : OneLine trigger.event) : OneLine trigger.listingLine := by
  simp only [listingLine, oneLine_append, oneLine_toString,
    oneLine_zeroPadded, named, and_true]
  decide

end TriggerEntry

/-! ## Instructions -/

/-- What stands right before the number that an operation works on. -/
def Opcode.sign : Opcode → String
  | pushConst => "#"
  | jump | jumpIfZero => "→ "
  | call => "["
  | callNative => "native "
  | getLocal | setLocal | getVariable | setVariable | ret | equal
  | label => ""

def Opcode.takesOperand : Opcode → Bool
  | ret | equal | label => false
  | _ => true

theorem Opcode.mnemonic_inj {first second : Opcode}
    (same : first.mnemonic = second.mnemonic) : first = second := by
  have distinct : (all.map mnemonic).Nodup := by
    decide
  have listed : ∀ opcode : Opcode, opcode ∈ all := by
    intro opcode
    cases opcode
    all_goals decide
  exact List.inj_on_of_nodup_map distinct (listed first) (listed second) same

theorem Opcode.mnemonic_noSpace (opcode : Opcode) :
    ' ' ∉ opcode.mnemonic.toList := by
  cases opcode
  all_goals decide

namespace Instruction

variable (constants : List Constant) (locals : List Variable)

theorem text_of_not_takesOperand {instruction : Instruction}
    (plain : instruction.opcode.takesOperand = false) :
    instruction.text constants locals = instruction.opcode.mnemonic := by
  unfold text
  cases opcodeEq : instruction.opcode with
  | ret | equal | label =>
      rfl
  | pushConst | jump | getLocal | setLocal | jumpIfZero | call | callNative
  | getVariable | setVariable =>
      rw [opcodeEq] at plain
      cases plain

/-- An operand behind its operation. -/
theorem toList_withOperand (opcode : Opcode) (operand : String) :
    (column 11 opcode.mnemonic ++ " " ++ operand).toList =
      opcode.mnemonic.toList ++
        ' ' :: (List.replicate (11 - opcode.mnemonic.length) ' ' ++
          operand.toList) := by
  simp only [String.toList_append, toList_column, String.reduceToList,
    List.append_assoc, List.cons_append, List.nil_append]
  rw [List.append_cons (List.replicate _ ' '), ← List.replicate_succ',
    List.replicate_succ, List.cons_append]

/-- What is shown behind the number that an operation works on. -/
structure ShownTail (locals : List Variable) (tail : String) : Prop where
  stops : Stops Char.isDigit tail.toList
  oneLine : (∀ known ∈ locals, OneLine known.name) → OneLine tail

theorem shownTail_comment {locals : List Variable} {shown : String}
    (oneLine : (∀ known ∈ locals, OneLine known.name) → OneLine shown) :
    ShownTail locals (" ; " ++ shown) := by
  constructor
  · rw [Stops, String.toList_append]
    rfl
  · intro named
    exact oneLine_append.mpr ⟨by decide, oneLine named⟩

theorem shownTail_of_literal (locals : List Variable) {tail : String}
    (stops : Stops Char.isDigit tail.toList) (oneLine : OneLine tail) :
    ShownTail locals tail :=
  ⟨stops, fun _ => oneLine⟩

/-- The text of an operation that works on a number. -/
theorem text_of_takesOperand {instruction : Instruction}
    (takes : instruction.opcode.takesOperand = true) :
    ∃ numeral tail : String, Numeral instruction.i numeral.toList ∧
      ShownTail locals tail ∧
      instruction.text constants locals =
        column 11 instruction.opcode.mnemonic ++ " " ++
          (instruction.opcode.sign ++ (numeral ++ tail)) := by
  have number := numeral_toString instruction.i
  have padded := numeral_zeroPadded 4 instruction.i
  have nothing : ShownTail locals "" :=
    shownTail_of_literal locals rfl (by decide)
  unfold text
  cases opcodeEq : instruction.opcode with
  | ret | equal | label =>
      rw [opcodeEq] at takes
      cases takes
  | pushConst =>
      let shown :=
        (constants[instruction.i]?.map Constant.text).getD "<missing>"
      have oneLine : OneLine shown := by
        dsimp only [shown]
        cases constants[instruction.i]? with
        | none =>
            exact (by decide : OneLine "<missing>")
        | some constant =>
            exact constant.oneLine_text
      exact ⟨_, " ; " ++ shown, number, shownTail_comment fun _ => oneLine, by
        simp only [Opcode.sign, String.append_assoc, shown]⟩
  | jump | jumpIfZero =>
      exact ⟨_, "", padded, nothing, by
        simp only [Opcode.sign, String.append_empty]⟩
  | call =>
      exact ⟨_, "]", number, shownTail_of_literal locals rfl (by decide), by
        simp only [Opcode.sign, String.append_assoc]⟩
  | callNative =>
      exact ⟨_, "", number, nothing, by
        simp only [Opcode.sign, String.append_empty]⟩
  | getLocal | setLocal | getVariable | setVariable =>
      dsimp only
      cases found : locals.reverse.find? (·.index == instruction.i) with
      | none =>
          exact ⟨_, "", number, nothing, by
            simp only [Opcode.sign, String.append_empty, String.empty_append]⟩
      | some known =>
          have member : known ∈ locals :=
            List.mem_reverse.mp (List.mem_of_find?_eq_some found)
          refine ⟨_, " ; " ++ known.name, number,
            shownTail_comment fun named => named known member, ?_⟩
          simp only [Opcode.sign, String.append_assoc, String.empty_append]

theorem toList_text (instruction : Instruction) :
    ∃ rest, (instruction.text constants locals).toList =
        instruction.opcode.mnemonic.toList ++ rest ∧
      Stops (· != ' ') rest := by
  cases takes : instruction.opcode.takesOperand with
  | false =>
      rw [text_of_not_takesOperand constants locals takes]
      exact ⟨[], (List.append_nil _).symm, rfl⟩
  | true =>
      obtain ⟨numeral, tail, _, _, written⟩ :=
        text_of_takesOperand constants locals takes
      rw [written, toList_withOperand]
      exact ⟨_, rfl, rfl⟩

theorem oneLine_text (instruction : Instruction)
    (named : ∀ known ∈ locals, OneLine known.name) :
    OneLine (instruction.text constants locals) := by
  have operation : OneLine instruction.opcode.mnemonic := by
    cases instruction.opcode
    all_goals decide
  have sign : OneLine instruction.opcode.sign := by
    cases instruction.opcode
    all_goals decide
  cases takes : instruction.opcode.takesOperand with
  | false =>
      rw [text_of_not_takesOperand constants locals takes]
      exact operation
  | true =>
      obtain ⟨numeral, tail, shows, shown, written⟩ :=
        text_of_takesOperand constants locals takes
      rw [written]
      simp only [oneLine_append, oneLine_column, operation, sign,
        shows.oneLine, shown.oneLine named, and_true, true_and]
      decide

variable {constants locals}

/-- An operation and its operand are known from the text. -/
theorem text_inj {first second : Instruction}
    {otherConstants : List Constant} {otherLocals : List Variable}
    (same : first.text constants locals =
      second.text otherConstants otherLocals) :
    first.opcode = second.opcode ∧
      (first.opcode.takesOperand = true → first.i = second.i) := by
  have word : ∀ opcode : Opcode,
      ∀ c ∈ opcode.mnemonic.toList, (c != ' ') = true := by
    intro opcode c member
    rw [bne_iff_ne]
    intro isSpace
    exact opcode.mnemonic_noSpace (isSpace ▸ member)
  obtain ⟨rest, firstShape, stops⟩ := first.toList_text constants locals
  obtain ⟨others, secondShape, stopsOther⟩ :=
    second.toList_text otherConstants otherLocals
  have shown := congrArg String.toList same
  rw [firstShape, secondShape] at shown
  have operations := Opcode.mnemonic_inj (String.toList_injective
    (cut_inj shown (word _) (word _) stops stopsOther).1)
  refine ⟨operations, ?_⟩
  intro takes
  obtain ⟨numeral, tail, shows, tailShown, written⟩ :=
    text_of_takesOperand constants locals takes
  rw [operations] at takes
  obtain ⟨otherNumeral, otherTail, otherShows, otherShown, otherWritten⟩ :=
    text_of_takesOperand otherConstants otherLocals takes
  rw [written, otherWritten, operations] at same
  have operands := congrArg String.toList same
  simp only [String.toList_append, List.append_assoc] at operands
  have numbers := List.append_cancel_left (List.append_cancel_left
    (List.append_cancel_left operands))
  exact (numeral_inj numbers shows otherShows tailShown.stops
    otherShown.stops).1

/-- What the text of an instruction relies on: there is one operand at most,
and exactly the markers have labels. -/
structure Plain (instruction : Instruction) : Prop where
  l : instruction.l = 0
  s : instruction.s = 0
  idle : instruction.opcode.takesOperand = false → instruction.i = 0
  marks : instruction.label?.isSome = true ↔ instruction.opcode = .label

def unaddressed (instruction : Instruction) : Instruction :=
  { instruction with address := 0 }

theorem Plain.unaddressed_eq {first second : Instruction}
    (plain : first.Plain) (otherPlain : second.Plain)
    (operations : first.opcode = second.opcode)
    (operands : first.opcode.takesOperand = true → first.i = second.i)
    (labels : first.label? = second.label?) :
    first.unaddressed = second.unaddressed := by
  have numbers : first.i = second.i := by
    cases takes : first.opcode.takesOperand with
    | false =>
        rw [plain.idle takes, otherPlain.idle (operations ▸ takes)]
    | true =>
        exact operands takes
  rw [unaddressed, unaddressed, operations, numbers, labels, plain.l,
    plain.s, otherPlain.l, otherPlain.s]

variable {targets otherTargets : Std.HashSet Nat}

theorem listingLine_of_label {instruction : Instruction} {label : Nat}
    (labelled : instruction.label? = some label) :
    instruction.listingLine constants locals targets =
      "      L" ++ toString label ++ ":" := by
  rw [listingLine, labelled]

theorem listingLine_of_no_label {instruction : Instruction}
    (unlabelled : instruction.label? = none) :
    ∃ mark : String, mark.toList.length = 1 ∧ OneLine mark ∧
      instruction.listingLine constants locals targets =
        zeroPadded 4 instruction.address ++ " " ++ mark ++ " " ++
          instruction.text constants locals := by
  rw [listingLine, unlabelled]
  by_cases target : targets.contains instruction.address = true
  · exact ⟨"►", by decide, by decide, by simp only [if_pos target]⟩
  · exact ⟨" ", by decide, by decide, by simp only [if_neg target]⟩

/-- Operations start with their address and markers do not. -/
theorem isDigit_listingLine (instruction : Instruction) :
    (instruction.listingLine constants locals targets).toList.head?.any
        Char.isDigit =
      instruction.label?.isNone := by
  cases labelled : instruction.label? with
  | some label =>
      rw [listingLine_of_label labelled, String.toList_append,
        String.toList_append]
      rfl
  | none =>
      obtain ⟨mark, _, _, written⟩ := @listingLine_of_no_label constants
        locals targets instruction labelled
      have shows := numeral_zeroPadded 4 instruction.address
      obtain ⟨digit, digits, split⟩ :=
        List.exists_cons_of_ne_nil shows.nonempty
      have isDigit := shows.digits digit (split ▸ List.mem_cons_self)
      rw [written]
      simp only [String.toList_append, split, List.cons_append,
        List.head?_cons, Option.any_some, isDigit, Option.isNone_none]

theorem label_inj {label other : Nat}
    (same : "      L" ++ toString label ++ ":" =
      "      L" ++ toString other ++ ":") : label = other := by
  have shown := congrArg String.toList same
  simp only [String.toList_append, String.reduceToList, List.cons_append,
    List.nil_append, List.cons.injEq, true_and] at shown
  exact (numeral_inj shown (numeral_toString _) (numeral_toString _) rfl
    rfl).1

/-- The text of an operation stands behind its address and the mark of branch
targets. -/
theorem text_eq_of_listingLine {first second : Instruction}
    {otherConstants : List Constant} {otherLocals : List Variable}
    (unlabelled : first.label? = none)
    (otherUnlabelled : second.label? = none)
    (same : first.listingLine constants locals targets =
      second.listingLine otherConstants otherLocals otherTargets) :
    first.text constants locals = second.text otherConstants otherLocals := by
  obtain ⟨mark, single, _, written⟩ := @listingLine_of_no_label constants
    locals targets first unlabelled
  obtain ⟨otherMark, otherSingle, _, otherWritten⟩ :=
    @listingLine_of_no_label otherConstants otherLocals otherTargets second
      otherUnlabelled
  rw [written, otherWritten] at same
  have shown := congrArg String.toList same
  simp only [String.toList_append, String.reduceToList, List.append_assoc,
    List.cons_append, List.nil_append] at shown
  obtain ⟨_, behind⟩ := numeral_inj shown (numeral_zeroPadded _ _)
    (numeral_zeroPadded _ _) rfl rfl
  obtain ⟨_, texts⟩ := List.append_inj (List.cons.inj behind).2
    (single.trans otherSingle.symm)
  exact String.toList_injective (List.cons.inj texts).2

theorem listingLine_inj {first second : Instruction} (plain : first.Plain)
    (otherPlain : second.Plain) {otherConstants : List Constant}
    {otherLocals : List Variable}
    (same : first.listingLine constants locals targets =
      second.listingLine otherConstants otherLocals otherTargets) :
    first.unaddressed = second.unaddressed := by
  have kinds : first.label?.isNone = second.label?.isNone := by
    rw [← first.isDigit_listingLine, same, second.isDigit_listingLine]
  cases firstLabel : first.label? with
  | some label =>
      rw [firstLabel] at kinds
      obtain ⟨other, secondLabel⟩ : ∃ other, second.label? = some other := by
        rw [← Option.isSome_iff_exists, ← Option.not_isNone, ← kinds]
        rfl
      rw [listingLine_of_label firstLabel,
        listingLine_of_label secondLabel] at same
      have marker : first.opcode = .label :=
        plain.marks.mp (firstLabel ▸ rfl)
      have otherMarker : second.opcode = .label :=
        otherPlain.marks.mp (secondLabel ▸ rfl)
      apply plain.unaddressed_eq otherPlain
      · rw [marker, otherMarker]
      · intro takes
        rw [marker] at takes
        cases takes
      · rw [firstLabel, secondLabel, label_inj same]
  | none =>
      rw [firstLabel] at kinds
      have secondLabel : second.label? = none :=
        Option.isNone_iff_eq_none.mp kinds.symm
      obtain ⟨operations, operands⟩ :=
        text_inj (text_eq_of_listingLine firstLabel secondLabel same)
      exact plain.unaddressed_eq otherPlain operations operands
        (firstLabel.trans secondLabel.symm)

theorem oneLine_listingLine (instruction : Instruction)
    (named : ∀ known ∈ locals, OneLine known.name) :
    OneLine (instruction.listingLine constants locals targets) := by
  cases labelled : instruction.label? with
  | some label =>
      rw [listingLine_of_label labelled]
      simp only [oneLine_append, oneLine_toString, and_true]
      decide
  | none =>
      obtain ⟨mark, _, oneLine, written⟩ := @listingLine_of_no_label
        constants locals targets instruction labelled
      rw [written]
      simp only [oneLine_append, oneLine_zeroPadded, oneLine,
        instruction.oneLine_text constants locals named, and_true, true_and]
      decide

theorem listingLine_ne_empty (instruction : Instruction) :
    instruction.listingLine constants locals targets ≠ "" := by
  intro empty
  have kind := @isDigit_listingLine constants locals targets instruction
  rw [empty] at kind
  cases labelled : instruction.label? with
  | some label =>
      rw [listingLine_of_label labelled] at empty
      have shown := congrArg String.toList empty
      simp at shown
  | none =>
      rw [labelled] at kind
      cases kind

/-! ### Addresses -/

theorem place_map_unaddressed (base : Nat) (code : List Instruction) :
    (place base (code.map unaddressed)).1 = (place base code).1 := by
  induction code generalizing base with
  | nil =>
      rfl
  | cons instruction code inductionHypothesis =>
      rw [List.map_cons, place_cons, place_cons, inductionHypothesis]
      rfl

/-- Code in which every instruction has the address of its place. -/
def Placed (base : Nat) (code : List Instruction) : Prop :=
  (place base code).1 = code

theorem placed_place (base : Nat) (code : List Instruction) :
    Placed base (place base code).1 := by
  induction code generalizing base with
  | nil =>
      rfl
  | cons instruction code inductionHypothesis =>
      rw [Placed, place_cons, place_cons]
      congr 1
      exact inductionHypothesis (base + span [instruction])

/-- Placed code is known from its instructions without their addresses. -/
theorem Placed.eq {base : Nat} {first second : List Instruction}
    (placed : Placed base first) (otherPlaced : Placed base second)
    (same : first.map unaddressed = second.map unaddressed) :
    first = second := by
  rw [← placed, ← otherPlaced, ← place_map_unaddressed base first, same,
    place_map_unaddressed]

end Instruction

/-! ## Methods -/

namespace Method

structure Listable (method : Method) : Prop where
  word : ' ' ∉ method.name.toList
  name : OneLine method.name
  locals : ∀ known ∈ method.locals, OneLine known.name
  code : ∀ instruction ∈ method.code, instruction.Plain
  placed : Instruction.Placed method.address method.code
  entry : (method.code.filterMap Instruction.label?).head? =
    some method.entry

/-- Two methods that differ in the names and types of their variables and in
their parameters at most. -/
structure SameCode (first second : Method) : Prop where
  name : first.name = second.name
  index : first.index = second.index
  address : first.address = second.address
  entry : first.entry = second.entry
  locals : first.locals.length = second.locals.length
  instructions : first.instructions = second.instructions

variable {first second : Method}

/-- The line with the name of a method. -/
theorem header_inj (listable : first.Listable)
    (otherListable : second.Listable)
    (same : " [" ++ toString first.index ++ "] " ++ first.name ++ " @ " ++
        zeroPadded 4 first.address =
      " [" ++ toString second.index ++ "] " ++ second.name ++ " @ " ++
        zeroPadded 4 second.address) :
    first.index = second.index ∧ first.name = second.name ∧
      first.address = second.address := by
  have shown := congrArg String.toList same
  simp only [String.toList_append, String.reduceToList, List.append_assoc,
    List.cons_append, List.nil_append, List.cons.injEq, true_and] at shown
  obtain ⟨indices, behindIndex⟩ := numeral_inj shown (numeral_toString _)
    (numeral_toString _) rfl rfl
  simp only [List.cons.injEq, true_and] at behindIndex
  obtain ⟨names, behindName⟩ :=
    cut_at_inj behindIndex listable.word otherListable.word
  simp only [List.cons.injEq, true_and] at behindName
  have address := numeral_zeroPadded 4 first.address
  rw [behindName] at address
  exact ⟨indices, String.toList_injective names,
    address.unique (numeral_zeroPadded 4 second.address)⟩

/-- The line with the sizes of a method. -/
theorem sizes_inj
    (same : " " ++ toString first.size ++ " instructions, " ++
        toString first.locals.length ++ " locals" =
      " " ++ toString second.size ++ " instructions, " ++
        toString second.locals.length ++ " locals") :
    first.locals.length = second.locals.length := by
  have shown := congrArg String.toList same
  simp only [String.toList_append, String.reduceToList, List.append_assoc,
    List.cons_append, List.nil_append, List.cons.injEq, true_and] at shown
  obtain ⟨_, behindSize⟩ := numeral_inj shown (numeral_toString _)
    (numeral_toString _) rfl rfl
  simp only [List.cons.injEq, true_and] at behindSize
  exact (numeral_inj behindSize (numeral_toString _) (numeral_toString _)
    rfl rfl).1

variable {constants otherConstants : List Constant}
  {targets otherTargets : Std.HashSet Nat}

/-- Instructions are known from their lines up to their addresses. -/
theorem unaddressed_eq_of_lines (listable : first.Listable)
    (otherListable : second.Listable)
    (same : first.code.map
        (Instruction.listingLine constants first.locals targets) =
      second.code.map (Instruction.listingLine otherConstants second.locals
        otherTargets)) :
    first.code.map Instruction.unaddressed =
      second.code.map Instruction.unaddressed := by
  apply List.ext_getElem?
  intro place
  have lines := congrArg (fun lines => lines[place]?) same
  simp only [List.getElem?_map] at lines ⊢
  cases found : first.code[place]? with
  | none =>
      cases otherFound : second.code[place]? with
      | none =>
          rfl
      | some other =>
          rw [found, otherFound, Option.map_none, Option.map_some] at lines
          exact absurd lines (Option.some_ne_none _).symm
  | some instruction =>
      cases otherFound : second.code[place]? with
      | none =>
          rw [found, otherFound, Option.map_none, Option.map_some] at lines
          exact absurd lines (Option.some_ne_none _)
      | some other =>
          rw [found, otherFound, Option.map_some, Option.map_some,
            Option.some.injEq] at lines
          have plain := listable.code _ (List.mem_of_getElem? found)
          have otherPlain :=
            otherListable.code _ (List.mem_of_getElem? otherFound)
          rw [Option.map_some, Option.map_some,
            Instruction.listingLine_inj plain otherPlain lines]

/-- The lines of a method show where they end, and all of the method but the
names and types of its variables. -/
theorem listingLines_append_inj (listable : first.Listable)
    (otherListable : second.Listable) {rest others : List String}
    (same : first.listingLines constants targets ++ rest =
      second.listingLines otherConstants otherTargets ++ others) :
    first.SameCode second ∧ rest = others := by
  have noEmpty : ∀ {constants : List Constant} {targets : Std.HashSet Nat}
      (method : Method), "" ∉ method.instructions.toList.map
        (Instruction.listingLine constants method.locals targets) := by
    intro constants targets method member
    obtain ⟨instruction, _, empty⟩ := List.mem_map.mp member
    exact instruction.listingLine_ne_empty empty
  simp only [listingLines, List.append_assoc, List.cons_append,
    List.nil_append, List.cons.injEq, true_and] at same
  obtain ⟨headers, sizes, codes⟩ := same
  obtain ⟨indices, names, addresses⟩ :=
    header_inj listable otherListable headers
  obtain ⟨lines, behind⟩ := cut_at_inj codes (noEmpty first) (noEmpty second)
  have codeEq : first.code = second.code :=
    listable.placed.eq (addresses ▸ otherListable.placed)
      (unaddressed_eq_of_lines listable otherListable lines)
  have entries := otherListable.entry
  rw [← codeEq, listable.entry, Option.some.injEq] at entries
  exact ⟨⟨names, indices, addresses, entries, sizes_inj sizes,
    Array.toList_inj.mp codeEq⟩, behind⟩

theorem oneLine_listingLines (listable : first.Listable) :
    ∀ line ∈ first.listingLines constants targets, OneLine line := by
  have rule : OneLine ("".pushn '═' 40) := by
    rw [OneLine, toList_pushn]
    intro member
    cases List.eq_of_mem_replicate member
  intro line member
  simp only [listingLines, List.mem_append, List.mem_cons, List.mem_map,
    List.not_mem_nil, or_false] at member
  rcases member with (isRule | isHeader | isSizes | isRule) |
    ⟨instruction, _, isCode⟩ | isEmpty
  · rw [isRule]
    exact rule
  · rw [isHeader]
    simp only [oneLine_append, oneLine_toString, oneLine_zeroPadded,
      listable.name, and_true]
    decide
  · rw [isSizes]
    simp only [oneLine_append, oneLine_toString, and_true]
    decide
  · rw [isRule]
    exact rule
  · rw [← isCode]
    exact instruction.oneLine_listingLine listable.locals
  · rw [isEmpty]
    decide

end Method

end TriggerScript
