import Mathlib.Data.List.Forall2
import Mathlib.Data.List.Nodup
import TriggerScript.Catalog.Description
import TriggerScript.Proofs.Outcomes
import TriggerScript.Proofs.TextPieces

/-!
# The format of catalog descriptions

A declaration has the form `KIND NAME ( PARAMS ) -> ID ;` with blanks between
its parts.  Reading takes it apart at marks, from both ends; here the form is
given part by part from the left, and reading is shown to accept exactly the
descriptions of this form in which no number is given twice.
-/

namespace TriggerScript

/-! ## The form of declarations -/

namespace Catalog

open Text

/-- The text of one parameter: its type and its name with blanks between and
around them. -/
inductive WritesParameter : List Char → Parameter → Prop
  | mk {type : ValueType} {name before between after : List Char} :
      type ∈ [ValueType.int, .string, .bool] →
      name ≠ [] →
      (∀ c ∈ name, isNamePart c = true) →
      AllBlank before →
      AllBlank between →
      between ≠ [] →
      AllBlank after →
      WritesParameter
        (before ++ (type.name.toList ++ (between ++ (name ++ after))))
        ⟨type, String.ofList name⟩

/-- The text of one or more parameters, with commas between them. -/
inductive WritesParameters : List Char → List Parameter → Prop
  | single {text : List Char} {param : Parameter} :
      WritesParameter text param →
      WritesParameters text [param]
  | cons {text rest : List Char} {param : Parameter}
      {params : List Parameter} :
      WritesParameter text param →
      WritesParameters rest params →
      WritesParameters (text ++ ',' :: rest) (param :: params)

inductive WritesParameterList : List Char → List Parameter → Prop
  | blank {text : List Char} :
      AllBlank text →
      WritesParameterList text []
  | written {text : List Char} {params : List Parameter} :
      WritesParameters text params →
      WritesParameterList text params

/-- The text of a declaration behind its kind. -/
inductive WritesSignature :
    List Char → String → List Parameter → UInt32 → Prop
  | mk {name afterName inner beforeArrow afterArrow digits afterId :
        List Char} {params : List Parameter} {id : UInt32} :
      isName name = true →
      AllBlank afterName →
      WritesParameterList inner params →
      AllBlank beforeArrow →
      AllBlank afterArrow →
      digits ≠ [] →
      (∀ c ∈ digits, c.isDigit = true) →
      digitsValue digits = id.toNat →
      AllBlank afterId →
      WritesSignature
        (name ++ (afterName ++ '(' :: (inner ++ ')' :: (beforeArrow ++
          '-' :: '>' :: (afterArrow ++ (digits ++ (afterId ++ [';'])))))))
        (String.ofList name) params id

/-- What a kind declares, with a name, parameters and a number. -/
inductive KindDeclares :
    List Char → String → List Parameter → UInt32 → Entry → Prop
  | function {returns : ValueType} {name : String} {params : List Parameter}
      {id : UInt32} :
      returns ∈ [ValueType.int, .string, .bool, .void] →
      KindDeclares returns.name.toList name params id
        (.function ⟨returns, name, params, id⟩)
  | listener {name : String} {params : List Parameter} {id : UInt32} :
      KindDeclares "listener".toList name params id
        (.listener ⟨name, params, id⟩)

inductive Declares : List Char → Entry → Prop
  | mk {kind gap rest : List Char} {name : String}
      {params : List Parameter} {id : UInt32} {entry : Entry} :
      KindDeclares kind name params id entry →
      AllBlank gap →
      gap ≠ [] →
      WritesSignature rest name params id →
      Declares (kind ++ (gap ++ rest)) entry

/-! ## Names and types -/

theorem isBlank_of_isNamePart {c : Char} (part : isNamePart c = true) :
    isBlank c = false :=
  isBlank_eq_false part (by decide)

theorem isNamePart_of_isName {name : List Char} (named : isName name = true) :
    name ≠ [] ∧ ∀ c ∈ name, isNamePart c = true := by
  cases name with
  | nil =>
      cases named
  | cons first rest =>
      obtain ⟨starts, goesOn⟩ : (first.isAlpha = true ∨ first = '_') ∧
          ∀ c ∈ rest, isNamePart c = true := by
        simpa [isName] using named
      refine ⟨List.cons_ne_nil _ _, List.forall_mem_cons.mpr ⟨?_, goesOn⟩⟩
      rcases starts with letter | underscore
      · simp [isNamePart, Char.isAlphanum, letter]
      · simp [isNamePart, underscore]

theorem isWord_of_nameParts {name : List Char} (nonempty : name ≠ [])
    (parts : ∀ c ∈ name, isNamePart c = true) : IsWord name :=
  ⟨nonempty, fun c member => isBlank_of_isNamePart (parts c member)⟩

/-- Types are written with the characters of names. -/
theorem isNamePart_typeName (type : ValueType) :
    type.name.toList ≠ [] ∧
      ∀ c ∈ type.name.toList, isNamePart c = true := by
  cases type
  all_goals exact ⟨by decide, List.all_eq_true.mp (by decide)⟩

theorem parameterType?_eq_some_iff {name : String} {type : ValueType} :
    parameterType? name = some type ↔
      type ∈ [ValueType.int, .string, .bool] ∧ name = type.name := by
  unfold parameterType?
  constructor
  · intro found
    split at found
    all_goals cases found
    all_goals simp [ValueType.name]
  · rintro ⟨member, rfl⟩
    simp only [List.mem_cons, List.not_mem_nil, or_false] at member
    rcases member with rfl | rfl | rfl
    all_goals rfl

theorem resultType?_eq_some_iff {name : String} {type : ValueType} :
    resultType? name = some type ↔
      type ∈ [ValueType.int, .string, .bool, .void] ∧ name = type.name := by
  unfold resultType?
  constructor
  · intro found
    split at found
    · cases found
      simp [ValueType.name]
    · obtain ⟨member, nameEq⟩ := parameterType?_eq_some_iff.mp found
      refine ⟨?_, nameEq⟩
      simp only [List.mem_cons, List.not_mem_nil, or_false] at member ⊢
      tauto
  · rintro ⟨member, rfl⟩
    simp only [List.mem_cons, List.not_mem_nil, or_false] at member
    rcases member with rfl | rfl | rfl | rfl
    all_goals rfl

/-! ## Parameters -/

theorem readParameter_eq_ok_iff {position : Nat} {text : List Char}
    {param : Parameter} :
    readParameter position text = .ok param ↔
      WritesParameter text param := by
  constructor
  · intro read
    unfold readParameter at read
    split at read
    · rename_i type name split
      split at read
      · rename_i parts
        split at read
        · rename_i valueType found
          cases read
          obtain ⟨known, typeEq⟩ := parameterType?_eq_some_iff.mp found
          obtain ⟨before, between, after, rfl, blankBefore, blankBetween,
            separated, blankAfter, _, nameWord⟩ :=
            words_eq_pair_iff.mp split
          have typeText : type = valueType.name.toList := by
            rw [← typeEq, String.toList_ofList]
          rw [typeText]
          exact .mk known nameWord.nonempty (List.all_eq_true.mp parts)
            blankBefore blankBetween separated blankAfter
        · cases read
      · cases read
    · cases read
  · intro written
    cases written with
    | @mk type name before between after known nonempty parts blankBefore
        blankBetween separated blankAfter =>
        obtain ⟨typeNonempty, typeParts⟩ := isNamePart_typeName type
        have split := words_eq_pair_iff.mpr ⟨before, between, after, rfl,
          blankBefore, blankBetween, separated, blankAfter,
          isWord_of_nameParts typeNonempty typeParts,
          isWord_of_nameParts nonempty parts⟩
        have found := parameterType?_eq_some_iff.mpr
          ⟨known, String.ofList_toList⟩
        unfold readParameter
        rw [split]
        simp only [List.all_eq_true.mpr parts, if_true, found]

theorem readParameters_cons {position : Nat} {text : List Char}
    {texts : List (List Char)} {params : List Parameter} :
    readParameters position (text :: texts) = .ok params ↔
      ∃ first others, WritesParameter text first ∧
        readParameters (position + 1) texts = .ok others ∧
        params = first :: others := by
  rw [readParameters]
  constructor
  · intro read
    obtain ⟨first, firstRead, read⟩ := exceptBind_eq_ok.mp read
    obtain ⟨others, othersRead, read⟩ := exceptBind_eq_ok.mp read
    cases read
    exact ⟨first, others, readParameter_eq_ok_iff.mp firstRead, othersRead,
      rfl⟩
  · rintro ⟨first, others, written, othersRead, rfl⟩
    exact exceptBind_eq_ok.mpr ⟨first, readParameter_eq_ok_iff.mpr written,
      exceptBind_eq_ok.mpr ⟨others, othersRead, rfl⟩⟩

theorem WritesParameter.free {text : List Char} {param : Parameter}
    (written : WritesParameter text param) :
    ∀ c ∈ text, (c == ',') = false := by
  cases written with
  | @mk type name before between after known nonempty parts blankBefore
      blankBetween separated blankAfter =>
      have typeParts := (isNamePart_typeName type).2
      intro c member
      rw [beq_eq_false_iff_ne]
      rintro rfl
      simp only [List.mem_append] at member
      rcases member with inBefore | inType | inBetween | inName | inAfter
      · exact notMem_of_refused blankBefore rfl inBefore
      · exact notMem_of_refused typeParts rfl inType
      · exact notMem_of_refused blankBetween rfl inBetween
      · exact notMem_of_refused parts rfl inName
      · exact notMem_of_refused blankAfter rfl inAfter

theorem writes_of_readParameters {position : Nat} {text : List Char}
    {params : List Parameter}
    (read : readParameters position (splitWhere (· == ',') text) =
      .ok params) : WritesParameters text params := by
  rcases splitWhere_cases (· == ',') text with
    ⟨single, _⟩ | ⟨before, mark, after, rfl, isMark, _, split⟩
  · rw [single] at read
    obtain ⟨first, others, written, othersRead, rfl⟩ :=
      readParameters_cons.mp read
    cases othersRead
    exact .single written
  · rw [split] at read
    obtain ⟨first, others, written, othersRead, rfl⟩ :=
      readParameters_cons.mp read
    obtain rfl : mark = ',' := beq_iff_eq.mp isMark
    exact .cons written (writes_of_readParameters othersRead)
termination_by text.length

theorem WritesParameters.read {text : List Char} {params : List Parameter}
    (written : WritesParameters text params) (position : Nat) :
    readParameters position (splitWhere (· == ',') text) =
      .ok params := by
  induction written generalizing position with
  | @single text param only =>
      rw [splitWhere_of_free only.free]
      exact readParameters_cons.mpr ⟨param, [], only, rfl, rfl⟩
  | @cons text rest param params first _ inductionHypothesis =>
      rw [splitWhere_append first.free rfl]
      exact readParameters_cons.mpr
        ⟨param, params, first, inductionHypothesis _, rfl⟩

theorem WritesParameter.not_allBlank {text : List Char} {param : Parameter}
    (written : WritesParameter text param) : ¬ AllBlank text := by
  cases written with
  | @mk type name _ _ _ _ nonempty parts =>
      obtain ⟨c, member⟩ := List.exists_mem_of_ne_nil name nonempty
      intro blank
      have isBlank := blank c (by simp [member])
      rw [isBlank_of_isNamePart (parts c member)] at isBlank
      cases isBlank

theorem WritesParameters.not_allBlank {text : List Char}
    {params : List Parameter} (written : WritesParameters text params) :
    ¬ AllBlank text := by
  cases written with
  | single only =>
      exact only.not_allBlank
  | cons first _ =>
      intro blank
      apply first.not_allBlank
      intro c member
      exact blank c (List.mem_append_left _ member)

theorem readParameterList_eq_ok_iff {text : List Char}
    {params : List Parameter} :
    readParameterList text = .ok params ↔
      WritesParameterList text params := by
  unfold readParameterList
  by_cases blank : AllBlank text
  · rw [if_pos (by simpa using trim_eq_nil_iff.mpr blank)]
    constructor
    · intro read
      cases read
      exact .blank blank
    · intro written
      cases written with
      | blank =>
          rfl
      | written params =>
          exact absurd blank params.not_allBlank
  · rw [if_neg (by simpa using mt trim_eq_nil_iff.mp blank)]
    constructor
    · intro read
      exact .written (writes_of_readParameters read)
    · intro written
      cases written with
      | blank allBlank =>
          exact absurd allBlank blank
      | written params =>
          exact params.read 1

/-! ## Declarations -/

theorem required_eq_ok {α : Type} {part : Option α} {value : α} :
    required part = .ok value ↔ part = some value := by
  cases part with
  | none =>
      constructor
      · intro impossible
        cases impossible
      · intro impossible
        cases impossible
  | some other =>
      rw [required, Except.ok.injEq, Option.some.injEq]

theorem readId_eq_ok_iff {text : List Char} {id : UInt32} :
    readId text = .ok id ↔
      text ≠ [] ∧ (∀ c ∈ text, c.isDigit = true) ∧
        digitsValue text = id.toNat := by
  unfold readId
  constructor
  · intro read
    split at read
    · cases read
    · rename_i number found
      obtain ⟨nonempty, areDigits, valueEq⟩ :=
        readNat?_eq_some_iff.mp found
      split at read
      · rename_i bound
        cases read
        refine ⟨nonempty, areDigits, ?_⟩
        rw [valueEq, UInt32.toNat_ofNat_of_lt' bound]
      · cases read
  · rintro ⟨nonempty, areDigits, valueEq⟩
    rw [readNat?_eq_some_iff.mpr ⟨nonempty, areDigits, valueEq⟩]
    dsimp only
    rw [if_pos id.toNat_lt, UInt32.ofNat_toNat]

/-- Kinds are written with the characters of names. -/
theorem KindDeclares.isNamePart {kind : List Char} {name : String}
    {params : List Parameter} {id : UInt32} {entry : Entry}
    (declares : KindDeclares kind name params id entry) :
    kind ≠ [] ∧ ∀ c ∈ kind, isNamePart c = true := by
  cases declares with
  | @function returns _ _ _ _ =>
      exact isNamePart_typeName returns
  | listener =>
      exact ⟨by decide, List.all_eq_true.mp (by decide)⟩

/-- A text that is read is a declaration, behind blanks. -/
theorem declares_of_readEntry {text : List Char} {entry : Entry}
    (read : readEntry text = .ok entry) :
    ∃ before rest, text = before ++ rest ∧ AllBlank before ∧
      Declares rest entry := by
  unfold readEntry at read
  -- The cuts are undone in the order in which they were made.
  obtain ⟨body, dropped, read⟩ := exceptBind_eq_ok.mp read
  obtain ⟨⟨signature, numeral⟩, cut, read⟩ := exceptBind_eq_ok.mp read
  obtain ⟨id, numbered, read⟩ := exceptBind_eq_ok.mp read
  obtain ⟨opened, closed, read⟩ := exceptBind_eq_ok.mp read
  obtain ⟨⟨head, inner⟩, cutOpen, read⟩ := exceptBind_eq_ok.mp read
  have textEq := dropEnd?_eq_some_iff.mp (required_eq_ok.mp dropped)
  have bodyEq := cutLastArrow?_eq_some (required_eq_ok.mp cut)
  have openedEq := dropEnd?_eq_some_iff.mp (required_eq_ok.mp closed)
  have headEq := cutFirst?_eq_some (required_eq_ok.mp cutOpen)
  obtain ⟨nonempty, areDigits, valueEq⟩ := readId_eq_ok_iff.mp numbered
  obtain ⟨beforeArrow, signatureEq, blankBeforeArrow⟩ :=
    exists_eq_trimEnd_append signature
  obtain ⟨afterArrow, afterId, numeralEq, blankAfterArrow, blankAfterId⟩ :=
    exists_eq_append_trim numeral
  dsimp only at read
  split at read
  · rename_i kind name split
    obtain ⟨before, gap, afterName, headSplit, blankBefore, blankGap,
      separated, blankAfterName, _, _⟩ := words_eq_pair_iff.mp split
    split at read
    · rename_i named
      obtain ⟨params, paramsRead, read⟩ := exceptBind_eq_ok.mp read
      have written := readParameterList_eq_ok_iff.mp paramsRead
      have declares :
          KindDeclares kind (String.ofList name) params id entry := by
        split at read
        · rename_i isListener
          cases read
          rw [isListener]
          exact .listener
        · split at read
          · rename_i returns found
            cases read
            obtain ⟨known, kindEq⟩ := resultType?_eq_some_iff.mp found
            rw [← String.toList_ofList (l := kind), kindEq]
            exact .function known
          · cases read
      refine ⟨before, _, ?_, blankBefore, .mk declares blankGap separated
        (.mk named blankAfterName written blankBeforeArrow blankAfterArrow
          nonempty areDigits valueEq blankAfterId)⟩
      rw [openedEq, headEq, headSplit] at signatureEq
      rw [textEq, bodyEq, signatureEq]
      conv_lhs => rw [numeralEq]
      simp
    · cases read
  · cases read

/-- A text is read once it is known where the cuts go through. -/
theorem readEntry_of_cuts {signature numeral head inner kind name : List Char}
    {params : List Parameter} {id : UInt32} {entry : Entry}
    (noDash : '-' ∉ numeral) (numbered : readId (trim numeral) = .ok id)
    (closed : trimEnd signature = head ++ '(' :: inner ++ [')'])
    (noParenthesis : '(' ∉ head) (split : words head = [kind, name])
    (named : isName name = true)
    (written : WritesParameterList inner params)
    (declares : KindDeclares kind (String.ofList name) params id entry) :
    readEntry (signature ++ '-' :: '>' :: numeral ++ [';']) = .ok entry := by
  unfold readEntry
  apply exceptBind_eq_ok.mpr
  refine ⟨_, required_eq_ok.mpr (dropEnd?_eq_some_iff.mpr rfl), ?_⟩
  apply exceptBind_eq_ok.mpr
  refine ⟨_, required_eq_ok.mpr (cutLastArrow?_append noDash), ?_⟩
  apply exceptBind_eq_ok.mpr
  refine ⟨id, numbered, exceptBind_eq_ok.mpr ?_⟩
  refine ⟨_, required_eq_ok.mpr (dropEnd?_eq_some_iff.mpr closed), ?_⟩
  apply exceptBind_eq_ok.mpr
  refine ⟨_, required_eq_ok.mpr (cutFirst?_append noParenthesis), ?_⟩
  dsimp only
  rw [split]
  dsimp only
  rw [if_pos named]
  apply exceptBind_eq_ok.mpr
  refine ⟨params, readParameterList_eq_ok_iff.mpr written, ?_⟩
  cases declares with
  | @function returns _ _ _ known =>
      have found := resultType?_eq_some_iff.mpr
        ⟨known, String.ofList_toList⟩
      have noListener : returns.name.toList ≠ "listener".toList := by
        cases returns
        all_goals decide
      rw [if_neg noListener, found]
      rfl
  | listener =>
      rw [if_pos rfl]
      rfl

/-- Every declaration is read. -/
theorem Declares.readEntry_eq {text : List Char} {entry : Entry}
    (declares : Declares text entry) : readEntry text = .ok entry := by
  cases declares with
  | @mk kind gap rest _ params id _ ofKind blankGap separated written =>
  cases written with
  | @mk name afterName inner beforeArrow afterArrow digits afterId _ _ named
      blankAfterName writtenParams blankBeforeArrow blankAfterArrow nonempty
      areDigits valueEq blankAfterId =>
  obtain ⟨nameNonempty, nameParts⟩ := isNamePart_of_isName named
  obtain ⟨kindNonempty, kindParts⟩ := ofKind.isNamePart
  -- No dash stands behind the arrow, and no parenthesis before the first.
  have noDash : '-' ∉ afterArrow ++ (digits ++ afterId) := by
    simp only [List.mem_append, not_or]
    exact ⟨notMem_of_refused blankAfterArrow rfl,
      notMem_of_refused areDigits rfl, notMem_of_refused blankAfterId rfl⟩
  have noParenthesis : '(' ∉ kind ++ (gap ++ (name ++ afterName)) := by
    simp only [List.mem_append, not_or]
    exact ⟨notMem_of_refused kindParts rfl, notMem_of_refused blankGap rfl,
      notMem_of_refused nameParts rfl, notMem_of_refused blankAfterName rfl⟩
  have numbered :
      readId (trim (afterArrow ++ (digits ++ afterId))) = .ok id := by
    rw [trim_append blankAfterArrow blankAfterId
      fun c member => isBlank_of_isDigit (areDigits c member)]
    exact readId_eq_ok_iff.mpr ⟨nonempty, areDigits, valueEq⟩
  have closed : trimEnd (kind ++ (gap ++ (name ++ afterName)) ++
      '(' :: inner ++ ')' :: beforeArrow) =
        kind ++ (gap ++ (name ++ afterName)) ++ '(' :: inner ++ [')'] :=
    trimEnd_append rfl blankBeforeArrow
  have split : words (kind ++ (gap ++ (name ++ afterName))) =
      [kind, name] :=
    words_eq_pair_iff.mpr ⟨[], gap, afterName, rfl, by simp [AllBlank],
      blankGap, separated, blankAfterName,
      isWord_of_nameParts kindNonempty kindParts,
      isWord_of_nameParts nameNonempty nameParts⟩
  have read := readEntry_of_cuts noDash numbered closed noParenthesis split
    named writtenParams ofKind
  simpa only [List.append_assoc, List.cons_append] using read

theorem readEntry_eq_ok_iff {text : List Char} {entry : Entry}
    (starts : ∀ c ∈ text.head?, isBlank c = false) :
    readEntry text = .ok entry ↔ Declares text entry := by
  constructor
  · intro read
    obtain ⟨before, rest, rfl, blank, declares⟩ :=
      declares_of_readEntry read
    cases before with
    | nil =>
        exact declares
    | cons c before =>
        have isBlank := blank c List.mem_cons_self
        rw [starts c rfl] at isBlank
        cases isBlank
  · intro declares
    exact declares.readEntry_eq

/-! ## Lines -/

theorem isComment_eq (line : List Char) :
    isComment line =
      (line.isEmpty || "#".toList.isPrefixOf line ||
        "//".toList.isPrefixOf line) := by
  unfold isComment
  split
  · rfl
  · simp
  · simp
  · rename_i notEmpty notHash notSlashes
    cases line with
    | nil =>
        exact absurd rfl notEmpty
    | cons c rest =>
        have c_ne : '#' ≠ c := by
          rintro rfl
          exact notHash rest rfl
        by_cases slash : '/' = c
        · subst slash
          cases rest with
          | nil =>
              rfl
          | cons d rest =>
              have d_ne : '/' ≠ d := by
                rintro rfl
                exact notSlashes rest rfl
              simp [List.isPrefixOf, d_ne]
        · simp [List.isPrefixOf, c_ne, slash]

def declarationLines (text : List Char) : List (List Char) :=
  ((lineContents text).map trim).filter fun line =>
    !(line.isEmpty || "#".toList.isPrefixOf line ||
      "//".toList.isPrefixOf line)

/-! ## Tables -/

def Entry.function? : Entry → Option Function
  | function declared => some declared
  | listener _ => none

def Entry.listener? : Entry → Option Listener
  | function _ => none
  | listener declared => some declared

def ofEntries (entries : List Entry) : Catalog :=
  ⟨entries.filterMap Entry.function?, entries.filterMap Entry.listener?⟩

/-- No number is given twice in a table. -/
structure Distinct (catalog : Catalog) : Prop where
  functions : (catalog.functions.map Function.id).Nodup
  listeners : (catalog.listeners.map Listener.id).Nodup

theorem Distinct.of_append {first second : List Entry}
    (distinct : (ofEntries (first ++ second)).Distinct) :
    (ofEntries first).Distinct := by
  obtain ⟨functions, listeners⟩ := distinct
  simp only [ofEntries, List.filterMap_append, List.map_append]
    at functions listeners
  exact ⟨functions.of_append_left, listeners.of_append_left⟩

/-- A number is free exactly when the table stays without repetition. -/
theorem nodup_concat_iff {α : Type} {number : α → UInt32} {table : List α}
    {new : α} (distinct : (table.map number).Nodup) :
    ((table ++ [new]).map number).Nodup ↔
      table.any (fun old => number old == number new) = false := by
  rw [List.map_append, List.map_singleton, ← List.concat_eq_append,
    List.nodup_concat, List.any_eq_false]
  simp [distinct]

/-- Tables are refused exactly when a number would be given twice. -/
theorem refused_iff {taken : Bool} {fault : Fault} {next extended : Catalog}
    (free : next.Distinct ↔ taken = false) :
    (if taken then Except.error fault else .ok next) = .ok extended ↔
      next.Distinct ∧ extended = next := by
  rw [free]
  cases taken with
  | true =>
      simp
  | false =>
      simp [eq_comm]

theorem insert_eq_ok_iff {read : List Entry} {entry : Entry}
    {extended : Catalog} (distinct : (ofEntries read).Distinct) :
    (ofEntries read).insert entry = .ok extended ↔
      (ofEntries (read ++ [entry])).Distinct ∧
        extended = ofEntries (read ++ [entry]) := by
  cases entry with
  | function declared =>
      have tables : ofEntries (read ++ [.function declared]) =
          { ofEntries read with
            functions := (ofEntries read).functions ++ [declared] } := by
        simp [ofEntries, Entry.function?, Entry.listener?]
      rw [insert, tables]
      apply refused_iff
      rw [← nodup_concat_iff distinct.functions]
      exact ⟨Distinct.functions, fun functions =>
        ⟨functions, distinct.listeners⟩⟩
  | listener declared =>
      have tables : ofEntries (read ++ [.listener declared]) =
          { ofEntries read with
            listeners := (ofEntries read).listeners ++ [declared] } := by
        simp [ofEntries, Entry.function?, Entry.listener?]
      rw [insert, tables]
      apply refused_iff
      rw [← nodup_concat_iff distinct.listeners]
      exact ⟨Distinct.listeners, fun listeners =>
        ⟨distinct.functions, listeners⟩⟩

theorem insertLine_eq_ok_iff {catalog extended : Catalog}
    {line : List Char} (declaration : isComment (trim line) = false) :
    catalog.insertLine line = .ok extended ↔
      ∃ entry, Declares (trim line) entry ∧
        catalog.insert entry = .ok extended := by
  unfold insertLine
  dsimp only
  rw [declaration, if_neg Bool.false_ne_true]
  constructor
  · intro inserted
    obtain ⟨entry, read, inserted⟩ := exceptBind_eq_ok.mp inserted
    exact ⟨entry, (readEntry_eq_ok_iff isBlank_head_trim).mp read, inserted⟩
  · rintro ⟨entry, declares, inserted⟩
    exact exceptBind_eq_ok.mpr ⟨entry, declares.readEntry_eq, inserted⟩

theorem insertLines_cons_eq_ok_iff {catalog result : Catalog} {number : Nat}
    {line : List Char} {lines : List (List Char)} :
    catalog.insertLines number (line :: lines) = .ok result ↔
      ∃ extended, catalog.insertLine line = .ok extended ∧
        extended.insertLines (number + 1) lines = .ok result := by
  rw [insertLines]
  cases catalog.insertLine line with
  | error fault =>
      simp
  | ok extended =>
      simp

theorem insertLines_eq_ok_iff {read : List Entry} {number : Nat}
    {lines : List (List Char)} {catalog : Catalog}
    (distinct : (ofEntries read).Distinct) :
    insertLines (ofEntries read) number lines = .ok catalog ↔
      ∃ entries,
        List.Forall₂ Declares
            ((lines.map trim).filter fun line => !isComment line) entries ∧
          (ofEntries (read ++ entries)).Distinct ∧
          catalog = ofEntries (read ++ entries) := by
  -- The entries read before stay in front, and no number of theirs is free
  -- any more; so the induction is for all of them.
  induction lines generalizing read number with
  | nil =>
      rw [insertLines, Except.ok.injEq, eq_comm]
      simp [distinct]
  | cons line lines inductionHypothesis =>
      rw [insertLines_cons_eq_ok_iff]
      by_cases comment : isComment (trim line) = true
      · have skipped :
            (ofEntries read).insertLine line = .ok (ofEntries read) := by
          unfold insertLine
          exact if_pos comment
        simp only [skipped, List.map_cons, List.filter_cons, comment]
        simpa using inductionHypothesis distinct
      · have declaration := Bool.eq_false_iff.mpr comment
        simp only [insertLine_eq_ok_iff declaration, List.map_cons,
          List.filter_cons, declaration, Bool.not_false, if_true,
          List.forall₂_cons_left_iff]
        constructor
        · rintro ⟨extended, ⟨entry, declares, inserted⟩, run⟩
          obtain ⟨stillDistinct, rfl⟩ := (insert_eq_ok_iff distinct).mp inserted
          obtain ⟨entries, others, allDistinct, catalogEq⟩ :=
            (inductionHypothesis stillDistinct).mp run
          rw [List.append_assoc] at allDistinct catalogEq
          exact ⟨entry :: entries, ⟨entry, entries, declares, others, rfl⟩,
            allDistinct, catalogEq⟩
        · rintro ⟨_, ⟨entry, entries, declares, others, rfl⟩, allDistinct,
            catalogEq⟩
          rw [List.append_cons] at allDistinct catalogEq
          have stillDistinct := allDistinct.of_append
          exact ⟨_, ⟨entry, declares,
              (insert_eq_ok_iff distinct).mpr ⟨stillDistinct, rfl⟩⟩,
            (inductionHypothesis stillDistinct).mpr
              ⟨entries, others, allDistinct, catalogEq⟩⟩

/-- A description is accepted exactly when every line that is no comment is a
declaration and no number is given twice; its tables then hold what the lines
declare, in their order. -/
theorem parse_iff_described {text : String} {catalog : Catalog} :
    parse text = .ok catalog ↔
      ∃ entries,
        List.Forall₂ Declares (declarationLines text.toList) entries ∧
          (catalog.functions.map Function.id).Nodup ∧
          (catalog.listeners.map Listener.id).Nodup ∧
          catalog.functions = entries.filterMap Entry.function? ∧
          catalog.listeners = entries.filterMap Entry.listener? := by
  have start : (ofEntries []).Distinct := ⟨List.nodup_nil, List.nodup_nil⟩
  have lines : declarationLines text.toList =
      ((Text.lines text.toList).map trim).filter
        fun line => !isComment line := by
    rw [filter_trim_lines text.toList rfl]
    simp only [declarationLines, isComment_eq]
  have run : parse text = .ok catalog ↔ _ := insertLines_eq_ok_iff start
  rw [run, lines]
  constructor
  · rintro ⟨entries, declare, distinct, rfl⟩
    exact ⟨entries, declare, distinct.functions, distinct.listeners, rfl, rfl⟩
  · rintro ⟨entries, declare, functions, listeners, functionsEq, listenersEq⟩
    have catalogEq : catalog = ofEntries entries := by
      cases catalog
      cases functionsEq
      cases listenersEq
      rfl
    subst catalogEq
    exact ⟨entries, declare, ⟨functions, listeners⟩, rfl⟩

end Catalog

end TriggerScript
