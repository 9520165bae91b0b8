import TriggerScript.Proofs.CatalogFormat
import TriggerScript.Proofs.Lexemes
import TriggerScript.Proofs.ParserSoundness
import TriggerScript.Proofs.TriggerIsolation

/-!
# Numbers up to their limits

Numerals have any number of digits and any leading zeros.  They are read in
three places, with limits of their own:

* an expression is an `int` if the number fits into 32 bits with a sign, a
  `long` if it fits into 64 bits with a sign, and is refused otherwise;
* the filter of a trigger has no sign and fits into 64 bits;
* the number of a host function or of a listener has no sign and fits into 32
  bits.

No reader wraps around: what it gives is the number itself.
-/

namespace TriggerScript

/-! ## Numerals -/

namespace Text

/-- The value of decimal digits that are given from the last one on: the first
counts once, the next ten times, and so on. -/
def valueFromLast : List Char → Nat
  | [] => 0
  | c :: higher => (c.toNat - '0'.toNat) + 10 * valueFromLast higher

/-- A text is a decimal number: digits, perhaps behind a minus sign. -/
inductive Decimal : List Char → Int → Prop
  | plain {digits : List Char} :
      digits ≠ [] →
      (∀ c ∈ digits, c.isDigit = true) →
      Decimal digits (valueFromLast digits.reverse)
  | negative {digits : List Char} :
      digits ≠ [] →
      (∀ c ∈ digits, c.isDigit = true) →
      Decimal ('-' :: digits) (-(valueFromLast digits.reverse : Int))

/-- Digits have the same value from either end. -/
theorem digitsValue_eq_valueFromLast (digits : List Char) :
    digitsValue digits = valueFromLast digits.reverse := by
  induction digits using List.reverseRecOn with
  | nil =>
      rfl
  | append_singleton digits c inductionHypothesis =>
      rw [digitsValue, List.foldl_append, List.reverse_append,
        List.reverse_singleton, List.singleton_append, valueFromLast,
        ← inductionHypothesis, Nat.add_comm]
      rfl

namespace Decimal

variable {text : List Char} {number : Int}

theorem readInt?_eq (decimal : Decimal text number) :
    readInt? text = some number := by
  cases decimal with
  | plain nonempty areDigits =>
      rw [← digitsValue_eq_valueFromLast]
      exact (readInt?_of_digits nonempty areDigits).1
  | negative nonempty areDigits =>
      rw [← digitsValue_eq_valueFromLast]
      exact (readInt?_of_digits nonempty areDigits).2

/-- Numbers without a sign are digits only. -/
theorem of_unsigned (decimal : Decimal text number)
    (unsigned : text.head? ≠ some '-') :
    text ≠ [] ∧ (∀ c ∈ text, c.isDigit = true) ∧
      (digitsValue text : Int) = number := by
  cases decimal with
  | plain nonempty areDigits =>
      rw [digitsValue_eq_valueFromLast]
      exact ⟨nonempty, areDigits, rfl⟩
  | negative =>
      exact absurd rfl unsigned

end Decimal

theorem exists_decimal_iff {text : List Char} :
    (∃ number, Decimal text number) ↔
      ∃ digits, digits ≠ [] ∧ (∀ c ∈ digits, c.isDigit = true) ∧
        (text = digits ∨ text = '-' :: digits) := by
  constructor
  · rintro ⟨_, decimal⟩
    cases decimal with
    | plain nonempty areDigits =>
        exact ⟨text, nonempty, areDigits, .inl rfl⟩
    | @negative digits nonempty areDigits =>
        exact ⟨digits, nonempty, areDigits, .inr rfl⟩
  · rintro ⟨digits, nonempty, areDigits, rfl | rfl⟩
    · exact ⟨_, .plain nonempty areDigits⟩
    · exact ⟨_, .negative nonempty areDigits⟩

theorem unsigned_of_digits {text : List Char}
    (areDigits : ∀ c ∈ text, c.isDigit = true) :
    text.head? ≠ some '-' := by
  intro signed
  have impossible := areDigits '-' (List.mem_of_head? signed)
  cases impossible

end Text

/-- Scanning gives the decimal numbers as integers, and nothing else. -/
theorem Token.exists_scan_integer_iff {text : String} :
    (∃ source tokens token, scan source = .ok tokens ∧ token ∈ tokens ∧
        token.kind = .integer ∧ token.text = text) ↔
      ∃ number, Text.Decimal text.toList number := by
  rw [Text.exists_decimal_iff, ← isNumeral_iff]
  constructor
  · rintro ⟨source, tokens, token, scanned, member, isInteger, rfl⟩
    exact (Scanner.tokenize_spelled _ scanned token member).numeral isInteger
  · intro numeral
    have scans : ∀ lexeme ∈ [Lexeme.numeral text], lexeme.Scans :=
      List.forall_mem_singleton.mpr (Lexeme.scans_numeral numeral)
    obtain ⟨tokens, marker, scanned, same, _⟩ := scan_render scans
    obtain ⟨token, rfl, lexemeEq⟩ := List.map_eq_singleton_iff.mp same
    exact ⟨_, _, token, scanned, by simp, congrArg Lexeme.kind lexemeEq,
      congrArg Lexeme.text lexemeEq⟩

/-! ## Numbers as expressions -/

namespace Literal

variable {number : Int}

theorem ofInt?_of_narrow (lower : -2147483648 ≤ number)
    (upper : number < 2147483648) :
    ∃ value : Int32, value.toInt = number ∧
      ofInt? number = some (.int value) := by
  have exactly : (Int32.ofInt number).toInt = number :=
    Int32.toInt_ofInt_of_le (by omega) (by omega)
  have denoted := Denotes.int (Int32.ofInt number)
  rw [exactly] at denoted
  exact ⟨_, exactly, ofInt?_eq_some_iff.mpr denoted⟩

theorem ofInt?_of_wide (notNarrow : number < -2147483648 ∨ 2147483648 ≤ number)
    (lower : -9223372036854775808 ≤ number)
    (upper : number < 9223372036854775808) :
    ∃ value : Int64, value.toInt = number ∧
      ofInt? number = some (.long value) := by
  have narrowBounds : Int32.minValue.toInt = -2147483648 ∧
      Int32.maxValue.toInt = 2147483647 := by
    decide
  have exactly : (Int64.ofInt number).toInt = number :=
    Int64.toInt_ofInt_of_le (by omega) (by omega)
  have denoted := Denotes.long (Int64.ofInt number) (by omega)
  rw [exactly] at denoted
  exact ⟨_, exactly, ofInt?_eq_some_iff.mpr denoted⟩

theorem ofInt?_of_outside
    (outside : number < -9223372036854775808 ∨ 9223372036854775808 ≤ number) :
    ofInt? number = none := by
  cases found : ofInt? number with
  | none =>
      rfl
  | some literal =>
      have denoted := ofInt?_eq_some_iff.mp found
      cases denoted with
      | int value =>
          have lower := value.le_toInt
          have upper := value.toInt_lt
          omega
      | long value =>
          have lower := value.le_toInt
          have upper := value.toInt_lt
          omega

theorem ofNumeral?_of_decimal {text : String}
    (decimal : Text.Decimal text.toList number) :
    ofNumeral? text = ofInt? number := by
  rw [ofNumeral?, decimal.readInt?_eq]
  rfl

end Literal

/-- How an attempt to read a number ends: with an `int`, with a `long` where an
`int` is too narrow, or with an error at the number. -/
structure Attempt.ReadsNumber {start : Cursor}
    (attempt : Attempt (Parsed start Node)) (number : Int) (token : Token)
    (rest : List Token) : Prop where
  narrow : -2147483648 ≤ number → number < 2147483648 →
    ∃ value : Int32, value.toInt = number ∧
      attempt.Reads (.literal (.int value)) rest
  wide : number < -2147483648 ∨ 2147483648 ≤ number →
    -9223372036854775808 ≤ number → number < 9223372036854775808 →
      ∃ value : Int64, value.toInt = number ∧
        attempt.Reads (.literal (.long value)) rest
  outside : number < -9223372036854775808 ∨ 9223372036854775808 ≤ number →
    attempt = .error
      ⟨⟨.numberOutOfRange token.text, token.span.start⟩,
        ⟨rest, some token.span.start⟩⟩

namespace Parser

variable {token : Token} {rest : List Token} {passed : Option Nat}
  {number : Int}

/-- Reading a number depends on what literal it has. -/
theorem readsNumber_of_ofInt? {start : Cursor}
    {attempt : Attempt (Parsed start Node)}
    (read : ∀ literal, Literal.ofInt? number = some literal →
      attempt.Reads (.literal literal) rest)
    (refused : Literal.ofInt? number = none →
      attempt = .error
        ⟨⟨.numberOutOfRange token.text, token.span.start⟩,
          ⟨rest, some token.span.start⟩⟩) :
    attempt.ReadsNumber number token rest where
  narrow lower upper := by
    obtain ⟨value, exactly, found⟩ := Literal.ofInt?_of_narrow lower upper
    exact ⟨value, exactly, read _ found⟩
  wide notNarrow lower upper := by
    obtain ⟨value, exactly, found⟩ :=
      Literal.ofInt?_of_wide notNarrow lower upper
    exact ⟨value, exactly, read _ found⟩
  outside far := refused (Literal.ofInt?_of_outside far)

theorem primary_eq_ok {literal : Literal} (isInteger : token.kind = .integer)
    (found : Literal.ofNumeral? token.text = some literal) :
    primary ⟨token :: rest, passed⟩ =
      .ok ⟨.literal literal, ⟨rest, some token.span.start⟩,
        Nat.lt_add_one _⟩ := by
  rw [primary]
  simp only [Cursor.pass?, isInteger, found]
  rfl

theorem primary_eq_error (isInteger : token.kind = .integer)
    (found : Literal.ofNumeral? token.text = none) :
    primary ⟨token :: rest, passed⟩ =
      .error
        ⟨⟨.numberOutOfRange token.text, token.span.start⟩,
          ⟨rest, some token.span.start⟩⟩ := by
  rw [primary]
  simp only [Cursor.pass?, isInteger, found]

/-- Without a comparison behind it, a number is all of its expression. -/
theorem expression_eq_ok {literal : Literal} (isInteger : token.kind = .integer)
    (found : Literal.ofNumeral? token.text = some literal)
    (alone : ∀ next ∈ rest.head?, next.kind.isComparator = false) :
    expression ⟨token :: rest, passed⟩ =
      .ok ⟨.literal literal, ⟨rest, some token.span.start⟩,
        Nat.lt_add_one _⟩ := by
  rw [expression]
  refine exceptBind_eq_ok.mpr ⟨_, primary_eq_ok isInteger found, ?_⟩
  cases rest with
  | nil =>
      rfl
  | cons next others =>
      have noComparator := alone next rfl
      simp only [Cursor.pass?, noComparator]
      rfl

theorem expression_eq_error (isInteger : token.kind = .integer)
    (found : Literal.ofNumeral? token.text = none) :
    expression ⟨token :: rest, passed⟩ =
      .error
        ⟨⟨.numberOutOfRange token.text, token.span.start⟩,
          ⟨rest, some token.span.start⟩⟩ := by
  rw [expression, primary_eq_error isInteger found]
  rfl

theorem primary_readsNumber (isInteger : token.kind = .integer)
    (decimal : Text.Decimal token.text.toList number) :
    (primary ⟨token :: rest, passed⟩).ReadsNumber number token rest := by
  have numeral := Literal.ofNumeral?_of_decimal decimal
  apply readsNumber_of_ofInt?
  · intro literal found
    exact ⟨_, primary_eq_ok isInteger (numeral.trans found), rfl, rfl⟩
  · intro none
    exact primary_eq_error isInteger (numeral.trans none)

theorem expression_readsNumber (isInteger : token.kind = .integer)
    (decimal : Text.Decimal token.text.toList number)
    (alone : ∀ next ∈ rest.head?, next.kind.isComparator = false) :
    (expression ⟨token :: rest, passed⟩).ReadsNumber number token rest := by
  have numeral := Literal.ofNumeral?_of_decimal decimal
  apply readsNumber_of_ofInt?
  · intro literal found
    exact ⟨_, expression_eq_ok isInteger (numeral.trans found) alone, rfl,
      rfl⟩
  · intro none
    exact expression_eq_error isInteger (numeral.trans none)

end Parser

/-! ## Numbers as filters -/

namespace Script

variable {catalog : Catalog} {before after : List Node} {event : String}
  {body : Node} {callable : List String}

theorem isFilter_iff {text : String} {number : Int}
    (decimal : Text.Decimal text.toList number) :
    IsFilter text ↔
      text.toList.head? ≠ some '-' ∧ number < 18446744073709551616 := by
  constructor
  · rintro ⟨_, areDigits, bound⟩
    have unsigned := Text.unsigned_of_digits (List.all_eq_true.mp areDigits)
    have value := (decimal.of_unsigned unsigned).2.2
    rw [UInt64.size] at bound
    exact ⟨unsigned, by omega⟩
  · rintro ⟨unsigned, bound⟩
    obtain ⟨nonempty, areDigits, value⟩ := decimal.of_unsigned unsigned
    refine ⟨nonempty, List.all_eq_true.mpr areDigits, ?_⟩
    rw [UInt64.size]
    omega

/-- Triggers have no headings that are checked. -/
theorem checkHeadings_trigger (filter : String) (procs : List String) :
    checkHeadings (before ++ .trigger event filter body :: after) procs =
      checkHeadings (before ++ after) procs := by
  induction before generalizing procs with
  | nil =>
      rfl
  | cons node rest inductionHypothesis =>
      cases node with
      | proc name params body =>
          simp only [List.cons_append, checkHeadings, inductionHypothesis]
      | trigger | block | declare | assign | branch | call | literal
      | compare | var =>
          exact inductionHypothesis procs

/-- If always the same can be called, then it does not matter what has
begun. -/
theorem checkFrom_constant (begun other rest : List Node) :
    checkFrom catalog (fun _ => callable) begun rest =
      checkFrom catalog (fun _ => callable) other rest := by
  induction rest generalizing begun other with
  | nil =>
      rfl
  | cons node rest inductionHypothesis =>
      rw [checkFrom, checkFrom,
        inductionHypothesis (begun ++ [node]) (other ++ [node])]

theorem checkFrom_append (first second : List Node) :
    checkFrom catalog (fun _ => callable) [] (first ++ second) = (do
      checkFrom catalog (fun _ => callable) [] first
      checkFrom catalog (fun _ => callable) [] second) := by
  induction first with
  | nil =>
      rfl
  | cons node rest inductionHypothesis =>
      rw [List.cons_append, checkFrom, checkFrom,
        checkFrom_constant _ [] (rest ++ second), checkFrom_constant _ [] rest,
        inductionHypothesis]
      simp only [bind_assoc]

/-- A script is checked as its parts are, with the trigger between them. -/
theorem check_filtered (filter : String) :
    check catalog (before ++ .trigger event filter body :: after) = (do
      let procs ← checkHeadings (before ++ after) []
      checkFrom catalog (fun _ => procs) [] before
      checkDeclaration catalog procs (.trigger event filter body)
      checkFrom catalog (fun _ => procs) [] after) := by
  unfold check
  rw [checkHeadings_trigger]
  congr
  funext procs
  rw [checkFrom_append, checkFrom, checkFrom_constant _ [] after]

theorem check_congr_filter {filter other : String} (valid : IsFilter filter)
    (otherValid : IsFilter other) :
    check catalog (before ++ .trigger event filter body :: after) =
      check catalog (before ++ .trigger event other body :: after) := by
  simp only [check_filtered, checkDeclaration, valid, otherValid,
    not_true_eq_false, if_false]

/-- Where only the filter is wrong, it is what the error names. -/
theorem check_of_not_isFilter {filter other : String}
    (invalid : ¬ IsFilter filter)
    (checked : check catalog
      (before ++ .trigger event other body :: after) = .ok ()) :
    check catalog (before ++ .trigger event filter body :: after) =
      .error (.invalidFilter filter) := by
  rw [check_filtered] at checked ⊢
  obtain ⟨procs, headings, checked⟩ := exceptBind_eq_ok.mp checked
  obtain ⟨_, first, checked⟩ := exceptBind_eq_ok.mp checked
  obtain ⟨_, declaration, _⟩ := exceptBind_eq_ok.mp checked
  have refused : checkDeclaration catalog procs (.trigger event filter body) =
      .error (.invalidFilter filter) := by
    rw [checkDeclaration] at declaration ⊢
    by_cases unknown : ∀ listener ∈ catalog.listeners, listener.name ≠ event
    · rw [if_pos unknown] at declaration
      cases declaration
    · rw [if_neg unknown, if_pos invalid]
  exact exceptBind_eq_error.mpr (.inr ⟨procs, headings,
    exceptBind_eq_error.mpr (.inr ⟨(), first,
      exceptBind_eq_error.mpr (.inl refused)⟩)⟩)

/-- No call goes to a name that starts as those of triggers do. -/
def CallsWords (nodes : List Node) : Prop :=
  ∀ node ∈ nodes, ∀ name ∈ node.calledNames, name.toList.head? ≠ some '@'

/-- The filter of a trigger does not change what is called. -/
theorem CallsWords.refilter {filter : String}
    (words : CallsWords (before ++ .trigger event filter body :: after))
    (other : String) :
    CallsWords (before ++ .trigger event other body :: after) := by
  intro node member
  simp only [CallsWords, List.mem_append, List.mem_cons] at words member
  rcases member with earlier | rfl | later
  · exact words node (.inl earlier)
  · rw [Node.calledNames]
    have called := words (.trigger event filter body) (.inr (.inl rfl))
    rwa [Node.calledNames] at called
  · exact words node (.inr (.inr later))

theorem callsWords_of_printable {nodes : List Node}
    (printable : Node.Printable nodes) : CallsWords nodes := by
  intro node member name called
  have named : Token.isName name = true := by
    have declared := (printable node member).1
    cases node with
    | trigger event filter body =>
        rw [Node.calledNames] at called
        exact Node.isName_of_statement body declared.2.2 name called
    | proc _ params body =>
        rw [Node.calledNames] at called
        exact Node.isName_of_statement body declared.proc.2 name called
    | block | declare | assign | branch | call | literal | compare | var =>
        exact declared.elim
  obtain ⟨first, rest, split, starts, _⟩ := Token.isName_iff.mp named
  rw [split, List.head?_cons]
  intro head
  cases head
  cases starts

end Script

/-- What a number does as the filter of one trigger of a script.  It is held
against the filter `0`, which fits everywhere. -/
structure Program.FiltersBy (catalog : Catalog) (before : List Node)
    (event text : String) (number : Int) (body : Node) (after : List Node) :
    Prop where
  accepted :
    (∃ program,
        assemble catalog (before ++ .trigger event text body :: after) =
          .ok program) ↔
      (text.toList.head? ≠ some '-' ∧ number < 18446744073709551616) ∧
        ∃ program,
          assemble catalog (before ++ .trigger event "0" body :: after) =
            .ok program
  refused :
    ¬ (text.toList.head? ≠ some '-' ∧ number < 18446744073709551616) →
      (∃ program,
        assemble catalog (before ++ .trigger event "0" body :: after) =
          .ok program) →
      assemble catalog (before ++ .trigger event text body :: after) =
        .error (.invalidFilter text)
  value : ∀ program,
    assemble catalog (before ++ .trigger event text body :: after) =
        .ok program →
      ∃ row,
        program.triggers[(Declaration.triggers 0 before).length]? =
            some row ∧
          row.event = event ∧ (row.filter.toNat : Int) = number

namespace Program

variable {catalog : Catalog} {before after : List Node} {event : String}
  {body : Node} {text : String} {number : Int}

/-- The row of a trigger has the place of the trigger among all triggers, and
the value of its filter. -/
theorem filter_of_assemble {program : Program}
    (assembled : assemble catalog
      (before ++ .trigger event text body :: after) = .ok program) :
    Script.IsFilter text ∧
      ∃ row,
        program.triggers[(Declaration.triggers 0 before).length]? =
            some row ∧
          row.event = event ∧
          row.filter.toNat = Text.digitsValue text.toList := by
  obtain ⟨procs, triggers, addressOf, linked⟩ := assemble_linked assembled
  have answers := linked.answers
  rw [Declaration.triggers_append, Declaration.triggers,
    List.forall₂_iff_get] at answers
  obtain ⟨lengths, answers⟩ := answers
  have inRows : (Declaration.triggers 0 before).length <
      program.triggers.length := by
    rw [← lengths, List.length_append, List.length_cons]
    omega
  obtain ⟨filter, _, source, _, _, nonempty, areDigits, value⟩ :=
    answers (Declaration.triggers 0 before).length (by simp) inRows
  rw [List.get_eq_getElem, List.getElem_append_right (Nat.le_refl _)]
    at source
  simp only [Nat.sub_self, List.getElem_cons_zero, Option.some.injEq,
    Prod.mk.injEq] at source
  obtain ⟨eventEq, rfl⟩ := source
  refine ⟨⟨nonempty, List.all_eq_true.mpr areDigits, ?_⟩, _,
    List.getElem?_eq_getElem inRows, eventEq.symm, value⟩
  rw [← value]
  exact UInt64.toNat_lt_size _

/-- A script that calls no name with `@` in front is assembled just when it
passes the check. -/
theorem exists_assemble_iff_check {nodes : List Node}
    (words : Script.CallsWords nodes) :
    (∃ program, assemble catalog nodes = .ok program) ↔
      Script.check catalog nodes = .ok () := by
  rw [exists_assemble_iff, Script.check_eq_checkWithTriggers words]

theorem assemble_eq_error {nodes : List Node} {error : CompileError}
    (words : Script.CallsWords nodes)
    (checked : Script.check catalog nodes = .error error) :
    assemble catalog nodes = .error error := by
  rw [Script.check_eq_checkWithTriggers words] at checked
  rcases assemble_outcome catalog nodes with
    ⟨found, failed, same⟩ | ⟨_, _, nothing⟩
  · rw [checked] at same
    cases same
    exact failed
  · rw [checked] at nothing
    cases nothing

theorem filtersBy (decimal : Text.Decimal text.toList number)
    (words : Script.CallsWords
      (before ++ .trigger event text body :: after)) :
    FiltersBy catalog before event text number body after := by
  have zeroWords := words.refilter "0"
  have zero : Script.IsFilter "0" := by
    decide
  have limits := Script.isFilter_iff decimal
  constructor
  case accepted =>
    constructor
    · intro compiles
      obtain ⟨program, assembled⟩ := compiles
      have valid := (filter_of_assemble assembled).1
      rw [← limits, exists_assemble_iff_check zeroWords,
        ← Script.check_congr_filter valid zero,
        ← exists_assemble_iff_check words]
      exact ⟨valid, program, assembled⟩
    · rintro ⟨inside, compiles⟩
      rw [← limits] at inside
      rw [exists_assemble_iff_check zeroWords,
        ← Script.check_congr_filter inside zero] at compiles
      exact (exists_assemble_iff_check words).mpr compiles
  case refused =>
    intro outside compiles
    rw [← limits] at outside
    rw [exists_assemble_iff_check zeroWords] at compiles
    exact assemble_eq_error words
      (Script.check_of_not_isFilter outside compiles)
  case value =>
    intro program assembled
    obtain ⟨valid, row, place, eventEq, value⟩ :=
      filter_of_assemble assembled
    have unsigned := (limits.mp valid).1
    refine ⟨row, place, eventEq, ?_⟩
    rw [value]
    exact (decimal.of_unsigned unsigned).2.2

end Program

/-! ## Numbers of declarations -/

theorem Text.trim_enclosed {before after middle : List Char} {first last : Char}
    (blankBefore : AllBlank before) (blankAfter : AllBlank after)
    (firstNoBlank : isBlank first = false)
    (lastNoBlank : isBlank last = false) :
    trim (before ++ (first :: middle ++ [last] ++ after)) =
      first :: middle ++ [last] := by
  have starts : trimStart (before ++ (first :: middle ++ [last] ++ after)) =
      first :: middle ++ last :: after := by
    rw [trimStart, List.dropWhile_append_of_pos blankBefore,
      List.append_assoc, List.cons_append, List.dropWhile_cons_of_neg]
    · rfl
    · rw [firstNoBlank]
      exact Bool.false_ne_true
  rw [trim, starts, trimEnd_append lastNoBlank blankAfter]

namespace Catalog

open Text

def Entry.withId (entry : Entry) (id : UInt32) : Entry :=
  match entry with
  | function declared => .function { declared with id }
  | listener declared => .listener { declared with id }

def declarationText (signature beforeId numeral afterId : List Char) :
    List Char :=
  signature ++ '-' :: '>' :: (beforeId ++ (numeral ++ afterId)) ++ [';']

/-- What stands behind the arrow of a declaration: a numeral and blanks. -/
structure NumeralPart (beforeId numeral afterId : List Char) : Prop where
  before : AllBlank beforeId
  digits : ∀ c ∈ numeral, c.isDigit = true
  after : AllBlank afterId

variable {signature beforeId numeral other afterId : List Char}
  {entry : Entry}

theorem dropEnd?_declarationText
    (signature beforeId numeral afterId : List Char) :
    dropEnd? ';' (declarationText signature beforeId numeral afterId) =
      some (signature ++
        '-' :: '>' :: (beforeId ++ (numeral ++ afterId))) :=
  dropEnd?_eq_some_iff.mpr rfl

namespace NumeralPart

theorem cutLastArrow?_eq (part : NumeralPart beforeId numeral afterId)
    (signature : List Char) :
    cutLastArrow? (signature ++
        '-' :: '>' :: (beforeId ++ (numeral ++ afterId))) =
      some (signature, beforeId ++ (numeral ++ afterId)) := by
  apply cutLastArrow?_append
  simp only [List.mem_append, not_or]
  exact ⟨notMem_of_refused part.before rfl,
    notMem_of_refused part.digits rfl, notMem_of_refused part.after rfl⟩

theorem trim_eq (part : NumeralPart beforeId numeral afterId) :
    trim (beforeId ++ (numeral ++ afterId)) = numeral :=
  trim_append part.before part.after
    fun c member => isBlank_of_isDigit (part.digits c member)

/-- A numeral that is refused is what is wrong with its declaration. -/
theorem readEntry_eq_error (part : NumeralPart beforeId numeral afterId)
    {fault : Fault} (refused : readId numeral = .error fault) :
    readEntry (declarationText signature beforeId numeral afterId) =
      .error fault := by
  unfold readEntry
  refine exceptBind_eq_error.mpr (.inr ⟨_, required_eq_ok.mpr
    (dropEnd?_declarationText signature beforeId numeral afterId), ?_⟩)
  refine exceptBind_eq_error.mpr (.inr ⟨_, required_eq_ok.mpr
    (part.cutLastArrow?_eq signature), ?_⟩)
  refine exceptBind_eq_error.mpr (.inl ?_)
  rw [part.trim_eq, refused]

/-- With another number, everything else that is declared stays the same. -/
theorem readEntry_withId (part : NumeralPart beforeId numeral afterId)
    (otherPart : NumeralPart beforeId other afterId) {id : UInt32}
    (read : readEntry (declarationText signature beforeId numeral afterId) =
      .ok entry)
    (numbered : readId other = .ok id) :
    readEntry (declarationText signature beforeId other afterId) =
      .ok (entry.withId id) := by
  unfold readEntry at read ⊢
  -- The cuts of the first reading are those of the second one.
  obtain ⟨_, dropped, read⟩ := exceptBind_eq_ok.mp read
  rw [dropEnd?_declarationText] at dropped
  cases dropped
  obtain ⟨_, cut, read⟩ := exceptBind_eq_ok.mp read
  rw [part.cutLastArrow?_eq signature] at cut
  cases cut
  obtain ⟨_, _, read⟩ := exceptBind_eq_ok.mp read
  obtain ⟨opened, closed, read⟩ := exceptBind_eq_ok.mp read
  obtain ⟨⟨head, inner⟩, separated, read⟩ := exceptBind_eq_ok.mp read
  refine exceptBind_eq_ok.mpr ⟨_, required_eq_ok.mpr
    (dropEnd?_declarationText signature beforeId other afterId), ?_⟩
  refine exceptBind_eq_ok.mpr ⟨_, required_eq_ok.mpr
    (otherPart.cutLastArrow?_eq signature), ?_⟩
  refine exceptBind_eq_ok.mpr ⟨id, ?_, ?_⟩
  · rw [otherPart.trim_eq, numbered]
  refine exceptBind_eq_ok.mpr ⟨opened, closed, ?_⟩
  refine exceptBind_eq_ok.mpr ⟨(head, inner), separated, ?_⟩
  dsimp only at read ⊢
  split at read
  · rename_i kind name _
    split at read
    · rename_i named
      obtain ⟨params, listed, read⟩ := exceptBind_eq_ok.mp read
      rw [if_pos named]
      refine exceptBind_eq_ok.mpr ⟨params, listed, ?_⟩
      split at read
      · rename_i isListener
        cases read
        rw [if_pos isListener]
        rfl
      · rename_i notListener
        rw [if_neg notListener]
        split at read
        · cases read
          rfl
        · cases read
    · cases read
  · cases read

end NumeralPart

theorem isComment_of_isNamePart {first : Char} (part : isNamePart first = true)
    (rest : List Char) : isComment (first :: rest) = false := by
  unfold isComment
  split
  · rename_i empty
    cases empty
  · rename_i starts
    cases starts
    cases part
  · rename_i starts
    cases starts
    cases part
  · rfl

/-- Declarations start with the kind of what they declare. -/
theorem Declares.exists_signature
    (declares : Declares
      (declarationText signature beforeId numeral afterId) entry) :
    ∃ first more, signature = first :: more ∧ isNamePart first = true := by
  generalize textEq : declarationText signature beforeId numeral afterId =
    text at declares
  cases declares with
  | @mk kind _ _ _ _ _ _ ofKind =>
      obtain ⟨nonempty, parts⟩ := ofKind.isNamePart
      obtain ⟨first, more, rfl⟩ := List.exists_cons_of_ne_nil nonempty
      have isPart := parts first List.mem_cons_self
      cases signature with
      | nil =>
          have heads : some '-' = some first := congrArg List.head? textEq
          cases heads
          cases isPart
      | cons other rest =>
          have heads : some other = some first := congrArg List.head? textEq
          cases heads
          exact ⟨first, rest, rfl, isPart⟩

theorem insertLine_declarationText {before after more : List Char}
    {first : Char} (catalog : Catalog) (blankBefore : AllBlank before)
    (blankAfter : AllBlank after) (isPart : isNamePart first = true) :
    catalog.insertLine (before ++
        (declarationText (first :: more) beforeId numeral afterId ++
          after)) =
      (readEntry (declarationText (first :: more) beforeId numeral
        afterId)).bind catalog.insert := by
  have trimmed : trim (before ++
      (declarationText (first :: more) beforeId numeral afterId ++ after)) =
        declarationText (first :: more) beforeId numeral afterId :=
    trim_enclosed blankBefore blankAfter (isBlank_of_isNamePart isPart) rfl
  have noComment : isComment
      (declarationText (first :: more) beforeId numeral afterId) = false :=
    isComment_of_isNamePart isPart _
  unfold insertLine
  rw [trimmed]
  dsimp only
  rw [noComment]
  rfl

theorem readId_eq_error (nonempty : numeral ≠ [])
    (areDigits : ∀ c ∈ numeral, c.isDigit = true)
    (large : 4294967296 ≤ digitsValue numeral) :
    readId numeral = .error (.idOutOfRange (String.ofList numeral)) := by
  have read := readNat?_eq_some_iff.mpr ⟨nonempty, areDigits, rfl⟩
  unfold readId
  rw [read]
  exact if_neg (Nat.not_lt.mpr large)

/-- What a number does as the number of a declaration on a line. -/
structure NumbersBy (catalog : Catalog) (line : List Char) (entry : Entry)
    (text : String) (number : Int) : Prop where
  accepted : number < 4294967296 →
    ∃ id : UInt32, (id.toNat : Int) = number ∧
      catalog.insertLine line = catalog.insert (entry.withId id)
  refused : 4294967296 ≤ number →
    catalog.insertLine line = .error (.idOutOfRange text)

theorem numbersBy {catalog : Catalog} {text : String} {number : Int}
    {before after : List Char} (blankBefore : AllBlank before)
    (blankAfter : AllBlank after)
    (part : NumeralPart beforeId text.toList afterId)
    (decimal : Decimal text.toList number)
    (unsigned : text.toList.head? ≠ some '-')
    (declares : Declares (declarationText signature beforeId ['0'] afterId)
      entry) :
    catalog.NumbersBy
      (before ++
        (declarationText signature beforeId text.toList afterId ++ after))
      entry text number := by
  obtain ⟨first, more, rfl, isPart⟩ := declares.exists_signature
  obtain ⟨nonempty, areDigits, value⟩ := decimal.of_unsigned unsigned
  have inserted : catalog.insertLine (before ++ (declarationText
      (first :: more) beforeId text.toList afterId ++ after)) = _ :=
    insertLine_declarationText catalog blankBefore blankAfter isPart
  constructor
  case accepted =>
    intro bound
    have exactly : (UInt32.ofNat (digitsValue text.toList)).toNat =
        digitsValue text.toList :=
      UInt32.toNat_ofNat_of_lt' (by rw [UInt32.size]; omega)
    have zero : NumeralPart beforeId ['0'] afterId :=
      ⟨part.before, List.forall_mem_singleton.mpr rfl, part.after⟩
    have read := zero.readEntry_withId part declares.readEntry_eq
      (readId_eq_ok_iff.mpr ⟨nonempty, areDigits, exactly.symm⟩)
    refine ⟨UInt32.ofNat (digitsValue text.toList), ?_, ?_⟩
    · rw [exactly, value]
    · rw [inserted, read]
      rfl
  case refused =>
    intro large
    have tooLarge := readId_eq_error nonempty areDigits (by omega)
    rw [String.ofList_toList] at tooLarge
    rw [inserted, part.readEntry_eq_error tooLarge]
    rfl

end Catalog

/-! ## All limits -/

/-- The integers that scanning gives are the decimal numbers.  Each is read up
to the limits of its place, and nowhere as another number: as an expression, as
the filter of a trigger, and, if it has no sign, as the number in a line that
would declare something with the number `0`.  Filters are those of scripts that
call words, as every source text does. -/
theorem numeral_limits (text : String) :
    ((∃ source tokens token, Token.scan source = .ok tokens ∧
        token ∈ tokens ∧ token.kind = .integer ∧ token.text = text) ↔
      ∃ number, Text.Decimal text.toList number) ∧
    (∀ source tokens nodes, Token.scan source = .ok tokens →
      Node.parse tokens = .ok nodes →
        Script.CallsWords nodes ∧
          ∀ catalog, Program.compile catalog source =
            (Program.assemble catalog nodes).mapError .compile) ∧
    ∀ number, Text.Decimal text.toList number →
      (∀ (token : Token) rest passed,
        token.kind = .integer → token.text = text →
          (Parser.primary ⟨token :: rest, passed⟩).ReadsNumber number token
            rest ∧
          ((∀ next ∈ rest.head?, next.kind.isComparator = false) →
            (Parser.expression ⟨token :: rest, passed⟩).ReadsNumber number
              token rest)) ∧
      (∀ catalog before event body after,
        Script.CallsWords (before ++ .trigger event text body :: after) →
        Program.FiltersBy catalog before event text number body after) ∧
      (∀ (catalog : Catalog) entry signature beforeId afterId before after,
        text.toList.head? ≠ some '-' →
        Text.AllBlank beforeId → Text.AllBlank afterId →
        Text.AllBlank before → Text.AllBlank after →
        Catalog.Declares
          (Catalog.declarationText signature beforeId ['0'] afterId) entry →
        catalog.NumbersBy
          (before ++ (Catalog.declarationText signature beforeId text.toList
            afterId ++ after))
          entry text number) := by
  refine ⟨Token.exists_scan_integer_iff, ?_, ?_⟩
  · intro source tokens nodes scanned parsed
    have printable := Node.printable_of_scan scanned parsed
    exact ⟨Script.callsWords_of_printable printable,
      fun _ => Program.compile_of_parse scanned parsed⟩
  intro number decimal
  refine ⟨?_, ?_, ?_⟩
  · rintro token rest passed isInteger rfl
    exact ⟨Parser.primary_readsNumber isInteger decimal,
      Parser.expression_readsNumber isInteger decimal⟩
  · intro catalog before event body after words
    exact Program.filtersBy decimal words
  · intro catalog entry signature beforeId afterId before after unsigned
      blankBeforeId blankAfterId blankBefore blankAfter declares
    have areDigits := (decimal.of_unsigned unsigned).2.1
    exact Catalog.numbersBy blankBefore blankAfter
      ⟨blankBeforeId, areDigits, blankAfterId⟩ decimal unsigned declares

/-- The largest number of 64 bits, with leading zeros. -/
def widestNumeral : String :=
  "0018446744073709551615"

/-- It is too large for an expression and for the number of a function, but it
is a filter. -/
theorem numeral_limits_widest :
    Text.Decimal widestNumeral.toList 18446744073709551615 ∧
      Parser.expression ⟨[⟨.integer, widestNumeral, ⟨4, 26⟩⟩], none⟩ =
        .error ⟨⟨.numberOutOfRange widestNumeral, 4⟩, ⟨[], some 4⟩⟩ ∧
      (∃ program row,
        Program.assemble doorCatalog
            [.trigger "knock" widestNumeral (.block [])] = .ok program ∧
          program.triggers[0]? = some row ∧
          (row.filter.toNat : Int) = 18446744073709551615) ∧
      Catalog.insertLine {} (" int add(int a) -> ".toList ++
          (widestNumeral.toList ++ [';'])) =
        .error (.idOutOfRange widestNumeral) := by
  have decimal : Text.Decimal widestNumeral.toList 18446744073709551615 :=
    .plain (by decide) (List.all_eq_true.mp (by decide))
  obtain ⟨asExpression, asFilter, asId⟩ :=
    (numeral_limits widestNumeral).2.2 _ decimal
  refine ⟨decimal, ?_, ?_, ?_⟩
  · exact ((asExpression ⟨.integer, widestNumeral, ⟨4, 26⟩⟩ [] none rfl rfl).2
      (by simp)).outside (by decide)
  · have filters := asFilter doorCatalog [] "knock" (.block []) []
      (by simp [Script.CallsWords, Node.calledNames, Node.allCalledNames])
    obtain ⟨program, assembled⟩ := filters.accepted.mpr
      ⟨⟨by decide, by decide⟩, _, rfl⟩
    obtain ⟨row, place, _, value⟩ := filters.value program assembled
    exact ⟨program, row, assembled, place, value⟩
  · have starts : ∀ c ∈ (Catalog.declarationText "int add(int a) ".toList
        [' '] ['0'] []).head?, Text.isBlank c = false := by
      intro c isHead
      cases isHead
      rfl
    have declares : Catalog.Declares
        (Catalog.declarationText "int add(int a) ".toList [' '] ['0'] [])
        (.function ⟨.int, "add", [⟨.int, "a"⟩], 0⟩) :=
      (Catalog.readEntry_eq_ok_iff starts).mp rfl
    have space : Text.AllBlank [' '] := List.forall_mem_singleton.mpr rfl
    have nothing : Text.AllBlank [] := List.forall_mem_nil _
    exact (asId {} _ "int add(int a) ".toList [' '] [] [' '] [] (by decide)
      space nothing space nothing declares).refused (by decide)

end TriggerScript
