import TriggerScript.Proofs.Grammar
import TriggerScript.Proofs.Outcomes

/-!
# What the parser accepts follows the grammar

A parser that succeeds has passed tokens that derive the tree it returns, and
stands right behind them.  A statement that ends in an open `if` is never
followed by an `else`, because the parser would have taken it.
-/

namespace TriggerScript

def Token.firstKind? (tokens : List Token) : Option Token.Kind :=
  tokens.head?.map Token.kind

/-! ## Integer literals -/

namespace Literal

theorem ofInt?_eq_some_iff {number : Int} {value : Literal} :
    ofInt? number = some value ↔ value.Denotes number := by
  have narrowBounds : Int32.minValue.toInt = -2147483648 ∧
      Int32.maxValue.toInt = 2147483647 := by
    decide
  have wideBounds : Int64.minValue.toInt = -9223372036854775808 ∧
      Int64.maxValue.toInt = 9223372036854775807 := by
    decide
  unfold ofInt?
  constructor
  · intro found
    split at found
    · rename_i narrow
      cases found
      have exactly : (Int32.ofInt number).toInt = number :=
        Int32.toInt_ofInt_of_le (by omega) (by omega)
      have denoted := Denotes.int (Int32.ofInt number)
      rwa [exactly] at denoted
    · split at found
      · rename_i notNarrow wide
        cases found
        have exactly : (Int64.ofInt number).toInt = number :=
          Int64.toInt_ofInt_of_le (by omega) (by omega)
        have denoted := Denotes.long (Int64.ofInt number) (by omega)
        rwa [exactly] at denoted
      · cases found
  · intro denoted
    cases denoted with
    | int value =>
        have lower := value.minValue_le_toInt
        have upper := value.toInt_le
        rw [if_pos ⟨lower, upper⟩, Int32.ofInt_toInt]
    | long value wide =>
        have lower := value.minValue_le_toInt
        have upper := value.toInt_le
        rw [if_neg (by omega), if_pos ⟨lower, upper⟩, Int64.ofInt_toInt]

theorem ofNumeral?_eq_some_iff {text : String} {value : Literal} :
    ofNumeral? text = some value ↔
      ∃ number, Text.readInt? text.toList = some number ∧
        value.Denotes number := by
  simp only [ofNumeral?, Option.bind_eq_some_iff, ofInt?_eq_some_iff]

end Literal

/-! ## Steps of a parser -/

namespace Cursor

variable {cursor : Cursor} {kind : Token.Kind} {parsed : Parsed cursor Token}

theorem pass?_eq_some (passed : cursor.pass? = some parsed) :
    cursor.rest = parsed.value :: parsed.next.rest := by
  cases cursor with
  | mk rest last =>
      cases rest with
      | nil =>
          cases passed
      | cons token rest =>
          cases passed
          rfl

theorem rest_eq_nil (atEnd : cursor.pass? = none) : cursor.rest = [] := by
  cases cursor with
  | mk rest passed =>
      cases rest with
      | nil =>
          rfl
      | cons token rest =>
          cases atEnd

theorem passIf?_eq_some (passed : cursor.passIf? kind = some parsed) :
    cursor.rest = parsed.value :: parsed.next.rest ∧
      parsed.value.kind = kind := by
  obtain ⟨stepped, same⟩ := Option.filter_eq_some_iff.mp passed
  exact ⟨pass?_eq_some stepped, by simpa using same⟩

theorem passIf?_eq_none (stayed : cursor.passIf? kind = none) :
    Token.firstKind? cursor.rest ≠ some kind := by
  cases cursor with
  | mk rest last =>
      cases rest with
      | nil =>
          simp [Token.firstKind?]
      | cons token rest =>
          simpa [passIf?, pass?, Token.firstKind?] using stayed

theorem expect_eq_ok {phrase : Phrase}
    (passed : cursor.expect kind phrase = .ok parsed) :
    cursor.rest = parsed.value :: parsed.next.rest ∧
      parsed.value.kind = kind := by
  unfold expect at passed
  cases found : cursor.passIf? kind with
  | none =>
      rw [found] at passed
      cases passed
  | some token =>
      rw [found] at passed
      cases passed
      exact passIf?_eq_some found

/-- Where the kind of the next token is known, passing it means to expect a
token of this kind. -/
theorem pass_eq_expect (kindEq : cursor.kind? = some kind)
    (phrase : Phrase) :
    cursor.pass phrase = cursor.expect kind phrase := by
  cases cursor with
  | mk rest last =>
      cases rest with
      | nil =>
          cases kindEq
      | cons token rest =>
          have same : token.kind = kind := Option.some.inj kindEq
          simp [pass, expect, passIf?, pass?, Option.filter_some, same]

end Cursor

namespace Attempt

/-- An attempt gives a value and leaves the parser before some tokens. -/
def Reads {start : Cursor} {α : Type}
    (attempt : Attempt (Parsed start α)) (value : α)
    (rest : List Token) : Prop :=
  ∃ parsed, attempt = .ok parsed ∧ parsed.value = value ∧
    parsed.next.rest = rest

theorem reads_bind {start : Cursor} {α β : Type} {value : β}
    {rest : List Token} {first : Attempt α}
    {next : α → Attempt (Parsed start β)} :
    Reads (first >>= next) value rest ↔
      ∃ middle, first = .ok middle ∧ Reads (next middle) value rest := by
  constructor
  · rintro ⟨parsed, run, found⟩
    obtain ⟨middle, firstRun, run⟩ := exceptBind_eq_ok.mp run
    exact ⟨middle, firstRun, parsed, run, found⟩
  · rintro ⟨middle, firstRun, parsed, run, found⟩
    exact ⟨parsed, exceptBind_eq_ok.mpr ⟨middle, firstRun, run⟩, found⟩

end Attempt

theorem Grammar.Call.exists_eq {tokens : List Token} {node : Node}
    (derived : Call tokens node) :
    ∃ name args, node = .call name args := by
  cases derived with
  | empty =>
      exact ⟨_, _, rfl⟩
  | filled =>
      exact ⟨_, _, rfl⟩

namespace Parser

open Attempt Grammar

/-! ## Expressions -/

mutual

theorem primary_sound (start : Cursor) {node : Node} {rest : List Token}
    (reads : Reads (primary start) node rest) :
    ∃ tokens, start.rest = tokens ++ rest ∧ Primary tokens node := by
  rw [primary] at reads
  split at reads
  · obtain ⟨parsed, impossible, _⟩ := reads
    cases impossible
  · rename_i first passed
    have opening := Cursor.pass?_eq_some passed
    have := first.shorter
    split at reads
    · rename_i kindEq
      split at reads
      · rename_i literal literalEq
        obtain ⟨parsed, ⟨⟩, rfl, rfl⟩ := reads
        obtain ⟨number, readEq, denoted⟩ :=
          Literal.ofNumeral?_eq_some_iff.mp literalEq
        exact ⟨[first.value], opening, .integer kindEq readEq denoted⟩
      · obtain ⟨parsed, impossible, _⟩ := reads
        cases impossible
    · rename_i kindEq
      obtain ⟨parsed, ⟨⟩, rfl, rfl⟩ := reads
      exact ⟨[first.value], opening, .string kindEq⟩
    · rename_i kindEq
      obtain ⟨parsed, ⟨⟩, rfl, rfl⟩ := reads
      exact ⟨[first.value], opening, .bool kindEq⟩
    · rename_i kindEq
      split at reads
      · obtain ⟨tokens, consumed, derived⟩ := call_sound start reads
        exact ⟨tokens, consumed, .call derived⟩
      · obtain ⟨parsed, ⟨⟩, rfl, rfl⟩ := reads
        exact ⟨[first.value], opening, .var kindEq⟩
    · rename_i kindEq
      obtain ⟨inner, innerRun, reads⟩ := reads_bind.mp reads
      obtain ⟨close, closed, reads⟩ := reads_bind.mp reads
      obtain ⟨parsed, ⟨⟩, rfl, rfl⟩ := reads
      obtain ⟨closing, closeKind⟩ := Cursor.expect_eq_ok closed
      obtain ⟨tokens, consumed, derived⟩ :=
        expression_sound first.next ⟨inner, innerRun, rfl, rfl⟩
      refine ⟨_, ?_, .group kindEq derived closeKind⟩
      rw [opening, consumed, closing]
      simp
    · obtain ⟨parsed, impossible, _⟩ := reads
      cases impossible
termination_by 8 * start.rest.length + 1

theorem expression_sound (start : Cursor) {node : Node}
    {rest : List Token} (reads : Reads (expression start) node rest) :
    ∃ tokens, start.rest = tokens ++ rest ∧ Expression tokens node := by
  rw [expression] at reads
  obtain ⟨left, leftRun, reads⟩ := reads_bind.mp reads
  obtain ⟨tokens, consumed, derived⟩ :=
    primary_sound start ⟨left, leftRun, rfl, rfl⟩
  have := left.shorter
  split at reads
  · obtain ⟨parsed, ⟨⟩, rfl, rfl⟩ := reads
    exact ⟨tokens, consumed, .primary derived⟩
  · rename_i sign passed
    split at reads
    · rename_i isComparator
      have := sign.shorter
      obtain ⟨right, rightRun, reads⟩ := reads_bind.mp reads
      obtain ⟨parsed, ⟨⟩, rfl, rfl⟩ := reads
      obtain ⟨more, consumedMore, derivedMore⟩ :=
        primary_sound sign.next ⟨right, rightRun, rfl, rfl⟩
      refine ⟨_, ?_, .compare derived isComparator derivedMore⟩
      rw [consumed, Cursor.pass?_eq_some passed, consumedMore]
      simp
    · obtain ⟨parsed, ⟨⟩, rfl, rfl⟩ := reads
      exact ⟨tokens, consumed, .primary derived⟩
termination_by 8 * start.rest.length + 2

theorem call_sound (start : Cursor) {node : Node} {rest : List Token}
    (reads : Reads (call start) node rest) :
    ∃ tokens, start.rest = tokens ++ rest ∧ Call tokens node := by
  rw [call] at reads
  obtain ⟨name, named, reads⟩ := reads_bind.mp reads
  obtain ⟨opened, opening, reads⟩ := reads_bind.mp reads
  obtain ⟨nameEq, nameKind⟩ := Cursor.expect_eq_ok named
  obtain ⟨openedEq, openedKind⟩ := Cursor.expect_eq_ok opening
  have := name.shorter
  have := opened.shorter
  split at reads
  · rename_i close closing
    obtain ⟨parsed, ⟨⟩, rfl, rfl⟩ := reads
    obtain ⟨closeEq, closeKind⟩ := Cursor.passIf?_eq_some closing
    refine ⟨_, ?_, .empty nameKind openedKind closeKind⟩
    rw [nameEq, openedEq, closeEq]
    rfl
  · obtain ⟨args, argsRun, reads⟩ := reads_bind.mp reads
    obtain ⟨parsed, ⟨⟩, rfl, rfl⟩ := reads
    obtain ⟨tokens, closing, consumed, closeKind, derived⟩ :=
      arguments_sound opened.next ⟨args, argsRun, rfl, rfl⟩
    refine ⟨_, ?_, .filled nameKind openedKind derived closeKind⟩
    rw [nameEq, openedEq, consumed]
    simp
termination_by 8 * start.rest.length

theorem arguments_sound (start : Cursor) {nodes : List Node}
    {rest : List Token} (reads : Reads (arguments start) nodes rest) :
    ∃ tokens closing, start.rest = tokens ++ closing :: rest ∧
      closing.kind = .rightParen ∧ Arguments tokens nodes := by
  rw [arguments] at reads
  obtain ⟨first, firstRun, reads⟩ := reads_bind.mp reads
  obtain ⟨tokens, consumed, derived⟩ :=
    expression_sound start ⟨first, firstRun, rfl, rfl⟩
  have := first.shorter
  split at reads
  · rename_i comma passed
    obtain ⟨commaEq, commaKind⟩ := Cursor.passIf?_eq_some passed
    have := comma.shorter
    obtain ⟨others, othersRun, reads⟩ := reads_bind.mp reads
    obtain ⟨parsed, ⟨⟩, rfl, rfl⟩ := reads
    obtain ⟨more, closing, consumedMore, closeKind, derivedMore⟩ :=
      arguments_sound comma.next ⟨others, othersRun, rfl, rfl⟩
    refine ⟨_, closing, ?_, closeKind, .cons derived commaKind derivedMore⟩
    rw [consumed, commaEq, consumedMore]
    simp
  · obtain ⟨close, closed, reads⟩ := reads_bind.mp reads
    obtain ⟨parsed, ⟨⟩, rfl, rfl⟩ := reads
    obtain ⟨closing, closeKind⟩ := Cursor.expect_eq_ok closed
    refine ⟨tokens, close.value, ?_, closeKind, .single derived⟩
    rw [consumed, closing]
termination_by 8 * start.rest.length + 3

end

/-! ## Statements -/

/-- A statement stands at the front, followed by `rest`.  Every `else` in it
belongs to the nearest `if`, and so would one behind it. -/
structure StatementAt (start : Cursor) (node : Node)
    (rest : List Token) : Prop where
  span : ∃ tokens, start.rest = tokens ++ rest ∧ Statement tokens node
  nearest : node.NearestElse
  complete : node.endsOpen = true →
    Token.firstKind? rest ≠ some .keyElse

theorem declaration_sound (start : Cursor) {node : Node}
    {rest : List Token} (reads : Reads (declaration start) node rest) :
    StatementAt start node rest := by
  rw [declaration] at reads
  obtain ⟨type, typed, reads⟩ := reads_bind.mp reads
  obtain ⟨name, named, reads⟩ := reads_bind.mp reads
  obtain ⟨typeEq, typeKind⟩ := Cursor.expect_eq_ok typed
  obtain ⟨nameEq, nameKind⟩ := Cursor.expect_eq_ok named
  split at reads
  · rename_i sign passed
    obtain ⟨signEq, signKind⟩ := Cursor.passIf?_eq_some passed
    obtain ⟨value, valueRun, reads⟩ := reads_bind.mp reads
    obtain ⟨close, closed, reads⟩ := reads_bind.mp reads
    obtain ⟨parsed, ⟨⟩, rfl, rfl⟩ := reads
    obtain ⟨closeEq, closeKind⟩ := Cursor.expect_eq_ok closed
    obtain ⟨tokens, consumed, derived⟩ :=
      expression_sound sign.next ⟨value, valueRun, rfl, rfl⟩
    refine ⟨⟨_, ?_, .declareWith typeKind nameKind signKind derived
      closeKind⟩, trivial, by simp [Node.endsOpen]⟩
    rw [typeEq, nameEq, signEq, consumed, closeEq]
    simp
  · obtain ⟨close, closed, reads⟩ := reads_bind.mp reads
    obtain ⟨parsed, ⟨⟩, rfl, rfl⟩ := reads
    obtain ⟨closeEq, closeKind⟩ := Cursor.expect_eq_ok closed
    refine ⟨⟨_, ?_, .declare typeKind nameKind closeKind⟩, trivial,
      by simp [Node.endsOpen]⟩
    rw [typeEq, nameEq, closeEq]
    rfl

theorem assignment_sound (start : Cursor) {node : Node}
    {rest : List Token} (reads : Reads (assignment start) node rest) :
    StatementAt start node rest := by
  rw [assignment] at reads
  obtain ⟨name, named, reads⟩ := reads_bind.mp reads
  obtain ⟨sign, signed, reads⟩ := reads_bind.mp reads
  obtain ⟨value, valueRun, reads⟩ := reads_bind.mp reads
  obtain ⟨close, closed, reads⟩ := reads_bind.mp reads
  obtain ⟨parsed, ⟨⟩, rfl, rfl⟩ := reads
  obtain ⟨nameEq, nameKind⟩ := Cursor.expect_eq_ok named
  obtain ⟨signEq, signKind⟩ := Cursor.expect_eq_ok signed
  obtain ⟨closeEq, closeKind⟩ := Cursor.expect_eq_ok closed
  obtain ⟨tokens, consumed, derived⟩ :=
    expression_sound sign.next ⟨value, valueRun, rfl, rfl⟩
  refine ⟨⟨_, ?_, .assign nameKind signKind derived closeKind⟩, trivial,
    by simp [Node.endsOpen]⟩
  rw [nameEq, signEq, consumed, closeEq]
  simp

theorem callStatement_sound (start : Cursor) {node : Node}
    {rest : List Token} (reads : Reads (callStatement start) node rest) :
    StatementAt start node rest := by
  rw [callStatement] at reads
  obtain ⟨made, madeRun, reads⟩ := reads_bind.mp reads
  obtain ⟨close, closed, reads⟩ := reads_bind.mp reads
  obtain ⟨parsed, ⟨⟩, rfl, rfl⟩ := reads
  obtain ⟨closeEq, closeKind⟩ := Cursor.expect_eq_ok closed
  obtain ⟨tokens, consumed, derived⟩ :=
    call_sound start ⟨made, madeRun, rfl, rfl⟩
  obtain ⟨name, args, callEq⟩ := derived.exists_eq
  constructor
  · refine ⟨_, ?_, .call derived closeKind⟩
    rw [consumed, closeEq]
    simp
  · change made.value.NearestElse
    rw [callEq]
    trivial
  · change made.value.endsOpen = true → _
    rw [callEq]
    simp [Node.endsOpen]

mutual

theorem statement_sound (start : Cursor) {node : Node}
    {rest : List Token} (reads : Reads (statement start) node rest) :
    StatementAt start node rest := by
  rw [statement] at reads
  split at reads
  · obtain ⟨⟨tokens, consumed, derived⟩, nearest⟩ :=
      block_sound start reads
    cases derived with
    | braces openedKind inner closeKind =>
        exact ⟨⟨_, consumed, .block (.braces openedKind inner closeKind)⟩,
          nearest, by simp [Node.endsOpen]⟩
  · rename_i isIf
    exact branch_sound start isIf reads
  · exact declaration_sound start reads
  · exact assignment_sound start reads
  · exact callStatement_sound start reads
  · obtain ⟨parsed, impossible, _⟩ := reads
    cases impossible
termination_by 8 * start.rest.length + 1

theorem block_sound (start : Cursor) {node : Node} {rest : List Token}
    (reads : Reads (block start) node rest) :
    (∃ tokens, start.rest = tokens ++ rest ∧ Block tokens node) ∧
      node.NearestElse := by
  rw [block] at reads
  obtain ⟨opened, opening, reads⟩ := reads_bind.mp reads
  obtain ⟨inner, innerRun, reads⟩ := reads_bind.mp reads
  obtain ⟨parsed, ⟨⟩, rfl, rfl⟩ := reads
  obtain ⟨openedEq, openedKind⟩ := Cursor.expect_eq_ok opening
  have := opened.shorter
  obtain ⟨⟨tokens, closing, consumed, closeKind, derived⟩, nearest⟩ :=
    statements_sound opened.next ⟨inner, innerRun, rfl, rfl⟩
  refine ⟨⟨_, ?_, .braces openedKind derived closeKind⟩, nearest⟩
  rw [openedEq, consumed]
  simp
termination_by 8 * start.rest.length

theorem statements_sound (start : Cursor) {nodes : List Node}
    {rest : List Token} (reads : Reads (statements start) nodes rest) :
    (∃ tokens closing, start.rest = tokens ++ closing :: rest ∧
      closing.kind = .rightBrace ∧ Statements tokens nodes) ∧
      Node.AllNearestElse nodes := by
  rw [statements] at reads
  split at reads
  · obtain ⟨parsed, impossible, _⟩ := reads
    cases impossible
  · rename_i first passed
    split at reads
    · rename_i kindEq
      obtain ⟨parsed, ⟨⟩, rfl, rfl⟩ := reads
      exact ⟨⟨[], first.value, Cursor.pass?_eq_some passed, kindEq, .nil⟩,
        trivial⟩
    · obtain ⟨parsed, impossible, _⟩ := reads
      cases impossible
    · obtain ⟨head, headRun, reads⟩ := reads_bind.mp reads
      obtain ⟨others, othersRun, reads⟩ := reads_bind.mp reads
      obtain ⟨parsed, ⟨⟩, rfl, rfl⟩ := reads
      have := head.shorter
      obtain ⟨⟨tokens, consumed, derived⟩, nearest, _⟩ :=
        statement_sound start ⟨head, headRun, rfl, rfl⟩
      obtain ⟨⟨more, closing, consumedMore, closeKind, derivedMore⟩,
        nearestMore⟩ :=
        statements_sound head.next ⟨others, othersRun, rfl, rfl⟩
      refine ⟨⟨_, closing, ?_, closeKind, .cons derived derivedMore⟩,
        nearest, nearestMore⟩
      rw [consumed, consumedMore]
      simp
termination_by 8 * start.rest.length + 2

theorem branch_sound (start : Cursor) {node : Node} {rest : List Token}
    (isIf : start.kind? = some .keyIf)
    (reads : Reads (branch start) node rest) :
    StatementAt start node rest := by
  rw [branch, Cursor.pass_eq_expect isIf] at reads
  obtain ⟨word, passedIf, reads⟩ := reads_bind.mp reads
  obtain ⟨opened, opening, reads⟩ := reads_bind.mp reads
  obtain ⟨condition, conditionRun, reads⟩ := reads_bind.mp reads
  obtain ⟨close, closed, reads⟩ := reads_bind.mp reads
  obtain ⟨thenBranch, thenRun, reads⟩ := reads_bind.mp reads
  obtain ⟨wordEq, wordKind⟩ := Cursor.expect_eq_ok passedIf
  obtain ⟨openedEq, openedKind⟩ := Cursor.expect_eq_ok opening
  obtain ⟨closeEq, closeKind⟩ := Cursor.expect_eq_ok closed
  obtain ⟨tested, testedEq, conditionDerived⟩ :=
    expression_sound opened.next ⟨condition, conditionRun, rfl, rfl⟩
  have := word.shorter
  have := opened.shorter
  have := condition.shorter
  have := close.shorter
  have := thenBranch.shorter
  obtain ⟨⟨taken, takenEq, thenDerived⟩, thenNearest, thenComplete⟩ :=
    statement_sound close.next ⟨thenBranch, thenRun, rfl, rfl⟩
  split at reads
  · rename_i other passed
    obtain ⟨otherEq, otherKind⟩ := Cursor.passIf?_eq_some passed
    have := other.shorter
    obtain ⟨elseBranch, elseRun, reads⟩ := reads_bind.mp reads
    obtain ⟨parsed, ⟨⟩, rfl, rfl⟩ := reads
    obtain ⟨⟨missed, missedEq, elseDerived⟩, elseNearest, elseComplete⟩ :=
      statement_sound other.next ⟨elseBranch, elseRun, rfl, rfl⟩
    -- The `else` that was found shows that the branch before it is closed.
    have thenClosed : thenBranch.value.endsOpen = false := by
      rw [Bool.eq_false_iff]
      intro isOpen
      apply thenComplete isOpen
      rw [otherEq, Token.firstKind?, List.head?_cons, Option.map_some,
        otherKind]
    refine ⟨⟨_, ?_, .ifElse wordKind openedKind conditionDerived closeKind
        thenDerived otherKind elseDerived⟩,
      ⟨thenClosed, thenNearest, elseNearest⟩, elseComplete⟩
    rw [wordEq, openedEq, testedEq, closeEq, takenEq, otherEq, missedEq]
    simp
  · rename_i stayed
    obtain ⟨parsed, ⟨⟩, rfl, rfl⟩ := reads
    refine ⟨⟨_, ?_, .ifThen wordKind openedKind conditionDerived closeKind
        thenDerived⟩,
      thenNearest, fun _ => Cursor.passIf?_eq_none stayed⟩
    rw [wordEq, openedEq, testedEq, closeEq, takenEq]
    simp
termination_by 8 * start.rest.length

end

/-! ## Declarations -/

theorem trigger_sound (start : Cursor) {node : Node} {rest : List Token}
    (isOn : start.kind? = some .keyOn)
    (reads : Reads (trigger start) node rest) :
    (∃ tokens, start.rest = tokens ++ rest ∧ Trigger tokens node) ∧
      node.NearestElse := by
  rw [trigger, Cursor.pass_eq_expect isOn] at reads
  obtain ⟨word, passedOn, reads⟩ := reads_bind.mp reads
  obtain ⟨event, named, reads⟩ := reads_bind.mp reads
  obtain ⟨opened, opening, reads⟩ := reads_bind.mp reads
  obtain ⟨filter, filtered, reads⟩ := reads_bind.mp reads
  obtain ⟨close, closed, reads⟩ := reads_bind.mp reads
  obtain ⟨body, bodyRun, reads⟩ := reads_bind.mp reads
  obtain ⟨parsed, ⟨⟩, rfl, rfl⟩ := reads
  obtain ⟨wordEq, wordKind⟩ := Cursor.expect_eq_ok passedOn
  obtain ⟨eventEq, eventKind⟩ := Cursor.expect_eq_ok named
  obtain ⟨openedEq, openedKind⟩ := Cursor.expect_eq_ok opening
  obtain ⟨filterEq, filterKind⟩ := Cursor.expect_eq_ok filtered
  obtain ⟨closeEq, closeKind⟩ := Cursor.expect_eq_ok closed
  obtain ⟨⟨tokens, consumed, derived⟩, nearest, _⟩ :=
    statement_sound close.next ⟨body, bodyRun, rfl, rfl⟩
  refine ⟨⟨_, ?_, .on wordKind eventKind openedKind filterKind closeKind
    derived⟩, nearest⟩
  rw [wordEq, eventEq, openedEq, filterEq, closeEq, consumed]
  rfl

theorem parameters_sound (start : Cursor) {params : List Param}
    {rest : List Token} (reads : Reads (parameters start) params rest) :
    ∃ tokens closing, start.rest = tokens ++ closing :: rest ∧
      closing.kind = .rightParen ∧ Parameters tokens params := by
  rw [parameters] at reads
  obtain ⟨type, typed, reads⟩ := reads_bind.mp reads
  obtain ⟨name, named, reads⟩ := reads_bind.mp reads
  obtain ⟨typeEq, typeKind⟩ := Cursor.expect_eq_ok typed
  obtain ⟨nameEq, nameKind⟩ := Cursor.expect_eq_ok named
  have := type.shorter
  have := name.shorter
  split at reads
  · rename_i comma passed
    obtain ⟨commaEq, commaKind⟩ := Cursor.passIf?_eq_some passed
    have := comma.shorter
    obtain ⟨others, othersRun, reads⟩ := reads_bind.mp reads
    obtain ⟨parsed, ⟨⟩, rfl, rfl⟩ := reads
    obtain ⟨more, closing, consumed, closeKind, derived⟩ :=
      parameters_sound comma.next ⟨others, othersRun, rfl, rfl⟩
    refine ⟨_, closing, ?_, closeKind,
      .cons typeKind nameKind commaKind derived⟩
    rw [typeEq, nameEq, commaEq, consumed]
    rfl
  · obtain ⟨close, closed, reads⟩ := reads_bind.mp reads
    obtain ⟨parsed, ⟨⟩, rfl, rfl⟩ := reads
    obtain ⟨closeEq, closeKind⟩ := Cursor.expect_eq_ok closed
    refine ⟨_, close.value, ?_, closeKind, .single typeKind nameKind⟩
    rw [typeEq, nameEq, closeEq]
    rfl
termination_by start.rest.length

theorem proc_sound (start : Cursor) {node : Node} {rest : List Token}
    (isFunc : start.kind? = some .keyFunc)
    (reads : Reads (proc start) node rest) :
    (∃ tokens, start.rest = tokens ++ rest ∧ Proc tokens node) ∧
      node.NearestElse := by
  rw [proc, Cursor.pass_eq_expect isFunc] at reads
  obtain ⟨word, passedFunc, reads⟩ := reads_bind.mp reads
  obtain ⟨name, named, reads⟩ := reads_bind.mp reads
  obtain ⟨opened, opening, reads⟩ := reads_bind.mp reads
  obtain ⟨wordEq, wordKind⟩ := Cursor.expect_eq_ok passedFunc
  obtain ⟨nameEq, nameKind⟩ := Cursor.expect_eq_ok named
  obtain ⟨openedEq, openedKind⟩ := Cursor.expect_eq_ok opening
  split at reads
  · rename_i close passed
    obtain ⟨params, ⟨⟩, reads⟩ := reads_bind.mp reads
    obtain ⟨body, bodyRun, reads⟩ := reads_bind.mp reads
    obtain ⟨parsed, ⟨⟩, rfl, rfl⟩ := reads
    obtain ⟨closeEq, closeKind⟩ := Cursor.passIf?_eq_some passed
    obtain ⟨⟨tokens, consumed, derived⟩, nearest⟩ :=
      block_sound close.next ⟨body, bodyRun, rfl, rfl⟩
    refine ⟨⟨_, ?_, .empty wordKind nameKind openedKind closeKind derived⟩,
      nearest⟩
    rw [wordEq, nameEq, openedEq, closeEq, consumed]
    rfl
  · obtain ⟨params, paramsRun, reads⟩ := reads_bind.mp reads
    obtain ⟨body, bodyRun, reads⟩ := reads_bind.mp reads
    obtain ⟨parsed, ⟨⟩, rfl, rfl⟩ := reads
    obtain ⟨heading, closing, headingEq, closeKind, paramsDerived⟩ :=
      parameters_sound opened.next ⟨params, paramsRun, rfl, rfl⟩
    obtain ⟨⟨tokens, consumed, derived⟩, nearest⟩ :=
      block_sound params.next ⟨body, bodyRun, rfl, rfl⟩
    refine ⟨⟨_, ?_, .filled wordKind nameKind openedKind paramsDerived
      closeKind derived⟩, nearest⟩
    rw [wordEq, nameEq, openedEq, headingEq, consumed]
    simp

theorem declarations_sound (start : Cursor) {nodes : List Node}
    {last : Cursor} (run : declarations start = .ok (nodes, last)) :
    ∃ tokens, start.rest = tokens ++ last.rest ∧
      Grammar.Program tokens nodes ∧
      (∀ node ∈ nodes, node.NearestElse) ∧
      (last.rest = [] ∨ Token.firstKind? last.rest = some .eof) := by
  rw [declarations] at run
  split at run
  · rename_i noKind
    cases run
    have atEnd : start.rest = [] := by
      simpa [Cursor.kind?] using noKind
    exact ⟨[], rfl, .nil, by simp, .inl atEnd⟩
  · rename_i atMarker
    cases run
    exact ⟨[], rfl, .nil, by simp, .inr atMarker⟩
  · rename_i isOn
    obtain ⟨first, firstRun, run⟩ := exceptBind_eq_ok.mp run
    have := first.shorter
    obtain ⟨⟨others, stopped⟩, othersRun, run⟩ := exceptBind_eq_ok.mp run
    cases run
    obtain ⟨⟨tokens, consumed, derived⟩, nearest⟩ :=
      trigger_sound start isOn ⟨first, firstRun, rfl, rfl⟩
    obtain ⟨more, consumedMore, derivedMore, nearestMore, ends⟩ :=
      declarations_sound first.next othersRun
    refine ⟨_, ?_, .trigger derived derivedMore, ?_, ends⟩
    · rw [consumed, consumedMore, List.append_assoc]
    · exact List.forall_mem_cons.mpr ⟨nearest, nearestMore⟩
  · rename_i isFunc
    obtain ⟨first, firstRun, run⟩ := exceptBind_eq_ok.mp run
    have := first.shorter
    obtain ⟨⟨others, stopped⟩, othersRun, run⟩ := exceptBind_eq_ok.mp run
    cases run
    obtain ⟨⟨tokens, consumed, derived⟩, nearest⟩ :=
      proc_sound start isFunc ⟨first, firstRun, rfl, rfl⟩
    obtain ⟨more, consumedMore, derivedMore, nearestMore, ends⟩ :=
      declarations_sound first.next othersRun
    refine ⟨_, ?_, .proc derived derivedMore, ?_, ends⟩
    · rw [consumed, consumedMore, List.append_assoc]
    · exact List.forall_mem_cons.mpr ⟨nearest, nearestMore⟩
  · cases run
termination_by start.rest.length

end Parser

end TriggerScript
