import Mathlib
import TriggerScript.Node.Reader
import TriggerScript.Proofs.ParserSoundness

/-!
# Positions of a reader

A reader counts the tokens it has passed, and going on raises the count whether
a token is there or not.  So it has to be shown that reading ends, and that it
does not run out of the tape, whose tokens need not come from a scanner and
need not have an end marker.

Each parser of a tape follows the parser of a cursor with the same name: the
reader ends, with the same value or error, where the cursor does.  Three of
them pass their first word unseen.  They are asked only where that word is
there; asked behind the last token, they leave the tape.

A reader is changed by going on and by nothing else.  So a bound that holds
when a call ends has held all through the call.

* `Tape.MovesTo` says how a reader moves while it follows a cursor.
* `ReadM.Agrees` says that some work of a reader follows an attempt of a cursor.
* `Tape.Part` lists the parsers of the parts of a script.
* `Tape.Calls` are calls that read a script one after another.
-/

namespace TriggerScript

/-! ## Readers and cursors -/

namespace Tape

def cursor (tape : Tape) (reader : Reader) : Cursor :=
  ⟨tape.tokens.drop reader.position, reader.lastOffset⟩

/-- A reader that has moved to a place of the tape: never back, and not out of
the tape.  If its position is what it was, nothing has changed. -/
structure MovesTo (tape : Tape) (before after : Reader) (place : Cursor) :
    Prop where
  cursor_eq : tape.cursor after = place
  forward : before.position ≤ after.position
  within : before.position ≤ tape.tokens.length →
    after.position ≤ tape.tokens.length
  still : after.position = before.position → after = before

variable {tape : Tape} {reader : Reader} {start : Cursor}

theorem current?_eq (tape : Tape) (reader : Reader) :
    tape.current? reader = (tape.cursor reader).rest.head? := by
  rw [current?, cursor, List.head?_drop]

theorem kind?_eq (placed : tape.cursor reader = start) :
    (tape.current? reader).map Token.kind = start.kind? := by
  rw [current?_eq, placed, Cursor.kind?]

theorem kindAfter?_eq (placed : tape.cursor reader = start) :
    tape.tokens[reader.position + 1]?.map Token.kind = start.kindAfter? := by
  rw [← placed, Cursor.kindAfter?, cursor, List.tail_drop, List.head?_drop]

theorem offset_eq (placed : tape.cursor reader = start) :
    tape.offset reader = start.offset := by
  rw [offset, current?_eq, ← placed, Cursor.offset]
  cases (tape.cursor reader).rest <;> rfl

end Tape

namespace Cursor

variable {cursor : Cursor} {kind : Token.Kind} {parsed : Parsed cursor Token}

/-- Passing a token leads right behind it. -/
theorem next_of_pass? (passed : cursor.pass? = some parsed) :
    parsed.next = ⟨cursor.rest.tail,
      cursor.rest.head?.map fun token => token.span.start⟩ := by
  obtain ⟨rest, last⟩ := cursor
  cases rest with
  | nil =>
      cases passed
  | cons token rest =>
      cases passed
      rfl

theorem head?_of_pass? (passed : cursor.pass? = some parsed) :
    cursor.rest.head? = some parsed.value := by
  rw [pass?_eq_some passed, List.head?_cons]

theorem kind?_of_pass? (passed : cursor.pass? = some parsed) :
    cursor.kind? = some parsed.value.kind := by
  rw [kind?, head?_of_pass? passed, Option.map_some]

theorem head?_of_atEnd (atEnd : cursor.pass? = none) :
    cursor.rest.head? = none := by
  rw [rest_eq_nil atEnd, List.head?_nil]

theorem kind?_of_atEnd (atEnd : cursor.pass? = none) :
    cursor.kind? = none := by
  rw [kind?, head?_of_atEnd atEnd, Option.map_none]

theorem kindAfter?_of_pass? (passed : cursor.pass? = some parsed) :
    cursor.kindAfter? = parsed.next.kind? := by
  rw [next_of_pass? passed, kindAfter?, kind?]

theorem pass?_of_passIf? (passed : cursor.passIf? kind = some parsed) :
    cursor.pass? = some parsed :=
  (Option.filter_eq_some_iff.mp passed).1

theorem kind?_of_passIf? (passed : cursor.passIf? kind = some parsed) :
    cursor.kind? = some kind := by
  rw [kind?_of_pass? (pass?_of_passIf? passed),
    (passIf?_eq_some passed).2]

theorem kind?_of_stayed (stayed : cursor.passIf? kind = none) :
    cursor.kind? ≠ some kind :=
  passIf?_eq_none stayed

end Cursor

namespace Tape.MovesTo

variable {tape : Tape} {reader before middle after : Reader}
  {start place other : Cursor}

theorem here (placed : tape.cursor reader = start) :
    tape.MovesTo reader reader start :=
  ⟨placed, Nat.le_refl _, id, fun _ => rfl⟩

theorem trans (first : tape.MovesTo before middle place)
    (second : tape.MovesTo middle after other) :
    tape.MovesTo before after other where
  cursor_eq := second.cursor_eq
  forward := Nat.le_trans first.forward second.forward
  within inside := second.within (first.within inside)
  still same := by
    have forward := first.forward
    have onward := second.forward
    rw [second.still (by omega), first.still (by omega)]

/-- Where there is a token, going on passes it. -/
theorem goOn {parsed : Parsed start Token} (placed : tape.cursor reader = start)
    (passed : start.pass? = some parsed) :
    tape.MovesTo reader (tape.goOn reader) parsed.next := by
  subst placed
  have front := Cursor.pass?_eq_some passed
  have found : tape.current? reader = some parsed.value := by
    rw [current?_eq, front]
    rfl
  have bound : reader.position < tape.tokens.length :=
    (List.getElem?_eq_some_iff.mp found).1
  refine ⟨?_, Nat.le_succ _, fun _ => bound,
    fun same => absurd same (Nat.succ_ne_self _)⟩
  rw [current?] at found
  rw [Cursor.next_of_pass? passed, cursor, cursor, Tape.goOn, current?,
    List.tail_drop, List.head?_drop, found]
  rfl

end Tape.MovesTo

/-! ## Steps of a reader -/

namespace Reader

variable {α β : Type} {before middle : Reader} {first : ReadM α}
  {next : α → ReadM β}

theorem run_bind_of_ok {value : α}
    (step : before.run first = some (.ok value, middle)) :
    before.run (first >>= next) = middle.run (next value) := by
  have stepped : StateT.run (ExceptT.run first) before =
      some (.ok value, middle) := step
  simp [run, ExceptT.run_bind, stepped]

theorem run_bind_of_error {error : ParseError}
    (step : before.run first = some (.error error, middle)) :
    before.run (first >>= next) = some (.error error, middle) := by
  have stepped : StateT.run (ExceptT.run first) before =
      some (.error error, middle) := step
  simp [run, ExceptT.run_bind, stepped]

end Reader

/-- Work of a reader that ends as an attempt of a cursor does: with the same
value or error, and at the same place. -/
def ReadM.Agrees {α β : Type} (work : ReadM α) (tape : Tape)
    (before : Reader) (value : β → α) (place : β → Cursor) :
    Attempt β → Prop
  | .ok found => ∃ after,
      before.run work = some (.ok (value found), after) ∧
        tape.MovesTo before after (place found)
  | .error fault => ∃ after,
      before.run work = some (.error fault.error, after) ∧
        tape.MovesTo before after fault.stopped

variable {α β γ δ : Type} {tape : Tape} {before middle : Reader}
  {start : Cursor} {value : β → α} {place : β → Cursor}
  {lastValue : δ → γ} {lastPlace : δ → Cursor}

namespace ReadM.Agrees

open Reader

theorem bind {first : ReadM α} {next : α → ReadM γ} {attempt : Attempt β}
    {goesOn : β → Attempt δ}
    (agrees : first.Agrees tape before value place attempt)
    (later : ∀ found middle, tape.MovesTo before middle (place found) →
      (next (value found)).Agrees tape middle lastValue lastPlace
        (goesOn found)) :
    (first >>= next).Agrees tape before lastValue lastPlace
      (attempt >>= goesOn) := by
  cases attempt with
  | error fault =>
      obtain ⟨stopped, run, moves⟩ := agrees
      exact ⟨stopped, run_bind_of_error run, moves⟩
  | ok found =>
      obtain ⟨middle, run, moves⟩ := agrees
      have goes := later found middle moves
      change (first >>= next).Agrees tape before lastValue lastPlace
        (goesOn found)
      generalize goesOn found = outcome at goes
      cases outcome with
      | ok last | error fault =>
          obtain ⟨after, behind, movesOn⟩ := goes
          exact ⟨after, by rw [run_bind_of_ok run, behind],
            moves.trans movesOn⟩

/-- Steps that a cursor does not take. -/
theorem preceded {first : ReadM α} {next : α → ReadM γ} {found : α}
    {attempt : Attempt δ}
    (run : before.run first = some (.ok found, middle))
    (moves : tape.MovesTo before middle start)
    (agrees : (next found).Agrees tape middle lastValue lastPlace attempt) :
    (first >>= next).Agrees tape before lastValue lastPlace attempt := by
  cases attempt with
  | ok last | error fault =>
      obtain ⟨after, behind, movesOn⟩ := agrees
      exact ⟨after, by rw [run_bind_of_ok run, behind],
        moves.trans movesOn⟩

/-- Steps that a cursor takes, too, and that succeed. -/
theorem followed {first : ReadM α} {next : α → ReadM γ} {found : β}
    {attempt : Attempt δ}
    (agrees : first.Agrees tape before value place (.ok found))
    (later : ∀ middle : Reader, tape.cursor middle = place found →
      (next (value found)).Agrees tape middle lastValue lastPlace attempt) :
    (first >>= next).Agrees tape before lastValue lastPlace attempt := by
  obtain ⟨middle, run, moves⟩ := agrees
  exact (later middle moves.cursor_eq).preceded run moves

end ReadM.Agrees

namespace Tape

theorem current_bind {next : Option Token → ReadM γ} {attempt : Attempt δ}
    (placed : tape.cursor before = start)
    (agrees : (next start.rest.head?).Agrees tape before lastValue lastPlace
      attempt) :
    (tape.current >>= next).Agrees tape before lastValue lastPlace attempt := by
  rw [← placed, ← current?_eq] at agrees
  exact agrees.preceded rfl (.here rfl)

/-- Looking at the next token moves nothing. -/
theorem peek_bind {next : Option Token.Kind → ReadM γ}
    {attempt : Attempt δ} (placed : tape.cursor before = start)
    (agrees : (next start.kind?).Agrees tape before lastValue lastPlace
      attempt) :
    (tape.peek >>= next).Agrees tape before lastValue lastPlace attempt := by
  rw [← kind?_eq placed] at agrees
  exact agrees.preceded rfl (.here rfl)

theorem peekNext_bind {next : Option Token.Kind → ReadM γ}
    {attempt : Attempt δ} (placed : tape.cursor before = start)
    (agrees : (next start.kindAfter?).Agrees tape before lastValue lastPlace
      attempt) :
    (tape.peekNext >>= next).Agrees tape before lastValue lastPlace
      attempt := by
  rw [← kindAfter?_eq placed] at agrees
  exact agrees.preceded rfl (.here rfl)

theorem advance_bind {next : Unit → ReadM γ} {attempt : Attempt δ}
    {parsed : Parsed start Token} (placed : tape.cursor before = start)
    (passed : start.pass? = some parsed)
    (agrees : ∀ middle : Reader, tape.cursor middle = parsed.next →
      (next ()).Agrees tape middle lastValue lastPlace attempt) :
    (tape.advance >>= next).Agrees tape before lastValue lastPlace attempt := by
  have moves := MovesTo.goOn placed passed
  exact (agrees _ moves.cursor_eq).preceded rfl moves

theorem fail_agrees (placed : tape.cursor before = start)
    (cause : ParseError.Cause) :
    (tape.fail cause : ReadM α).Agrees tape before value place
      (start.fail cause) := by
  refine ⟨before, ?_, .here placed⟩
  rw [← offset_eq placed]
  rfl

/-- An error that names the token found. -/
theorem missing_agrees {found : Option Token.Kind}
    (placed : tape.cursor before = start) (seen : start.kind? = found)
    (phrase : Phrase) :
    (tape.fail (.expected phrase found) : ReadM α).Agrees tape before value
      place (start.missing phrase) := by
  subst seen
  exact fail_agrees placed _

theorem expect_agrees (placed : tape.cursor before = start) (kind : Token.Kind)
    (phrase : Phrase) :
    (tape.expect kind phrase).Agrees tape before Parsed.value Parsed.next
      (start.expect kind phrase) := by
  refine current_bind placed ?_
  rw [Cursor.expect, Cursor.passIf?]
  cases passed : start.pass? with
  | none =>
      rw [Cursor.head?_of_atEnd passed]
      exact missing_agrees placed (Cursor.kind?_of_atEnd passed) phrase
  | some parsed =>
      have seen := Cursor.kind?_of_pass? passed
      rw [Cursor.head?_of_pass? passed, Option.filter_some]
      by_cases same : parsed.value.kind = kind
      · simp only [same, beq_self_eq_true, if_true]
        refine advance_bind placed passed ?_
        intro middle behind
        exact ⟨_, rfl, .here behind⟩
      · simp only [same, beq_eq_false_iff_ne.mpr same, if_false]
        exact missing_agrees placed seen phrase

theorem expect_passed {kind : Token.Kind} {phrase : Phrase}
    {parsed : Parsed start Token} (placed : tape.cursor before = start)
    (passed : start.passIf? kind = some parsed) :
    (tape.expect kind phrase).Agrees tape before Parsed.value Parsed.next
      (.ok parsed) := by
  have agrees := expect_agrees placed kind phrase
  rwa [Cursor.expect, passed] at agrees

/-- Where there is a first token, an unchecked step passes it. -/
theorem pass_bind {first : Token.Kind} {phrase : Phrase}
    {next : Unit → ReadM γ} {goesOn : Parsed start Token → Attempt δ}
    (placed : tape.cursor before = start) (starts : start.kind? = some first)
    (agrees : ∀ parsed middle, tape.cursor middle = parsed.next →
      (next ()).Agrees tape middle lastValue lastPlace (goesOn parsed)) :
    (tape.advance >>= next).Agrees tape before lastValue lastPlace
      (start.pass phrase >>= goesOn) := by
  cases passed : start.pass? with
  | none =>
      rw [Cursor.kind?_of_atEnd passed] at starts
      cases starts
  | some parsed =>
      rw [Cursor.pass, passed]
      exact advance_bind placed passed (agrees parsed)

/-- Some work, and a closing parenthesis behind it. -/
def closed (tape : Tape) (work : ReadM α) (phrase : Phrase) : ReadM α := do
  let inner ← work
  let _ ← tape.expect .rightParen phrase
  return inner

theorem closed_bind {work : ReadM α} {phrase : Phrase} {next : α → ReadM γ} :
    (do
      let inner ← work
      let _ ← tape.expect .rightParen phrase
      next inner) = tape.closed work phrase >>= next := by
  simp only [closed, bind_assoc, pure_bind]

/-! ## Expressions -/

mutual

theorem primary_agrees (start : Cursor) (reader : Reader)
    (placed : tape.cursor reader = start) :
    tape.primary.Agrees tape reader Parsed.value Parsed.next
      (Parser.primary start) := by
  rw [primary, Parser.primary]
  refine current_bind placed ?_
  cases passed : start.pass? with
  | none =>
      rw [Cursor.head?_of_atEnd passed]
      exact missing_agrees placed (Cursor.kind?_of_atEnd passed) _
  | some first =>
      have := first.shorter
      have seen := Cursor.kind?_of_pass? passed
      rw [Cursor.head?_of_pass? passed]
      dsimp only
      cases kindEq : first.value.kind with
      | integer =>
          refine advance_bind placed passed ?_
          intro middle behind
          cases Literal.ofNumeral? first.value.text with
          | none =>
              exact ⟨middle, rfl, .here behind⟩
          | some literal =>
              exact ⟨_, rfl, .here behind⟩
      | string | bool =>
          refine advance_bind placed passed ?_
          intro middle behind
          exact ⟨_, rfl, .here behind⟩
      | identifier =>
          refine peekNext_bind placed ?_
          rw [Cursor.kindAfter?_of_pass? passed]
          by_cases isCall : first.next.kind? = some .leftParen
          · rw [if_pos isCall, if_pos isCall]
            exact call_agrees start reader placed
          · rw [if_neg isCall, if_neg isCall]
            refine advance_bind placed passed ?_
            intro middle behind
            exact ⟨_, rfl, .here behind⟩
      | leftParen =>
          refine advance_bind placed passed ?_
          intro middle behind
          refine (expression_agrees first.next middle behind).bind ?_
          intro inner later moves
          refine (expect_agrees moves.cursor_eq _ _).bind ?_
          intro close last closes
          exact ⟨_, rfl, .here closes.cursor_eq⟩
      | _ =>
          rw [kindEq] at seen
          exact missing_agrees placed seen _
termination_by 8 * start.rest.length + 1

theorem expression_agrees (start : Cursor) (reader : Reader)
    (placed : tape.cursor reader = start) :
    tape.expression.Agrees tape reader Parsed.value Parsed.next
      (Parser.expression start) := by
  rw [expression, Parser.expression]
  refine (primary_agrees start reader placed).bind ?_
  intro left middle moves
  have := left.shorter
  refine peek_bind moves.cursor_eq ?_
  cases passed : left.next.pass? with
  | none =>
      rw [Cursor.kind?_of_atEnd passed]
      exact ⟨_, rfl, .here moves.cursor_eq⟩
  | some sign =>
      have := sign.shorter
      rw [Cursor.kind?_of_pass? passed]
      dsimp only
      cases sign.value.kind.isComparator with
      | false =>
          exact ⟨_, rfl, .here moves.cursor_eq⟩
      | true =>
          refine advance_bind moves.cursor_eq passed ?_
          intro later behind
          refine (primary_agrees sign.next later behind).bind ?_
          intro right last ends
          exact ⟨_, rfl, .here ends.cursor_eq⟩
termination_by 8 * start.rest.length + 2

theorem call_agrees (start : Cursor) (reader : Reader)
    (placed : tape.cursor reader = start) :
    tape.call.Agrees tape reader Parsed.value Parsed.next
      (Parser.call start) := by
  rw [call, Parser.call]
  refine (expect_agrees placed _ _).bind ?_
  intro name middle named
  refine (expect_agrees named.cursor_eq _ _).bind ?_
  intro opened inside opens
  have := name.shorter
  have := opened.shorter
  refine peek_bind opens.cursor_eq ?_
  cases passed : opened.next.passIf? .rightParen with
  | some close =>
      rw [Cursor.kind?_of_passIf? passed, if_pos rfl, pure_bind]
      refine (expect_passed opens.cursor_eq passed).followed ?_
      intro last closes
      exact ⟨_, rfl, .here closes⟩
  | none =>
      rw [if_neg (Cursor.kind?_of_stayed passed), closed_bind]
      refine (arguments_agrees opened.next inside opens.cursor_eq).bind ?_
      intro args last closes
      exact ⟨_, rfl, .here closes.cursor_eq⟩
termination_by 8 * start.rest.length

theorem arguments_agrees (start : Cursor) (reader : Reader)
    (placed : tape.cursor reader = start) :
    (tape.closed tape.arguments .argumentsClose).Agrees tape reader
      Parsed.value Parsed.next (Parser.arguments start) := by
  rw [closed, arguments, Parser.arguments, bind_assoc]
  refine (expression_agrees start reader placed).bind ?_
  intro first middle moves
  have := first.shorter
  rw [bind_assoc]
  refine peek_bind moves.cursor_eq ?_
  cases passed : first.next.passIf? .comma with
  | some comma =>
      have := comma.shorter
      rw [Cursor.kind?_of_passIf? passed, if_pos rfl, bind_assoc]
      refine advance_bind moves.cursor_eq (Cursor.pass?_of_passIf? passed) ?_
      intro later behind
      simp only [bind_assoc, pure_bind]
      rw [closed_bind]
      refine (arguments_agrees comma.next later behind).bind ?_
      intro others last ends
      exact ⟨_, rfl, .here ends.cursor_eq⟩
  | none =>
      rw [if_neg (Cursor.kind?_of_stayed passed), pure_bind]
      refine (expect_agrees moves.cursor_eq _ _).bind ?_
      intro close last closes
      exact ⟨_, rfl, .here closes.cursor_eq⟩
termination_by 8 * start.rest.length + 3

end

/-! ## Statements -/

section

variable (start : Cursor) (reader : Reader)
  (placed : tape.cursor reader = start)

include placed

theorem declaration_agrees :
    tape.declaration.Agrees tape reader Parsed.value Parsed.next
      (Parser.declaration start) := by
  rw [declaration, Parser.declaration]
  refine (expect_agrees placed _ _).bind ?_
  intro type middle typed
  refine (expect_agrees typed.cursor_eq _ _).bind ?_
  intro name later named
  refine peek_bind named.cursor_eq ?_
  cases passed : name.next.passIf? .assign with
  | some sign =>
      rw [Cursor.kind?_of_passIf? passed, if_pos rfl]
      refine advance_bind named.cursor_eq (Cursor.pass?_of_passIf? passed) ?_
      intro inside behind
      refine (expression_agrees sign.next inside behind).bind ?_
      intro value valued moves
      refine (expect_agrees moves.cursor_eq _ _).bind ?_
      intro close last closes
      exact ⟨_, rfl, .here closes.cursor_eq⟩
  | none =>
      rw [if_neg (Cursor.kind?_of_stayed passed)]
      refine (expect_agrees named.cursor_eq _ _).bind ?_
      intro close last closes
      exact ⟨_, rfl, .here closes.cursor_eq⟩

theorem assignment_agrees :
    tape.assignment.Agrees tape reader Parsed.value Parsed.next
      (Parser.assignment start) := by
  rw [assignment, Parser.assignment]
  refine (expect_agrees placed _ _).bind ?_
  intro name middle named
  refine (expect_agrees named.cursor_eq _ _).bind ?_
  intro sign inside signed
  refine (expression_agrees sign.next inside signed.cursor_eq).bind ?_
  intro value later valued
  refine (expect_agrees valued.cursor_eq _ _).bind ?_
  intro close last closes
  exact ⟨_, rfl, .here closes.cursor_eq⟩

theorem callStatement_agrees :
    tape.callStatement.Agrees tape reader Parsed.value Parsed.next
      (Parser.callStatement start) := by
  rw [callStatement, Parser.callStatement]
  refine (call_agrees start reader placed).bind ?_
  intro made middle moves
  refine (expect_agrees moves.cursor_eq _ _).bind ?_
  intro close last closes
  exact ⟨_, rfl, .here closes.cursor_eq⟩

end

mutual

theorem statement_agrees (start : Cursor) (reader : Reader)
    (placed : tape.cursor reader = start) :
    tape.statement.Agrees tape reader Parsed.value Parsed.next
      (Parser.statement start) := by
  rw [statement, Parser.statement]
  refine peek_bind placed ?_
  refine peekNext_bind placed ?_
  cases seen : start.kind? with
  | none =>
      exact missing_agrees placed seen _
  | some kind =>
      cases kind with
      | leftBrace =>
          exact block_agrees start reader placed
      | keyIf =>
          exact branch_agrees start reader placed seen
      | identifier =>
          cases start.kindAfter? with
          | none =>
              exact missing_agrees placed seen _
          | some second =>
              cases second with
              | identifier =>
                  exact declaration_agrees start reader placed
              | assign =>
                  exact assignment_agrees start reader placed
              | leftParen =>
                  exact callStatement_agrees start reader placed
              | _ =>
                  exact missing_agrees placed seen _
      | _ =>
          exact missing_agrees placed seen _
termination_by 8 * start.rest.length + 1

theorem block_agrees (start : Cursor) (reader : Reader)
    (placed : tape.cursor reader = start) :
    tape.block.Agrees tape reader Parsed.value Parsed.next
      (Parser.block start) := by
  rw [block, Parser.block]
  refine (expect_agrees placed _ _).bind ?_
  intro opened inside opens
  have := opened.shorter
  refine (statements_agrees opened.next inside opens.cursor_eq).bind ?_
  intro inner last ends
  exact ⟨_, rfl, .here ends.cursor_eq⟩
termination_by 8 * start.rest.length

theorem statements_agrees (start : Cursor) (reader : Reader)
    (placed : tape.cursor reader = start) :
    tape.statements.Agrees tape reader Parsed.value Parsed.next
      (Parser.statements start) := by
  rw [statements, Parser.statements]
  refine peek_bind placed ?_
  cases passed : start.pass? with
  | none =>
      rw [Cursor.kind?_of_atEnd passed]
      exact fail_agrees placed _
  | some first =>
      rw [Cursor.kind?_of_pass? passed]
      dsimp only
      cases first.value.kind with
      | rightBrace =>
          refine advance_bind placed passed ?_
          intro middle behind
          exact ⟨_, rfl, .here behind⟩
      | eof =>
          exact fail_agrees placed _
      | _ =>
          refine (statement_agrees start reader placed).bind ?_
          intro head middle moves
          have := head.shorter
          refine (statements_agrees head.next middle moves.cursor_eq).bind ?_
          intro others last ends
          exact ⟨_, rfl, .here ends.cursor_eq⟩
termination_by 8 * start.rest.length + 2

theorem branch_agrees (start : Cursor) (reader : Reader)
    (placed : tape.cursor reader = start) {first : Token.Kind}
    (starts : start.kind? = some first) :
    tape.branch.Agrees tape reader Parsed.value Parsed.next
      (Parser.branch start) := by
  rw [branch, Parser.branch]
  refine pass_bind placed starts ?_
  intro word behindWord behind
  refine (expect_agrees behind _ _).bind ?_
  intro opened inside opens
  refine (expression_agrees opened.next inside opens.cursor_eq).bind ?_
  intro condition tested tests
  refine (expect_agrees tests.cursor_eq _ _).bind ?_
  intro close middle closes
  have := word.shorter
  have := opened.shorter
  have := condition.shorter
  have := close.shorter
  refine (statement_agrees close.next middle closes.cursor_eq).bind ?_
  intro thenBranch later moves
  have := thenBranch.shorter
  refine peek_bind moves.cursor_eq ?_
  cases passed : thenBranch.next.passIf? .keyElse with
  | some other =>
      have := other.shorter
      rw [Cursor.kind?_of_passIf? passed, if_pos rfl]
      refine advance_bind moves.cursor_eq (Cursor.pass?_of_passIf? passed) ?_
      intro behindElse behind
      refine (statement_agrees other.next behindElse behind).bind ?_
      intro elseBranch last ends
      exact ⟨_, rfl, .here ends.cursor_eq⟩
  | none =>
      rw [if_neg (Cursor.kind?_of_stayed passed)]
      exact ⟨_, rfl, .here moves.cursor_eq⟩
termination_by 8 * start.rest.length

end

/-! ## Declarations -/

theorem parameters_agrees (start : Cursor) (reader : Reader)
    (placed : tape.cursor reader = start) :
    (tape.closed tape.parameters .paramsClose).Agrees tape reader
      Parsed.value Parsed.next (Parser.parameters start) := by
  rw [closed, parameters, Parser.parameters, bind_assoc]
  refine (expect_agrees placed _ _).bind ?_
  intro type middle typed
  rw [bind_assoc]
  refine (expect_agrees typed.cursor_eq _ _).bind ?_
  intro name later named
  have := type.shorter
  have := name.shorter
  rw [bind_assoc]
  refine peek_bind named.cursor_eq ?_
  cases passed : name.next.passIf? .comma with
  | some comma =>
      have := comma.shorter
      rw [Cursor.kind?_of_passIf? passed, if_pos rfl, bind_assoc]
      refine advance_bind named.cursor_eq (Cursor.pass?_of_passIf? passed) ?_
      intro behindComma behind
      simp only [bind_assoc, pure_bind]
      rw [closed_bind]
      refine (parameters_agrees comma.next behindComma behind).bind ?_
      intro others last ends
      exact ⟨_, rfl, .here ends.cursor_eq⟩
  | none =>
      rw [if_neg (Cursor.kind?_of_stayed passed), pure_bind]
      refine (expect_agrees named.cursor_eq _ _).bind ?_
      intro close last closes
      exact ⟨_, rfl, .here closes.cursor_eq⟩
termination_by start.rest.length

section

variable (start : Cursor) (reader : Reader)
  (placed : tape.cursor reader = start) {first : Token.Kind} (starts : start.kind? = some first)

include placed starts

theorem trigger_agrees :
    tape.trigger.Agrees tape reader Parsed.value Parsed.next
      (Parser.trigger start) := by
  rw [trigger, Parser.trigger]
  refine pass_bind placed starts ?_
  intro word behindWord behind
  refine (expect_agrees behind _ _).bind ?_
  intro event named names
  refine (expect_agrees names.cursor_eq _ _).bind ?_
  intro opened inside opens
  refine (expect_agrees opens.cursor_eq _ _).bind ?_
  intro filter filtered filters
  refine (expect_agrees filters.cursor_eq _ _).bind ?_
  intro close middle closes
  refine (statement_agrees close.next middle closes.cursor_eq).bind ?_
  intro body last ends
  exact ⟨_, rfl, .here ends.cursor_eq⟩

theorem proc_agrees :
    tape.proc.Agrees tape reader Parsed.value Parsed.next
      (Parser.proc start) := by
  rw [proc, Parser.proc]
  refine pass_bind placed starts ?_
  intro word behindWord behind
  refine (expect_agrees behind _ _).bind ?_
  intro name named names
  refine (expect_agrees names.cursor_eq _ _).bind ?_
  intro opened inside opens
  refine peek_bind opens.cursor_eq ?_
  cases passed : opened.next.passIf? .rightParen with
  | some close =>
      rw [Cursor.kind?_of_passIf? passed, if_pos rfl, pure_bind]
      refine (expect_passed opens.cursor_eq passed).followed ?_
      intro middle closes
      refine (block_agrees close.next middle closes).bind ?_
      intro body last ends
      exact ⟨_, rfl, .here ends.cursor_eq⟩
  | none =>
      rw [if_neg (Cursor.kind?_of_stayed passed), closed_bind]
      refine (parameters_agrees opened.next inside opens.cursor_eq).bind ?_
      intro params middle closes
      refine (block_agrees params.next middle closes.cursor_eq).bind ?_
      intro body last ends
      exact ⟨_, rfl, .here ends.cursor_eq⟩

end

theorem parse_agrees (start : Cursor) (reader : Reader)
    (placed : tape.cursor reader = start) :
    tape.parse.Agrees tape reader Prod.fst Prod.snd
      (Parser.declarations start) := by
  rw [parse, Parser.declarations]
  refine peek_bind placed ?_
  cases seen : start.kind? with
  | none =>
      exact ⟨_, rfl, .here placed⟩
  | some kind =>
      cases kind with
      | eof =>
          exact ⟨_, rfl, .here placed⟩
      | keyOn =>
          refine (trigger_agrees start reader placed seen).bind ?_
          intro first middle moves
          have := first.shorter
          refine (parse_agrees first.next middle moves.cursor_eq).bind ?_
          intro others last ends
          exact ⟨_, rfl, .here ends.cursor_eq⟩
      | keyFunc =>
          refine (proc_agrees start reader placed seen).bind ?_
          intro first middle moves
          have := first.shorter
          refine (parse_agrees first.next middle moves.cursor_eq).bind ?_
          intro others last ends
          exact ⟨_, rfl, .here ends.cursor_eq⟩
      | _ =>
          exact missing_agrees placed seen _
termination_by start.rest.length

/-! ## Positions of the parts of a script -/

/-- The parts of a script that are read by themselves, with the number of
tokens that are passed without a look. -/
inductive Part (tape : Tape) : {α : Type} → ReadM α → Nat → Prop
  | token (kind : Token.Kind) (phrase : Phrase) :
      Part tape (tape.expect kind phrase) 0
  | primary : Part tape tape.primary 0
  | expression : Part tape tape.expression 0
  | call : Part tape tape.call 0
  | arguments : Part tape (tape.closed tape.arguments .argumentsClose) 0
  | declaration : Part tape tape.declaration 0
  | assignment : Part tape tape.assignment 0
  | callStatement : Part tape tape.callStatement 0
  | statement : Part tape tape.statement 0
  | block : Part tape tape.block 0
  | statements : Part tape tape.statements 0
  | branch : Part tape tape.branch 1
  | trigger : Part tape tape.trigger 1
  | parameters : Part tape (tape.closed tape.parameters .paramsClose) 0
  | proc : Part tape tape.proc 1

/-- A reader that never goes back, goes on if it succeeds, and stays within the
tape if the unseen tokens are there. -/
structure Advances (tape : Tape) (unseen : Nat) (before : Reader)
    (result : Except ParseError α) (after : Reader) : Prop where
  forward : before.position ≤ after.position
  progress : ∀ value, result = .ok value → before.position < after.position
  within : before.position + unseen ≤ tape.tokens.length →
    after.position ≤ tape.tokens.length

/-- Some work ends, and advances its reader. -/
def EndsAdvanced (tape : Tape) (unseen : Nat) (before : Reader)
    (work : ReadM α) : Prop :=
  ∃ result after, before.run work = some (result, after) ∧
    tape.Advances unseen before result after

theorem MovesTo.advances {after : Reader} {place : Cursor}
    {result : Except ParseError α} (moves : tape.MovesTo before after place)
    (unseen : Nat)
    (progress : ∀ value, result = .ok value →
      before.position < after.position) :
    tape.Advances unseen before result after :=
  ⟨moves.forward, progress, fun inside => moves.within (by omega)⟩

namespace EndsAdvanced

theorem of_agrees {work : ReadM α}
    {attempt : Attempt (Parsed (tape.cursor before) α)} (unseen : Nat)
    (agrees : work.Agrees tape before Parsed.value Parsed.next attempt) :
    tape.EndsAdvanced unseen before work := by
  cases attempt with
  | error fault =>
      obtain ⟨after, run, moves⟩ := agrees
      exact ⟨_, after, run, moves.advances unseen nofun⟩
  | ok parsed =>
      obtain ⟨after, run, moves⟩ := agrees
      refine ⟨_, after, run, moves.advances unseen ?_⟩
      intro _ _
      have shorter := parsed.shorter
      rw [← moves.cursor_eq, cursor, cursor, List.length_drop,
        List.length_drop] at shorter
      omega

/-- Where no token is left, an unchecked step leads out of the tape, and the
next token is missed there. -/
theorem of_atEnd {work : ReadM α} {kind : Token.Kind} {phrase : Phrase}
    {next : Token → ReadM α} (atEnd : (tape.cursor before).kind? = none)
    (unfolds : work = do
      tape.advance
      let token ← tape.expect kind phrase
      next token) :
    tape.EndsAdvanced 1 before work := by
  have outside : tape.tokens.length ≤ before.position := by
    rw [← kind?_eq rfl, Option.map_eq_none_iff, current?,
      List.getElem?_eq_none_iff] at atEnd
    exact atEnd
  have gone : tape.current? (tape.goOn before) = none :=
    List.getElem?_eq_none (Nat.le_succ_of_le outside)
  have looked : (tape.goOn before).run tape.current =
      some (.ok none, tape.goOn before) := by
    rw [← gone]
    rfl
  have missed : (tape.goOn before).run (tape.expect kind phrase) =
      some (.error ⟨.expected phrase none, tape.offset (tape.goOn before)⟩,
        tape.goOn before) := by
    rw [expect, Reader.run_bind_of_ok looked]
    rfl
  have stepped : before.run tape.advance = some (.ok (), tape.goOn before) :=
    rfl
  have ran : before.run work =
      some (.error ⟨.expected phrase none, tape.offset (tape.goOn before)⟩,
        tape.goOn before) := by
    rw [unfolds, Reader.run_bind_of_ok stepped,
      Reader.run_bind_of_error missed]
  refine ⟨_, tape.goOn before, ran, Nat.le_succ _, ?_, ?_⟩
  · rintro _ ⟨⟩
  · intro inside
    omega

example : (Reader.mk 0 none).run (Tape.mk []).trigger =
    some (.error ⟨.expected .eventName none, 0⟩, ⟨1, none⟩) := rfl

/-- Some work that passes its first token unseen. -/
theorem of_unseen {work : ReadM α} {kind : Token.Kind} {phrase : Phrase}
    {next : Token → ReadM α}
    {attempt : Attempt (Parsed (tape.cursor before) α)}
    (unfolds : work = do
      tape.advance
      let token ← tape.expect kind phrase
      next token)
    (agrees : ∀ first, (tape.cursor before).kind? = some first →
      work.Agrees tape before Parsed.value Parsed.next attempt) :
    tape.EndsAdvanced 1 before work := by
  cases seen : (tape.cursor before).kind? with
  | none => exact of_atEnd seen unfolds
  | some first => exact of_agrees 1 (agrees first seen)

theorem of_part {work : ReadM α} {unseen : Nat} (part : tape.Part work unseen)
    (before : Reader) : tape.EndsAdvanced unseen before work := by
  cases part with
  | token kind phrase => exact of_agrees _ (expect_agrees rfl kind phrase)
  | primary => exact of_agrees _ (primary_agrees _ before rfl)
  | expression => exact of_agrees _ (expression_agrees _ before rfl)
  | call => exact of_agrees _ (call_agrees _ before rfl)
  | arguments => exact of_agrees _ (arguments_agrees _ before rfl)
  | declaration => exact of_agrees _ (declaration_agrees _ before rfl)
  | assignment => exact of_agrees _ (assignment_agrees _ before rfl)
  | callStatement => exact of_agrees _ (callStatement_agrees _ before rfl)
  | statement => exact of_agrees _ (statement_agrees _ before rfl)
  | block => exact of_agrees _ (block_agrees _ before rfl)
  | statements => exact of_agrees _ (statements_agrees _ before rfl)
  | parameters => exact of_agrees _ (parameters_agrees _ before rfl)
  | branch =>
      exact of_unseen (branch.eq_1 tape) fun _ => branch_agrees _ before rfl
  | trigger =>
      exact of_unseen (trigger.eq_1 tape) fun _ => trigger_agrees _ before rfl
  | proc =>
      exact of_unseen (proc.eq_1 tape) fun _ => proc_agrees _ before rfl

end EndsAdvanced

/-! ## Calls one after another -/

/-- A call ends, with the result of parsing at its place, and where a script
was read, no token or an end marker follows. -/
theorem run_parse (tape : Tape) (before : Reader) :
    ∃ result after, before.run tape.parse = some (result, after) ∧
      tape.MovesTo before after (tape.cursor before).parse.2 ∧
      (tape.cursor before).parse.1 = result ∧
      ∀ nodes, result = .ok nodes →
        (tape.cursor after).rest = [] ∨
          Token.firstKind? (tape.cursor after).rest = some .eof := by
  have agrees := parse_agrees (tape.cursor before) before rfl
  rw [Cursor.parse]
  cases ran : Parser.declarations (tape.cursor before) with
  | error fault =>
      rw [ran] at agrees
      obtain ⟨after, run, moves⟩ := agrees
      refine ⟨_, after, run, moves, rfl, ?_⟩
      rintro _ ⟨⟩
  | ok pair =>
      rw [ran] at agrees
      obtain ⟨after, run, moves⟩ := agrees
      refine ⟨_, after, run, moves, rfl, ?_⟩
      intro _ _
      obtain ⟨_, _, _, _, ends⟩ := Parser.declarations_sound _ ran
      rwa [moves.cursor_eq]

/-- Calls one after another: the reader before each call, and the result of
each call. -/
structure Calls (tape : Tape) (readers : Nat → Reader)
    (results : Nat → Except ParseError (List Node)) : Prop where
  start : readers 0 = ⟨0, none⟩
  run : ∀ calls, (readers calls).run tape.parse =
    some (results calls, readers (calls + 1))

namespace Calls

variable {readers : Nat → Reader}
  {results : Nat → Except ParseError (List Node)}

theorem exists_calls (tape : Tape) :
    ∃ readers results, tape.Calls readers results := by
  choose result after run using tape.run_parse
  let readers : Nat → Reader :=
    Nat.rec ⟨0, none⟩ fun _ reader => after reader
  exact ⟨readers, fun calls => result (readers calls), rfl,
    fun calls => (run (readers calls)).1⟩

theorem step (made : tape.Calls readers results) (calls : Nat) :
    tape.MovesTo (readers calls) (readers (calls + 1))
        (tape.cursor (readers calls)).parse.2 ∧
      (tape.cursor (readers calls)).parse.1 = results calls ∧
      ∀ nodes, results calls = .ok nodes →
        (tape.cursor (readers (calls + 1))).rest = [] ∨
          Token.firstKind? (tape.cursor (readers (calls + 1))).rest =
            some .eof := by
  obtain ⟨result, after, run, moves, parsed, ends⟩ :=
    tape.run_parse (readers calls)
  rw [made.run calls] at run
  cases run
  exact ⟨moves, parsed, ends⟩

theorem within (made : tape.Calls readers results) (calls : Nat) :
    (readers calls).position ≤ tape.tokens.length := by
  induction calls with
  | zero =>
      rw [made.start]
      exact Nat.zero_le _
  | succ calls inductionHypothesis =>
      exact (made.step calls).1.within inductionHypothesis

theorem position_eq (made : tape.Calls readers results) (calls : Nat) :
    (readers calls).position =
      tape.tokens.length - (tape.cursor (readers calls)).rest.length := by
  have bound := made.within calls
  rw [cursor, List.length_drop]
  omega

/-- A call that leaves its reader as it was is repeated by all later ones. -/
theorem stays (made : tape.Calls readers results) {calls : Nat}
    (same : readers (calls + 1) = readers calls) :
    ∀ later, calls ≤ later →
      readers later = readers calls ∧ results later = results calls := by
  have again {later : Nat} (reader : readers later = readers calls) :
      results later = results calls ∧
        readers (later + 1) = readers (calls + 1) := by
    have run := made.run later
    rw [reader, made.run calls, Option.some.injEq, Prod.mk.injEq] at run
    exact ⟨run.1.symm, run.2.symm⟩
  intro later atLeast
  induction atLeast with
  | refl =>
      exact ⟨rfl, rfl⟩
  | step _ inductionHypothesis =>
      have reader := (again inductionHypothesis.1).2.trans same
      exact ⟨reader, (again reader).1⟩

theorem ends (made : tape.Calls readers results) {calls : Nat}
    {nodes : List Node} (parsed : results calls = .ok nodes) :
    (readers (calls + 1)).position = tape.tokens.length ∨
      ∃ token, tape.current? (readers (calls + 1)) = some token ∧
        token.kind = .eof := by
  have ends := (made.step calls).2.2 nodes parsed
  rw [cursor] at ends
  rcases ends with atEnd | atMarker
  · rw [List.drop_eq_nil_iff] at atEnd
    exact .inl (Nat.le_antisymm (made.within _) atEnd)
  · rw [Token.firstKind?, List.head?_drop, Option.map_eq_some_iff] at atMarker
    exact .inr atMarker

end Calls

/-- The positions of a reader.  Reading a part of a script ends; it never goes
back, goes on when it succeeds, and stays within the tape if the tokens it
passes unseen are there.  Calls that read whole scripts one after the other all
end, with the results of parsing from their places on.  They never go back and
never leave the tape.  Where a call does not move, all later calls have the
same result and do not move either.  Where a call succeeds, the end of the tape
or an end marker follows. -/
theorem parse_positions (tape : Tape) :
    (∀ (α : Type) (work : ReadM α) (unseen : Nat), tape.Part work unseen →
      ∀ reader : Reader, tape.EndsAdvanced unseen reader work) ∧
    ∃ readers results, tape.Calls readers results ∧ ∀ calls,
      (tape.cursor (readers calls)).parse =
          (results calls, tape.cursor (readers (calls + 1))) ∧
        (readers calls).position ≤ (readers (calls + 1)).position ∧
        (readers calls).position ≤ tape.tokens.length ∧
        ((readers (calls + 1)).position = (readers calls).position →
          ∀ later, calls ≤ later →
            results later = results calls ∧
              (readers later).position = (readers calls).position) ∧
        ∀ nodes, results calls = .ok nodes →
          (readers (calls + 1)).position = tape.tokens.length ∨
            ∃ token, tape.current? (readers (calls + 1)) = some token ∧
              token.kind = .eof := by
  refine ⟨fun _ _ _ part reader => .of_part part reader, ?_⟩
  obtain ⟨readers, results, made⟩ := Calls.exists_calls tape
  refine ⟨readers, results, made, ?_⟩
  intro calls
  obtain ⟨moves, parsed, _⟩ := made.step calls
  refine ⟨?_, moves.forward, made.within calls, ?_, ?_⟩
  · rw [moves.cursor_eq, ← parsed]
  · intro same later atLeast
    obtain ⟨reader, result⟩ := made.stays (moves.still same) later atLeast
    exact ⟨result, by rw [reader]⟩
  · intro nodes success
    exact made.ends success

/-- A trigger that breaks off, and a procedure behind it. -/
def brokenOff : Tape :=
  ⟨[⟨.keyOn, "on", ⟨0, 2⟩⟩, ⟨.identifier, "e", ⟨3, 4⟩⟩,
    ⟨.leftParen, "(", ⟨4, 5⟩⟩, ⟨.integer, "5", ⟨5, 6⟩⟩,
    ⟨.keyFunc, "func", ⟨7, 11⟩⟩, ⟨.identifier, "f", ⟨12, 13⟩⟩,
    ⟨.leftParen, "(", ⟨13, 14⟩⟩, ⟨.rightParen, ")", ⟨14, 15⟩⟩,
    ⟨.leftBrace, "\x7b", ⟨16, 17⟩⟩, ⟨.rightBrace, "\x7d", ⟨17, 18⟩⟩]⟩

theorem parse_brokenOff :
    (brokenOff.cursor ⟨0, none⟩).parse =
      (.error ⟨.expected .filterClose (some .keyFunc), 7⟩,
        brokenOff.cursor ⟨4, some 5⟩) ∧
    (brokenOff.cursor ⟨4, some 5⟩).parse =
      (.ok [.proc "f" [] (.block [])], ⟨[], some 17⟩) ∧
    (Cursor.mk [] (some 17)).parse = (.ok [], ⟨[], some 17⟩) := by
  refine ⟨?_, ?_, ?_⟩ <;> cbv

/-- The first call stops in the middle of the trigger, the second one reads the
procedure, and there is nothing left for those after it. -/
theorem parse_positions_brokenOff :
    brokenOff.EndsAdvanced 1 ⟨4, none⟩ brokenOff.proc ∧
    ∃ readers results, brokenOff.Calls readers results ∧
      results 0 = .error ⟨.expected .filterClose (some .keyFunc), 7⟩ ∧
      (readers 1).position = 4 ∧
      results 1 = .ok [.proc "f" [] (.block [])] ∧
      (readers 2).position = 10 ∧
      ∀ later, 2 ≤ later →
        results later = .ok [] ∧ (readers later).position = 10 := by
  obtain ⟨parts, readers, results, made, positions⟩ :=
    parse_positions brokenOff
  obtain ⟨broken, resumed, emptied⟩ := parse_brokenOff
  refine ⟨parts _ _ 1 .proc _, readers, results, made, ?_⟩
  have first := (positions 0).1
  rw [made.start, broken, Prod.mk.injEq] at first
  have second := (positions 1).1
  rw [← first.2, resumed, Prod.mk.injEq] at second
  have third := (positions 2).1
  rw [← second.2, emptied, Prod.mk.injEq] at third
  have positionOne : (readers 1).position = 4 := by
    rw [made.position_eq, ← first.2]
    rfl
  have positionTwo : (readers 2).position = 10 := by
    rw [made.position_eq, ← second.2]
    rfl
  have positionThree : (readers 3).position = (readers 2).position := by
    rw [made.position_eq, ← third.2, positionTwo]
    rfl
  refine ⟨first.1.symm, positionOne, second.1.symm, positionTwo, ?_⟩
  intro later atLeast
  have repeats := (positions 2).2.2.2.1 positionThree later atLeast
  rwa [← third.1, positionTwo] at repeats

end Tape

end TriggerScript
