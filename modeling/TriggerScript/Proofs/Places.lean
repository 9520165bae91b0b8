import TriggerScript.Node.Parser
import TriggerScript.Proofs.Lexemes

/-!
# Parsing does not look at places

Tokens of the same kinds and texts are parsed alike, wherever they stand in
their sources: either both parses return the same tree, or both fail for the
same cause.  Only the offset of an error may differ.
-/

namespace TriggerScript

/-- The tokens that are left have the same kinds and texts. -/
def Cursor.Alike (left right : Cursor) : Prop :=
  left.rest.map Token.lexeme = right.rest.map Token.lexeme

def Token.Alike (left right : Token) : Prop :=
  left.lexeme = right.lexeme

/-- Values that are related, with tokens behind them that are alike. -/
def Parsed.Alike {left right : Cursor} {α : Type}
    (related : α → α → Prop) (first : Parsed left α)
    (second : Parsed right α) : Prop :=
  related first.value second.value ∧ first.next.Alike second.next

/-- Both attempts succeed with related results, or both fail for the same
cause. -/
inductive Attempt.Alike {α β : Type} (related : α → β → Prop) :
    Attempt α → Attempt β → Prop
  | ok {first : α} {second : β} :
      related first second →
      Alike related (.ok first) (.ok second)
  | error {first second : ParseFault} :
      first.error.cause = second.error.cause →
      Alike related (.error first) (.error second)

theorem Attempt.Alike.bind {α β γ δ : Type} {related : α → β → Prop}
    {results : γ → δ → Prop} {first : Attempt α} {second : Attempt β}
    {next : α → Attempt γ} {next' : β → Attempt δ}
    (alike : Attempt.Alike related first second)
    (continued : ∀ left right, related left right →
      Attempt.Alike results (next left) (next' right)) :
    Attempt.Alike results (first >>= next) (second >>= next') := by
  cases alike with
  | ok values =>
      exact continued _ _ values
  | error cause =>
      exact .error cause

/-! ## Single tokens -/

namespace Cursor.Alike

variable {left right : Cursor}

theorem pass? (alike : left.Alike right) :
    Option.Rel (Parsed.Alike Token.Alike) left.pass? right.pass? := by
  obtain ⟨leftRest, leftPassed⟩ := left
  obtain ⟨rightRest, rightPassed⟩ := right
  cases leftRest with
  | nil =>
      cases rightRest with
      | nil =>
          exact .none
      | cons token rest =>
          cases alike
  | cons token rest =>
      cases rightRest with
      | nil =>
          cases alike
      | cons other others =>
          obtain ⟨same, behind⟩ := List.cons.inj alike
          exact .some ⟨same, behind⟩

theorem kind? (alike : left.Alike right) : left.kind? = right.kind? := by
  have kinds := congrArg (fun lexemes => lexemes.head?.map Lexeme.kind) alike
  simp only [List.head?_map, Option.map_map] at kinds
  exact kinds

theorem kindAfter? (alike : left.Alike right) :
    left.kindAfter? = right.kindAfter? := by
  have kinds := congrArg
    (fun lexemes => lexemes.tail.head?.map Lexeme.kind) alike
  simp only [← List.map_tail, List.head?_map, Option.map_map] at kinds
  exact kinds

theorem passIf? (alike : left.Alike right) (kind : Token.Kind) :
    Option.Rel (Parsed.Alike Token.Alike) (left.passIf? kind)
      (right.passIf? kind) := by
  have passed := alike.pass?
  unfold Cursor.passIf?
  generalize left.pass? = leftPassed, right.pass? = rightPassed at passed
  cases passed with
  | none =>
      exact .none
  | @some first second same =>
      have kindEq : first.value.kind = second.value.kind :=
        congrArg Lexeme.kind same.1
      simp only [Option.filter_some, kindEq]
      split
      · exact .some same
      · exact .none

theorem fail {α β : Type} {related : α → β → Prop}
    (cause : ParseError.Cause) :
    Attempt.Alike related (left.fail cause) (right.fail cause) :=
  .error rfl

theorem missing {α β : Type} {related : α → β → Prop}
    (alike : left.Alike right) (phrase : Phrase) :
    Attempt.Alike related (left.missing phrase) (right.missing phrase) := by
  rw [Cursor.missing, Cursor.missing, alike.kind?]
  exact fail _

theorem pass (alike : left.Alike right) (phrase : Phrase) :
    Attempt.Alike (Parsed.Alike Token.Alike) (left.pass phrase)
      (right.pass phrase) := by
  have passed := alike.pass?
  unfold Cursor.pass
  generalize left.pass? = leftPassed, right.pass? = rightPassed at passed
  cases passed with
  | none =>
      exact alike.missing phrase
  | some same =>
      exact .ok same

theorem expect (alike : left.Alike right) (kind : Token.Kind)
    (phrase : Phrase) :
    Attempt.Alike (Parsed.Alike Token.Alike) (left.expect kind phrase)
      (right.expect kind phrase) := by
  have passed := alike.passIf? kind
  unfold Cursor.expect
  generalize left.passIf? kind = leftPassed,
    right.passIf? kind = rightPassed at passed
  cases passed with
  | none =>
      exact alike.missing phrase
  | some same =>
      exact .ok same

end Cursor.Alike

theorem Token.Alike.kind {left right : Token} (same : left.Alike right) :
    left.kind = right.kind :=
  congrArg Lexeme.kind same

theorem Token.Alike.text {left right : Token} (same : left.Alike right) :
    left.text = right.text :=
  congrArg Lexeme.text same

/-! ## Expressions -/

namespace Parser

/-- A parser that treats tokens alike if their kinds and texts are the
same. -/
abbrev AlikeAt {α : Type}
    (parser : (start : Cursor) → Attempt (Parsed start α))
    (left right : Cursor) : Prop :=
  Attempt.Alike (Parsed.Alike Eq) (parser left) (parser right)

mutual

theorem primary_alike {left right : Cursor} (alike : left.Alike right) :
    AlikeAt primary left right := by
  have passed := alike.pass?
  rw [AlikeAt, primary, primary]
  generalize left.pass? = leftPassed, right.pass? = rightPassed at passed
  cases passed with
  | none =>
      exact alike.missing _
  | @some first second same =>
      obtain ⟨token, behind⟩ := same
      have := first.shorter
      simp only [token.kind, token.text]
      cases second.value.kind with
      | integer =>
          cases Literal.ofNumeral? second.value.text with
          | none =>
              exact .error rfl
          | some literal =>
              exact .ok ⟨rfl, behind⟩
      | string =>
          exact .ok ⟨rfl, behind⟩
      | bool =>
          exact .ok ⟨rfl, behind⟩
      | identifier =>
          simp only [behind.kind?]
          split
          · exact call_alike alike
          · exact .ok ⟨rfl, behind⟩
      | leftParen =>
          refine (expression_alike behind).bind ?_
          rintro inner inner' ⟨innerEq, innerBehind⟩
          refine (innerBehind.expect _ _).bind ?_
          rintro close close' ⟨_, closeBehind⟩
          exact .ok ⟨innerEq, closeBehind⟩
      | _ =>
          exact alike.missing _
termination_by 8 * left.rest.length + 1

theorem expression_alike {left right : Cursor}
    (alike : left.Alike right) : AlikeAt expression left right := by
  rw [AlikeAt, expression, expression]
  refine (primary_alike alike).bind ?_
  rintro first second ⟨firstEq, behind⟩
  have := first.shorter
  have passed := behind.pass?
  generalize first.next.pass? = leftPassed,
    second.next.pass? = rightPassed at passed
  cases passed with
  | none =>
      exact .ok ⟨firstEq, behind⟩
  | @some sign sign' same =>
      obtain ⟨token, signBehind⟩ := same
      have := sign.shorter
      simp only [token.kind]
      split
      · refine (primary_alike signBehind).bind ?_
        rintro last last' ⟨lastEq, lastBehind⟩
        refine .ok ⟨?_, lastBehind⟩
        rw [firstEq, lastEq]
      · exact .ok ⟨firstEq, behind⟩
termination_by 8 * left.rest.length + 2

theorem call_alike {left right : Cursor} (alike : left.Alike right) :
    AlikeAt call left right := by
  rw [AlikeAt, call, call]
  refine (alike.expect _ _).bind ?_
  rintro name name' ⟨named, nameBehind⟩
  refine (nameBehind.expect _ _).bind ?_
  rintro opened opened' ⟨_, openedBehind⟩
  have := name.shorter
  have := opened.shorter
  have passed := openedBehind.passIf? .rightParen
  generalize opened.next.passIf? .rightParen = leftPassed,
    opened'.next.passIf? .rightParen = rightPassed at passed
  cases passed with
  | none =>
      refine (arguments_alike openedBehind).bind ?_
      rintro args args' ⟨argsEq, argsBehind⟩
      refine .ok ⟨?_, argsBehind⟩
      rw [named.text, argsEq]
  | some same =>
      refine .ok ⟨?_, same.2⟩
      rw [named.text]
termination_by 8 * left.rest.length

theorem arguments_alike {left right : Cursor}
    (alike : left.Alike right) : AlikeAt arguments left right := by
  rw [AlikeAt, arguments, arguments]
  refine (expression_alike alike).bind ?_
  rintro first second ⟨firstEq, behind⟩
  have := first.shorter
  have passed := behind.passIf? .comma
  generalize first.next.passIf? .comma = leftPassed,
    second.next.passIf? .comma = rightPassed at passed
  cases passed with
  | none =>
      refine (behind.expect _ _).bind ?_
      rintro close close' ⟨_, closeBehind⟩
      refine .ok ⟨?_, closeBehind⟩
      rw [firstEq]
  | @some comma comma' same =>
      have := comma.shorter
      refine (arguments_alike same.2).bind ?_
      rintro others others' ⟨othersEq, othersBehind⟩
      refine .ok ⟨?_, othersBehind⟩
      rw [firstEq, othersEq]
termination_by 8 * left.rest.length + 3

end

/-! ## Statements -/

theorem declaration_alike {left right : Cursor}
    (alike : left.Alike right) : AlikeAt declaration left right := by
  rw [AlikeAt, declaration, declaration]
  refine (alike.expect _ _).bind ?_
  rintro type type' ⟨typed, typeBehind⟩
  refine (typeBehind.expect _ _).bind ?_
  rintro name name' ⟨named, nameBehind⟩
  have passed := nameBehind.passIf? .assign
  generalize name.next.passIf? .assign = leftPassed,
    name'.next.passIf? .assign = rightPassed at passed
  cases passed with
  | none =>
      refine (nameBehind.expect _ _).bind ?_
      rintro close close' ⟨_, closeBehind⟩
      refine .ok ⟨?_, closeBehind⟩
      rw [typed.text, named.text]
  | some same =>
      refine (expression_alike same.2).bind ?_
      rintro value value' ⟨valueEq, valueBehind⟩
      refine (valueBehind.expect _ _).bind ?_
      rintro close close' ⟨_, closeBehind⟩
      refine .ok ⟨?_, closeBehind⟩
      rw [typed.text, named.text, valueEq]

theorem assignment_alike {left right : Cursor}
    (alike : left.Alike right) : AlikeAt assignment left right := by
  rw [AlikeAt, assignment, assignment]
  refine (alike.expect _ _).bind ?_
  rintro name name' ⟨named, nameBehind⟩
  refine (nameBehind.expect _ _).bind ?_
  rintro sign sign' ⟨_, signBehind⟩
  refine (expression_alike signBehind).bind ?_
  rintro value value' ⟨valueEq, valueBehind⟩
  refine (valueBehind.expect _ _).bind ?_
  rintro close close' ⟨_, closeBehind⟩
  refine .ok ⟨?_, closeBehind⟩
  rw [named.text, valueEq]

theorem callStatement_alike {left right : Cursor}
    (alike : left.Alike right) : AlikeAt callStatement left right := by
  rw [AlikeAt, callStatement, callStatement]
  refine (call_alike alike).bind ?_
  rintro made made' ⟨madeEq, madeBehind⟩
  refine (madeBehind.expect _ _).bind ?_
  rintro close close' ⟨_, closeBehind⟩
  exact .ok ⟨madeEq, closeBehind⟩

mutual

theorem statement_alike {left right : Cursor}
    (alike : left.Alike right) : AlikeAt statement left right := by
  rw [AlikeAt, statement, statement, alike.kind?, alike.kindAfter?]
  split
  · exact block_alike alike
  · exact branch_alike alike
  · exact declaration_alike alike
  · exact assignment_alike alike
  · exact callStatement_alike alike
  · exact alike.missing _
termination_by 8 * left.rest.length + 1

theorem block_alike {left right : Cursor} (alike : left.Alike right) :
    AlikeAt block left right := by
  rw [AlikeAt, block, block]
  refine (alike.expect _ _).bind ?_
  rintro opened opened' ⟨_, openedBehind⟩
  have := opened.shorter
  refine (statements_alike openedBehind).bind ?_
  rintro inner inner' ⟨innerEq, innerBehind⟩
  refine .ok ⟨?_, innerBehind⟩
  rw [innerEq]
termination_by 8 * left.rest.length

theorem statements_alike {left right : Cursor}
    (alike : left.Alike right) : AlikeAt statements left right := by
  have passed := alike.pass?
  rw [AlikeAt, statements, statements]
  generalize left.pass? = leftPassed, right.pass? = rightPassed at passed
  cases passed with
  | none =>
      exact Cursor.Alike.fail _
  | @some first second same =>
      obtain ⟨token, behind⟩ := same
      simp only [token.kind]
      split
      · exact .ok ⟨rfl, behind⟩
      · exact Cursor.Alike.fail _
      · refine (statement_alike alike).bind ?_
        rintro head head' ⟨headEq, headBehind⟩
        have := head.shorter
        refine (statements_alike headBehind).bind ?_
        rintro others others' ⟨othersEq, othersBehind⟩
        refine .ok ⟨?_, othersBehind⟩
        rw [headEq, othersEq]
termination_by 8 * left.rest.length + 2

theorem branch_alike {left right : Cursor} (alike : left.Alike right) :
    AlikeAt branch left right := by
  rw [AlikeAt, branch, branch]
  refine (alike.pass _).bind ?_
  rintro word word' ⟨_, wordBehind⟩
  refine (wordBehind.expect _ _).bind ?_
  rintro opened opened' ⟨_, openedBehind⟩
  refine (expression_alike openedBehind).bind ?_
  rintro condition condition' ⟨conditionEq, conditionBehind⟩
  refine (conditionBehind.expect _ _).bind ?_
  rintro close close' ⟨_, closeBehind⟩
  have := word.shorter
  have := opened.shorter
  have := condition.shorter
  have := close.shorter
  refine (statement_alike closeBehind).bind ?_
  rintro taken taken' ⟨takenEq, takenBehind⟩
  have := taken.shorter
  have passed := takenBehind.passIf? .keyElse
  generalize taken.next.passIf? .keyElse = leftPassed,
    taken'.next.passIf? .keyElse = rightPassed at passed
  cases passed with
  | none =>
      refine .ok ⟨?_, takenBehind⟩
      rw [conditionEq, takenEq]
  | @some other other' same =>
      have := other.shorter
      refine (statement_alike same.2).bind ?_
      rintro missed missed' ⟨missedEq, missedBehind⟩
      refine .ok ⟨?_, missedBehind⟩
      rw [conditionEq, takenEq, missedEq]
termination_by 8 * left.rest.length

end

/-! ## Scripts -/

theorem trigger_alike {left right : Cursor} (alike : left.Alike right) :
    AlikeAt trigger left right := by
  rw [AlikeAt, trigger, trigger]
  refine (alike.pass _).bind ?_
  rintro word word' ⟨_, wordBehind⟩
  refine (wordBehind.expect _ _).bind ?_
  rintro event event' ⟨eventSame, eventBehind⟩
  refine (eventBehind.expect _ _).bind ?_
  rintro opened opened' ⟨_, openedBehind⟩
  refine (openedBehind.expect _ _).bind ?_
  rintro filter filter' ⟨filterSame, filterBehind⟩
  refine (filterBehind.expect _ _).bind ?_
  rintro close close' ⟨_, closeBehind⟩
  refine (statement_alike closeBehind).bind ?_
  rintro body body' ⟨bodyEq, bodyBehind⟩
  refine .ok ⟨?_, bodyBehind⟩
  rw [eventSame.text, filterSame.text, bodyEq]

theorem parameters_alike {left right : Cursor}
    (alike : left.Alike right) : AlikeAt parameters left right := by
  rw [AlikeAt, parameters, parameters]
  refine (alike.expect _ _).bind ?_
  rintro type type' ⟨typed, typeBehind⟩
  refine (typeBehind.expect _ _).bind ?_
  rintro name name' ⟨named, nameBehind⟩
  have := type.shorter
  have := name.shorter
  have passed := nameBehind.passIf? .comma
  generalize name.next.passIf? .comma = leftPassed,
    name'.next.passIf? .comma = rightPassed at passed
  cases passed with
  | none =>
      refine (nameBehind.expect _ _).bind ?_
      rintro close close' ⟨_, closeBehind⟩
      refine .ok ⟨?_, closeBehind⟩
      rw [typed.text, named.text]
  | @some comma comma' same =>
      have := comma.shorter
      refine (parameters_alike same.2).bind ?_
      rintro others others' ⟨othersEq, othersBehind⟩
      refine .ok ⟨?_, othersBehind⟩
      rw [typed.text, named.text, othersEq]
termination_by left.rest.length

theorem proc_alike {left right : Cursor} (alike : left.Alike right) :
    AlikeAt proc left right := by
  rw [AlikeAt, proc, proc]
  refine (alike.pass _).bind ?_
  rintro word word' ⟨_, wordBehind⟩
  refine (wordBehind.expect _ _).bind ?_
  rintro name name' ⟨named, nameBehind⟩
  refine (nameBehind.expect _ _).bind ?_
  rintro opened opened' ⟨_, openedBehind⟩
  have passed := openedBehind.passIf? .rightParen
  generalize opened.next.passIf? .rightParen = leftPassed,
    opened'.next.passIf? .rightParen = rightPassed at passed
  cases passed with
  | none =>
      refine (parameters_alike openedBehind).bind ?_
      rintro params params' ⟨paramsEq, paramsBehind⟩
      refine (block_alike paramsBehind).bind ?_
      rintro body body' ⟨bodyEq, bodyBehind⟩
      refine .ok ⟨?_, bodyBehind⟩
      rw [named.text, paramsEq, bodyEq]
  | some same =>
      refine (block_alike same.2).bind ?_
      rintro body body' ⟨bodyEq, bodyBehind⟩
      refine .ok ⟨?_, bodyBehind⟩
      rw [named.text, bodyEq]
      rfl

theorem declarations_alike {left right : Cursor}
    (alike : left.Alike right) :
    Attempt.Alike (fun first second => first.1 = second.1)
      (declarations left) (declarations right) := by
  rw [declarations, declarations, alike.kind?]
  split
  · exact .ok rfl
  · exact .ok rfl
  · refine (trigger_alike alike).bind ?_
    rintro first second ⟨firstEq, behind⟩
    have := first.shorter
    refine (declarations_alike behind).bind ?_
    rintro others others' othersEq
    refine .ok ?_
    rw [firstEq, othersEq]
  · refine (proc_alike alike).bind ?_
    rintro first second ⟨firstEq, behind⟩
    have := first.shorter
    refine (declarations_alike behind).bind ?_
    rintro others others' othersEq
    refine .ok ?_
    rw [firstEq, othersEq]
  · exact alike.missing _
termination_by left.rest.length

end Parser

/-- Tokens of the same kinds and texts are parsed to the same script, or to
errors of the same cause. -/
theorem Node.parse_alike {left right : List Token}
    (alike : left.map Token.lexeme = right.map Token.lexeme) :
    (∃ nodes, Node.parse left = .ok nodes ∧ Node.parse right = .ok nodes) ∨
      ∃ first second, Node.parse left = .error first ∧
        Node.parse right = .error second ∧ first.cause = second.cause := by
  have parsed := @Parser.declarations_alike ⟨left, none⟩ ⟨right, none⟩ alike
  unfold Node.parse Cursor.parse
  generalize Parser.declarations ⟨left, none⟩ = leftParsed,
    Parser.declarations ⟨right, none⟩ = rightParsed at parsed
  cases parsed with
  | @ok first second same =>
      refine .inl ⟨first.1, rfl, ?_⟩
      rw [same]
  | error cause =>
      exact .inr ⟨_, _, rfl, rfl, cause⟩

end TriggerScript
