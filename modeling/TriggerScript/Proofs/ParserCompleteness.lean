import TriggerScript.Proofs.ParserSoundness

/-!
# What follows the grammar is accepted

A parser that stands before tokens that derive a tree returns that tree, if
the token behind them does not continue it: an opening parenthesis would turn
a name into a call, a comparator would extend an expression, and an `else`
would belong to an open `if`.

Together with soundness this says that parsing accepts exactly the programs
of the grammar, and that of the trees a program has it returns the one in
which every `else` belongs to the nearest `if`.
-/

namespace TriggerScript

/-- The kinds that close an expression. -/
def Token.Kind.endsExpression : Token.Kind → Bool
  | rightParen | comma | semicolon => true
  | _ => false

theorem Token.Kind.not_continues {kind : Token.Kind}
    (ends : kind.endsExpression = true) :
    kind ≠ .leftParen ∧ kind.isComparator = false := by
  cases kind
  case rightParen | comma | semicolon =>
    decide
  all_goals cases ends

/-! ## The first token of a phrase -/

namespace Grammar

theorem Call.first {tokens : List Token} {node : Node}
    (derived : Call tokens node) :
    ∃ name opening more, tokens = name :: opening :: more ∧
      name.kind = .identifier ∧ opening.kind = .leftParen := by
  cases derived with
  | empty nameKind openedKind closeKind =>
      exact ⟨_, _, _, rfl, nameKind, openedKind⟩
  | filled nameKind openedKind args closeKind =>
      exact ⟨_, _, _, rfl, nameKind, openedKind⟩

theorem Primary.first {tokens : List Token} {node : Node}
    (derived : Primary tokens node) :
    ∃ first more, tokens = first :: more ∧ first.kind ≠ .rightParen := by
  cases derived with
  | integer kindEq =>
      exact ⟨_, _, rfl, by simp [kindEq]⟩
  | string kindEq =>
      exact ⟨_, _, rfl, by simp [kindEq]⟩
  | bool kindEq =>
      exact ⟨_, _, rfl, by simp [kindEq]⟩
  | var kindEq =>
      exact ⟨_, _, rfl, by simp [kindEq]⟩
  | call called =>
      obtain ⟨name, opening, more, rfl, nameKind, _⟩ := called.first
      exact ⟨_, _, rfl, by simp [nameKind]⟩
  | group openedKind inner closeKind =>
      exact ⟨_, _, rfl, by simp [openedKind]⟩

theorem Expression.first {tokens : List Token} {node : Node}
    (derived : Expression tokens node) :
    ∃ first more, tokens = first :: more ∧ first.kind ≠ .rightParen := by
  cases derived with
  | primary only =>
      exact only.first
  | compare left sign right =>
      obtain ⟨first, more, rfl, kindNe⟩ := left.first
      exact ⟨first, _, rfl, kindNe⟩

theorem Arguments.first {tokens : List Token} {nodes : List Node}
    (derived : Arguments tokens nodes) :
    ∃ first more, tokens = first :: more ∧ first.kind ≠ .rightParen := by
  cases derived with
  | single only =>
      exact only.first
  | cons head comma others =>
      obtain ⟨first, more, rfl, kindNe⟩ := head.first
      exact ⟨first, _, rfl, kindNe⟩

theorem Statement.first {tokens : List Token} {node : Node}
    (derived : Statement tokens node) :
    ∃ first more, tokens = first :: more ∧
      (first.kind = .leftBrace ∨ first.kind = .keyIf ∨
        first.kind = .identifier) := by
  cases derived with
  | block inner =>
      cases inner with
      | braces openedKind statements closeKind =>
          exact ⟨_, _, rfl, .inl openedKind⟩
  | ifThen wordKind =>
      exact ⟨_, _, rfl, .inr (.inl wordKind)⟩
  | ifElse wordKind =>
      exact ⟨_, _, rfl, .inr (.inl wordKind)⟩
  | declare typeKind =>
      exact ⟨_, _, rfl, .inr (.inr typeKind)⟩
  | declareWith typeKind =>
      exact ⟨_, _, rfl, .inr (.inr typeKind)⟩
  | assign nameKind =>
      exact ⟨_, _, rfl, .inr (.inr nameKind)⟩
  | call called closeKind =>
      obtain ⟨name, opening, more, rfl, nameKind, _⟩ := called.first
      exact ⟨name, _, rfl, .inr (.inr nameKind)⟩

theorem Parameters.first {tokens : List Token} {params : List Param}
    (derived : Parameters tokens params) :
    ∃ first more, tokens = first :: more ∧ first.kind = .identifier := by
  cases derived with
  | single typeKind =>
      exact ⟨_, _, rfl, typeKind⟩
  | cons typeKind =>
      exact ⟨_, _, rfl, typeKind⟩

theorem Trigger.first {tokens : List Token} {node : Node}
    (derived : Trigger tokens node) :
    ∃ word more, tokens = word :: more ∧ word.kind = .keyOn := by
  cases derived with
  | on wordKind =>
      exact ⟨_, _, rfl, wordKind⟩

theorem Proc.first {tokens : List Token} {node : Node}
    (derived : Proc tokens node) :
    ∃ word more, tokens = word :: more ∧ word.kind = .keyFunc := by
  cases derived with
  | empty wordKind =>
      exact ⟨_, _, rfl, wordKind⟩
  | filled wordKind =>
      exact ⟨_, _, rfl, wordKind⟩

/-- No `else` follows a statement of a block. -/
theorem Statements.firstKind? {tokens rest : List Token} {nodes : List Node}
    {closing : Token} (derived : Statements tokens nodes)
    (closeKind : closing.kind = .rightBrace) :
    Token.firstKind? (tokens ++ closing :: rest) ≠ some .keyElse := by
  cases derived with
  | nil =>
      simp [Token.firstKind?, closeKind]
  | cons head others =>
      obtain ⟨first, more, rfl, kindEq⟩ := head.first
      rcases kindEq with kindEq | kindEq | kindEq
      all_goals simp [Token.firstKind?, kindEq]

/-- No `else` follows a declaration. -/
theorem Program.firstKind? {tokens rest : List Token} {nodes : List Node}
    (derived : Program tokens nodes)
    (ends : rest = [] ∨ Token.firstKind? rest = some .eof) :
    Token.firstKind? (tokens ++ rest) ≠ some .keyElse := by
  cases derived with
  | nil =>
      rcases ends with rfl | marker
      · simp [Token.firstKind?]
      · simp [marker]
  | trigger head others =>
      obtain ⟨word, more, rfl, wordKind⟩ := head.first
      simp [Token.firstKind?, wordKind]
  | proc head others =>
      obtain ⟨word, more, rfl, wordKind⟩ := head.first
      simp [Token.firstKind?, wordKind]

end Grammar

/-! ## Steps of a parser -/

namespace Cursor

variable {cursor : Cursor} {kind : Token.Kind} {token : Token}
  {rest : List Token}

theorem pass?_cons (front : cursor.rest = token :: rest) :
    ∃ parsed, cursor.pass? = some parsed ∧ parsed.value = token ∧
      parsed.next.rest = rest := by
  cases cursor with
  | mk tokens last =>
      cases front
      exact ⟨_, rfl, rfl, rfl⟩

theorem pass_reads {phrase : Phrase} (front : cursor.rest = token :: rest) :
    Attempt.Reads (cursor.pass phrase) token rest := by
  obtain ⟨parsed, passed, valueEq, restEq⟩ := pass?_cons front
  refine ⟨parsed, ?_, valueEq, restEq⟩
  rw [pass, passed]

theorem passIf?_cons (front : cursor.rest = token :: rest)
    (kindEq : token.kind = kind) :
    ∃ parsed, cursor.passIf? kind = some parsed ∧ parsed.value = token ∧
      parsed.next.rest = rest := by
  obtain ⟨parsed, passed, valueEq, restEq⟩ := pass?_cons front
  refine ⟨parsed, ?_, valueEq, restEq⟩
  rw [passIf?, passed, Option.filter_some, if_pos]
  simp [valueEq, kindEq]

theorem passIf?_of_firstKind?_ne
    (other : Token.firstKind? cursor.rest ≠ some kind) :
    cursor.passIf? kind = none := by
  cases passed : cursor.passIf? kind with
  | none =>
      rfl
  | some parsed =>
      obtain ⟨front, kindEq⟩ := passIf?_eq_some passed
      exfalso
      apply other
      rw [front, Token.firstKind?, List.head?_cons, Option.map_some, kindEq]

theorem expect_reads {phrase : Phrase} (front : cursor.rest = token :: rest)
    (kindEq : token.kind = kind) :
    Attempt.Reads (cursor.expect kind phrase) token rest := by
  obtain ⟨parsed, passed, valueEq, restEq⟩ := passIf?_cons front kindEq
  refine ⟨parsed, ?_, valueEq, restEq⟩
  rw [expect, passed]

end Cursor

theorem Attempt.Reads.bind {start middle : Cursor} {α β : Type}
    {first : Attempt (Parsed middle α)}
    {next : Parsed middle α → Attempt (Parsed start β)} {found : α}
    {value : β} {behind rest : List Token}
    (reads : Reads first found behind)
    (continued : ∀ parsed : Parsed middle α, parsed.value = found →
      parsed.next.rest = behind → Reads (next parsed) value rest) :
    Reads (first >>= next) value rest := by
  obtain ⟨parsed, run, valueEq, restEq⟩ := reads
  exact reads_bind.mpr ⟨parsed, run, continued parsed valueEq restEq⟩

namespace Parser

open Attempt Grammar

/-! ## Expressions -/

mutual

theorem primary_complete {tokens rest : List Token} {node : Node}
    {behind : Token} (derived : Primary tokens node) (start : Cursor)
    (front : start.rest = tokens ++ behind :: rest)
    (noCall : behind.kind ≠ .leftParen) :
    Reads (primary start) node (behind :: rest) := by
  cases derived with
  | integer kindEq readEq denoted =>
      have value :=
        Literal.ofNumeral?_eq_some_iff.mpr ⟨_, readEq, denoted⟩
      obtain ⟨parsed, passed, rfl, restEq⟩ := Cursor.pass?_cons front
      refine ⟨parsed.as _, ?_, rfl, restEq⟩
      rw [primary, passed]
      simp only [kindEq, value]
  | string kindEq =>
      obtain ⟨parsed, passed, rfl, restEq⟩ := Cursor.pass?_cons front
      refine ⟨parsed.as _, ?_, rfl, restEq⟩
      rw [primary, passed]
      simp only [kindEq]
  | bool kindEq =>
      obtain ⟨parsed, passed, rfl, restEq⟩ := Cursor.pass?_cons front
      refine ⟨parsed.as _, ?_, rfl, restEq⟩
      rw [primary, passed]
      simp only [kindEq]
  | var kindEq =>
      obtain ⟨parsed, passed, rfl, restEq⟩ := Cursor.pass?_cons front
      have stays : ¬parsed.next.kind? = some .leftParen := by
        simpa [Cursor.kind?, restEq] using noCall
      refine ⟨parsed.as _, ?_, rfl, restEq⟩
      rw [primary, passed]
      simp only [kindEq, if_neg stays]
  | call called =>
      -- The second token tells a call from a variable.
      have read := call_complete called start front
      obtain ⟨name, opening, more, rfl, nameKind, openedKind⟩ :=
        called.first
      obtain ⟨parsed, passed, rfl, restEq⟩ := Cursor.pass?_cons front
      have goes : parsed.next.kind? = some .leftParen := by
        simp [Cursor.kind?, restEq, openedKind]
      rw [primary, passed]
      simpa only [nameKind, if_pos goes] using read
  | group openedKind inner closeKind =>
      simp only [List.cons_append, List.append_assoc] at front
      obtain ⟨opened, passed, rfl, restEq⟩ := Cursor.pass?_cons front
      rw [primary, passed]
      simp only [openedKind]
      have := opened.shorter
      refine (expression_complete inner opened.next restEq
        (by rw [closeKind]; rfl)).bind ?_
      intro parsed valueEq innerEq
      refine (Cursor.expect_reads innerEq closeKind).bind ?_
      intro close _ closeEq
      exact ⟨_, rfl, valueEq, closeEq⟩
termination_by 8 * start.rest.length + 1

theorem expression_complete {tokens rest : List Token} {node : Node}
    {behind : Token} (derived : Expression tokens node) (start : Cursor)
    (front : start.rest = tokens ++ behind :: rest)
    (ends : behind.kind.endsExpression = true) :
    Reads (expression start) node (behind :: rest) := by
  obtain ⟨noCall, noSign⟩ := Token.Kind.not_continues ends
  cases derived with
  | primary only =>
      rw [expression]
      refine (primary_complete only start front noCall).bind ?_
      intro left valueEq leftEq
      obtain ⟨sign, passed, rfl, _⟩ := Cursor.pass?_cons leftEq
      simp only [passed, noSign]
      exact ⟨left, rfl, valueEq, leftEq⟩
  | @compare sign before after first second left signKind right =>
      have noOpening : sign.kind ≠ .leftParen := by
        intro opens
        rw [opens] at signKind
        cases signKind
      rw [List.append_assoc] at front
      rw [expression]
      refine (primary_complete left start front noOpening).bind ?_
      intro parsed valueEq leftEq
      obtain ⟨passedSign, passed, rfl, signEq⟩ := Cursor.pass?_cons leftEq
      simp only [passed, signKind, if_true]
      have := parsed.shorter
      have := passedSign.shorter
      refine (primary_complete right passedSign.next signEq noCall).bind ?_
      intro other otherEq rightEq
      refine ⟨_, rfl, ?_, rightEq⟩
      simp only [valueEq, otherEq]
termination_by 8 * start.rest.length + 2

theorem call_complete {tokens rest : List Token} {node : Node}
    (derived : Call tokens node) (start : Cursor)
    (front : start.rest = tokens ++ rest) :
    Reads (call start) node rest := by
  rw [call]
  cases derived with
  | empty nameKind openedKind closeKind =>
      refine (Cursor.expect_reads front nameKind).bind ?_
      intro name nameEq afterName
      refine (Cursor.expect_reads afterName openedKind).bind ?_
      intro opened _ afterOpening
      obtain ⟨close, passed, _, closeEq⟩ :=
        Cursor.passIf?_cons afterOpening closeKind
      simp only [passed]
      refine ⟨_, rfl, ?_, closeEq⟩
      rw [nameEq]
  | filled nameKind openedKind args closeKind =>
      simp only [List.cons_append, List.append_assoc] at front
      refine (Cursor.expect_reads front nameKind).bind ?_
      intro name nameEq afterName
      refine (Cursor.expect_reads afterName openedKind).bind ?_
      intro opened _ afterOpening
      have stays : opened.next.passIf? .rightParen = none := by
        apply Cursor.passIf?_of_firstKind?_ne
        obtain ⟨first, more, rfl, kindNe⟩ := args.first
        rw [afterOpening]
        simpa [Token.firstKind?] using kindNe
      simp only [stays]
      have := name.shorter
      have := opened.shorter
      refine (arguments_complete args opened.next afterOpening
        closeKind).bind ?_
      intro parsed valueEq argsEq
      refine ⟨_, rfl, ?_, argsEq⟩
      simp only [nameEq, valueEq]
termination_by 8 * start.rest.length + 0

theorem arguments_complete {tokens rest : List Token} {nodes : List Node}
    {closing : Token} (derived : Arguments tokens nodes) (start : Cursor)
    (front : start.rest = tokens ++ closing :: rest)
    (closeKind : closing.kind = .rightParen) :
    Reads (arguments start) nodes rest := by
  rw [arguments]
  cases derived with
  | single only =>
      refine (expression_complete only start front
        (by rw [closeKind]; rfl)).bind ?_
      intro first valueEq firstEq
      have stays : first.next.passIf? .comma = none := by
        apply Cursor.passIf?_of_firstKind?_ne
        simp [firstEq, Token.firstKind?, closeKind]
      simp only [stays]
      refine (Cursor.expect_reads firstEq closeKind).bind ?_
      intro close _ closeEq
      refine ⟨_, rfl, ?_, closeEq⟩
      rw [valueEq]
  | cons head commaKind others =>
      rw [List.append_assoc] at front
      refine (expression_complete head start front
        (by rw [commaKind]; rfl)).bind ?_
      intro first valueEq firstEq
      obtain ⟨comma, passed, _, commaEq⟩ :=
        Cursor.passIf?_cons firstEq commaKind
      simp only [passed]
      have := first.shorter
      have := comma.shorter
      refine (arguments_complete others comma.next commaEq closeKind).bind ?_
      intro parsed othersValue othersEq
      refine ⟨_, rfl, ?_, othersEq⟩
      simp only [valueEq, othersValue]
termination_by 8 * start.rest.length + 3

end

/-! ## Statements -/

theorem declaration_complete {type name closing : Token} {rest : List Token}
    (start : Cursor) (front : start.rest = type :: name :: closing :: rest)
    (typeKind : type.kind = .identifier)
    (nameKind : name.kind = .identifier)
    (closeKind : closing.kind = .semicolon) :
    Reads (declaration start) (.declare type.text name.text none) rest := by
  rw [declaration]
  refine (Cursor.expect_reads front typeKind).bind ?_
  intro typed typeEq afterType
  refine (Cursor.expect_reads afterType nameKind).bind ?_
  intro named nameEq afterName
  have stays : named.next.passIf? .assign = none := by
    apply Cursor.passIf?_of_firstKind?_ne
    simp [afterName, Token.firstKind?, closeKind]
  simp only [stays]
  refine (Cursor.expect_reads afterName closeKind).bind ?_
  intro close _ closeEq
  refine ⟨_, rfl, ?_, closeEq⟩
  rw [typeEq, nameEq]

theorem declaration_with_complete {type name sign closing : Token}
    {tokens rest : List Token} {value : Node} (start : Cursor)
    (front : start.rest =
      type :: name :: sign :: (tokens ++ closing :: rest))
    (typeKind : type.kind = .identifier)
    (nameKind : name.kind = .identifier) (signKind : sign.kind = .assign)
    (derived : Expression tokens value)
    (closeKind : closing.kind = .semicolon) :
    Reads (declaration start)
      (.declare type.text name.text (some value)) rest := by
  rw [declaration]
  refine (Cursor.expect_reads front typeKind).bind ?_
  intro typed typeEq afterType
  refine (Cursor.expect_reads afterType nameKind).bind ?_
  intro named nameEq afterName
  obtain ⟨signed, passed, _, afterSign⟩ :=
    Cursor.passIf?_cons afterName signKind
  simp only [passed]
  refine (expression_complete derived signed.next afterSign
    (by rw [closeKind]; rfl)).bind ?_
  intro parsed valueEq afterValue
  refine (Cursor.expect_reads afterValue closeKind).bind ?_
  intro close _ closeEq
  refine ⟨_, rfl, ?_, closeEq⟩
  simp only [typeEq, nameEq, valueEq]

theorem assignment_complete {name sign closing : Token}
    {tokens rest : List Token} {value : Node} (start : Cursor)
    (front : start.rest = name :: sign :: (tokens ++ closing :: rest))
    (nameKind : name.kind = .identifier) (signKind : sign.kind = .assign)
    (derived : Expression tokens value)
    (closeKind : closing.kind = .semicolon) :
    Reads (assignment start) (.assign name.text value) rest := by
  rw [assignment]
  refine (Cursor.expect_reads front nameKind).bind ?_
  intro named nameEq afterName
  refine (Cursor.expect_reads afterName signKind).bind ?_
  intro signed _ afterSign
  refine (expression_complete derived signed.next afterSign
    (by rw [closeKind]; rfl)).bind ?_
  intro parsed valueEq afterValue
  refine (Cursor.expect_reads afterValue closeKind).bind ?_
  intro close _ closeEq
  refine ⟨_, rfl, ?_, closeEq⟩
  simp only [nameEq, valueEq]

theorem callStatement_complete {closing : Token} {tokens rest : List Token}
    {node : Node} (start : Cursor)
    (front : start.rest = tokens ++ closing :: rest)
    (derived : Call tokens node) (closeKind : closing.kind = .semicolon) :
    Reads (callStatement start) node rest := by
  rw [callStatement]
  refine (call_complete derived start front).bind ?_
  intro made valueEq afterCall
  refine (Cursor.expect_reads afterCall closeKind).bind ?_
  intro close _ closeEq
  exact ⟨_, rfl, valueEq, closeEq⟩

mutual

theorem statement_complete {tokens rest : List Token} {node : Node}
    (derived : Statement tokens node) (start : Cursor)
    (front : start.rest = tokens ++ rest) (nearest : node.NearestElse)
    (complete : node.endsOpen = true →
      Token.firstKind? rest ≠ some .keyElse) :
    Reads (statement start) node rest := by
  cases derived with
  | block inner =>
      have read := block_complete inner start front nearest
      cases inner with
      | braces openedKind derived closeKind =>
          have kindEq : start.kind? = some .leftBrace := by
            simp [Cursor.kind?, front, openedKind]
          rw [statement, kindEq]
          exact read
  | ifThen wordKind openedKind tested closeKind taken =>
      have kindEq : start.kind? = some .keyIf := by
        simp [Cursor.kind?, front, wordKind]
      -- The branch may end open as well, but what follows it is no `else`.
      have noElse := complete rfl
      simp only [List.cons_append, List.append_assoc] at front
      rw [statement, kindEq]
      change Reads (branch start) _ _
      rw [branch]
      refine (Cursor.pass_reads front).bind ?_
      intro word _ afterWord
      refine (Cursor.expect_reads afterWord openedKind).bind ?_
      intro opened _ afterOpening
      refine (expression_complete tested opened.next afterOpening
        (by rw [closeKind]; rfl)).bind ?_
      intro condition conditionEq afterCondition
      refine (Cursor.expect_reads afterCondition closeKind).bind ?_
      intro close _ afterClosing
      have := word.shorter
      have := opened.shorter
      have := condition.shorter
      have := close.shorter
      refine (statement_complete taken close.next afterClosing nearest
        (fun _ => noElse)).bind ?_
      intro thenBranch thenEq afterThen
      have stays : thenBranch.next.passIf? .keyElse = none := by
        apply Cursor.passIf?_of_firstKind?_ne
        rw [afterThen]
        exact noElse
      simp only [stays]
      refine ⟨_, rfl, ?_, afterThen⟩
      simp only [conditionEq, thenEq]
  | ifElse wordKind openedKind tested closeKind taken otherKind missed =>
      have kindEq : start.kind? = some .keyIf := by
        simp [Cursor.kind?, front, wordKind]
      obtain ⟨thenClosed, thenNearest, elseNearest⟩ := nearest
      simp only [List.cons_append, List.append_assoc] at front
      rw [statement, kindEq]
      change Reads (branch start) _ _
      rw [branch]
      refine (Cursor.pass_reads front).bind ?_
      intro word _ afterWord
      refine (Cursor.expect_reads afterWord openedKind).bind ?_
      intro opened _ afterOpening
      refine (expression_complete tested opened.next afterOpening
        (by rw [closeKind]; rfl)).bind ?_
      intro condition conditionEq afterCondition
      refine (Cursor.expect_reads afterCondition closeKind).bind ?_
      intro close _ afterClosing
      have := word.shorter
      have := opened.shorter
      have := condition.shorter
      have := close.shorter
      refine (statement_complete taken close.next afterClosing thenNearest
        (by simp [thenClosed])).bind ?_
      intro thenBranch thenEq afterThen
      obtain ⟨other, passed, _, afterOther⟩ :=
        Cursor.passIf?_cons afterThen otherKind
      simp only [passed]
      have := thenBranch.shorter
      have := other.shorter
      refine (statement_complete missed other.next afterOther elseNearest
        complete).bind ?_
      intro elseBranch elseEq afterElse
      refine ⟨_, rfl, ?_, afterElse⟩
      simp only [conditionEq, thenEq, elseEq]
  | declare typeKind nameKind closeKind =>
      have kindEq : start.kind? = some .identifier := by
        simp [Cursor.kind?, front, typeKind]
      have afterEq : start.kindAfter? = some .identifier := by
        simp [Cursor.kindAfter?, front, nameKind]
      rw [statement, kindEq, afterEq]
      exact declaration_complete start front typeKind nameKind closeKind
  | declareWith typeKind nameKind signKind value closeKind =>
      have kindEq : start.kind? = some .identifier := by
        simp [Cursor.kind?, front, typeKind]
      have afterEq : start.kindAfter? = some .identifier := by
        simp [Cursor.kindAfter?, front, nameKind]
      simp only [List.cons_append, List.append_assoc] at front
      rw [statement, kindEq, afterEq]
      exact declaration_with_complete start front typeKind nameKind
        signKind value closeKind
  | assign nameKind signKind value closeKind =>
      have kindEq : start.kind? = some .identifier := by
        simp [Cursor.kind?, front, nameKind]
      have afterEq : start.kindAfter? = some .assign := by
        simp [Cursor.kindAfter?, front, signKind]
      simp only [List.cons_append, List.append_assoc] at front
      rw [statement, kindEq, afterEq]
      exact assignment_complete start front nameKind signKind value closeKind
  | call called closeKind =>
      rw [List.append_assoc] at front
      have read := callStatement_complete start front called closeKind
      obtain ⟨name, opening, more, rfl, nameKind, openedKind⟩ :=
        called.first
      have kindEq : start.kind? = some .identifier := by
        simp [Cursor.kind?, front, nameKind]
      have afterEq : start.kindAfter? = some .leftParen := by
        simp [Cursor.kindAfter?, front, openedKind]
      rw [statement, kindEq, afterEq]
      exact read
termination_by 8 * start.rest.length + 1

theorem block_complete {tokens rest : List Token} {node : Node}
    (derived : Block tokens node) (start : Cursor)
    (front : start.rest = tokens ++ rest) (nearest : node.NearestElse) :
    Reads (block start) node rest := by
  cases derived with
  | braces openedKind inner closeKind =>
      simp only [List.cons_append, List.append_assoc] at front
      rw [block]
      refine (Cursor.expect_reads front openedKind).bind ?_
      intro opened _ afterOpening
      have := opened.shorter
      refine (statements_complete inner opened.next afterOpening closeKind
        nearest).bind ?_
      intro parsed valueEq afterInner
      refine ⟨_, rfl, ?_, afterInner⟩
      simp only [valueEq]
termination_by 8 * start.rest.length + 0

theorem statements_complete {tokens rest : List Token} {nodes : List Node}
    {closing : Token} (derived : Statements tokens nodes) (start : Cursor)
    (front : start.rest = tokens ++ closing :: rest)
    (closeKind : closing.kind = .rightBrace)
    (nearest : Node.AllNearestElse nodes) :
    Reads (statements start) nodes rest := by
  rw [statements]
  cases derived with
  | nil =>
      obtain ⟨close, passed, rfl, closeEq⟩ := Cursor.pass?_cons front
      rw [passed]
      simp only [closeKind]
      exact ⟨_, rfl, rfl, closeEq⟩
  | cons head others =>
      obtain ⟨headNearest, othersNearest⟩ := nearest
      rw [List.append_assoc] at front
      have read := statement_complete head start front headNearest
        (fun _ => others.firstKind? closeKind)
      obtain ⟨first, more, rfl, kindEq⟩ := head.first
      obtain ⟨parsed, passed, rfl, _⟩ := Cursor.pass?_cons front
      rw [passed]
      -- Whichever of its tokens comes first, the statement is read next.
      rcases kindEq with kindEq | kindEq | kindEq
      all_goals
        simp only [kindEq]
        refine read.bind ?_
        intro parsedHead headEq afterHead
        have := parsedHead.shorter
        refine (statements_complete others parsedHead.next afterHead
          closeKind othersNearest).bind ?_
        intro parsedOthers othersEq afterOthers
        refine ⟨_, rfl, ?_, afterOthers⟩
        simp only [headEq, othersEq]
termination_by 8 * start.rest.length + 2

end

/-! ## Declarations -/

theorem trigger_complete {tokens rest : List Token} {node : Node}
    (derived : Trigger tokens node) (start : Cursor)
    (front : start.rest = tokens ++ rest) (nearest : node.NearestElse)
    (noElse : Token.firstKind? rest ≠ some .keyElse) :
    Reads (trigger start) node rest := by
  cases derived with
  | on wordKind eventKind openedKind filterKind closeKind body =>
      rw [trigger]
      refine (Cursor.pass_reads front).bind ?_
      intro word _ afterWord
      refine (Cursor.expect_reads afterWord eventKind).bind ?_
      intro event eventEq afterEvent
      refine (Cursor.expect_reads afterEvent openedKind).bind ?_
      intro opened _ afterOpening
      refine (Cursor.expect_reads afterOpening filterKind).bind ?_
      intro filter filterEq afterFilter
      refine (Cursor.expect_reads afterFilter closeKind).bind ?_
      intro close _ afterClosing
      refine (statement_complete body close.next afterClosing nearest
        (fun _ => noElse)).bind ?_
      intro parsed bodyEq afterBody
      refine ⟨_, rfl, ?_, afterBody⟩
      simp only [eventEq, filterEq, bodyEq]

theorem parameters_complete {tokens rest : List Token} {params : List Param}
    {closing : Token} (derived : Parameters tokens params) (start : Cursor)
    (front : start.rest = tokens ++ closing :: rest)
    (closeKind : closing.kind = .rightParen) :
    Reads (parameters start) params rest := by
  induction derived generalizing start with
  | single typeKind nameKind =>
      rw [parameters]
      refine (Cursor.expect_reads front typeKind).bind ?_
      intro type typeEq afterType
      refine (Cursor.expect_reads afterType nameKind).bind ?_
      intro name nameEq afterName
      have stays : name.next.passIf? .comma = none := by
        apply Cursor.passIf?_of_firstKind?_ne
        rw [afterName]
        simp [Token.firstKind?, closeKind]
      simp only [stays]
      refine (Cursor.expect_reads afterName closeKind).bind ?_
      intro close _ closeEq
      refine ⟨_, rfl, ?_, closeEq⟩
      rw [typeEq, nameEq]
  | cons typeKind nameKind commaKind others inductionHypothesis =>
      rw [parameters]
      refine (Cursor.expect_reads front typeKind).bind ?_
      intro type typeEq afterType
      refine (Cursor.expect_reads afterType nameKind).bind ?_
      intro name nameEq afterName
      obtain ⟨comma, passed, _, afterComma⟩ :=
        Cursor.passIf?_cons afterName commaKind
      simp only [passed]
      refine (inductionHypothesis comma.next afterComma).bind ?_
      intro parsed othersEq afterOthers
      refine ⟨_, rfl, ?_, afterOthers⟩
      simp only [typeEq, nameEq, othersEq]

theorem proc_complete {tokens rest : List Token} {node : Node}
    (derived : Proc tokens node) (start : Cursor)
    (front : start.rest = tokens ++ rest) (nearest : node.NearestElse) :
    Reads (proc start) node rest := by
  rw [proc]
  cases derived with
  | empty wordKind nameKind openedKind closeKind body =>
      refine (Cursor.pass_reads front).bind ?_
      intro word _ afterWord
      refine (Cursor.expect_reads afterWord nameKind).bind ?_
      intro name nameEq afterName
      refine (Cursor.expect_reads afterName openedKind).bind ?_
      intro opened _ afterOpening
      obtain ⟨close, passed, _, afterClosing⟩ :=
        Cursor.passIf?_cons afterOpening closeKind
      simp only [passed]
      refine (block_complete body close.next afterClosing nearest).bind ?_
      intro parsed bodyEq afterBody
      refine ⟨_, rfl, ?_, afterBody⟩
      simp only [nameEq, bodyEq, Parsed.as]
  | filled wordKind nameKind openedKind heading closeKind body =>
      simp only [List.cons_append, List.append_assoc] at front
      refine (Cursor.pass_reads front).bind ?_
      intro word _ afterWord
      refine (Cursor.expect_reads afterWord nameKind).bind ?_
      intro name nameEq afterName
      refine (Cursor.expect_reads afterName openedKind).bind ?_
      intro opened _ afterOpening
      have stays : opened.next.passIf? .rightParen = none := by
        apply Cursor.passIf?_of_firstKind?_ne
        obtain ⟨first, more, rfl, kindEq⟩ := heading.first
        rw [afterOpening]
        simp [Token.firstKind?, kindEq]
      simp only [stays]
      refine (parameters_complete heading opened.next afterOpening
        closeKind).bind ?_
      intro params paramsEq afterParams
      refine (block_complete body params.next afterParams nearest).bind ?_
      intro parsed bodyEq afterBody
      refine ⟨_, rfl, ?_, afterBody⟩
      simp only [nameEq, paramsEq, bodyEq]

theorem declarations_complete {tokens rest : List Token}
    {nodes : List Node} (derived : Grammar.Program tokens nodes)
    (start : Cursor) (front : start.rest = tokens ++ rest)
    (nearest : ∀ node ∈ nodes, node.NearestElse)
    (ends : rest = [] ∨ Token.firstKind? rest = some .eof) :
    ∃ last, declarations start = .ok (nodes, last) := by
  induction derived generalizing start with
  | nil =>
      rw [declarations]
      rcases ends with rfl | marker
      · have kindEq : start.kind? = none := by
          simp [Cursor.kind?, front]
        rw [kindEq]
        exact ⟨start, rfl⟩
      · have kindEq : start.kind? = some .eof := by
          rw [Cursor.kind?, front]
          exact marker
        rw [kindEq]
        exact ⟨start, rfl⟩
  | trigger head others inductionHypothesis =>
      obtain ⟨headNearest, othersNearest⟩ := List.forall_mem_cons.mp nearest
      rw [List.append_assoc] at front
      have kindEq : start.kind? = some .keyOn := by
        obtain ⟨word, more, rfl, wordKind⟩ := head.first
        simp [Cursor.kind?, front, wordKind]
      obtain ⟨first, firstRun, rfl, afterFirst⟩ :=
        trigger_complete head start front headNearest
          (others.firstKind? ends)
      obtain ⟨last, run⟩ :=
        inductionHypothesis first.next afterFirst othersNearest
      rw [declarations, kindEq]
      refine ⟨last, exceptBind_eq_ok.mpr ⟨first, firstRun, ?_⟩⟩
      exact exceptBind_eq_ok.mpr ⟨_, run, rfl⟩
  | proc head others inductionHypothesis =>
      obtain ⟨headNearest, othersNearest⟩ := List.forall_mem_cons.mp nearest
      rw [List.append_assoc] at front
      have kindEq : start.kind? = some .keyFunc := by
        obtain ⟨word, more, rfl, wordKind⟩ := head.first
        simp [Cursor.kind?, front, wordKind]
      obtain ⟨first, firstRun, rfl, afterFirst⟩ :=
        proc_complete head start front headNearest
      obtain ⟨last, run⟩ :=
        inductionHypothesis first.next afterFirst othersNearest
      rw [declarations, kindEq]
      refine ⟨last, exceptBind_eq_ok.mpr ⟨first, firstRun, ?_⟩⟩
      exact exceptBind_eq_ok.mpr ⟨_, run, rfl⟩

end Parser

end TriggerScript
