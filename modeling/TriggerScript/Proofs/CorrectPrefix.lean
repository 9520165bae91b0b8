import Mathlib
import TriggerScript.Proofs.Agenda
import TriggerScript.Proofs.Lossless

/-!
# Parse errors point at the first trouble

Every parser does with its tokens what the agenda does.  So the tokens in
front of a parse error can be continued to a script, and with the token at the
error and the one behind it they cannot: a parser looks at no more than two
tokens before it stops.
-/

namespace TriggerScript

namespace Cursor

variable {cursor : Cursor} {kind : Token.Kind} {next : Token}

theorem kind_of_mem_head? (found : cursor.kind? = some kind)
    (starts : next ∈ cursor.rest.head?) : next.kind = kind := by
  rw [kind?, starts] at found
  exact Option.some.inj found

theorem kind_ne_of_stayed (stayed : cursor.passIf? kind = none)
    (starts : next ∈ cursor.rest.head?) : next.kind ≠ kind := by
  have differs := passIf?_eq_none stayed
  rw [Token.firstKind?, starts] at differs
  simpa using differs

theorem rest_eq_cons (found : cursor.kind? = some kind) :
    ∃ first rest, cursor.rest = first :: rest ∧ first.kind = kind := by
  cases cursor with
  | mk tokens passed =>
      cases tokens with
      | nil =>
          cases found
      | cons first rest =>
          exact ⟨first, rest, rfl, Option.some.inj found⟩

theorem rest_eq_cons_cons {kindAfter : Token.Kind}
    (found : cursor.kind? = some kind)
    (foundAfter : cursor.kindAfter? = some kindAfter) :
    ∃ first second rest, cursor.rest = first :: second :: rest ∧
      first.kind = kind ∧ second.kind = kindAfter := by
  cases cursor with
  | mk tokens passed =>
      match tokens with
      | [] =>
          cases found
      | [_] =>
          cases foundAfter
      | first :: second :: rest =>
          exact ⟨first, second, rest, rfl, Option.some.inj found,
            Option.some.inj foundAfter⟩

end Cursor

namespace Awaited

variable {next : Token}

theorem pass?_argumentsRest {passable : .rightParen ≠ Token.Kind.eof}
    (noComma : next.kind ≠ .comma) :
    pass? .argumentsRest next = pass? (.token .rightParen passable) next := by
  unfold pass?
  split <;> simp_all

theorem pass?_parametersRest {passable : .rightParen ≠ Token.Kind.eof}
    (noComma : next.kind ≠ .comma) :
    pass? .parametersRest next = pass? (.token .rightParen passable) next := by
  unfold pass?
  split <;> simp_all

theorem pass?_declarationRest {passable : .semicolon ≠ Token.Kind.eof}
    (noSign : next.kind ≠ .assign) :
    pass? .declarationRest next = pass? (.token .semicolon passable) next := by
  unfold pass?
  split <;> simp_all

end Awaited

namespace Parser

open Agenda Awaited

variable {start : Cursor} {agenda : Agenda}

/-- Where the sign that goes on is missing, only the closing token is left. -/
theorem agreeAt_of_stayed {awaited : Awaited} {sign kind : Token.Kind}
    {passable : kind ≠ .eof} (needed : awaited.isOptional = false)
    (stayed : start.passIf? sign = none)
    (closes : ∀ {next : Token}, next.kind ≠ sign →
      awaited.pass? next = Awaited.pass? (.token kind passable) next) :
    AgreeAt start.rest (awaited :: agenda)
      (.token kind passable :: agenda) := by
  apply agreeAt_token needed
  intro next starts
  exact closes (Cursor.kind_ne_of_stayed stayed starts)

/-! ## Expressions -/

mutual

theorem primary_leads (start : Cursor) (agenda : Agenda) :
    Leads start.rest (.primary :: agenda) agenda (primary start) := by
  rw [primary]
  split
  · rename_i atEnd
    apply Blocked.of_refuses start
    apply refuses_of_pass? rfl
    simp [Cursor.rest_eq_nil atEnd]
  · rename_i first passed
    have front := Cursor.pass?_eq_some passed
    have := first.shorter
    split
    · rename_i kindEq
      split
      · rename_i literal read
        exact .of_pass? [] front
          (by simp [Awaited.pass?, startPrimary?, kindEq, read])
      · rename_i outOfRange
        have blocked : Blocked start.rest (.primary :: agenda)
            start.offset := by
          apply Blocked.of_refuses start
          apply refuses_of_pass? rfl
          simp [front, Awaited.pass?, startPrimary?, kindEq, outOfRange]
        have place : start.offset = first.value.span.start := by
          rw [Cursor.offset, front]
        rw [place] at blocked
        exact blocked
    · rename_i kindEq
      exact .of_pass? [] front (by simp [Awaited.pass?, startPrimary?, kindEq])
    · rename_i kindEq
      exact .of_pass? [] front (by simp [Awaited.pass?, startPrimary?, kindEq])
    · rename_i kindEq
      have named : Passes start.rest (.primary :: agenda) first.next.rest
          (.callRest :: agenda) :=
        .of_pass? [.callRest] front
          (by simp [Awaited.pass?, startPrimary?, kindEq])
      split
      · rename_i opens
        obtain ⟨opening, rest, behind, openedKind⟩ :=
          Cursor.rest_eq_cons opens
        apply Leads.preceded named
        apply Leads.preceded (Passes.of_pass? [.arguments] behind
          (by simp [Awaited.pass?, openedKind]))
        exact call_leads start agenda (front.trans (by rw [behind])) kindEq
          openedKind
      · rename_i noCall
        apply named.trans
        apply Passes.of_agreeAt
        apply agreeAt_of_optional rfl
        intro next starts
        have differs : next.kind ≠ .leftParen := by
          intro isOpening
          apply noCall
          rw [Cursor.kind?, starts, Option.map_some, isOpening]
        unfold Awaited.pass?
        split <;> simp_all
    · rename_i kindEq
      apply Leads.preceded (Passes.of_pass?
        [.primary, .comparison, .token .rightParen nofun] front
        (by simp [Awaited.pass?, startPrimary?, kindEq]))
      refine (expression_leads first.next _).bind ?_
      intro inner
      refine (Leads.expect inner.next .rightParen nofun .groupClose _).bind ?_
      intro close
      exact .done
    · apply Blocked.of_refuses start
      apply refuses_of_pass? rfl
      intro next starts
      rw [front] at starts
      cases starts
      unfold Awaited.pass? startPrimary?
      split <;> simp_all
termination_by 8 * start.rest.length + 1

theorem expression_leads (start : Cursor) (agenda : Agenda) :
    Leads start.rest (.primary :: .comparison :: agenda) agenda
      (expression start) := by
  rw [expression]
  refine (primary_leads start _).bind ?_
  intro left
  have := left.shorter
  split
  · rename_i atEnd
    apply Passes.of_agreeAt
    apply agreeAt_of_optional rfl
    simp [Cursor.rest_eq_nil atEnd]
  · rename_i sign passed
    have front := Cursor.pass?_eq_some passed
    have := sign.shorter
    split
    · rename_i isComparator
      apply Leads.preceded (Passes.of_pass? [.primary] front
        (by simp [Awaited.pass?, isComparator]))
      refine (primary_leads sign.next agenda).bind ?_
      intro right
      exact .done
    · rename_i noComparator
      apply Passes.of_agreeAt
      apply agreeAt_of_optional rfl
      simp [front, Awaited.pass?, noComparator]
termination_by 8 * start.rest.length + 2

theorem call_leads (start : Cursor) (agenda : Agenda)
    {name opening : Token} {rest : List Token}
    (front : start.rest = name :: opening :: rest)
    (nameKind : name.kind = .identifier)
    (openedKind : opening.kind = .leftParen) :
    Leads rest (.arguments :: agenda) agenda (call start) := by
  rw [call]
  refine Leads.bind_reads (Cursor.expect_reads front nameKind) ?_
  intro named _ afterName
  refine Leads.bind_reads (Cursor.expect_reads afterName openedKind) ?_
  intro opened _ afterOpening
  have := named.shorter
  have := opened.shorter
  rw [← afterOpening]
  split
  · rename_i close passed
    obtain ⟨closing, closeKind⟩ := Cursor.passIf?_eq_some passed
    apply Leads.preceded (Passes.of_pass? [] closing
      (by simp [Awaited.pass?, closeKind]))
    exact .done
  · rename_i stayed
    have filled : AgreeAt opened.next.rest (.arguments :: agenda)
        (.primary :: .comparison :: .argumentsRest :: agenda) :=
      agreeAt_of_step rfl fun next starts =>
        step_arguments (Cursor.kind_ne_of_stayed stayed starts)
    apply Leads.preceded (Passes.of_agreeAt filled)
    refine (arguments_leads opened.next agenda).bind ?_
    intro args
    exact .done
termination_by 8 * start.rest.length

theorem arguments_leads (start : Cursor) (agenda : Agenda) :
    Leads start.rest
      (.primary :: .comparison :: .argumentsRest :: agenda) agenda
      (arguments start) := by
  rw [arguments]
  refine (expression_leads start _).bind ?_
  intro first
  have := first.shorter
  split
  · rename_i comma passed
    obtain ⟨front, commaKind⟩ := Cursor.passIf?_eq_some passed
    have := comma.shorter
    apply Leads.preceded (Passes.of_pass?
      [.primary, .comparison, .argumentsRest] front
      (by simp [Awaited.pass?, commaKind]))
    refine (arguments_leads comma.next agenda).bind ?_
    intro others
    exact .done
  · rename_i stayed
    have closes : AgreeAt first.next.rest (.argumentsRest :: agenda)
        (.token .rightParen nofun :: agenda) :=
      agreeAt_of_stayed rfl stayed pass?_argumentsRest
    apply Leads.preceded (Passes.of_agreeAt closes)
    refine (Leads.expect first.next .rightParen nofun _ _).bind ?_
    intro close
    exact .done
termination_by 8 * start.rest.length + 3

end

/-! ## Statements -/

theorem declaration_leads (start : Cursor) (agenda : Agenda)
    {type name : Token} {rest : List Token}
    (front : start.rest = type :: name :: rest)
    (typeKind : type.kind = .identifier)
    (nameKind : name.kind = .identifier) :
    Leads rest (.declarationRest :: agenda) agenda (declaration start) := by
  rw [declaration]
  refine Leads.bind_reads (Cursor.expect_reads front typeKind) ?_
  intro typed _ afterType
  refine Leads.bind_reads (Cursor.expect_reads afterType nameKind) ?_
  intro named _ afterName
  rw [← afterName]
  split
  · rename_i sign passed
    obtain ⟨signed, signKind⟩ := Cursor.passIf?_eq_some passed
    apply Leads.preceded (Passes.of_pass?
      [.primary, .comparison, .token .semicolon (by decide)] signed
      (by simp [Awaited.pass?, signKind]))
    refine (expression_leads sign.next _).bind ?_
    intro value
    refine (Leads.expect value.next .semicolon (by decide) _ _).bind ?_
    intro close
    exact .done
  · rename_i stayed
    have closes : AgreeAt named.next.rest (.declarationRest :: agenda)
        (.token .semicolon (by decide) :: agenda) :=
      agreeAt_of_stayed rfl stayed pass?_declarationRest
    apply Leads.preceded (Passes.of_agreeAt closes)
    refine (Leads.expect named.next .semicolon (by decide) _ _).bind ?_
    intro close
    exact .done

theorem assignment_leads (start : Cursor) (agenda : Agenda)
    {name sign : Token} {rest : List Token}
    (front : start.rest = name :: sign :: rest)
    (nameKind : name.kind = .identifier) (signKind : sign.kind = .assign) :
    Leads rest
      (.primary :: .comparison :: .token .semicolon (by decide) :: agenda)
      agenda (assignment start) := by
  rw [assignment]
  refine Leads.bind_reads (Cursor.expect_reads front nameKind) ?_
  intro named _ afterName
  refine Leads.bind_reads (Cursor.expect_reads afterName signKind) ?_
  intro signed _ afterSign
  rw [← afterSign]
  refine (expression_leads signed.next _).bind ?_
  intro value
  refine (Leads.expect value.next .semicolon (by decide) _ _).bind ?_
  intro close
  exact .done

theorem callStatement_leads (start : Cursor) (agenda : Agenda)
    {name opening : Token} {rest : List Token}
    (front : start.rest = name :: opening :: rest)
    (nameKind : name.kind = .identifier)
    (openedKind : opening.kind = .leftParen) :
    Leads rest (.arguments :: .token .semicolon (by decide) :: agenda) agenda
      (callStatement start) := by
  rw [callStatement]
  refine (call_leads start _ front nameKind openedKind).bind ?_
  intro made
  refine (Leads.expect made.next .semicolon (by decide) _ _).bind ?_
  intro close
  exact .done

/-- The name that starts a statement has to be followed by another name, a
sign or a parenthesis. -/
theorem named_leads {first second : Token} {rest : List Token}
    {attempt : Attempt (Parsed start Node)} (announced : List Awaited)
    (front : start.rest = first :: second :: rest)
    (firstKind : first.kind = .identifier)
    (passes : Awaited.pass? .statementRest second = some announced)
    (leads : Leads rest (announced ++ agenda) agenda attempt) :
    Leads start.rest (.statement :: agenda) agenda attempt := by
  apply Leads.preceded (Passes.of_pass? [.statementRest] front
    (by simp [Awaited.pass?, firstKind, startStatement?]))
  exact leads.preceded (Passes.of_pass? announced rfl passes)

/-- Two tokens that start no statement are refused as such. -/
theorem statement_refused {tokens : List Token}
    (noBlock : Token.firstKind? tokens ≠ some .leftBrace)
    (noIf : Token.firstKind? tokens ≠ some .keyIf)
    (noName : Token.firstKind? tokens = some .identifier →
      ∀ next ∈ tokens.tail.head?,
        Awaited.pass? .statementRest next = none) :
    accepts (.statement :: agenda) tokens = false := by
  cases tokens with
  | nil =>
      exact isMet_of_needed rfl
  | cons next rest =>
      by_cases named : next.kind = .identifier
      · have stepped : step (.statement :: agenda) next =
            some (.statementRest :: agenda) := by
          simp [step, Awaited.pass?, startStatement?, named]
        rw [accepts_of_step stepped]
        apply refuses_of_pass? rfl (noName _) rest rfl
        rw [← named]
        rfl
      · have refused : Awaited.pass? .statement next = none := by
          simp only [Token.firstKind?, List.head?_cons, Option.map_some,
            ne_eq, Option.some.injEq] at noBlock noIf
          unfold Awaited.pass? startStatement?
          split <;> simp_all
        apply refuses_of_pass? rfl _ (next :: rest) rfl
        simpa using refused

mutual

theorem statement_leads (start : Cursor) (agenda : Agenda) :
    Leads start.rest (.statement :: agenda) agenda (statement start) := by
  rw [statement]
  split
  · rename_i opens
    have same : AgreeAt start.rest (.statement :: agenda)
        (.token .leftBrace nofun :: .statements :: agenda) := by
      refine agreeAt_of_step rfl ?_
      intro next starts
      simp [step, Awaited.pass?, startStatement?,
        Cursor.kind_of_mem_head? opens starts]
    exact (block_leads start agenda).preceded (Passes.of_agreeAt same)
  · rename_i branches
    have same : AgreeAt start.rest (.statement :: agenda)
        (.token .keyIf nofun :: .token .leftParen nofun :: .primary ::
          .comparison :: .token .rightParen nofun :: .statement ::
          .elseBranch :: agenda) := by
      refine agreeAt_of_step rfl ?_
      intro next starts
      simp [step, Awaited.pass?, startStatement?,
        Cursor.kind_of_mem_head? branches starts]
    exact (branch_leads start agenda branches).preceded
      (Passes.of_agreeAt same)
  · rename_i named namedAfter
    obtain ⟨first, second, rest, front, firstKind, secondKind⟩ :=
      Cursor.rest_eq_cons_cons named namedAfter
    exact named_leads [.declarationRest]
      front firstKind (by simp [Awaited.pass?, secondKind])
      (declaration_leads start agenda front firstKind secondKind)
  · rename_i named signAfter
    obtain ⟨first, second, rest, front, firstKind, secondKind⟩ :=
      Cursor.rest_eq_cons_cons named signAfter
    exact named_leads [.primary, .comparison, .token .semicolon (by decide)]
      front firstKind (by simp [Awaited.pass?, secondKind])
      (assignment_leads start agenda front firstKind secondKind)
  · rename_i named openingAfter
    obtain ⟨first, second, rest, front, firstKind, secondKind⟩ :=
      Cursor.rest_eq_cons_cons named openingAfter
    exact named_leads [.arguments, .token .semicolon (by decide)]
      front firstKind (by simp [Awaited.pass?, secondKind])
      (callStatement_leads start agenda front firstKind secondKind)
  · rename_i noBlock noIf noDeclaration noAssignment noCall
    apply Blocked.here start
    intro other same
    have sameFirst : Token.firstKind? other = start.kind? :=
      congrArg (Option.map Token.kind) (head?_of_take same)
    apply statement_refused
    · rwa [sameFirst]
    · rwa [sameFirst]
    · rw [sameFirst]
      intro named next follows
      rw [head?_tail_of_take same] at follows
      have kindAfter : start.kindAfter? = some next.kind :=
        congrArg (Option.map Token.kind) follows
      unfold Awaited.pass?
      split <;> simp_all
termination_by 8 * start.rest.length + 1

theorem block_leads (start : Cursor) (agenda : Agenda) :
    Leads start.rest (.token .leftBrace nofun :: .statements :: agenda)
      agenda (block start) := by
  rw [block]
  refine (Leads.expect start .leftBrace nofun _ _).bind ?_
  intro opened
  have := opened.shorter
  refine (statements_leads opened.next agenda).bind ?_
  intro inner
  exact .done
termination_by 8 * start.rest.length

theorem statements_leads (start : Cursor) (agenda : Agenda) :
    Leads start.rest (.statements :: agenda) agenda (statements start) := by
  rw [statements]
  split
  · rename_i atEnd
    apply Blocked.of_refuses start
    apply refuses_of_pass? rfl
    simp [Cursor.rest_eq_nil atEnd]
  · rename_i first passed
    have front := Cursor.pass?_eq_some passed
    split
    · rename_i kindEq
      exact .of_pass? [] front (by simp [Awaited.pass?, kindEq])
    · rename_i isEnd
      apply Blocked.of_refuses start
      apply refuses_of_pass? rfl
      simp [front, pass?_end _ isEnd]
    · rename_i noClose noEnd
      have more : AgreeAt start.rest (.statements :: agenda)
          (.statement :: .statements :: agenda) := by
        refine agreeAt_of_step rfl ?_
        intro next starts
        rw [front] at starts
        cases starts
        exact step_statements noClose
      apply Leads.preceded (Passes.of_agreeAt more)
      refine (statement_leads start _).bind ?_
      intro head
      have := head.shorter
      refine (statements_leads head.next agenda).bind ?_
      intro others
      exact .done
termination_by 8 * start.rest.length + 2

theorem branch_leads (start : Cursor) (agenda : Agenda)
    (isIf : start.kind? = some .keyIf) :
    Leads start.rest
      (.token .keyIf nofun :: .token .leftParen nofun :: .primary ::
        .comparison :: .token .rightParen nofun :: .statement ::
        .elseBranch :: agenda)
      agenda (branch start) := by
  rw [branch, Cursor.pass_eq_expect isIf]
  refine (Leads.expect start .keyIf nofun _ _).bind ?_
  intro word
  refine (Leads.expect word.next .leftParen nofun _ _).bind ?_
  intro opened
  refine (expression_leads opened.next _).bind ?_
  intro condition
  refine (Leads.expect condition.next .rightParen nofun _ _).bind ?_
  intro close
  have := word.shorter
  have := opened.shorter
  have := condition.shorter
  have := close.shorter
  refine (statement_leads close.next _).bind ?_
  intro thenBranch
  have := thenBranch.shorter
  split
  · rename_i other passed
    obtain ⟨front, otherKind⟩ := Cursor.passIf?_eq_some passed
    have := other.shorter
    apply Leads.preceded (Passes.of_pass? [.statement] front
      (by simp [Awaited.pass?, otherKind]))
    refine (statement_leads other.next agenda).bind ?_
    intro elseBranch
    exact .done
  · rename_i stayed
    apply Passes.of_agreeAt
    apply agreeAt_of_optional rfl
    intro next starts
    have noElse := Cursor.kind_ne_of_stayed stayed starts
    unfold Awaited.pass?
    split <;> simp_all
termination_by 8 * start.rest.length

end

/-! ## Declarations -/

theorem trigger_leads (start : Cursor) (agenda : Agenda)
    (isOn : start.kind? = some .keyOn) :
    Leads start.rest
      (.token .keyOn nofun :: .token .identifier nofun ::
        .token .leftParen nofun :: .token .integer nofun ::
        .token .rightParen nofun :: .statement :: agenda)
      agenda (trigger start) := by
  rw [trigger, Cursor.pass_eq_expect isOn]
  refine (Leads.expect start .keyOn nofun _ _).bind ?_
  intro word
  refine (Leads.expect word.next .identifier nofun _ _).bind ?_
  intro event
  refine (Leads.expect event.next .leftParen nofun _ _).bind ?_
  intro opened
  refine (Leads.expect opened.next .integer nofun _ _).bind ?_
  intro filter
  refine (Leads.expect filter.next .rightParen nofun _ _).bind ?_
  intro close
  refine (statement_leads close.next agenda).bind ?_
  intro body
  exact .done

theorem parameters_leads (start : Cursor) (agenda : Agenda) :
    Leads start.rest
      (.token .identifier nofun :: .token .identifier nofun ::
        .parametersRest :: agenda)
      agenda (parameters start) := by
  rw [parameters]
  refine (Leads.expect start .identifier nofun _ _).bind ?_
  intro type
  refine (Leads.expect type.next .identifier nofun _ _).bind ?_
  intro name
  have := type.shorter
  have := name.shorter
  split
  · rename_i comma passed
    obtain ⟨front, commaKind⟩ := Cursor.passIf?_eq_some passed
    have := comma.shorter
    apply Leads.preceded (Passes.of_pass?
      [.token .identifier nofun, .token .identifier nofun, .parametersRest]
      front (by simp [Awaited.pass?, commaKind]))
    refine (parameters_leads comma.next agenda).bind ?_
    intro others
    exact .done
  · rename_i stayed
    have closes : AgreeAt name.next.rest (.parametersRest :: agenda)
        (.token .rightParen nofun :: agenda) :=
      agreeAt_of_stayed rfl stayed pass?_parametersRest
    apply Leads.preceded (Passes.of_agreeAt closes)
    refine (Leads.expect name.next .rightParen nofun _ _).bind ?_
    intro close
    exact .done
termination_by start.rest.length

theorem proc_leads (start : Cursor) (agenda : Agenda)
    (isFunc : start.kind? = some .keyFunc) :
    Leads start.rest
      (.token .keyFunc nofun :: .token .identifier nofun ::
        .token .leftParen nofun :: .parameters ::
        .token .leftBrace nofun :: .statements :: agenda)
      agenda (proc start) := by
  rw [proc, Cursor.pass_eq_expect isFunc]
  refine (Leads.expect start .keyFunc nofun _ _).bind ?_
  intro word
  refine (Leads.expect word.next .identifier nofun _ _).bind ?_
  intro name
  refine (Leads.expect name.next .leftParen nofun _ _).bind ?_
  intro opened
  split
  · rename_i close passed
    obtain ⟨closing, closeKind⟩ := Cursor.passIf?_eq_some passed
    apply Leads.preceded (Passes.of_pass? [] closing
      (by simp [Awaited.pass?, closeKind]))
    refine (block_leads (close.as []).next agenda).bind ?_
    intro body
    exact .done
  · rename_i stayed
    have filled : ∀ behind : Agenda, AgreeAt opened.next.rest
        (.parameters :: behind)
        (.token .identifier nofun :: .token .identifier nofun ::
          .parametersRest :: behind) := by
      intro behind
      refine agreeAt_of_step rfl ?_
      intro next starts
      exact step_parameters (Cursor.kind_ne_of_stayed stayed starts)
    apply Leads.preceded (Passes.of_agreeAt (filled _))
    refine (parameters_leads opened.next _).bind ?_
    intro params
    refine (block_leads params.next agenda).bind ?_
    intro body
    exact .done

/-- How reading declarations from `tokens` on ends. -/
def Settles {α : Type} (tokens : List Token) : Attempt α → Prop
  | .ok _ => accepts [] tokens = true
  | .error fault => Blocked tokens [] fault.error.offset

theorem Settles.bind {α β : Type} {tokens : List Token}
    {first : Attempt (Parsed start α)}
    {next : Parsed start α → Attempt β} (leads : Leads tokens [] [] first)
    (continued : ∀ parsed, Settles parsed.next.rest (next parsed)) :
    Settles tokens (first >>= next) := by
  cases first with
  | error fault =>
      exact leads
  | ok parsed =>
      have settled := continued parsed
      change Settles tokens (next parsed)
      generalize next parsed = attempt at settled
      cases attempt with
      | ok value =>
          exact (Passes.accepts_eq leads).trans settled
      | error fault =>
          exact Blocked.preceded leads settled

theorem Settles.map {α β : Type} {tokens : List Token}
    {attempt : Attempt α} (settled : Settles tokens attempt)
    (change : α → β) :
    Settles tokens (attempt >>= fun value => pure (change value)) := by
  cases attempt with
  | ok value =>
      exact settled
  | error fault =>
      exact settled

theorem declarations_settle (start : Cursor) :
    Settles start.rest (declarations start) := by
  rw [declarations]
  split
  · rename_i noKind
    have atEnd : start.rest = [] := by
      simpa [Cursor.kind?] using noKind
    rw [Settles, atEnd]
    rfl
  · rename_i atMarker
    obtain ⟨marker, rest, front, isEnd⟩ := Cursor.rest_eq_cons atMarker
    rw [Settles, front, accepts, if_pos isEnd]
    rfl
  · rename_i opens
    obtain ⟨word, rest, front, wordKind⟩ := Cursor.rest_eq_cons opens
    have same : AgreeAt start.rest []
        (.token .keyOn nofun :: .token .identifier nofun ::
          .token .leftParen nofun :: .token .integer nofun ::
          .token .rightParen nofun :: .statement :: []) :=
      agreeAt_cons front (by simp [wordKind])
        (by simp [step, startDeclaration?, Awaited.pass?, wordKind])
    refine Settles.bind
      ((trigger_leads start [] opens).preceded (Passes.of_agreeAt same)) ?_
    intro first
    have := first.shorter
    exact (declarations_settle first.next).map _
  · rename_i opens
    obtain ⟨word, rest, front, wordKind⟩ := Cursor.rest_eq_cons opens
    have same : AgreeAt start.rest []
        (.token .keyFunc nofun :: .token .identifier nofun ::
          .token .leftParen nofun :: .parameters ::
          .token .leftBrace nofun :: .statements :: []) :=
      agreeAt_cons front (by simp [wordKind])
        (by simp [step, startDeclaration?, Awaited.pass?, wordKind])
    refine Settles.bind
      ((proc_leads start [] opens).preceded (Passes.of_agreeAt same)) ?_
    intro first
    have := first.shorter
    exact (declarations_settle first.next).map _
  · rename_i nonempty noMarker noTrigger noProc
    apply Blocked.of_refuses start
    intro other sameHead
    cases other with
    | nil =>
        exact absurd (congrArg (Option.map Token.kind) sameHead).symm
          nonempty
    | cons next rest =>
        have kindEq : start.kind? = some next.kind :=
          congrArg (Option.map Token.kind) sameHead.symm
        rw [kindEq] at noMarker noTrigger noProc
        have noEnd : next.kind ≠ .eof := by
          simpa using noMarker
        have refused : step [] next = none := by
          unfold step startDeclaration?
          split <;> simp_all
        rw [accepts, if_neg noEnd, refused]
termination_by start.rest.length

end Parser

/-- Parsing accepts what the empty agenda accepts. -/
theorem Node.exists_parse_iff {tokens : List Token} :
    (∃ nodes, Node.parse tokens = .ok nodes) ↔
      Agenda.accepts [] tokens = true := by
  have settled := Parser.declarations_settle ⟨tokens, none⟩
  rw [Node.parse, Cursor.parse]
  cases run : Parser.declarations ⟨tokens, none⟩ with
  | ok result =>
      rw [run] at settled
      exact ⟨fun _ => settled, fun _ => ⟨_, rfl⟩⟩
  | error fault =>
      rw [run] at settled
      have refused : Agenda.accepts [] tokens = false :=
        Agenda.Blocked.accepts_eq settled
      simp [refused]

theorem Node.blocked_of_parse {tokens : List Token} {error : ParseError}
    (failed : Node.parse tokens = .error error) :
    Agenda.Blocked tokens [] error.offset := by
  have settled := Parser.declarations_settle ⟨tokens, none⟩
  rw [Node.parse, Cursor.parse] at failed
  cases run : Parser.declarations ⟨tokens, none⟩ with
  | ok result =>
      rw [run] at failed
      cases failed
  | error fault =>
      rw [run] at failed settled
      cases failed
      exact settled

/-! ## The first trouble -/

/-- The tokens of a source start at different places. -/
theorem Token.Reads.starts {before text : List Char} {tokens : List Token}
    (reads : Reads before text tokens) :
    tokens.Pairwise fun token later =>
      token.span.start < later.span.start := by
  induction reads with
  | finish layout =>
      exact List.pairwise_singleton _ _
  | token layout scans later inductionHypothesis =>
      refine .cons ?_ inductionHypothesis
      intro other member
      exact Nat.lt_of_lt_of_le (text_pos scans _) (later.le_start other member)

theorem Token.Reads.start_unique {before text : List Char}
    {tokens : List Token} (reads : Reads before text tokens)
    {first second offset : Nat}
    (firstPlace : tokens[first]?.map (·.span.start) = some offset)
    (secondPlace : tokens[second]?.map (·.span.start) = some offset) :
    first = second := by
  obtain ⟨token, tokenAt, tokenStart⟩ := Option.map_eq_some_iff.mp firstPlace
  obtain ⟨other, otherAt, otherStart⟩ :=
    Option.map_eq_some_iff.mp secondPlace
  obtain ⟨firstLt, rfl⟩ := List.getElem?_eq_some_iff.mp tokenAt
  obtain ⟨secondLt, rfl⟩ := List.getElem?_eq_some_iff.mp otherAt
  have increasing := List.pairwise_iff_getElem.mp reads.starts
  by_cases before : first < second
  · have less := increasing first second firstLt secondLt before
    omega
  · by_cases after : second < first
    · have less := increasing second first secondLt firstLt after
      omega
    · omega

/-- Tokens that end with a marker are blocked at one of them.  What stands in
front of it can be continued, and what reaches two tokens further cannot. -/
theorem Agenda.Blocked.first_trouble {tokens : List Token} {agenda : Agenda}
    {offset : Nat} {marker : Token}
    (blocked : Blocked tokens agenda offset)
    (marked : tokens.getLast? = some marker) (isEnd : marker.kind = .eof) :
    ∃ passed next trouble, tokens = passed ++ next :: trouble ∧
      offset = next.span.start ∧
      (∃ more, agenda.accepts (passed ++ more) = true) ∧
      ∀ rest,
        agenda.accepts (tokens.take (passed.length + 2) ++ rest) = false := by
  have refusedAll := blocked.accepts_eq
  obtain ⟨trouble, after, ⟨passed, reached, rfl, moves, agree⟩, place,
    refused⟩ := blocked
  obtain ⟨more, accepted⟩ := exists_accepted reached
  have viable : agenda.accepts (passed ++ more) = true :=
    (moves more).trans accepted
  cases trouble with
  | nil =>
      -- The end marker would be among the passed tokens, and then what stands
      -- behind them could not matter.
      rw [List.append_nil] at marked refusedAll
      have ended : ∃ token ∈ passed, token.kind = .eof :=
        ⟨marker, List.mem_of_getLast? marked, isEnd⟩
      rw [accepts_append_of_end ended, refusedAll] at viable
      cases viable
  | cons next trouble =>
      refine ⟨passed, next, trouble, rfl, place next rfl, ⟨more, viable⟩, ?_⟩
      intro rest
      rw [List.take_length_add_append, List.append_assoc, moves]
      cases trouble with
      | nil =>
          have last : next = marker := by simpa using marked
          have ended : ∃ token ∈ [next], token.kind = .eof :=
            ⟨next, List.mem_singleton_self next, last ▸ isEnd⟩
          have same := agree ([next] ++ rest) rfl
          rw [List.take_of_length_le (by simp), same,
            accepts_append_of_end ended, refused [next] rfl]
      | cons second trouble =>
          have same := agree (next :: second :: rest) rfl
          exact same.trans (refused (next :: second :: rest) rfl)

/-- A parse error stands at the start of one token.  The tokens in front of it
can be continued to a script, and no script starts with the tokens through the
one behind it. -/
theorem Node.parse_error_first_trouble {source : String}
    {tokens : List Token} {error : ParseError}
    (scanned : Token.scan source = .ok tokens)
    (failed : Node.parse tokens = .error error) :
    ∃ place,
      (∀ other, tokens[other]?.map (·.span.start) = some error.offset ↔
        other = place) ∧
      (∃ more nodes, Node.parse (tokens.take place ++ more) = .ok nodes) ∧
      ∀ list nodes, tokens.take (place + 2) <+: list →
        Node.parse list ≠ .ok nodes := by
  have reads := Token.scan_eq_ok_iff.mp scanned
  obtain ⟨passed, next, trouble, split, offsetEq, ⟨more, viable⟩, hopeless⟩ :=
    (Node.blocked_of_parse failed).first_trouble reads.marker rfl
  have here : tokens[passed.length]?.map (·.span.start) =
      some error.offset := by
    rw [split, List.getElem?_append_right (Nat.le_refl _), Nat.sub_self,
      offsetEq]
    rfl
  refine ⟨passed.length, ?_, ?_, ?_⟩
  · intro other
    constructor
    · intro there
      exact reads.start_unique there here
    · intro same
      rw [same, here]
  · obtain ⟨nodes, parsed⟩ := Node.exists_parse_iff.mpr viable
    refine ⟨more, nodes, ?_⟩
    rw [split, List.take_left, parsed]
  · intro list nodes starts parsed
    obtain ⟨rest, rfl⟩ := starts
    have accepted := Node.exists_parse_iff.mp ⟨nodes, parsed⟩
    rw [hopeless rest] at accepted
    cases accepted

/-- A statement cannot be just a name; that shows at the semicolon. -/
def strayName : String :=
  "on go(1) f;"

def strayNameTokens : List Token :=
  [⟨.keyOn, "on", ⟨0, 2⟩⟩, ⟨.identifier, "go", ⟨3, 5⟩⟩,
    ⟨.leftParen, "(", ⟨5, 6⟩⟩, ⟨.integer, "1", ⟨6, 7⟩⟩,
    ⟨.rightParen, ")", ⟨7, 8⟩⟩, ⟨.identifier, "f", ⟨9, 10⟩⟩,
    ⟨.semicolon, ";", ⟨10, 11⟩⟩, ⟨.eof, "", ⟨11, 11⟩⟩]

theorem scan_strayName : Token.scan strayName = .ok strayNameTokens := by
  have within : Scanner.tokensWithin 9 (.ofSource strayName) =
      some strayNameTokens := by
    decide +kernel
  exact Scanner.tokenize_of_tokensWithin within

/-- The name is where the error is, and with the semicolon behind it no script
can begin so. -/
theorem parse_error_first_trouble_strayName :
    Token.scan strayName = .ok strayNameTokens ∧
      Node.parse strayNameTokens =
        .error ⟨.expected .statement (some .identifier), 9⟩ ∧
      (∀ other, strayNameTokens[other]?.map (·.span.start) = some 9 ↔
        other = 5) ∧
      (∃ more nodes,
        Node.parse (strayNameTokens.take 5 ++ more) = .ok nodes) ∧
      ∀ list nodes, strayNameTokens.take 7 <+: list →
        Node.parse list ≠ .ok nodes := by
  have failed : Node.parse strayNameTokens =
      .error ⟨.expected .statement (some .identifier), 9⟩ := by
    cbv
  obtain ⟨place, unique, viable, hopeless⟩ :=
    Node.parse_error_first_trouble scan_strayName failed
  obtain rfl : 5 = place := (unique 5).mp rfl
  exact ⟨scan_strayName, failed, unique, viable, hopeless⟩

end TriggerScript
