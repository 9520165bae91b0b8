import TriggerScript.Proofs.ParserCompleteness

/-!
# Predicting a script

A script can be read from left to right with an agenda, the list of what is
still awaited.  The next token either takes the place of the first item by
what the token announces, or the item is optional and given up.  An empty
agenda stands between declarations.

* `Agenda.step` passes one token, `Agenda.accepts` all of them.
* `Agenda.exists_accepted` says that every agenda can be met, so that
  whatever was passed can be continued to a whole script.
* `Agenda.Leads` compares an attempt of the parser with the tokens it passed.
  An attempt that fails stops where the agenda refuses one of the next two
  tokens.
-/

namespace TriggerScript

inductive Awaited where
  | token (kind : Token.Kind) (passable : kind ≠ .eof)
  | statement
  /-- A statement behind the name it starts with. -/
  | statementRest
  /-- A declaration behind the declared name. -/
  | declarationRest
  /-- Statements up to a closing brace. -/
  | statements
  | elseBranch
  | primary
  /-- The arguments that make a name a call. -/
  | callRest
  /-- What makes a primary expression a comparison. -/
  | comparison
  /-- Arguments up to a closing parenthesis. -/
  | arguments
  /-- The same behind the first argument. -/
  | argumentsRest
  /-- Parameters up to a closing parenthesis. -/
  | parameters
  /-- The same behind the first parameter. -/
  | parametersRest

namespace Awaited

def isOptional : Awaited → Bool
  | elseBranch | callRest | comparison => true
  | _ => false

def startStatement? : Token.Kind → Option (List Awaited)
  | .leftBrace => some [statements]
  | .keyIf =>
      some [token .leftParen nofun, primary, comparison,
        token .rightParen nofun, statement, elseBranch]
  | .identifier => some [statementRest]
  | _ => none

def startPrimary? (first : Token) : Option (List Awaited) :=
  match first.kind with
  | .integer =>
      if (Literal.ofNumeral? first.text).isSome then some [] else none
  | .string | .bool => some []
  | .identifier => some [callRest]
  | .leftParen => some [primary, comparison, token .rightParen nofun]
  | _ => none

/-- What is awaited once a token was passed that belongs to the item. -/
def pass? (awaited : Awaited) (next : Token) : Option (List Awaited) :=
  match awaited, next.kind with
  | token kind _, found => if found = kind then some [] else none
  | statement, found => startStatement? found
  | statementRest, .identifier => some [declarationRest]
  | statementRest, .assign =>
      some [primary, comparison, token .semicolon nofun]
  | statementRest, .leftParen => some [arguments, token .semicolon nofun]
  | declarationRest, .assign =>
      some [primary, comparison, token .semicolon nofun]
  | declarationRest, .semicolon => some []
  | statements, .rightBrace => some []
  | statements, found => (startStatement? found).map (· ++ [statements])
  | elseBranch, .keyElse => some [statement]
  | primary, _ => startPrimary? next
  | callRest, .leftParen => some [arguments]
  | comparison, found => if found.isComparator then some [primary] else none
  | arguments, .rightParen => some []
  | arguments, _ =>
      (startPrimary? next).map (· ++ [comparison, argumentsRest])
  | argumentsRest, .rightParen => some []
  | argumentsRest, .comma => some [primary, comparison, argumentsRest]
  | parameters, .rightParen => some []
  | parameters, .identifier => some [token .identifier nofun, parametersRest]
  | parametersRest, .rightParen => some []
  | parametersRest, .comma =>
      some [token .identifier nofun, token .identifier nofun, parametersRest]
  | _, _ => none

/-- The kinds of some tokens that meet an item. -/
def sample : Awaited → List Token.Kind
  | token kind _ => [kind]
  | statement => [.leftBrace, .rightBrace]
  | statementRest => [.leftParen, .rightParen, .semicolon]
  | declarationRest => [.semicolon]
  | statements => [.rightBrace]
  | elseBranch => [.keyElse, .leftBrace, .rightBrace]
  | primary => [.string]
  | callRest => [.leftParen, .rightParen]
  | comparison => [.equal, .string]
  | arguments | argumentsRest | parameters | parametersRest => [.rightParen]

end Awaited

abbrev Agenda : Type :=
  List Awaited

namespace Agenda

open Awaited

def startDeclaration? : Token.Kind → Option Agenda
  | .keyOn =>
      some [token .identifier nofun, token .leftParen nofun,
        token .integer nofun, token .rightParen nofun, statement]
  | .keyFunc =>
      some [token .identifier nofun, token .leftParen nofun, parameters,
        token .leftBrace nofun, statements]
  | _ => none

/-- The agenda behind the next token, unless it refuses the token. -/
def step : Agenda → Token → Option Agenda
  | [], next => startDeclaration? next.kind
  | awaited :: agenda, next =>
      match awaited.pass? next with
      | some announced => some (announced ++ agenda)
      | none => if awaited.isOptional then step agenda next else none

def isMet (agenda : Agenda) : Bool :=
  agenda.all isOptional

/-- Whether the tokens up to the end marker or the last one meet the
agenda. -/
def accepts (agenda : Agenda) : List Token → Bool
  | [] => agenda.isMet
  | next :: rest =>
      if next.kind = .eof then
        agenda.isMet
      else
        match agenda.step next with
        | some reached => reached.accepts rest
        | none => false

variable {agenda before between after reached : Agenda} {next : Token}
  {tokens rest : List Token}

theorem pass?_end (awaited : Awaited) (isEnd : next.kind = .eof) :
    awaited.pass? next = none := by
  cases awaited with
  | token kind passable =>
      simp [pass?, isEnd, passable.symm]
  | _ =>
      simp [pass?, isEnd, startStatement?, startPrimary?,
        Token.Kind.isComparator]

theorem ne_end_of_step (stepped : agenda.step next = some reached) :
    next.kind ≠ .eof := by
  intro isEnd
  induction agenda with
  | nil =>
      simp [step, isEnd, startDeclaration?] at stepped
  | cons awaited agenda inductionHypothesis =>
      rw [step, pass?_end awaited isEnd] at stepped
      by_cases isOptional : awaited.isOptional = true
      · rw [if_pos isOptional] at stepped
        exact inductionHypothesis stepped
      · rw [if_neg isOptional] at stepped
        cases stepped

theorem step_of_pass? {awaited : Awaited} {announced : List Awaited}
    (passes : awaited.pass? next = some announced) :
    step (awaited :: agenda) next = some (announced ++ agenda) := by
  rw [step, passes]

theorem isMet_of_needed {awaited : Awaited}
    (needed : awaited.isOptional = false) :
    isMet (awaited :: agenda) = false := by
  rw [isMet, List.all_cons, needed, Bool.false_and]

theorem step_of_needed {awaited : Awaited}
    (needed : awaited.isOptional = false)
    (refused : awaited.pass? next = none) :
    step (awaited :: agenda) next = none := by
  simp [step, refused, needed]

/-- Statements that do not end here start with a statement. -/
theorem step_statements (noClose : next.kind ≠ .rightBrace) :
    step (statements :: agenda) next =
      step (statement :: statements :: agenda) next := by
  have passes : pass? statements next =
      (startStatement? next.kind).map (· ++ [statements]) := by
    unfold pass?
    split <;> simp_all
  rw [step, step, passes, pass?]
  cases startStatement? next.kind with
  | none =>
      rfl
  | some announced =>
      simp

/-- Arguments that do not end here start with an expression. -/
theorem step_arguments (noClose : next.kind ≠ .rightParen) :
    step (arguments :: agenda) next =
      step (primary :: comparison :: argumentsRest :: agenda) next := by
  have passes : pass? arguments next =
      (startPrimary? next).map (· ++ [comparison, argumentsRest]) := by
    unfold pass?
    split <;> simp_all
  rw [step, step, passes, pass?]
  cases startPrimary? next with
  | none =>
      rfl
  | some announced =>
      simp

/-- Parameters that do not end here start with a type and a name. -/
theorem step_parameters (noClose : next.kind ≠ .rightParen) :
    step (parameters :: agenda) next =
      step (token .identifier nofun :: token .identifier nofun ::
        parametersRest :: agenda) next := by
  by_cases isName : next.kind = .identifier
  · simp [step, pass?, isName]
  · have refused : pass? parameters next = none := by
      unfold pass?
      split <;> simp_all
    have refusedName :
        pass? (token .identifier nofun) next = none := by
      simp [pass?, isName]
    rw [step_of_needed rfl refused, step_of_needed rfl refusedName]

theorem accepts_of_step (stepped : agenda.step next = some reached) :
    agenda.accepts (next :: rest) = reached.accepts rest := by
  rw [accepts, if_neg (ne_end_of_step stepped), stepped]

/-- What stands behind an end marker is not looked at. -/
theorem accepts_append_of_end (ended : ∃ next ∈ tokens, next.kind = .eof)
    (agenda : Agenda) (more : List Token) :
    agenda.accepts (tokens ++ more) = agenda.accepts tokens := by
  induction tokens generalizing agenda with
  | nil =>
      obtain ⟨next, member, _⟩ := ended
      cases member
  | cons next rest inductionHypothesis =>
      rw [List.cons_append, accepts, accepts]
      by_cases isEnd : next.kind = .eof
      · rw [if_pos isEnd, if_pos isEnd]
      · have later : ∃ other ∈ rest, other.kind = .eof := by
          simpa [isEnd] using ended
        rw [if_neg isEnd, if_neg isEnd]
        cases agenda.step next with
        | none =>
            rfl
        | some reached =>
            exact inductionHypothesis later reached

/-! ## Meeting an agenda -/

def spell (kinds : List Token.Kind) : List Token :=
  kinds.map fun kind => ⟨kind, "", ⟨0, 0⟩⟩

theorem accepts_sample (awaited : Awaited) (agenda : Agenda)
    (rest : List Token) :
    accepts (awaited :: agenda) (spell awaited.sample ++ rest) =
      agenda.accepts rest := by
  cases awaited with
  | token kind passable =>
      apply accepts_of_step
      simp [step, pass?]
  | _ =>
      rfl

theorem exists_accepted (agenda : Agenda) :
    ∃ tokens, agenda.accepts tokens = true := by
  induction agenda with
  | nil =>
      exact ⟨[], rfl⟩
  | cons awaited agenda inductionHypothesis =>
      obtain ⟨tokens, accepted⟩ := inductionHypothesis
      exact ⟨_, (accepts_sample awaited agenda tokens).trans accepted⟩

/-! ## Passing tokens -/

/-- The agendas accept the same tokens among those that start like `rest`. -/
def AgreeAt (rest : List Token) (left right : Agenda) : Prop :=
  ∀ other : List Token, other.head? = rest.head? →
    left.accepts other = right.accepts other

/-- The agenda accepts no tokens that start like `rest`. -/
def Refuses (agenda : Agenda) (rest : List Token) : Prop :=
  ∀ other : List Token, other.head? = rest.head? →
    agenda.accepts other = false

/-- Passing the tokens in front of `rest` leads from one agenda to another, as
far as the token behind them can tell. -/
def Passes (tokens : List Token) (before : Agenda) (rest : List Token)
    (after : Agenda) : Prop :=
  ∃ passed reached, tokens = passed ++ rest ∧
    (∀ other, before.accepts (passed ++ other) = accepts reached other) ∧
    AgreeAt rest reached after

/-- Some of the tokens can be passed, to a place with the given offset, and
there one of the next two tokens is refused. -/
def Blocked (tokens : List Token) (before : Agenda) (offset : Nat) : Prop :=
  ∃ trouble after, Passes tokens before trouble after ∧
    (∀ next ∈ trouble.head?, offset = next.span.start) ∧
    ∀ other : List Token, other.take 2 = trouble.take 2 →
      after.accepts other = false

/-- What an attempt does with the tokens from `tokens` on. -/
def Leads {start : Cursor} {α : Type} (tokens : List Token)
    (before after : Agenda) : Attempt (Parsed start α) → Prop
  | .ok parsed => Passes tokens before parsed.next.rest after
  | .error fault => Blocked tokens before fault.error.offset

theorem agreeAt_of_step (ends : before.isMet = after.isMet)
    (steps : ∀ next ∈ rest.head?, before.step next = after.step next) :
    AgreeAt rest before after := by
  intro other sameHead
  cases other with
  | nil =>
      exact ends
  | cons next other =>
      rw [accepts, accepts, steps next sameHead.symm, ends]

theorem agreeAt_cons (front : tokens = next :: rest)
    (noEnd : next.kind ≠ .eof) (same : before.step next = after.step next) :
    AgreeAt tokens before after := by
  intro other sameHead
  rw [front] at sameHead
  obtain ⟨more, rfl⟩ := List.head?_eq_some_iff.mp sameHead
  rw [accepts, accepts, if_neg noEnd, if_neg noEnd, same]

/-- An optional item that cannot take the next token is given up. -/
theorem agreeAt_of_optional {awaited : Awaited}
    (isOptional : awaited.isOptional = true)
    (givenUp : ∀ next ∈ rest.head?, awaited.pass? next = none) :
    AgreeAt rest (awaited :: agenda) agenda := by
  apply agreeAt_of_step
  · rw [isMet, List.all_cons, isOptional, Bool.true_and]
    rfl
  · intro next starts
    rw [step, givenUp next starts]
    exact if_pos isOptional

/-- An item that can only close a phrase here awaits just the closing
token. -/
theorem agreeAt_token {awaited : Awaited} {kind : Token.Kind}
    {passable : kind ≠ .eof} (needed : awaited.isOptional = false)
    (same : ∀ next ∈ rest.head?,
      awaited.pass? next = pass? (token kind passable) next) :
    AgreeAt rest (awaited :: agenda) (token kind passable :: agenda) := by
  apply agreeAt_of_step
  · rw [isMet_of_needed needed, isMet_of_needed rfl]
  · intro next starts
    rw [step, step, same next starts, needed]
    rfl

/-- An item that is needed refuses the tokens it cannot take. -/
theorem refuses_of_pass? {awaited : Awaited}
    (needed : awaited.isOptional = false)
    (refused : ∀ next ∈ rest.head?, awaited.pass? next = none) :
    Refuses (awaited :: agenda) rest := by
  intro other sameHead
  cases other with
  | nil =>
      exact isMet_of_needed needed
  | cons next other =>
      rw [accepts, isMet_of_needed needed,
        step_of_needed needed (refused next sameHead.symm)]
      exact ite_self false

namespace Passes

theorem of_agreeAt (agree : AgreeAt tokens before after) :
    Passes tokens before tokens after :=
  ⟨[], before, rfl, fun _ => rfl, agree⟩

theorem refl (tokens : List Token) (agenda : Agenda) :
    Passes tokens agenda tokens agenda :=
  of_agreeAt fun _ _ => rfl

theorem of_pass? {awaited : Awaited} (announced : List Awaited)
    (front : tokens = next :: rest)
    (passes : awaited.pass? next = some announced) :
    Passes tokens (awaited :: agenda) rest (announced ++ agenda) :=
  ⟨[next], announced ++ agenda, front,
    fun _ => accepts_of_step (step_of_pass? passes), fun _ _ => rfl⟩

theorem trans {last : List Token}
    (first : Passes tokens before rest between)
    (second : Passes rest between last after) :
    Passes tokens before last after := by
  obtain ⟨passed, reached, rfl, moves, agree⟩ := first
  obtain ⟨more, reachedMore, rfl, movesMore, agreeMore⟩ := second
  cases more with
  | nil =>
      -- Nothing more is passed, so the optional items passed before stay.
      refine ⟨passed, reached, rfl, moves, ?_⟩
      intro other sameHead
      rw [agree other sameHead, ← agreeMore other sameHead]
      exact movesMore other
  | cons next more =>
      refine ⟨passed ++ next :: more, reachedMore, by simp, ?_, agreeMore⟩
      intro other
      have sameHead : (next :: more ++ other).head? =
          (next :: more ++ last).head? := rfl
      rw [List.append_assoc, moves, agree _ sameHead, movesMore]

theorem accepts_eq (passes : Passes tokens before rest after) :
    before.accepts tokens = after.accepts rest := by
  obtain ⟨passed, reached, rfl, moves, agree⟩ := passes
  rw [moves, agree rest rfl]

end Passes

theorem Blocked.accepts_eq {offset : Nat}
    (blocked : Blocked tokens before offset) :
    before.accepts tokens = false := by
  obtain ⟨trouble, after, passes, _, refused⟩ := blocked
  rw [passes.accepts_eq, refused trouble rfl]

theorem Blocked.preceded (passes : Passes tokens before rest between)
    {offset : Nat} (blocked : Blocked rest between offset) :
    Blocked tokens before offset := by
  obtain ⟨trouble, after, further, place, refused⟩ := blocked
  exact ⟨trouble, after, passes.trans further, place, refused⟩

theorem head?_of_take {left right : List Token}
    (same : left.take 2 = right.take 2) : left.head? = right.head? := by
  have heads := congrArg List.head? same
  rwa [List.head?_take, List.head?_take] at heads

theorem head?_tail_of_take {left right : List Token}
    (same : left.take 2 = right.take 2) :
    left.tail.head? = right.tail.head? := by
  have seconds := congrArg (fun tokens => tokens[1]?) same
  simpa using seconds

/-- A parser that stops where it stands is blocked there. -/
theorem Blocked.here (cursor : Cursor)
    (refused : ∀ other : List Token, other.take 2 = cursor.rest.take 2 →
      before.accepts other = false) :
    Blocked cursor.rest before cursor.offset := by
  refine ⟨cursor.rest, before, .refl _ _, ?_, refused⟩
  intro first starts
  obtain ⟨rest, front⟩ := List.head?_eq_some_iff.mp starts
  rw [Cursor.offset, front]

theorem Blocked.of_refuses (cursor : Cursor)
    (refuses : before.Refuses cursor.rest) :
    Blocked cursor.rest before cursor.offset :=
  here cursor fun other same => refuses other (head?_of_take same)

namespace Leads

variable {start middle : Cursor} {α β : Type}

theorem preceded {attempt : Attempt (Parsed start α)}
    {last : Agenda} (passes : Passes tokens before rest between)
    (leads : Leads rest between last attempt) :
    Leads tokens before last attempt := by
  cases attempt with
  | ok parsed =>
      exact passes.trans leads
  | error fault =>
      exact Blocked.preceded passes leads

theorem bind {first : Attempt (Parsed middle α)}
    {next : Parsed middle α → Attempt (Parsed start β)}
    (leads : Leads tokens before between first)
    (continued : ∀ parsed, Leads parsed.next.rest between after
      (next parsed)) :
    Leads tokens before after (first >>= next) := by
  cases first with
  | ok parsed =>
      exact (continued parsed).preceded leads
  | error fault =>
      exact leads

theorem bind_reads {first : Attempt (Parsed middle α)} {value : α}
    {next : Parsed middle α → Attempt (Parsed start β)}
    {behind : List Token} (reads : Attempt.Reads first value behind)
    (continued : ∀ parsed : Parsed middle α, parsed.value = value →
      parsed.next.rest = behind → Leads tokens before after (next parsed)) :
    Leads tokens before after (first >>= next) := by
  obtain ⟨parsed, run, valueEq, restEq⟩ := reads
  rw [run]
  exact continued parsed valueEq restEq

theorem done {cursor : Cursor} {value : α}
    {shorter : cursor.rest.length < start.rest.length} :
    Leads cursor.rest agenda agenda
      (pure ⟨value, cursor, shorter⟩ : Attempt (Parsed start α)) :=
  Passes.refl _ _

theorem expect (cursor : Cursor) (kind : Token.Kind)
    (passable : kind ≠ .eof) (phrase : Phrase) (agenda : Agenda) :
    Leads cursor.rest (.token kind passable :: agenda) agenda
      (cursor.expect kind phrase) := by
  rw [Cursor.expect]
  split
  · rename_i parsed passed
    obtain ⟨front, kindEq⟩ := Cursor.passIf?_eq_some passed
    exact .of_pass? [] front (by simp [pass?, kindEq])
  · rename_i stayed
    apply Blocked.of_refuses cursor
    apply refuses_of_pass? rfl
    intro next starts
    have differs := Cursor.passIf?_eq_none stayed
    rw [Token.firstKind?, starts] at differs
    simpa [pass?] using differs

end Leads

end Agenda

end TriggerScript
