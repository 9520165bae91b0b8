import TriggerScript.Node.Basic
import TriggerScript.Node.ParseError

/-!
# Parsing tokens into syntax trees

The grammar, with `?` for an optional part and `*` for repetition:

    program    = (trigger | proc)*
    trigger    = "on" name "(" integer ")" statement
    proc       = "func" name "(" (type name ("," type name)*)? ")" block
    block      = "{" statement* "}"
    statement  = block | if | call ";"
               | type name ("=" expression)? ";"
               | name "=" expression ";"
    if         = "if" "(" expression ")" statement ("else" statement)?
    expression = primary (comparator primary)?
    primary    = integer | string | bool | name | call | "(" expression ")"
    call       = name "(" (expression ("," expression)*)? ")"

A cursor stands before the tokens that are left.  A parser that succeeds
returns a cursor with fewer tokens left, and that is part of its type, so the
recursion needs no other bound.  A parser that fails returns the cursor where
it stopped, since a script can be parsed on from there.
-/

namespace TriggerScript

structure Cursor where
  rest : List Token
  /-- Where the token passed last starts. -/
  passed : Option Nat := none
  deriving DecidableEq, Repr

/-- A parse error, and the place where the parser stopped. -/
structure ParseFault where
  error : ParseError
  stopped : Cursor
  deriving DecidableEq, Repr

/-- What was parsed from `start` on, and the place behind it. -/
structure Parsed (start : Cursor) (α : Type) where
  value : α
  next : Cursor
  shorter : next.rest.length < start.rest.length

/-- A result, or the fault that prevented it. -/
abbrev Attempt (α : Type) : Type :=
  Except ParseFault α

/-- Keep the place and change the value. -/
def Parsed.as {start : Cursor} {α β : Type}
    (parsed : Parsed start α) (value : β) : Parsed start β :=
  ⟨value, parsed.next, parsed.shorter⟩

namespace Cursor

def kind? (cursor : Cursor) : Option Token.Kind :=
  cursor.rest.head?.map Token.kind

def kindAfter? (cursor : Cursor) : Option Token.Kind :=
  cursor.rest.tail.head?.map Token.kind

/-- Where an error at this place is reported. -/
def offset (cursor : Cursor) : Nat :=
  match cursor.rest with
  | token :: _ => token.span.start
  | [] => cursor.passed.getD 0

def fail {α : Type} (cursor : Cursor) (cause : ParseError.Cause) :
    Attempt α :=
  .error ⟨⟨cause, cursor.offset⟩, cursor⟩

/-- Stop here because `phrase` is expected. -/
def missing {α : Type} (cursor : Cursor) (phrase : Phrase) :
    Attempt α :=
  cursor.fail (.expected phrase cursor.kind?)

def pass? : (cursor : Cursor) → Option (Parsed cursor Token)
  | ⟨[], _⟩ => none
  | ⟨token :: rest, _⟩ =>
      some ⟨token, ⟨rest, some token.span.start⟩, Nat.lt_add_one _⟩

/-- Pass the next token, of whatever kind.  Without one, `phrase` is what is
missed behind it. -/
def pass (cursor : Cursor) (phrase : Phrase) :
    Attempt (Parsed cursor Token) :=
  match cursor.pass? with
  | some parsed => .ok parsed
  | none => cursor.missing phrase

def passIf? (cursor : Cursor) (kind : Token.Kind) :
    Option (Parsed cursor Token) :=
  cursor.pass?.filter fun parsed => parsed.value.kind == kind

def expect (cursor : Cursor) (kind : Token.Kind) (phrase : Phrase) :
    Attempt (Parsed cursor Token) :=
  match cursor.passIf? kind with
  | some parsed => .ok parsed
  | none => cursor.missing phrase

end Cursor

namespace Parser

mutual

/-- An expression without a comparison outside parentheses. -/
def primary (start : Cursor) : Attempt (Parsed start Node) :=
  match start.pass? with
  | none => start.missing .expression
  | some first =>
      have := first.shorter
      match first.value.kind with
      | .integer =>
          match Literal.ofNumeral? first.value.text with
          | some literal => .ok (first.as (.literal literal))
          | none =>
              .error ⟨⟨.numberOutOfRange first.value.text,
                first.value.span.start⟩, first.next⟩
      | .string => .ok (first.as (.literal (.ofQuoted first.value.text)))
      | .bool => .ok (first.as (.literal (.ofTruth first.value.text)))
      | .identifier =>
          if first.next.kind? = some .leftParen then
            call start
          else
            .ok (first.as (.var first.value.text))
      | .leftParen => do
          let inner ← expression first.next
          let close ← inner.next.expect .rightParen .groupClose
          have := inner.shorter
          have := close.shorter
          return ⟨inner.value, close.next, by omega⟩
      | _ => start.missing .expression
termination_by 8 * start.rest.length + 1

/-- A primary expression, or two with a comparison between them. -/
def expression (start : Cursor) : Attempt (Parsed start Node) := do
  let left ← primary start
  match left.next.pass? with
  | none => return left
  | some sign =>
      if sign.value.kind.isComparator then
        have := left.shorter
        have := sign.shorter
        let right ← primary sign.next
        have := right.shorter
        return ⟨.compare left.value sign.value.kind right.value,
          right.next, by omega⟩
      else
        return left
termination_by 8 * start.rest.length + 2

def call (start : Cursor) : Attempt (Parsed start Node) := do
  let name ← start.expect .identifier .calledName
  let opened ← name.next.expect .leftParen .argumentsOpen
  have := name.shorter
  have := opened.shorter
  match opened.next.passIf? .rightParen with
  | some close =>
      have := close.shorter
      return ⟨.call name.value.text [], close.next, by omega⟩
  | none =>
      let args ← arguments opened.next
      have := args.shorter
      return ⟨.call name.value.text args.value, args.next, by omega⟩
termination_by 8 * start.rest.length

/-- One or more arguments and the closing parenthesis. -/
def arguments (start : Cursor) : Attempt (Parsed start (List Node)) := do
  let first ← expression start
  have := first.shorter
  match first.next.passIf? .comma with
  | some comma =>
      have := comma.shorter
      let others ← arguments comma.next
      have := others.shorter
      return ⟨first.value :: others.value, others.next, by omega⟩
  | none =>
      let close ← first.next.expect .rightParen .argumentsClose
      have := close.shorter
      return ⟨[first.value], close.next, by omega⟩
termination_by 8 * start.rest.length + 3

end

/-- A declaration, with or without a first value. -/
def declaration (start : Cursor) : Attempt (Parsed start Node) := do
  let type ← start.expect .identifier .declaredType
  let name ← type.next.expect .identifier .variableName
  have := type.shorter
  have := name.shorter
  match name.next.passIf? .assign with
  | some sign =>
      let value ← expression sign.next
      let close ← value.next.expect .semicolon .declarationEnd
      have := sign.shorter
      have := value.shorter
      have := close.shorter
      return ⟨.declare type.value.text name.value.text (some value.value),
        close.next, by omega⟩
  | none =>
      let close ← name.next.expect .semicolon .declarationEnd
      have := close.shorter
      return ⟨.declare type.value.text name.value.text none,
        close.next, by omega⟩

def assignment (start : Cursor) : Attempt (Parsed start Node) := do
  let name ← start.expect .identifier .variableName
  let sign ← name.next.expect .assign .assignSign
  let value ← expression sign.next
  let close ← value.next.expect .semicolon .assignmentEnd
  have := name.shorter
  have := sign.shorter
  have := value.shorter
  have := close.shorter
  return ⟨.assign name.value.text value.value, close.next, by omega⟩

def callStatement (start : Cursor) : Attempt (Parsed start Node) := do
  let made ← call start
  let close ← made.next.expect .semicolon .callEnd
  have := made.shorter
  have := close.shorter
  return ⟨made.value, close.next, by omega⟩

mutual

/-- A statement; the first two tokens tell which. -/
def statement (start : Cursor) : Attempt (Parsed start Node) :=
  match start.kind?, start.kindAfter? with
  | some .leftBrace, _ => block start
  | some .keyIf, _ => branch start
  | some .identifier, some .identifier => declaration start
  | some .identifier, some .assign => assignment start
  | some .identifier, some .leftParen => callStatement start
  | _, _ => start.missing .statement
termination_by 8 * start.rest.length + 1

/-- Statements in braces. -/
def block (start : Cursor) : Attempt (Parsed start Node) := do
  let opened ← start.expect .leftBrace .blockOpen
  have := opened.shorter
  let inner ← statements opened.next
  have := inner.shorter
  return ⟨.block inner.value, inner.next, by omega⟩
termination_by 8 * start.rest.length

/-- The statements of a block and its closing brace. -/
def statements (start : Cursor) : Attempt (Parsed start (List Node)) :=
  match start.pass? with
  | none => start.fail .unclosedBlock
  | some first =>
      match first.value.kind with
      | .rightBrace => .ok (first.as [])
      | .eof => start.fail .unclosedBlock
      | _ => do
          let head ← statement start
          have := head.shorter
          let others ← statements head.next
          have := others.shorter
          return ⟨head.value :: others.value, others.next, by omega⟩
termination_by 8 * start.rest.length + 2

/-- A conditional; an `else` belongs to the nearest `if` before it.  Whether
the first token is an `if` was asked before. -/
def branch (start : Cursor) : Attempt (Parsed start Node) := do
  let word ← start.pass .conditionOpen
  let opened ← word.next.expect .leftParen .conditionOpen
  let condition ← expression opened.next
  let close ← condition.next.expect .rightParen .conditionClose
  have := word.shorter
  have := opened.shorter
  have := condition.shorter
  have := close.shorter
  let thenBranch ← statement close.next
  have := thenBranch.shorter
  match thenBranch.next.passIf? .keyElse with
  | some other =>
      have := other.shorter
      let elseBranch ← statement other.next
      have := elseBranch.shorter
      return ⟨.branch condition.value thenBranch.value
        (some elseBranch.value), elseBranch.next, by omega⟩
  | none =>
      return ⟨.branch condition.value thenBranch.value none,
        thenBranch.next, by omega⟩
termination_by 8 * start.rest.length

end

/-- A trigger: what to do when an event with a filter value happens. -/
def trigger (start : Cursor) : Attempt (Parsed start Node) := do
  let word ← start.pass .eventName
  let event ← word.next.expect .identifier .eventName
  let opened ← event.next.expect .leftParen .filterOpen
  let filter ← opened.next.expect .integer .filterValue
  let close ← filter.next.expect .rightParen .filterClose
  let body ← statement close.next
  have := word.shorter
  have := event.shorter
  have := opened.shorter
  have := filter.shorter
  have := close.shorter
  have := body.shorter
  return ⟨.trigger event.value.text filter.value.text body.value,
    body.next, by omega⟩

/-- One or more parameters and the closing parenthesis. -/
def parameters (start : Cursor) : Attempt (Parsed start (List Param)) := do
  let type ← start.expect .identifier .paramType
  let name ← type.next.expect .identifier .paramName
  have := type.shorter
  have := name.shorter
  match name.next.passIf? .comma with
  | some comma =>
      have := comma.shorter
      let others ← parameters comma.next
      have := others.shorter
      return ⟨⟨name.value.text, type.value.text⟩ :: others.value,
        others.next, by omega⟩
  | none =>
      let close ← name.next.expect .rightParen .paramsClose
      have := close.shorter
      return ⟨[⟨name.value.text, type.value.text⟩], close.next, by omega⟩
termination_by start.rest.length

def proc (start : Cursor) : Attempt (Parsed start Node) := do
  let word ← start.pass .procName
  let name ← word.next.expect .identifier .procName
  let opened ← name.next.expect .leftParen .paramsOpen
  let params ←
    match opened.next.passIf? .rightParen with
    | some close => pure (close.as [])
    | none => parameters opened.next
  let body ← block params.next
  have := word.shorter
  have := name.shorter
  have := opened.shorter
  have := params.shorter
  have := body.shorter
  return ⟨.proc name.value.text params.value body.value,
    body.next, by omega⟩

/-- Declarations up to the end marker or the end of the tokens. -/
def declarations (start : Cursor) :
    Attempt (List Node × Cursor) :=
  match start.kind? with
  | none => .ok ([], start)
  | some .eof => .ok ([], start)
  | some .keyOn => do
      let first ← trigger start
      have := first.shorter
      let (others, last) ← declarations first.next
      return (first.value :: others, last)
  | some .keyFunc => do
      let first ← proc start
      have := first.shorter
      let (others, last) ← declarations first.next
      return (first.value :: others, last)
  | _ => start.missing .declaration
termination_by start.rest.length

end Parser

/-- Parse a script from a place on, and say where parsing ended. -/
def Cursor.parse (start : Cursor) :
    Except ParseError (List Node) × Cursor :=
  match Parser.declarations start with
  | .ok (nodes, last) => (.ok nodes, last)
  | .error fault => (.error fault.error, fault.stopped)

def Node.parse (tokens : List Token) : Except ParseError (List Node) :=
  (Cursor.parse ⟨tokens, none⟩).1

end TriggerScript
