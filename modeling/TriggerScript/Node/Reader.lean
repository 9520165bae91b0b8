import TriggerScript.Node.Parser

/-!
# Reading a tape of tokens

A tape holds all tokens, and a reader the number of the next one.  Going on
raises the number, whether there is a token with it or not.  The parsers of a
tape follow the same grammar as those of a cursor.  Where the first word of a
phrase was seen by whoever asks for the phrase, it is passed without another
look.  Calls of the recursion are written with `|>.`.

Nothing in the definitions says that reading ends, or that the number stays
within the tape; both have to be shown.
-/

namespace TriggerScript

structure Tape where
  tokens : List Token
  deriving DecidableEq, Repr

structure Reader where
  position : Nat := 0
  /-- Where the token passed last starts. -/
  lastOffset : Option Nat := none
  deriving DecidableEq, Repr

namespace Tape

def current? (tape : Tape) (reader : Reader) : Option Token :=
  tape.tokens[reader.position]?

/-- Go on to the next number. -/
def goOn (tape : Tape) (reader : Reader) : Reader where
  position := reader.position + 1
  lastOffset := ((tape.current? reader).map fun token => token.span.start).or
    reader.lastOffset

/-- Where trouble is reported: at the next token, or else at the one passed
last. -/
def offset (tape : Tape) (reader : Reader) : Nat :=
  match tape.current? reader with
  | some token => token.span.start
  | none => reader.lastOffset.getD 0

end Tape

/-- Work of a reader.  `none` is the outcome of work that never ends. -/
abbrev ReadM : Type → Type :=
  ExceptT ParseError (StateT Reader Option)

/-- What comes of some work, and the reader behind it. -/
def Reader.run {α : Type} (reader : Reader) (work : ReadM α) :
    Option (Except ParseError α × Reader) :=
  StateT.run (ExceptT.run work) reader

namespace Tape

def current (tape : Tape) : ReadM (Option Token) := do
  return tape.current? (← get)

def peek (tape : Tape) : ReadM (Option Token.Kind) := do
  return (tape.current? (← get)).map Token.kind

def peekNext (tape : Tape) : ReadM (Option Token.Kind) := do
  return tape.tokens[(← get).position + 1]?.map Token.kind

def advance (tape : Tape) : ReadM Unit := do
  modify tape.goOn

def fail {α : Type} (tape : Tape) (cause : ParseError.Cause) : ReadM α := do
  throw ⟨cause, tape.offset (← get)⟩

def expect (tape : Tape) (kind : Token.Kind) (phrase : Phrase) :
    ReadM Token := do
  match ← tape.current with
  | some token =>
      if token.kind = kind then
        tape.advance
        return token
      else
        tape.fail (.expected phrase (some token.kind))
  | none => tape.fail (.expected phrase none)

/-! ## Expressions -/

mutual

def primary (tape : Tape) : ReadM Node := do
  match ← tape.current with
  | none => tape.fail (.expected .expression none)
  | some token =>
      match token.kind with
      | .integer =>
          tape.advance
          match Literal.ofNumeral? token.text with
          | some literal => return .literal literal
          | none => throw ⟨.numberOutOfRange token.text, token.span.start⟩
      | .string =>
          tape.advance
          return .literal (.ofQuoted token.text)
      | .bool =>
          tape.advance
          return .literal (.ofTruth token.text)
      | .identifier =>
          if (← tape.peekNext) = some .leftParen then
            tape |>.call
          else
            tape.advance
            return .var token.text
      | .leftParen =>
          tape.advance
          let inner ← tape |>.expression
          let _ ← tape.expect .rightParen .groupClose
          return inner
      | kind => tape.fail (.expected .expression (some kind))
partial_fixpoint

def expression (tape : Tape) : ReadM Node := do
  let left ← tape |>.primary
  match ← tape.peek with
  | some kind =>
      if kind.isComparator then
        tape.advance
        let right ← tape |>.primary
        return .compare left kind right
      else
        return left
  | none => return left
partial_fixpoint

def call (tape : Tape) : ReadM Node := do
  let name ← tape.expect .identifier .calledName
  let _ ← tape.expect .leftParen .argumentsOpen
  let args ←
    if (← tape.peek) = some .rightParen then pure [] else tape |>.arguments
  let _ ← tape.expect .rightParen .argumentsClose
  return .call name.text args
partial_fixpoint

/-- One or more arguments, without the closing parenthesis. -/
def arguments (tape : Tape) : ReadM (List Node) := do
  let first ← tape |>.expression
  if (← tape.peek) = some .comma then
    tape.advance
    let others ← tape |>.arguments
    return first :: others
  else
    return [first]
partial_fixpoint

end

/-! ## Statements -/

def declaration (tape : Tape) : ReadM Node := do
  let type ← tape.expect .identifier .declaredType
  let name ← tape.expect .identifier .variableName
  if (← tape.peek) = some .assign then
    tape.advance
    let value ← tape.expression
    let _ ← tape.expect .semicolon .declarationEnd
    return .declare type.text name.text (some value)
  else
    let _ ← tape.expect .semicolon .declarationEnd
    return .declare type.text name.text none

def assignment (tape : Tape) : ReadM Node := do
  let name ← tape.expect .identifier .variableName
  let _ ← tape.expect .assign .assignSign
  let value ← tape.expression
  let _ ← tape.expect .semicolon .assignmentEnd
  return .assign name.text value

def callStatement (tape : Tape) : ReadM Node := do
  let made ← tape.call
  let _ ← tape.expect .semicolon .callEnd
  return made

mutual

def statement (tape : Tape) : ReadM Node := do
  match ← tape.peek, ← tape.peekNext with
  | some .leftBrace, _ => tape |>.block
  | some .keyIf, _ => tape |>.branch
  | some .identifier, some .identifier => tape.declaration
  | some .identifier, some .assign => tape.assignment
  | some .identifier, some .leftParen => tape.callStatement
  | kind?, _ => tape.fail (.expected .statement kind?)
partial_fixpoint

def block (tape : Tape) : ReadM Node := do
  let _ ← tape.expect .leftBrace .blockOpen
  let inner ← tape |>.statements
  return .block inner
partial_fixpoint

/-- The statements of a block and its closing brace. -/
def statements (tape : Tape) : ReadM (List Node) := do
  match ← tape.peek with
  | some .rightBrace =>
      tape.advance
      return []
  | none => tape.fail .unclosedBlock
  | some .eof => tape.fail .unclosedBlock
  | some _ =>
      let head ← tape |>.statement
      let others ← tape |>.statements
      return head :: others
partial_fixpoint

/-- A conditional behind its unseen `if`. -/
def branch (tape : Tape) : ReadM Node := do
  tape.advance
  let _ ← tape.expect .leftParen .conditionOpen
  let condition ← tape.expression
  let _ ← tape.expect .rightParen .conditionClose
  let thenBranch ← tape |>.statement
  if (← tape.peek) = some .keyElse then
    tape.advance
    let elseBranch ← tape |>.statement
    return .branch condition thenBranch (some elseBranch)
  else
    return .branch condition thenBranch none
partial_fixpoint

end

/-! ## Declarations -/

/-- A trigger behind its unseen `on`. -/
def trigger (tape : Tape) : ReadM Node := do
  tape.advance
  let event ← tape.expect .identifier .eventName
  let _ ← tape.expect .leftParen .filterOpen
  let filter ← tape.expect .integer .filterValue
  let _ ← tape.expect .rightParen .filterClose
  let body ← tape.statement
  return .trigger event.text filter.text body

/-- One or more parameters, without the closing parenthesis. -/
def parameters (tape : Tape) : ReadM (List Param) := do
  let type ← tape.expect .identifier .paramType
  let name ← tape.expect .identifier .paramName
  if (← tape.peek) = some .comma then
    tape.advance
    let others ← tape |>.parameters
    return ⟨name.text, type.text⟩ :: others
  else
    return [⟨name.text, type.text⟩]
partial_fixpoint

/-- A procedure behind its unseen `func`. -/
def proc (tape : Tape) : ReadM Node := do
  tape.advance
  let name ← tape.expect .identifier .procName
  let _ ← tape.expect .leftParen .paramsOpen
  let params ←
    if (← tape.peek) = some .rightParen then pure [] else tape.parameters
  let _ ← tape.expect .rightParen .paramsClose
  let body ← tape.block
  return .proc name.text params body

/-- Read declarations up to the end marker or the end of the tokens. -/
def parse (tape : Tape) : ReadM (List Node) := do
  match ← tape.peek with
  | none => return []
  | some .eof => return []
  | some .keyOn =>
      let first ← tape.trigger
      let others ← tape |>.parse
      return first :: others
  | some .keyFunc =>
      let first ← tape.proc
      let others ← tape |>.parse
      return first :: others
  | some kind => tape.fail (.expected .declaration (some kind))
partial_fixpoint

end Tape

end TriggerScript
