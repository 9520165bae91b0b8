import TriggerScript.Token.Basic

/-!
# Parse errors

A parser stops at the first token it cannot use.  The error says what was
expected there, or why a token of the right kind cannot be used, and gives
the byte offset of the trouble.
-/

namespace TriggerScript

inductive Phrase where
  | declaration
  | eventName
  | filterOpen
  | filterValue
  | filterClose
  | procName
  | paramsOpen
  | paramType
  | paramName
  | paramsClose
  | blockOpen
  | statement
  | callEnd
  | declaredType
  | variableName
  | declarationEnd
  | assignSign
  | assignmentEnd
  | conditionOpen
  | conditionClose
  | expression
  | groupClose
  | calledName
  | argumentsOpen
  | argumentsClose
  deriving DecidableEq, Repr

def Phrase.text : Phrase → String
  | declaration => "'on' or 'func' at top level"
  | eventName => "event name after 'on'"
  | filterOpen => "'(' after event name"
  | filterValue => "integer filter value"
  | filterClose => "')' after filter value"
  | procName => "proc name after 'func'"
  | paramsOpen => "'(' after proc name"
  | paramType => "parameter type"
  | paramName => "parameter name"
  | paramsClose => "')' after parameters"
  | blockOpen => "'\x7b'"
  | statement => "statement"
  | callEnd => "';' after call"
  | declaredType => "type name"
  | variableName => "variable name"
  | declarationEnd => "';' after declaration"
  | assignSign => "'='"
  | assignmentEnd => "';' after assignment"
  | conditionOpen => "'(' after 'if'"
  | conditionClose => "')' after condition"
  | expression => "expression"
  | groupClose => "')'"
  | calledName => "method name"
  | argumentsOpen => "'(' after method name"
  | argumentsClose => "')' after arguments"

namespace ParseError

inductive Cause where
  /-- Another kind of token, or no token at all, stands where the phrase is
  expected. -/
  | expected (phrase : Phrase) (found : Option Token.Kind)
  | unclosedBlock
  | numberOutOfRange (numeral : String)
  deriving DecidableEq, Repr

def Cause.text : Cause → String
  | expected phrase none =>
      "expected " ++ phrase.text ++ ", found end of input"
  | expected phrase (some kind) =>
      "expected " ++ phrase.text ++ ", found '" ++ kind.text ++ "'"
  | unclosedBlock => "unexpected end of input, expected '\x7d'"
  | numberOutOfRange numeral =>
      "integer literal out of range: " ++ numeral

end ParseError

structure ParseError where
  cause : ParseError.Cause
  offset : Nat
  deriving DecidableEq, Repr

def ParseError.message (error : ParseError) : String :=
  "offset " ++ toString error.offset ++ ": " ++ error.cause.text

end TriggerScript
