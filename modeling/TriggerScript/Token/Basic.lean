/-!
# Tokens

A token is a piece of source text with its kind and the range of bytes it was
taken from.
-/

namespace TriggerScript

namespace Token

/-- What a token is.  Integers, strings, booleans and identifiers mean their
text; every other kind has only one text. -/
inductive Kind where
  | integer
  | string
  | bool
  | identifier
  | keyOn
  | keyFunc
  | keyIf
  | keyElse
  | leftParen
  | rightParen
  | leftBrace
  | rightBrace
  | semicolon
  | comma
  | assign
  | plus
  | minus
  | star
  | slash
  | percent
  | equal
  | notEqual
  | less
  | lessEqual
  | greater
  | greaterEqual
  | not
  | eof
  deriving DecidableEq, Repr

namespace Kind

def isComparator : Kind → Bool
  | equal | notEqual | less | lessEqual | greater | greaterEqual => true
  | _ => false

/-- A word is a keyword, a boolean or an identifier. -/
def ofWord : String → Kind
  | "on" => keyOn
  | "func" => keyFunc
  | "if" => keyIf
  | "else" => keyElse
  | "true" | "false" => bool
  | _ => identifier

def text : Kind → String
  | integer => "integer"
  | string => "string"
  | bool => "bool"
  | identifier => "identifier"
  | keyOn => "on"
  | keyFunc => "func"
  | keyIf => "if"
  | keyElse => "else"
  | leftParen => "("
  | rightParen => ")"
  | leftBrace => "\x7b"
  | rightBrace => "\x7d"
  | semicolon => ";"
  | comma => ","
  | assign => "="
  | plus => "+"
  | minus => "-"
  | star => "*"
  | slash => "/"
  | percent => "%"
  | equal => "=="
  | notEqual => "!="
  | less => "<"
  | lessEqual => "<="
  | greater => ">"
  | greaterEqual => ">="
  | not => "!"
  | eof => "EOF"

def name : Kind → String
  | integer => "Integer"
  | string => "String"
  | bool => "Bool"
  | identifier => "Identifier"
  | keyOn => "On"
  | keyFunc => "Func"
  | keyIf => "If"
  | keyElse => "Else"
  | leftParen => "LParen"
  | rightParen => "RParen"
  | leftBrace => "LBrace"
  | rightBrace => "RBrace"
  | semicolon => "Semicolon"
  | comma => "Comma"
  | assign => "Assign"
  | plus => "Plus"
  | minus => "Minus"
  | star => "Star"
  | slash => "Slash"
  | percent => "Percent"
  | equal => "Equal"
  | notEqual => "NotEqual"
  | less => "Less"
  | lessEqual => "LessEqual"
  | greater => "Greater"
  | greaterEqual => "GreaterEqual"
  | not => "Not"
  | eof => "Eof"

def all : List Kind :=
  [integer, string, bool, identifier, keyOn, keyFunc, keyIf, keyElse,
    leftParen, rightParen, leftBrace, rightBrace, semicolon, comma,
    assign, plus, minus, star, slash, percent, equal, notEqual, less,
    lessEqual, greater, greaterEqual, not, eof]

def ofName? (text : String) : Option Kind :=
  all.find? fun kind => kind.name == text

end Kind

/-- A range of byte offsets into the source; `stop` is not part of it. -/
structure Span where
  start : Nat
  stop : Nat
  deriving DecidableEq, Repr

end Token

/-- A piece of source text, what it is and where it stands. -/
structure Token where
  kind : Token.Kind
  text : String
  span : Token.Span
  deriving DecidableEq, Repr

end TriggerScript
