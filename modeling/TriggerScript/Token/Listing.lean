import TriggerScript.Token.Basic
import TriggerScript.Text.Decimal

/-!
# Token listings

One line for each token: its byte range, its class and its text.  A coloured
listing wraps class and text in terminal colours.
-/

namespace TriggerScript.Token

namespace Kind

def tag : Kind → String
  | eof => "EOF"
  | integer => "INT"
  | string => "STRING"
  | bool => "BOOL"
  | identifier => "IDENT"
  | keyOn | keyFunc | keyIf | keyElse => "KEYWORD"
  | leftParen | rightParen => "PAREN"
  | leftBrace | rightBrace => "BRACE"
  | semicolon | comma => "PUNCT"
  | assign | plus | minus | star | slash | percent | not => "OP"
  | equal | notEqual | less | lessEqual | greater | greaterEqual => "CMP"

def color : Kind → Nat
  | eof => 2
  | string => 32
  | integer | bool => 36
  | identifier => 33
  | keyOn | keyFunc | keyIf | keyElse => 34
  | leftParen | rightParen | leftBrace | rightBrace | semicolon | comma => 0
  | assign | plus | minus | star | slash | percent | not => 35
  | equal | notEqual | less | lessEqual | greater | greaterEqual => 35

end Kind

/-- The control sequence that switches to a terminal colour; number zero goes
back to plain text. -/
def colorCode (number : Nat) : String :=
  "\x1b[" ++ toString number ++ "m"

def listingLine (colored : Bool) (token : Token) : String :=
  let body := Text.column 8 token.kind.tag ++ " " ++ token.text
  let shown :=
    if colored then
      colorCode token.kind.color ++ body ++ colorCode 0
    else
      body
  "[" ++ Text.zeroPadded 4 token.span.start ++ ".." ++
    Text.zeroPadded 4 token.span.stop ++ "] " ++ shown ++ "\n"

def listing (colored : Bool) (tokens : List Token) : String :=
  String.join (tokens.map (listingLine colored))

end TriggerScript.Token
