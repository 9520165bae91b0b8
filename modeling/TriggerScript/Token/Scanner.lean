import TriggerScript.Token.Basic

/-!
# Scanning source text

A scanner holds the characters it has not read yet.  Each step drops the
layout at the front, that is white space and comments, and takes the token
that follows.  Layout and tokens are measured first and cut off afterwards,
so no character is lost between them.

* `layoutLength` counts the characters of layout at the front;
* `lexeme?` gives the kind and the number of characters of the token at the
  front;
* `Scanner.next` takes one step, `Scanner.tokenize` all that are left.

The last token is always the end marker.  After it, or after the first
error, a scanner yields nothing more.
-/

namespace TriggerScript.Token

/-- A character at which no token starts. -/
structure ScanError where
  found : Char
  offset : Nat
  /-- The text from the offending character on, at most ten characters. -/
  context : String
  deriving DecidableEq, Repr

def ScanError.message (error : ScanError) : String :=
  "unexpected character '" ++ String.singleton error.found ++
    "' at offset " ++ toString error.offset ++ ", near \"" ++
    error.context ++ "\""

def isSpace (c : Char) : Bool :=
  c == ' ' || c == '\t' || c == '\n' || c == '\r'

/-- The characters an identifier may start with. -/
def isWordStart (c : Char) : Bool :=
  c.isAlpha || c == '_' || c == '$'

/-- The characters an identifier may go on with. -/
def isWordPart (c : Char) : Bool :=
  isWordStart c || c.isDigit

mutual

/-- The number of characters of layout at the front.  A comment that is not
closed reaches to the end. -/
def layoutLength : List Char → Nat
  | '/' :: '/' :: rest => 2 + lineCommentLength rest
  | '/' :: '*' :: rest => 2 + blockCommentLength rest
  | c :: rest => if isSpace c then 1 + layoutLength rest else 0
  | [] => 0

/-- The layout at the front when it starts inside a line comment. -/
def lineCommentLength : List Char → Nat
  | '\n' :: rest => 1 + layoutLength rest
  | _ :: rest => 1 + lineCommentLength rest
  | [] => 0

/-- The layout at the front when it starts inside a block comment. -/
def blockCommentLength : List Char → Nat
  | '*' :: '/' :: rest => 2 + layoutLength rest
  | _ :: rest => 1 + blockCommentLength rest
  | [] => 0

end

/-- The number of characters of a string token whose opening quote has been
read: up to and with the next quote, or to the end. -/
def stringRest : List Char → Nat
  | [] => 0
  | '"' :: _ => 1
  | _ :: rest => 1 + stringRest rest

/-- The kind and the number of characters of the operator at the front. -/
def operator? : List Char → Option (Kind × Nat)
  | '=' :: '=' :: _ => some (.equal, 2)
  | '!' :: '=' :: _ => some (.notEqual, 2)
  | '<' :: '=' :: _ => some (.lessEqual, 2)
  | '>' :: '=' :: _ => some (.greaterEqual, 2)
  | '=' :: _ => some (.assign, 1)
  | '!' :: _ => some (.not, 1)
  | '<' :: _ => some (.less, 1)
  | '>' :: _ => some (.greater, 1)
  | '(' :: _ => some (.leftParen, 1)
  | ')' :: _ => some (.rightParen, 1)
  | '{' :: _ => some (.leftBrace, 1)
  | '}' :: _ => some (.rightBrace, 1)
  | ';' :: _ => some (.semicolon, 1)
  | ',' :: _ => some (.comma, 1)
  | '+' :: _ => some (.plus, 1)
  | '-' :: _ => some (.minus, 1)
  | '*' :: _ => some (.star, 1)
  | '/' :: _ => some (.slash, 1)
  | '%' :: _ => some (.percent, 1)
  | _ => none

/-- The kind and the number of characters of the token at the front, which is
the longest that fits.  A minus sign belongs to the digit behind it. -/
def lexeme? : List Char → Option (Kind × Nat)
  | [] => none
  | c :: rest =>
      if isWordStart c then
        let word := c :: rest.takeWhile isWordPart
        some (.ofWord (String.ofList word), word.length)
      else if c.isDigit then
        some (.integer, 1 + (rest.takeWhile Char.isDigit).length)
      else if c == '"' then
        some (.string, 1 + stringRest rest)
      else if c == '-' && rest.head?.any Char.isDigit then
        some (.integer, 1 + (rest.takeWhile Char.isDigit).length)
      else
        operator? (c :: rest)

/-- A token has at least one character. -/
theorem lexeme?_length_pos {text : List Char} {kind : Kind} {length : Nat}
    (found : lexeme? text = some (kind, length)) : 0 < length := by
  cases text with
  | nil => simp [lexeme?] at found
  | cons c rest =>
      simp only [lexeme?] at found
      split at found
      · simp at found
        omega
      · split at found
        · simp at found
          omega
        · split at found
          · simp at found
            omega
          · split at found
            · simp at found
              omega
            · unfold operator? at found
              split at found <;> simp at found <;> omega

def byteLength (text : List Char) : Nat :=
  text.foldr (fun char length => char.utf8Size + length) 0

end TriggerScript.Token

namespace TriggerScript

open Token

/-- What is left to scan, and where it starts in the source. -/
structure Scanner where
  rest : List Char
  offset : Nat := 0
  finished : Bool := false
  deriving DecidableEq, Repr

namespace Scanner

def ofSource (source : String) : Scanner where
  rest := source.toList

def advance (scanner : Scanner) (count : Nat) : Scanner :=
  { scanner with
    rest := scanner.rest.drop count
    offset := scanner.offset + byteLength (scanner.rest.take count) }

/-- Stop for good. -/
def finish (scanner : Scanner) : Scanner :=
  { scanner with finished := true }

/-- Take the token that starts right here. -/
def take (scanner : Scanner) : Except ScanError Token × Scanner :=
  match scanner.rest with
  | [] =>
      (.ok ⟨.eof, "", ⟨scanner.offset, scanner.offset⟩⟩, scanner.finish)
  | c :: _ =>
      match lexeme? scanner.rest with
      | some (kind, length) =>
          let after := scanner.advance length
          let text := String.ofList (scanner.rest.take length)
          (.ok ⟨kind, text, ⟨scanner.offset, after.offset⟩⟩, after)
      | none =>
          let context := String.ofList (scanner.rest.take 10)
          (.error ⟨c, scanner.offset, context⟩, scanner.finish)

/-- The next token or the error that ends the scan; nothing once it ended. -/
def next (scanner : Scanner) :
    Option (Except ScanError Token) × Scanner :=
  if scanner.finished then
    (none, scanner)
  else
    let (result, after) :=
      (scanner.advance (layoutLength scanner.rest)).take
    (some result, after)

/-- A bound on the number of steps that still yield something. -/
def pending (scanner : Scanner) : Nat :=
  if scanner.finished then 0 else scanner.rest.length + 1

@[simp]
theorem finished_advance (scanner : Scanner) (count : Nat) :
    (scanner.advance count).finished = scanner.finished := rfl

@[simp]
theorem length_rest_advance (scanner : Scanner) (count : Nat) :
    (scanner.advance count).rest.length = scanner.rest.length - count := by
  simp [advance]

/-- Taking a token leaves fewer steps. -/
theorem pending_take_lt {scanner : Scanner}
    (running : scanner.finished = false) :
    scanner.take.2.pending < scanner.rest.length + 1 := by
  unfold take
  split
  · simp [pending, finish]
  · rename_i c tail nonempty
    split
    · rename_i kind length found
      have positive := lexeme?_length_pos found
      simp only [pending, finished_advance, running, length_rest_advance,
        nonempty, List.length_cons]
      simp
      omega
    · simp [pending, finish]

/-- Every step that yields something leaves fewer steps. -/
theorem pending_next_lt {scanner after : Scanner}
    {result : Except ScanError Token}
    (step : scanner.next = (some result, after)) :
    after.pending < scanner.pending := by
  unfold next at step
  split at step
  · simp at step
  · rename_i running
    simp only [Bool.not_eq_true] at running
    simp only [Prod.mk.injEq] at step
    have stillRunning :
        (scanner.advance (layoutLength scanner.rest)).finished = false := by
      simpa using running
    have bound := pending_take_lt stillRunning
    rw [step.2] at bound
    simp only [pending, running, length_rest_advance] at bound ⊢
    simp
    omega

/-- All tokens that are left, or the error among them. -/
def tokenize (scanner : Scanner) :
    Except ScanError (List Token) × Scanner :=
  match step : scanner.next with
  | (none, after) => (.ok [], after)
  | (some (.error error), after) => (.error error, after)
  | (some (.ok token), after) =>
      have := pending_next_lt step
      match after.tokenize with
      | (.ok tokens, last) => (.ok (token :: tokens), last)
      | (.error error, last) => (.error error, last)
termination_by scanner.pending

end Scanner

/-- All tokens of a source text, the end marker included. -/
def Token.scan (source : String) : Except ScanError (List Token) :=
  (Scanner.ofSource source).tokenize.1

end TriggerScript
