import TriggerScript.Catalog.Basic
import TriggerScript.Text.Blank
import TriggerScript.Text.Decimal

/-!
# Catalog descriptions

A description has one declaration on a line:

    int add(int a, int b) -> 1;
    listener Tick(int now) -> 0;

Blank lines and lines that start with `#` or `//` are comments.  A
declaration is taken apart from its end: the semicolon, the number behind the
last arrow, the closing parenthesis, and then the opening one.  The first
fault in that order is the one reported.
-/

namespace TriggerScript

namespace Catalog

inductive Table where
  | function
  | listener
  deriving DecidableEq, Repr

def Table.name : Table → String
  | function => "function"
  | listener => "listener"

/-- What is wrong with a declaration. -/
inductive Fault where
  | malformed
  | idOutOfRange (numeral : String)
  /-- A parameter that is no type and name, counted from one. -/
  | badParameter (position : Nat)
  | unknownType (name : String)
  | duplicateId (table : Table) (id : UInt32)
  deriving DecidableEq, Repr

/-- A declaration that is refused, and its line, counted from one. -/
structure DescriptionError where
  fault : Fault
  line : Nat
  deriving DecidableEq, Repr

def DescriptionError.message (error : DescriptionError) : String :=
  let place := " at line " ++ toString error.line
  match error.fault with
  | .malformed => "invalid catalog declaration" ++ place
  | .idOutOfRange numeral =>
      "cannot convert id into number" ++ place ++ ": " ++ numeral
  | .badParameter position =>
      "could not parse parameter " ++ toString position ++ place
  | .unknownType name => "unknown type '" ++ name ++ "'" ++ place
  | .duplicateId table id =>
      "duplicate " ++ table.name ++ " id " ++ toString id.toNat ++ place

/-- What one line declares. -/
inductive Entry where
  | function (declared : Function)
  | listener (declared : Listener)
  deriving DecidableEq, Repr

/-- The characters of parameter names, and of declared names after the
first. -/
def isNamePart (c : Char) : Bool :=
  c.isAlphanum || c == '_'

def isName : List Char → Bool
  | [] => false
  | c :: rest => (c.isAlpha || c == '_') && rest.all isNamePart

def parameterType? : String → Option ValueType
  | "int" => some .int
  | "string" => some .string
  | "bool" => some .bool
  | _ => none

def resultType? : String → Option ValueType
  | "void" => some .void
  | name => parameterType? name

def readParameter (position : Nat) (text : List Char) :
    Except Fault Parameter :=
  match Text.words text with
  | [type, name] =>
      if name.all isNamePart then
        match parameterType? (String.ofList type) with
        | some valueType => .ok ⟨valueType, String.ofList name⟩
        | none => .error (.unknownType (String.ofList type))
      else
        .error (.badParameter position)
  | _ => .error (.badParameter position)

/-- Read parameters one by one; the first has the given position. -/
def readParameters (position : Nat) :
    List (List Char) → Except Fault (List Parameter)
  | [] => .ok []
  | text :: texts => do
      let first ← readParameter position text
      let others ← readParameters (position + 1) texts
      return first :: others

/-- Read what stands between the parentheses. -/
def readParameterList (text : List Char) :
    Except Fault (List Parameter) :=
  if (Text.trim text).isEmpty then
    .ok []
  else
    readParameters 1 (Text.splitWhere (· == ',') text)

def readId (text : List Char) : Except Fault UInt32 :=
  match Text.readNat? text with
  | none => .error .malformed
  | some number =>
      if number < UInt32.size then
        .ok (UInt32.ofNat number)
      else
        .error (.idOutOfRange (String.ofList text))

/-- A part of a declaration that has to be there. -/
def required {α : Type} : Option α → Except Fault α
  | some part => .ok part
  | none => .error .malformed

/-- Read a declaration that has neither blanks around it nor is empty. -/
def readEntry (text : List Char) : Except Fault Entry := do
  let body ← required (Text.dropEnd? ';' text)
  let (signature, numeral) ← required (Text.cutLastArrow? body)
  let id ← readId (Text.trim numeral)
  let opened ← required (Text.dropEnd? ')' (Text.trimEnd signature))
  let (head, inner) ← required (Text.cutFirst? '(' opened)
  match Text.words head with
  | [kind, name] =>
      if isName name then
        let params ← readParameterList inner
        if kind = "listener".toList then
          return .listener ⟨String.ofList name, params, id⟩
        else
          match resultType? (String.ofList kind) with
          | some returns =>
              return .function ⟨returns, String.ofList name, params, id⟩
          | none => throw (.unknownType (String.ofList kind))
      else
        throw .malformed
  | _ => throw .malformed

/-- Enter a declaration; a number can be given only once in a table. -/
def insert (catalog : Catalog) : Entry → Except Fault Catalog
  | .function declared =>
      if catalog.functions.any (·.id == declared.id) then
        .error (.duplicateId .function declared.id)
      else
        .ok { catalog with functions := catalog.functions ++ [declared] }
  | .listener declared =>
      if catalog.listeners.any (·.id == declared.id) then
        .error (.duplicateId .listener declared.id)
      else
        .ok { catalog with listeners := catalog.listeners ++ [declared] }

/-- Whether a trimmed line declares nothing. -/
def isComment : List Char → Bool
  | [] => true
  | '#' :: _ => true
  | '/' :: '/' :: _ => true
  | _ => false

def insertLine (catalog : Catalog) (line : List Char) :
    Except Fault Catalog :=
  let text := Text.trim line
  if isComment text then
    .ok catalog
  else
    (readEntry text).bind catalog.insert

/-- Enter line after line; the first has the given number. -/
def insertLines (catalog : Catalog) (number : Nat) :
    List (List Char) → Except DescriptionError Catalog
  | [] => .ok catalog
  | line :: lines =>
      match catalog.insertLine line with
      | .ok extended => extended.insertLines (number + 1) lines
      | .error fault => .error ⟨fault, number⟩

def parse (text : String) : Except DescriptionError Catalog :=
  insertLines {} 1 (Text.lines text.toList)

end Catalog

end TriggerScript
