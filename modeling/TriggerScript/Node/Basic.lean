import TriggerScript.Token.Basic
import TriggerScript.Text.Decimal
import TriggerScript.ValueType

/-!
# Syntax trees

One type of nodes covers declarations, statements and expressions.  Scripts
only ever hold declarations at the top, statements in bodies and expressions
in statements, but trees made by hand may mix them.
-/

namespace TriggerScript

inductive Literal where
  | int (value : Int32)
  | long (value : Int64)
  | string (value : String)
  | bool (value : Bool)
  deriving DecidableEq, Repr

namespace Literal

def type : Literal → ValueType
  | int _ => .int
  | long _ => .long
  | string _ => .string
  | bool _ => .bool

/-- The literal for a whole number: `int` if it fits, else `long`. -/
def ofInt? (number : Int) : Option Literal :=
  if Int32.minValue.toInt ≤ number ∧ number ≤ Int32.maxValue.toInt then
    some (int (Int32.ofInt number))
  else if Int64.minValue.toInt ≤ number ∧
      number ≤ Int64.maxValue.toInt then
    some (long (Int64.ofInt number))
  else
    none

def ofNumeral? (text : String) : Option Literal :=
  (Text.readInt? text.toList).bind ofInt?

/-- The literal for a string token: a quote at either end is taken off. -/
def ofQuoted (text : String) : Literal :=
  let opened :=
    match text.toList with
    | '"' :: rest => rest
    | whole => whole
  string (String.ofList
    (if opened.getLast? = some '"' then opened.dropLast else opened))

def ofTruth (text : String) : Literal :=
  bool (text == "true")

end Literal

/-- A declared parameter; its type is resolved when the procedure is
assembled. -/
structure Param where
  name : String
  type : String
  deriving DecidableEq, Repr

/-- A syntax tree.  Types and filters are kept as written. -/
inductive Node where
  | trigger (event filter : String) (body : Node)
  | proc (name : String) (params : List Param) (body : Node)
  | block (statements : List Node)
  | declare (type name : String) (value : Option Node)
  | assign (name : String) (value : Node)
  | branch (condition thenBranch : Node) (elseBranch : Option Node)
  | call (name : String) (args : List Node)
  | literal (value : Literal)
  | compare (left : Node) (comparator : Token.Kind) (right : Node)
  | var (name : String)
  deriving Repr

namespace Node

/-- What a node is, as messages show it. -/
def kindName : Node → String
  | trigger .. => "trigger"
  | proc .. => "func"
  | block _ => "block"
  | declare .. => "variable declaration"
  | assign .. => "assignment"
  | branch .. => "if"
  | call .. => "method call"
  | literal value => value.type.name ++ " literal"
  | compare .. => "comparison"
  | var _ => "identifier"

/-- The type of a node, known for literals only. -/
def staticType? : Node → Option ValueType
  | literal value => some value.type
  | _ => none

end Node

end TriggerScript
