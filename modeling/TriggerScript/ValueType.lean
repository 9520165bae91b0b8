/-!
# Value types

The types of variables, literals and host functions.  Nothing has the type
`void`; it only stands for the result of a function that returns nothing.
-/

namespace TriggerScript

inductive ValueType where
  | int
  | long
  | string
  | bool
  | void
  deriving DecidableEq, Repr

namespace ValueType

/-- The type as written in source text and shown in messages. -/
def name : ValueType → String
  | int => "int"
  | long => "long"
  | string => "string"
  | bool => "bool"
  | void => "void"

def ofVariableName? : String → Option ValueType
  | "int" => some int
  | "long" => some long
  | "string" => some string
  | "bool" => some bool
  | _ => none

def ofResultName? : String → Option ValueType
  | "void" => some void
  | name => ofVariableName? name

def listNames (types : List ValueType) : String :=
  ", ".intercalate (types.map name)

end ValueType

end TriggerScript
