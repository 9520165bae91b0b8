import TriggerScript.Node.Basic

/-!
# Compile errors

Assembling stops at the first tree that has no meaning.
-/

namespace TriggerScript

inductive CompileError where
  | duplicateProc (name : String)
  | duplicateVariable (name : String)
  | undefinedVariable (name : String)
  | unknownType (name : String)
  | unresolvedCall (name : String) (types : List ValueType)
  /-- An argument that is no literal, counted from one. -/
  | untypedArgument (callee : String) (position : Nat) (kind : String)
  | unknownListener (name : String)
  | invalidFilter (filter : String)
  | unknownComparator (comparator : Token.Kind)
  /-- A declaration inside a body. -/
  | invalidPosition (kind name : String)
  /-- A statement or expression outside of any body. -/
  | outsideMethod (kind : String)
  /-- A procedure without a method.  Every procedure is given one before any
  body is assembled. -/
  | procWithoutMethod (name : String)
  deriving DecidableEq, Repr

namespace CompileError

/-- The error for a declaration inside a body. -/
def nested (node : Node) : CompileError :=
  let name :=
    match node with
    | .trigger event _ _ => event
    | .proc name _ _ => name
    | _ => ""
  .invalidPosition node.kindName name

/-- The error for anything but a declaration at the top. -/
def outside (node : Node) : CompileError :=
  .outsideMethod node.kindName

/-- The wording of an error, without what all of them start with. -/
def detail : CompileError → String
  | duplicateProc name => "redefining method '" ++ name ++ "'"
  | duplicateVariable name => "variable redeclared: '" ++ name ++ "'"
  | undefinedVariable name => "undefined variable: '" ++ name ++ "'"
  | unknownType name => "unresolved variable type '" ++ name ++ "'"
  | unresolvedCall name types =>
      "cannot resolve local or native method: " ++ name ++ "(" ++
        ValueType.listNames types ++ ")"
  | untypedArgument callee position kind =>
      "cannot resolve type of " ++ kind ++ " argument " ++
        toString position ++ " in call to '" ++ callee ++ "'"
  | unknownListener name =>
      "unknown trigger '" ++ name ++ "', not defined in runtime"
  | invalidFilter filter =>
      "cannot parse trigger value into long: '" ++ filter ++ "'"
  | unknownComparator comparator =>
      "unknown comparator '" ++ comparator.text ++ "'"
  | invalidPosition kind name =>
      kind ++ " '" ++ name ++ "' cannot appear inside a method\n" ++
        "  hint: declare it at the top level"
  | outsideMethod kind =>
      kind ++ " outside of a method\n" ++
        "  hint: statements belong inside a 'func' or 'on' body"
  | procWithoutMethod name =>
      "internal error: proc '" ++ name ++ "' was not hoisted"

def message (error : CompileError) : String :=
  "compile error: " ++ error.detail

end CompileError

end TriggerScript
