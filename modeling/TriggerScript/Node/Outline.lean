import TriggerScript.Node.Basic
import TriggerScript.Text.Outline
import TriggerScript.Text.Quoted

/-!
# Syntax trees as outlines
-/

namespace TriggerScript

open Text (Outline quoted)

def Literal.outline : Literal → Outline
  | int value => .wrapped "Int" (.leaf (toString value.toInt))
  | long value => .wrapped "Long" (.leaf (toString value.toInt))
  | string value => .wrapped "String" (.leaf (quoted value))
  | bool value => .wrapped "Bool" (.leaf (if value then "true" else "false"))

def Param.outline (param : Param) : Outline :=
  .record "Param"
    [("name", .leaf (quoted param.name)),
      ("ty", .leaf (quoted param.type))]

namespace Node

mutual

def outline : Node → Outline
  | trigger event filter body =>
      .record "Trigger"
        [("event", .leaf (quoted event)), ("filter", .leaf (quoted filter)),
          ("body", body.outline)]
  | proc name params body =>
      .record "Proc"
        [("name", .leaf (quoted name)),
          ("params", .list (params.map Param.outline)),
          ("body", body.outline)]
  | block statements => .wrapped "Block" (.list (outlines statements))
  | declare type name value =>
      .record "VarDeclaration"
        [("ty", .leaf (quoted type)), ("name", .leaf (quoted name)),
          ("value", optionalOutline value)]
  | assign name value =>
      .record "Assign"
        [("name", .leaf (quoted name)), ("value", value.outline)]
  | branch condition thenBranch elseBranch =>
      .record "If"
        [("condition", condition.outline),
          ("then_branch", thenBranch.outline),
          ("else_branch", optionalOutline elseBranch)]
  | call name args =>
      .record "MethodCall"
        [("name", .leaf (quoted name)), ("args", .list (outlines args))]
  | literal value => .wrapped "Literal" value.outline
  | compare left comparator right =>
      .record "Logical"
        [("left", left.outline), ("comparator", .leaf comparator.name),
          ("right", right.outline)]
  | var name => .wrapped "Identifier" (.leaf (quoted name))

def outlines : List Node → List Outline
  | [] => []
  | node :: nodes => node.outline :: outlines nodes

def optionalOutline : Option Node → Outline
  | none => .leaf "None"
  | some node => .wrapped "Some" node.outline

end

def renderOutline (nodes : List Node) : String :=
  (Outline.list (outlines nodes)).render

end Node

end TriggerScript
