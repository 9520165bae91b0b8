import TriggerScript.Node.Parser

/-!
# The grammar of scripts

The grammar as relations between tokens and trees, one rule for each
alternative:

    program    = (trigger | proc)*
    trigger    = "on" name "(" integer ")" statement
    proc       = "func" name "(" (type name ("," type name)*)? ")" block
    block      = "{" statement* "}"
    statement  = block | if | call ";"
               | type name ("=" expression)? ";"
               | name "=" expression ";"
    if         = "if" "(" expression ")" statement ("else" statement)?
    expression = primary (comparator primary)?
    primary    = integer | string | bool | name | call | "(" expression ")"
    call       = name "(" (expression ("," expression)*)? ")"

Parentheses leave no trace in the tree.  The grammar is ambiguous: in
`if (a) if (b) c(); else d();` the `else` may belong to either `if`.  A tree
in which every `else` belongs to the nearest `if` that can take it is one that
`Node.NearestElse` accepts.
-/

namespace TriggerScript

/-- The literal for a whole number, a `long` only where an `int` is too
narrow. -/
inductive Literal.Denotes : Literal → Int → Prop
  | int (value : Int32) : Denotes (.int value) value.toInt
  | long (value : Int64) :
      value.toInt < Int32.minValue.toInt ∨
        Int32.maxValue.toInt < value.toInt →
      Denotes (.long value) value.toInt

namespace Grammar

/-! ## Expressions -/

mutual

inductive Primary : List Token → Node → Prop
  | integer {token : Token} {number : Int} {value : Literal} :
      token.kind = .integer →
      Text.readInt? token.text.toList = some number →
      value.Denotes number →
      Primary [token] (.literal value)
  | string {token : Token} :
      token.kind = .string →
      Primary [token] (.literal (.ofQuoted token.text))
  | bool {token : Token} :
      token.kind = .bool →
      Primary [token] (.literal (.ofTruth token.text))
  | var {token : Token} :
      token.kind = .identifier →
      Primary [token] (.var token.text)
  | call {tokens : List Token} {node : Node} :
      Call tokens node →
      Primary tokens node
  | group {opening closing : Token} {tokens : List Token} {node : Node} :
      opening.kind = .leftParen →
      Expression tokens node →
      closing.kind = .rightParen →
      Primary (opening :: (tokens ++ [closing])) node

inductive Expression : List Token → Node → Prop
  | primary {tokens : List Token} {node : Node} :
      Primary tokens node →
      Expression tokens node
  | compare {sign : Token} {left right : List Token}
      {first second : Node} :
      Primary left first →
      sign.kind.isComparator = true →
      Primary right second →
      Expression (left ++ sign :: right)
        (.compare first sign.kind second)

inductive Call : List Token → Node → Prop
  | empty {name opening closing : Token} :
      name.kind = .identifier →
      opening.kind = .leftParen →
      closing.kind = .rightParen →
      Call [name, opening, closing] (.call name.text [])
  | filled {name opening closing : Token} {tokens : List Token}
      {args : List Node} :
      name.kind = .identifier →
      opening.kind = .leftParen →
      Arguments tokens args →
      closing.kind = .rightParen →
      Call (name :: opening :: (tokens ++ [closing]))
        (.call name.text args)

inductive Arguments : List Token → List Node → Prop
  | single {tokens : List Token} {node : Node} :
      Expression tokens node →
      Arguments tokens [node]
  | cons {comma : Token} {tokens more : List Token} {node : Node}
      {nodes : List Node} :
      Expression tokens node →
      comma.kind = .comma →
      Arguments more nodes →
      Arguments (tokens ++ comma :: more) (node :: nodes)

end

/-! ## Statements -/

mutual

inductive Statement : List Token → Node → Prop
  | block {tokens : List Token} {node : Node} :
      Block tokens node →
      Statement tokens node
  | ifThen {word opening closing : Token}
      {tested taken : List Token} {condition thenBranch : Node} :
      word.kind = .keyIf →
      opening.kind = .leftParen →
      Expression tested condition →
      closing.kind = .rightParen →
      Statement taken thenBranch →
      Statement (word :: opening :: (tested ++ closing :: taken))
        (.branch condition thenBranch none)
  | ifElse {word opening closing other : Token}
      {tested taken missed : List Token}
      {condition thenBranch elseBranch : Node} :
      word.kind = .keyIf →
      opening.kind = .leftParen →
      Expression tested condition →
      closing.kind = .rightParen →
      Statement taken thenBranch →
      other.kind = .keyElse →
      Statement missed elseBranch →
      Statement
        (word :: opening ::
          (tested ++ closing :: (taken ++ other :: missed)))
        (.branch condition thenBranch (some elseBranch))
  | declare {type name closing : Token} :
      type.kind = .identifier →
      name.kind = .identifier →
      closing.kind = .semicolon →
      Statement [type, name, closing]
        (.declare type.text name.text none)
  | declareWith {type name sign closing : Token} {tokens : List Token}
      {value : Node} :
      type.kind = .identifier →
      name.kind = .identifier →
      sign.kind = .assign →
      Expression tokens value →
      closing.kind = .semicolon →
      Statement (type :: name :: sign :: (tokens ++ [closing]))
        (.declare type.text name.text (some value))
  | assign {name sign closing : Token} {tokens : List Token}
      {value : Node} :
      name.kind = .identifier →
      sign.kind = .assign →
      Expression tokens value →
      closing.kind = .semicolon →
      Statement (name :: sign :: (tokens ++ [closing]))
        (.assign name.text value)
  | call {closing : Token} {tokens : List Token} {node : Node} :
      Call tokens node →
      closing.kind = .semicolon →
      Statement (tokens ++ [closing]) node

inductive Block : List Token → Node → Prop
  | braces {opening closing : Token} {tokens : List Token}
      {nodes : List Node} :
      opening.kind = .leftBrace →
      Statements tokens nodes →
      closing.kind = .rightBrace →
      Block (opening :: (tokens ++ [closing])) (.block nodes)

inductive Statements : List Token → List Node → Prop
  | nil : Statements [] []
  | cons {tokens more : List Token} {node : Node} {nodes : List Node} :
      Statement tokens node →
      Statements more nodes →
      Statements (tokens ++ more) (node :: nodes)

end

/-! ## Declarations -/

inductive Trigger : List Token → Node → Prop
  | on {word event opening filter closing : Token} {tokens : List Token}
      {body : Node} :
      word.kind = .keyOn →
      event.kind = .identifier →
      opening.kind = .leftParen →
      filter.kind = .integer →
      closing.kind = .rightParen →
      Statement tokens body →
      Trigger
        (word :: event :: opening :: filter :: closing :: tokens)
        (.trigger event.text filter.text body)

inductive Parameters : List Token → List Param → Prop
  | single {type name : Token} :
      type.kind = .identifier →
      name.kind = .identifier →
      Parameters [type, name] [⟨name.text, type.text⟩]
  | cons {type name comma : Token} {more : List Token}
      {params : List Param} :
      type.kind = .identifier →
      name.kind = .identifier →
      comma.kind = .comma →
      Parameters more params →
      Parameters (type :: name :: comma :: more)
        (⟨name.text, type.text⟩ :: params)

inductive Proc : List Token → Node → Prop
  | empty {word name opening closing : Token} {tokens : List Token}
      {body : Node} :
      word.kind = .keyFunc →
      name.kind = .identifier →
      opening.kind = .leftParen →
      closing.kind = .rightParen →
      Block tokens body →
      Proc (word :: name :: opening :: closing :: tokens)
        (.proc name.text [] body)
  | filled {word name opening closing : Token}
      {heading tokens : List Token} {params : List Param} {body : Node} :
      word.kind = .keyFunc →
      name.kind = .identifier →
      opening.kind = .leftParen →
      Parameters heading params →
      closing.kind = .rightParen →
      Block tokens body →
      Proc (word :: name :: opening :: (heading ++ closing :: tokens))
        (.proc name.text params body)

inductive Program : List Token → List Node → Prop
  | nil : Program [] []
  | trigger {tokens more : List Token} {node : Node}
      {nodes : List Node} :
      Trigger tokens node →
      Program more nodes →
      Program (tokens ++ more) (node :: nodes)
  | proc {tokens more : List Token} {node : Node} {nodes : List Node} :
      Proc tokens node →
      Program more nodes →
      Program (tokens ++ more) (node :: nodes)

end Grammar

/-! ## Where an `else` belongs -/

namespace Node

/-- Whether a statement ends in an `if` that an `else` behind it could
belong to. -/
def endsOpen : Node → Bool
  | branch _ _ none => true
  | branch _ _ (some elseBranch) => elseBranch.endsOpen
  | _ => false

mutual

/-- Every `else` belongs to the nearest `if` before it that can take it: what
stands between an `if` and its `else` does not end in an open `if`. -/
def NearestElse : Node → Prop
  | trigger _ _ body => body.NearestElse
  | proc _ _ body => body.NearestElse
  | block statements => AllNearestElse statements
  | branch _ thenBranch none => thenBranch.NearestElse
  | branch _ thenBranch (some elseBranch) =>
      thenBranch.endsOpen = false ∧ thenBranch.NearestElse ∧
        elseBranch.NearestElse
  | _ => True

def AllNearestElse : List Node → Prop
  | [] => True
  | node :: nodes => node.NearestElse ∧ AllNearestElse nodes

end

end Node

end TriggerScript
