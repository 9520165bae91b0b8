import TriggerScript.Proofs.Lossless
import TriggerScript.Proofs.ParserLanguage
import TriggerScript.Proofs.Subtrees

/-!
# How much a source text can hold

Every tree is given a weight that bounds what assembling it can add to a
program: its instructions with their markers, its labels and the texts it
brings along.  A tree is written with tokens of its own, and a token takes at
least one byte.  So all trees of a script together weigh at most twice as much
as the source text has bytes.
-/

namespace TriggerScript

def Literal.textSize : Literal → Nat
  | string value => value.utf8ByteSize
  | int _ | long _ | bool _ => 0

/-- One for each parameter, and the bytes of its name. -/
def Param.extent (params : List Param) : Nat :=
  params.foldr (fun param total => 1 + param.name.utf8ByteSize + total) 0

namespace Node

/-- What a tree adds to the weight of its parts. -/
def weight : Node → Nat
  | trigger event filter _ =>
      4 + event.utf8ByteSize + filter.utf8ByteSize
  | proc name params _ => 2 + name.utf8ByteSize + Param.extent params
  | block _ => 0
  | declare _ name _ => 1 + name.utf8ByteSize
  | branch _ _ _ => 4
  | literal value => 1 + value.textSize
  | assign _ _ | call _ _ | compare _ _ _ | var _ => 1

/-- The weight of several trees, without their parts. -/
def extent (trees : List Node) : Nat :=
  trees.foldr (fun tree total => tree.weight + total) 0

@[simp]
theorem extent_nil : extent [] = 0 := rfl

@[simp]
theorem extent_cons (tree : Node) (trees : List Node) :
    extent (tree :: trees) = tree.weight + extent trees := rfl

@[simp]
theorem extent_append (left right : List Node) :
    extent (left ++ right) = extent left + extent right := by
  induction left with
  | nil =>
      rw [List.nil_append, extent_nil, Nat.zero_add]
  | cons tree trees inductionHypothesis =>
      rw [List.cons_append, extent_cons, inductionHypothesis, extent_cons,
        Nat.add_assoc]

end Node

/-- The bytes of tokens, with one byte for a token without text. -/
def Token.extent (tokens : List Token) : Nat :=
  tokens.foldr (fun token total => max 1 token.text.utf8ByteSize + total) 0

namespace Token

@[simp]
theorem extent_nil : extent [] = 0 := rfl

@[simp]
theorem extent_cons (token : Token) (tokens : List Token) :
    extent (token :: tokens) =
      max 1 token.text.utf8ByteSize + extent tokens := rfl

@[simp]
theorem extent_append (left right : List Token) :
    extent (left ++ right) = extent left + extent right := by
  induction left with
  | nil =>
      rw [List.nil_append, extent_nil, Nat.zero_add]
  | cons token tokens inductionHypothesis =>
      rw [List.cons_append, extent_cons, inductionHypothesis, extent_cons,
        Nat.add_assoc]

end Token

/-! ## Trees and their tokens -/

theorem Token.byteLength_toList (text : String) :
    byteLength text.toList = text.utf8ByteSize := by
  rw [byteLength_eq, String.ofList_toList]

theorem Token.byteLength_le_of_sublist {short long : List Char}
    (sublist : short.Sublist long) : byteLength short ≤ byteLength long := by
  induction sublist with
  | slnil =>
      exact Nat.le_refl _
  | cons c _ inductionHypothesis =>
      exact Nat.le_add_left_of_le inductionHypothesis
  | cons_cons c _ inductionHypothesis =>
      exact Nat.add_le_add_left inductionHypothesis c.utf8Size

/-- Taking quotes off makes a text no longer. -/
theorem Literal.textSize_ofQuoted_le (text : String) :
    (ofQuoted text).textSize ≤ text.utf8ByteSize := by
  rw [ofQuoted, textSize, ← Token.byteLength_eq,
    ← Token.byteLength_toList]
  apply Token.byteLength_le_of_sublist
  have closed (chars : List Char) :
      (if chars.getLast? = some '"' then chars.dropLast
        else chars).Sublist chars := by
    by_cases quoted : chars.getLast? = some '"'
    · rw [if_pos quoted]
      exact List.dropLast_sublist chars
    · rw [if_neg quoted]
  split
  · rename_i rest textEq
    rw [textEq]
    exact (closed rest).trans (List.sublist_cons_self _ rest)
  · exact closed text.toList

namespace Grammar

open Node

mutual

theorem Primary.extent_le {tokens : List Token} {node : Node} :
    Primary tokens node → extent node.subtrees ≤ 2 * Token.extent tokens
  | @Primary.integer token _ value _ _ denotes => by
      have noText : value.textSize = 0 := by
        cases denotes <;> rfl
      simp only [subtrees, extent_cons, weight, noText, extent_nil,
        Token.extent_cons, Token.extent_nil]
      omega
  | @Primary.string token _ => by
      have bound := Literal.textSize_ofQuoted_le token.text
      simp only [subtrees, extent_cons, weight, extent_nil, Token.extent_cons,
        Token.extent_nil]
      omega
  | @Primary.bool token _ => by
      simp only [subtrees, Literal.ofTruth, extent_cons, weight,
        Literal.textSize, extent_nil, Token.extent_cons, Token.extent_nil]
      omega
  | .var _ => by
      simp only [subtrees, extent_cons, weight, extent_nil, Token.extent_cons,
        Token.extent_nil]
      omega
  | .call called =>
      called.extent_le
  | .group _ inner _ => by
      have bound := inner.extent_le
      simp only [Token.extent_cons, Token.extent_append, Token.extent_nil]
      omega

theorem Expression.extent_le {tokens : List Token} {node : Node} :
    Expression tokens node →
      extent node.subtrees ≤ 2 * Token.extent tokens
  | .primary only =>
      only.extent_le
  | .compare left _ right => by
      have leftBound := left.extent_le
      have rightBound := right.extent_le
      simp only [subtrees, extent_cons, weight, extent_append,
        Token.extent_append, Token.extent_cons]
      omega

theorem Call.extent_le {tokens : List Token} {node : Node} :
    Call tokens node → extent node.subtrees ≤ 2 * Token.extent tokens
  | .empty _ _ _ => by
      simp only [subtrees, allSubtrees, extent_cons, weight, extent_nil,
        Token.extent_cons, Token.extent_nil]
      omega
  | .filled _ _ args _ => by
      have bound := args.extent_le
      simp only [subtrees, extent_cons, weight, Token.extent_cons,
        Token.extent_append, Token.extent_nil]
      omega

theorem Arguments.extent_le {tokens : List Token} {nodes : List Node} :
    Arguments tokens nodes →
      extent (allSubtrees nodes) ≤ 2 * Token.extent tokens
  | .single only => by
      rw [allSubtrees_singleton]
      exact only.extent_le
  | .cons head _ others => by
      have headBound := head.extent_le
      have othersBound := others.extent_le
      simp only [allSubtrees, extent_append, Token.extent_append,
        Token.extent_cons]
      omega

end

mutual

theorem Statement.extent_le {tokens : List Token} {node : Node} :
    Statement tokens node →
      extent node.subtrees ≤ 2 * Token.extent tokens
  | .block inner =>
      inner.extent_le
  | .ifThen _ _ tested _ taken => by
      have testedBound := tested.extent_le
      have takenBound := taken.extent_le
      simp only [subtrees, optionalSubtrees, extent_cons, weight, extent_append,
        Token.extent_cons, Token.extent_append, extent_nil]
      omega
  | .ifElse _ _ tested _ taken _ missed => by
      have testedBound := tested.extent_le
      have takenBound := taken.extent_le
      have missedBound := missed.extent_le
      simp only [subtrees, optionalSubtrees, extent_cons, weight, extent_append,
        Token.extent_cons, Token.extent_append]
      omega
  | .declare _ _ _ => by
      simp only [subtrees, optionalSubtrees, extent_cons, weight, extent_nil,
        Token.extent_cons, Token.extent_nil]
      omega
  | .declareWith _ _ _ value _ => by
      have bound := value.extent_le
      simp only [subtrees, optionalSubtrees, extent_cons, weight,
        Token.extent_cons, Token.extent_append, Token.extent_nil]
      omega
  | .assign _ _ value _ => by
      have bound := value.extent_le
      simp only [subtrees, extent_cons, weight, Token.extent_cons,
        Token.extent_append, Token.extent_nil]
      omega
  | .call called _ => by
      have bound := called.extent_le
      simp only [Token.extent_append, Token.extent_cons, Token.extent_nil]
      omega

theorem Block.extent_le {tokens : List Token} {node : Node} :
    Block tokens node → extent node.subtrees ≤ 2 * Token.extent tokens
  | .braces _ inner _ => by
      have bound := inner.extent_le
      simp only [subtrees, extent_cons, weight, Token.extent_cons,
        Token.extent_append, Token.extent_nil]
      omega

theorem Statements.extent_le {tokens : List Token} {nodes : List Node} :
    Statements tokens nodes →
      extent (allSubtrees nodes) ≤ 2 * Token.extent tokens
  | .nil => by
      simp [allSubtrees]
  | .cons head others => by
      have headBound := head.extent_le
      have othersBound := others.extent_le
      simp only [allSubtrees, extent_append, Token.extent_append]
      omega

end

theorem Trigger.extent_le {tokens : List Token} {node : Node}
    (derived : Trigger tokens node) :
    extent node.subtrees ≤ 2 * Token.extent tokens := by
  cases derived with
  | on _ _ _ _ _ body =>
      have bound := body.extent_le
      simp only [subtrees, extent_cons, weight, Token.extent_cons]
      omega

theorem Parameters.extent_le {tokens : List Token} {params : List Param}
    (derived : Parameters tokens params) :
    Param.extent params ≤ Token.extent tokens := by
  induction derived with
  | single _ _ =>
      simp only [Param.extent, List.foldr_cons, List.foldr_nil,
        Token.extent_cons, Token.extent_nil]
      omega
  | cons _ _ _ others inductionHypothesis =>
      simp only [Param.extent, List.foldr_cons,
        Token.extent_cons] at inductionHypothesis ⊢
      omega

theorem Proc.extent_le {tokens : List Token} {node : Node}
    (derived : Proc tokens node) :
    extent node.subtrees ≤ 2 * Token.extent tokens := by
  cases derived with
  | empty _ _ _ _ body =>
      have bound := body.extent_le
      simp only [subtrees, extent_cons, weight, Param.extent, List.foldr_nil,
        Token.extent_cons]
      omega
  | filled _ _ _ heading _ body =>
      have headingBound := heading.extent_le
      have bound := body.extent_le
      simp only [subtrees, extent_cons, weight, Token.extent_cons,
        Token.extent_append]
      omega

theorem Program.extent_le {tokens : List Token} {nodes : List Node}
    (derived : Program tokens nodes) :
    extent (allSubtrees nodes) ≤ 2 * Token.extent tokens := by
  induction derived with
  | nil =>
      simp [allSubtrees]
  | trigger head others inductionHypothesis =>
      have bound := head.extent_le
      simp only [allSubtrees, extent_append, Token.extent_append]
      omega
  | proc head others inductionHypothesis =>
      have bound := head.extent_le
      simp only [allSubtrees, extent_append, Token.extent_append]
      omega

end Grammar

/-! ## Tokens and their source -/

/-- The tokens before the end marker take no more bytes than the text. -/
theorem Token.Reads.extent_le {before text : List Char}
    {tokens : List Token} (reads : Reads before text tokens) :
    extent (beforeEnd tokens) ≤ byteLength text := by
  induction reads with
  | finish layout =>
      exact Nat.zero_le _
  | @token before gap rest lexeme tokens layout scans later
      inductionHypothesis =>
      have notEnd : lexeme.kind ≠ .eof :=
        (matches_of_lexeme? scans.2).ne_eof
      have nonempty : 1 ≤ lexeme.text.utf8ByteSize := by
        rw [← byteLength_toList]
        exact text_pos scans []
      have split : beforeEnd (ofLexeme lexeme (before ++ gap) :: tokens) =
          ofLexeme lexeme (before ++ gap) :: beforeEnd tokens :=
        List.takeWhile_cons_of_pos (by simpa [ofLexeme] using notEnd)
      have size : (ofLexeme lexeme (before ++ gap)).text.utf8ByteSize =
          lexeme.text.utf8ByteSize :=
        rfl
      rw [split, extent_cons, size, byteLength_append, byteLength_append,
        byteLength_toList, Nat.max_eq_right nonempty]
      omega

end TriggerScript
