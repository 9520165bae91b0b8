import TriggerScript.Proofs.Rendering

/-!
# From scripts to source text and back

The lexemes of a printable script derive the script, so parsing what scanning
finds in its rendering returns it.  In the other direction, a tree that is
derived from tokens as scanning returns them is printable.
-/

namespace TriggerScript

open Token Grammar

/-! ## Rendered scripts derive themselves -/

namespace Token

variable {token : Token} {kind : Kind} {text : String}

theorem kind_of_sign (same : token.lexeme = .sign kind) :
    token.kind = kind :=
  congrArg Lexeme.kind same

theorem eq_of_name (same : token.lexeme = .name text) :
    token.kind = .identifier ∧ token.text = text :=
  ⟨congrArg Lexeme.kind same, congrArg Lexeme.text same⟩

theorem eq_of_numeral (same : token.lexeme = .numeral text) :
    token.kind = .integer ∧ token.text = text :=
  ⟨congrArg Lexeme.kind same, congrArg Lexeme.text same⟩

theorem exists_closing {tokens : List Token} {lexemes : List Lexeme}
    (same : tokens.map Token.lexeme = lexemes ++ [.sign kind]) :
    ∃ inner closing, tokens = inner ++ [closing] ∧
      inner.map Token.lexeme = lexemes ∧ closing.kind = kind := by
  obtain ⟨inner, last, rfl, innerEq, lastEq⟩ :=
    List.map_eq_append_iff.mp same
  obtain ⟨closing, rfl, closingEq⟩ := List.map_eq_singleton_iff.mp lastEq
  exact ⟨inner, closing, rfl, innerEq, kind_of_sign closingEq⟩

end Token

theorem Grammar.Primary.of_literal {token : Token} {value : Literal}
    (printable : value.Printable) (same : token.lexeme = value.lexeme) :
    Primary [token] (.literal value) := by
  cases value with
  | int value =>
      obtain ⟨kindEq, textEq⟩ := eq_of_numeral same
      refine .integer kindEq ?_ (.int value)
      rw [textEq, Text.readInt?_repr]
  | long value =>
      obtain ⟨kindEq, textEq⟩ := eq_of_numeral same
      refine .integer kindEq ?_ (.long value printable)
      rw [textEq, Text.readInt?_repr]
  | string value =>
      have kindEq : token.kind = .string := congrArg Lexeme.kind same
      have textEq : token.text =
          String.ofList ('"' :: (value.toList ++ ['"'])) :=
        congrArg Lexeme.text same
      have derived := Primary.string kindEq
      rw [textEq, ofQuoted_eq rfl printable (.inr rfl),
        String.ofList_toList] at derived
      exact derived
  | bool value =>
      cases value with
      | true =>
          have kindEq : token.kind = .bool := congrArg Lexeme.kind same
          have textEq : token.text = "true" := congrArg Lexeme.text same
          have derived := Primary.bool kindEq
          rw [textEq] at derived
          exact derived
      | false =>
          have kindEq : token.kind = .bool := congrArg Lexeme.kind same
          have textEq : token.text = "false" := congrArg Lexeme.text same
          have derived := Primary.bool kindEq
          rw [textEq] at derived
          exact derived

namespace Node

def DerivesExpression (node : Node) : Prop :=
  ∀ tokens : List Token, tokens.map Token.lexeme = node.expressionLexemes →
    Expression tokens node ∧
      (node.isComparison = false → Primary tokens node)

def DerivesArguments (nodes : List Node) : Prop :=
  ∀ tokens : List Token, tokens.map Token.lexeme = argumentLexemes nodes →
    nodes = [] ∧ tokens = [] ∨ Arguments tokens nodes

theorem DerivesExpression.operand {node : Node} {tokens : List Token}
    (derives : node.DerivesExpression)
    (same : tokens.map Token.lexeme =
      grouped node.isComparison node.expressionLexemes) :
    Primary tokens node := by
  cases isComparison : node.isComparison with
  | false =>
      rw [isComparison] at same
      exact (derives tokens same).2 isComparison
  | true =>
      rw [isComparison] at same
      obtain ⟨opening, others, rfl, openingEq, othersEq⟩ :=
        List.map_eq_cons_iff.mp same
      obtain ⟨inner, closing, rfl, innerEq, closeKind⟩ :=
        exists_closing othersEq
      exact .group (kind_of_sign openingEq) (derives inner innerEq).1
        closeKind

theorem DerivesArguments.call {name : String} {args : List Node}
    {tokens : List Token} (derives : DerivesArguments args)
    (same : tokens.map Token.lexeme = (call name args).expressionLexemes) :
    Call tokens (call name args) := by
  obtain ⟨called, others, rfl, calledEq, othersEq⟩ :=
    List.map_eq_cons_iff.mp same
  obtain ⟨opening, more, rfl, openingEq, moreEq⟩ :=
    List.map_eq_cons_iff.mp othersEq
  obtain ⟨inner, closing, rfl, innerEq, closeKind⟩ := exists_closing moreEq
  obtain ⟨nameKind, rfl⟩ := eq_of_name calledEq
  have openedKind := kind_of_sign openingEq
  rcases derives inner innerEq with ⟨rfl, rfl⟩ | derived
  · exact .empty nameKind openedKind closeKind
  · exact .filled nameKind openedKind derived closeKind

mutual

theorem derivesExpression :
    (node : Node) → node.IsExpression → node.DerivesExpression
  | literal value, printable => by
      intro tokens same
      obtain ⟨token, rfl, tokenEq⟩ := List.map_eq_singleton_iff.mp same
      have derived := Primary.of_literal printable tokenEq
      exact ⟨.primary derived, fun _ => derived⟩
  | var name, _ => by
      intro tokens same
      obtain ⟨token, rfl, tokenEq⟩ := List.map_eq_singleton_iff.mp same
      obtain ⟨kindEq, rfl⟩ := eq_of_name tokenEq
      have derived := Primary.var kindEq
      exact ⟨.primary derived, fun _ => derived⟩
  | call name args, ⟨_, areExpressions⟩ => by
      intro tokens same
      have called := (derivesArguments args areExpressions).call same
      exact ⟨.primary (.call called), fun _ => .call called⟩
  | compare left comparator right, ⟨isSign, isLeft, isRight⟩ => by
      intro tokens same
      obtain ⟨before, others, rfl, beforeEq, othersEq⟩ :=
        List.map_eq_append_iff.mp same
      obtain ⟨sign, after, rfl, signEq, afterEq⟩ :=
        List.map_eq_cons_iff.mp othersEq
      have leftDerived := (derivesExpression left isLeft).operand beforeEq
      have rightDerived := (derivesExpression right isRight).operand afterEq
      have signKind := kind_of_sign signEq
      subst signKind
      refine ⟨.compare leftDerived isSign rightDerived, ?_⟩
      intro impossible
      cases impossible

theorem derivesArguments :
    (nodes : List Node) → AreExpressions nodes → DerivesArguments nodes
  | [], _ => by
      intro tokens same
      exact .inl ⟨rfl, List.map_eq_nil_iff.mp same⟩
  | [node], ⟨isExpression, _⟩ => by
      intro tokens same
      exact .inr (.single (derivesExpression node isExpression tokens same).1)
  | node :: next :: nodes, ⟨isExpression, areExpressions⟩ => by
      intro tokens same
      obtain ⟨first, others, rfl, firstEq, othersEq⟩ :=
        List.map_eq_append_iff.mp same
      obtain ⟨comma, more, rfl, commaEq, moreEq⟩ :=
        List.map_eq_cons_iff.mp othersEq
      have head := (derivesExpression node isExpression first firstEq).1
      rcases derivesArguments (next :: nodes) areExpressions more moreEq with
        ⟨impossible, _⟩ | derived
      · cases impossible
      · exact .inr (.cons head (kind_of_sign commaEq) derived)

end

mutual

theorem derivesStatement :
    (node : Node) → node.IsStatement → ∀ tokens : List Token,
      tokens.map Token.lexeme = node.statementLexemes →
      Statement tokens node
  | block statements, areStatements => by
      intro tokens same
      exact .block (derivesBlock statements areStatements tokens same)
  | declare type name none, _ => by
      intro tokens same
      obtain ⟨typed, others, rfl, typeEq, othersEq⟩ :=
        List.map_eq_cons_iff.mp same
      obtain ⟨named, last, rfl, nameEq, lastEq⟩ :=
        List.map_eq_cons_iff.mp othersEq
      obtain ⟨closing, rfl, closingEq⟩ :=
        List.map_eq_singleton_iff.mp lastEq
      obtain ⟨typeKind, rfl⟩ := eq_of_name typeEq
      obtain ⟨nameKind, rfl⟩ := eq_of_name nameEq
      exact .declare typeKind nameKind (kind_of_sign closingEq)
  | declare type name (some value), ⟨_, _, isExpression⟩ => by
      intro tokens same
      obtain ⟨typed, others, rfl, typeEq, othersEq⟩ :=
        List.map_eq_cons_iff.mp same
      obtain ⟨named, more, rfl, nameEq, moreEq⟩ :=
        List.map_eq_cons_iff.mp othersEq
      obtain ⟨sign, behind, rfl, signEq, behindEq⟩ :=
        List.map_eq_cons_iff.mp moreEq
      obtain ⟨inner, closing, rfl, innerEq, closeKind⟩ :=
        exists_closing behindEq
      obtain ⟨typeKind, rfl⟩ := eq_of_name typeEq
      obtain ⟨nameKind, rfl⟩ := eq_of_name nameEq
      have derived := (derivesExpression value isExpression inner innerEq).1
      exact .declareWith typeKind nameKind (kind_of_sign signEq) derived
        closeKind
  | assign name value, ⟨_, isExpression⟩ => by
      intro tokens same
      obtain ⟨named, others, rfl, nameEq, othersEq⟩ :=
        List.map_eq_cons_iff.mp same
      obtain ⟨sign, behind, rfl, signEq, behindEq⟩ :=
        List.map_eq_cons_iff.mp othersEq
      obtain ⟨inner, closing, rfl, innerEq, closeKind⟩ :=
        exists_closing behindEq
      obtain ⟨nameKind, rfl⟩ := eq_of_name nameEq
      have derived := (derivesExpression value isExpression inner innerEq).1
      exact .assign nameKind (kind_of_sign signEq) derived closeKind
  | branch condition thenBranch none, ⟨isExpression, isStatement⟩ => by
      intro tokens same
      obtain ⟨word, others, rfl, wordEq, othersEq⟩ :=
        List.map_eq_cons_iff.mp same
      obtain ⟨opening, more, rfl, openingEq, moreEq⟩ :=
        List.map_eq_cons_iff.mp othersEq
      obtain ⟨tested, behind, rfl, testedEq, behindEq⟩ :=
        List.map_eq_append_iff.mp moreEq
      obtain ⟨closing, taken, rfl, closingEq, takenEq⟩ :=
        List.map_eq_cons_iff.mp behindEq
      have derived :=
        (derivesExpression condition isExpression tested testedEq).1
      exact .ifThen (kind_of_sign wordEq) (kind_of_sign openingEq) derived
        (kind_of_sign closingEq)
        (derivesStatement thenBranch isStatement taken takenEq)
  | branch condition thenBranch (some elseBranch),
      ⟨isExpression, thenStatement, elseStatement⟩ => by
      intro tokens same
      obtain ⟨word, others, rfl, wordEq, othersEq⟩ :=
        List.map_eq_cons_iff.mp same
      obtain ⟨opening, more, rfl, openingEq, moreEq⟩ :=
        List.map_eq_cons_iff.mp othersEq
      obtain ⟨tested, behind, rfl, testedEq, behindEq⟩ :=
        List.map_eq_append_iff.mp moreEq
      obtain ⟨closing, branches, rfl, closingEq, branchesEq⟩ :=
        List.map_eq_cons_iff.mp behindEq
      obtain ⟨taken, rest, rfl, takenEq, restEq⟩ :=
        List.map_eq_append_iff.mp branchesEq
      obtain ⟨other, missed, rfl, otherEq, missedEq⟩ :=
        List.map_eq_cons_iff.mp restEq
      have derived :=
        (derivesExpression condition isExpression tested testedEq).1
      exact .ifElse (kind_of_sign wordEq) (kind_of_sign openingEq) derived
        (kind_of_sign closingEq)
        (derivesStatement thenBranch thenStatement taken takenEq)
        (kind_of_sign otherEq)
        (derivesStatement elseBranch elseStatement missed missedEq)
  | call name args, ⟨_, areExpressions⟩ => by
      intro tokens same
      obtain ⟨inner, closing, rfl, innerEq, closeKind⟩ := exists_closing same
      have called := (derivesArguments args areExpressions).call innerEq
      exact .call called closeKind

theorem derivesBlock :
    (nodes : List Node) → AreStatements nodes → ∀ tokens : List Token,
      tokens.map Token.lexeme = (block nodes).statementLexemes →
      Block tokens (block nodes)
  | nodes, areStatements => by
      intro tokens same
      obtain ⟨opening, others, rfl, openingEq, othersEq⟩ :=
        List.map_eq_cons_iff.mp same
      obtain ⟨inner, closing, rfl, innerEq, closeKind⟩ :=
        exists_closing othersEq
      exact .braces (kind_of_sign openingEq)
        (derivesBody nodes areStatements inner innerEq) closeKind

theorem derivesBody :
    (nodes : List Node) → AreStatements nodes → ∀ tokens : List Token,
      tokens.map Token.lexeme = bodyLexemes nodes → Statements tokens nodes
  | [], _ => by
      intro tokens same
      cases List.map_eq_nil_iff.mp same
      exact .nil
  | node :: nodes, ⟨isStatement, areStatements⟩ => by
      intro tokens same
      obtain ⟨first, others, rfl, firstEq, othersEq⟩ :=
        List.map_eq_append_iff.mp same
      exact .cons (derivesStatement node isStatement first firstEq)
        (derivesBody nodes areStatements others othersEq)

end

theorem derivesParameters :
    (params : List Param) → ∀ tokens : List Token,
      tokens.map Token.lexeme = paramLexemes params →
      params = [] ∧ tokens = [] ∨ Parameters tokens params
  | [] => by
      intro tokens same
      exact .inl ⟨rfl, List.map_eq_nil_iff.mp same⟩
  | [⟨name, type⟩] => by
      intro tokens same
      obtain ⟨typed, last, rfl, typeEq, lastEq⟩ :=
        List.map_eq_cons_iff.mp same
      obtain ⟨named, rfl, nameEq⟩ := List.map_eq_singleton_iff.mp lastEq
      obtain ⟨typeKind, rfl⟩ := eq_of_name typeEq
      obtain ⟨nameKind, rfl⟩ := eq_of_name nameEq
      exact .inr (.single typeKind nameKind)
  | ⟨name, type⟩ :: next :: params => by
      intro tokens same
      obtain ⟨typed, others, rfl, typeEq, othersEq⟩ :=
        List.map_eq_cons_iff.mp same
      obtain ⟨named, more, rfl, nameEq, moreEq⟩ :=
        List.map_eq_cons_iff.mp othersEq
      obtain ⟨comma, behind, rfl, commaEq, behindEq⟩ :=
        List.map_eq_cons_iff.mp moreEq
      obtain ⟨typeKind, rfl⟩ := eq_of_name typeEq
      obtain ⟨nameKind, rfl⟩ := eq_of_name nameEq
      rcases derivesParameters (next :: params) behind behindEq with
        ⟨impossible, _⟩ | derived
      · cases impossible
      · exact .inr (.cons typeKind nameKind (kind_of_sign commaEq) derived)

theorem derivesDeclaration :
    (node : Node) → node.IsDeclaration → ∀ tokens : List Token,
      tokens.map Token.lexeme = node.declarationLexemes →
      Trigger tokens node ∨ Proc tokens node
  | trigger event filter body, ⟨_, _, isStatement⟩ => by
      intro tokens same
      obtain ⟨word, others, rfl, wordEq, othersEq⟩ :=
        List.map_eq_cons_iff.mp same
      obtain ⟨named, more, rfl, nameEq, moreEq⟩ :=
        List.map_eq_cons_iff.mp othersEq
      obtain ⟨opening, behind, rfl, openingEq, behindEq⟩ :=
        List.map_eq_cons_iff.mp moreEq
      obtain ⟨number, rest, rfl, numberEq, restEq⟩ :=
        List.map_eq_cons_iff.mp behindEq
      obtain ⟨closing, inner, rfl, closingEq, innerEq⟩ :=
        List.map_eq_cons_iff.mp restEq
      obtain ⟨nameKind, rfl⟩ := eq_of_name nameEq
      obtain ⟨numberKind, rfl⟩ := eq_of_numeral numberEq
      exact .inl (.on (kind_of_sign wordEq) nameKind
        (kind_of_sign openingEq) numberKind (kind_of_sign closingEq)
        (derivesStatement body isStatement inner innerEq))
  | proc name params (block statements), ⟨_, _, areStatements⟩ => by
      intro tokens same
      obtain ⟨word, others, rfl, wordEq, othersEq⟩ :=
        List.map_eq_cons_iff.mp same
      obtain ⟨named, more, rfl, nameEq, moreEq⟩ :=
        List.map_eq_cons_iff.mp othersEq
      obtain ⟨opening, behind, rfl, openingEq, behindEq⟩ :=
        List.map_eq_cons_iff.mp moreEq
      obtain ⟨heading, rest, rfl, headingEq, restEq⟩ :=
        List.map_eq_append_iff.mp behindEq
      obtain ⟨closing, inner, rfl, closingEq, innerEq⟩ :=
        List.map_eq_cons_iff.mp restEq
      obtain ⟨nameKind, rfl⟩ := eq_of_name nameEq
      have body := derivesBlock statements areStatements inner innerEq
      rcases derivesParameters params heading headingEq with
        ⟨rfl, rfl⟩ | derived
      · exact .inr (.empty (kind_of_sign wordEq) nameKind
          (kind_of_sign openingEq) (kind_of_sign closingEq) body)
      · exact .inr (.filled (kind_of_sign wordEq) nameKind
          (kind_of_sign openingEq) derived (kind_of_sign closingEq) body)

theorem derivesProgram {nodes : List Node} {tokens : List Token}
    (declarations : ∀ node ∈ nodes, node.IsDeclaration)
    (same : tokens.map Token.lexeme = nodes.flatMap declarationLexemes) :
    Grammar.Program tokens nodes := by
  induction nodes generalizing tokens with
  | nil =>
      cases List.map_eq_nil_iff.mp same
      exact .nil
  | cons node nodes inductionHypothesis =>
      obtain ⟨isDeclaration, others⟩ :=
        List.forall_mem_cons.mp declarations
      rw [List.flatMap_cons] at same
      obtain ⟨first, more, rfl, firstEq, moreEq⟩ :=
        List.map_eq_append_iff.mp same
      have derivedMore := inductionHypothesis others moreEq
      rcases derivesDeclaration node isDeclaration first firstEq with
        derived | derived
      · exact .trigger derived derivedMore
      · exact .proc derived derivedMore

/-- Scanning and parsing the rendering of a script returns the script. -/
theorem parse_scan_render {nodes : List Node}
    (printable : Printable nodes) :
    ∃ tokens, Token.scan (render nodes) = .ok tokens ∧
      Node.parse tokens = .ok nodes := by
  obtain ⟨tokens, marker, scanned, same, markerKind⟩ :=
    Token.scan_render (List.forall_iff_forall_mem.mp printable.allScan)
  have derived : Grammar.Program tokens nodes :=
    derivesProgram (fun node member => (printable node member).1) same
  have before : Token.beforeEnd (tokens ++ [marker]) = tokens := by
    apply derived.endFree.beforeEnd_append
    exact .inr (by simp [Token.firstKind?, markerKind])
  refine ⟨tokens ++ [marker], scanned, parse_eq_ok_iff.mpr ?_⟩
  rw [before]
  exact ⟨derived, fun node member => (printable node member).2⟩

end Node

/-! ## What source text gives is printable -/

namespace Grammar

abbrev AllSpelled (tokens : List Token) : Prop :=
  tokens.Forall Token.Spelled

mutual

theorem Primary.isExpression {tokens : List Token} {node : Node} :
    Primary tokens node → AllSpelled tokens → node.IsExpression
  | .integer _ _ (.int _), _ =>
      trivial
  | .integer _ _ (.long _ wide), _ =>
      wide
  | .string kindEq, spelled => by
      simp only [List.forall_cons] at spelled
      obtain ⟨body, bodyEq, noQuote⟩ := spelled.1.quoted kindEq
      rw [bodyEq]
      exact noQuote
  | .bool _, _ =>
      trivial
  | .var kindEq, spelled => by
      simp only [List.forall_cons] at spelled
      exact spelled.1.name kindEq
  | .call called, spelled =>
      called.isExpression spelled
  | .group _ inner _, spelled => by
      simp only [List.forall_cons, List.forall_append] at spelled
      exact inner.isExpression spelled.2.1

theorem Expression.isExpression {tokens : List Token} {node : Node} :
    Expression tokens node → AllSpelled tokens → node.IsExpression
  | .primary only, spelled =>
      only.isExpression spelled
  | .compare left signKind right, spelled => by
      simp only [List.forall_cons, List.forall_append] at spelled
      obtain ⟨leftSpelled, _, rightSpelled⟩ := spelled
      exact ⟨signKind, left.isExpression leftSpelled,
        right.isExpression rightSpelled⟩

theorem Call.isExpression {tokens : List Token} {node : Node} :
    Call tokens node → AllSpelled tokens → node.IsExpression
  | .empty nameKind _ _, spelled => by
      simp only [List.forall_cons] at spelled
      exact ⟨spelled.1.name nameKind, trivial⟩
  | .filled nameKind _ args _, spelled => by
      simp only [List.forall_cons, List.forall_append] at spelled
      obtain ⟨nameSpelled, _, argsSpelled, _⟩ := spelled
      exact ⟨nameSpelled.name nameKind, args.areExpressions argsSpelled⟩

theorem Arguments.areExpressions {tokens : List Token}
    {nodes : List Node} :
    Arguments tokens nodes → AllSpelled tokens →
      Node.AreExpressions nodes
  | .single only, spelled =>
      ⟨only.isExpression spelled, trivial⟩
  | .cons head _ others, spelled => by
      simp only [List.forall_cons, List.forall_append] at spelled
      obtain ⟨headSpelled, _, othersSpelled⟩ := spelled
      exact ⟨head.isExpression headSpelled,
        others.areExpressions othersSpelled⟩

end

mutual

theorem Statement.isStatement {tokens : List Token} {node : Node} :
    Statement tokens node → AllSpelled tokens → node.IsStatement
  | .block inner, spelled =>
      inner.isStatement spelled
  | .ifThen _ _ tested _ taken, spelled => by
      simp only [List.forall_cons, List.forall_append] at spelled
      obtain ⟨_, _, testedSpelled, _, takenSpelled⟩ := spelled
      exact ⟨tested.isExpression testedSpelled,
        taken.isStatement takenSpelled⟩
  | .ifElse _ _ tested _ taken _ missed, spelled => by
      simp only [List.forall_cons, List.forall_append] at spelled
      obtain ⟨_, _, testedSpelled, _, takenSpelled, _, missedSpelled⟩ :=
        spelled
      exact ⟨tested.isExpression testedSpelled,
        taken.isStatement takenSpelled, missed.isStatement missedSpelled⟩
  | .declare typeKind nameKind _, spelled => by
      simp only [List.forall_cons] at spelled
      obtain ⟨typeSpelled, nameSpelled, _⟩ := spelled
      exact ⟨typeSpelled.name typeKind, nameSpelled.name nameKind⟩
  | .declareWith typeKind nameKind _ value _, spelled => by
      simp only [List.forall_cons, List.forall_append] at spelled
      obtain ⟨typeSpelled, nameSpelled, _, valueSpelled, _⟩ := spelled
      exact ⟨typeSpelled.name typeKind, nameSpelled.name nameKind,
        value.isExpression valueSpelled⟩
  | .assign nameKind _ value _, spelled => by
      simp only [List.forall_cons, List.forall_append] at spelled
      obtain ⟨nameSpelled, _, valueSpelled, _⟩ := spelled
      exact ⟨nameSpelled.name nameKind, value.isExpression valueSpelled⟩
  | .call called _, spelled => by
      simp only [List.forall_append] at spelled
      have isExpression := called.isExpression spelled.1
      obtain ⟨name, args, rfl⟩ := called.exists_eq
      exact isExpression

theorem Block.isStatement {tokens : List Token} {node : Node} :
    Block tokens node → AllSpelled tokens → node.IsStatement
  | .braces _ inner _, spelled => by
      simp only [List.forall_cons, List.forall_append] at spelled
      exact inner.areStatements spelled.2.1

theorem Statements.areStatements {tokens : List Token}
    {nodes : List Node} :
    Statements tokens nodes → AllSpelled tokens → Node.AreStatements nodes
  | .nil, _ =>
      trivial
  | .cons head others, spelled => by
      simp only [List.forall_append] at spelled
      exact ⟨head.isStatement spelled.1, others.areStatements spelled.2⟩

end

theorem Trigger.isDeclaration {tokens : List Token} {node : Node}
    (derived : Trigger tokens node) (spelled : AllSpelled tokens) :
    node.IsDeclaration := by
  cases derived with
  | on _ eventKind _ filterKind _ body =>
      simp only [List.forall_cons] at spelled
      obtain ⟨_, eventSpelled, _, filterSpelled, _, bodySpelled⟩ := spelled
      exact ⟨eventSpelled.name eventKind, filterSpelled.numeral filterKind,
        body.isStatement bodySpelled⟩

theorem Parameters.areNamed {tokens : List Token} {params : List Param}
    (derived : Parameters tokens params) (spelled : AllSpelled tokens) :
    ∀ param ∈ params,
      isName param.type = true ∧ isName param.name = true := by
  induction derived with
  | single typeKind nameKind =>
      simp only [List.forall_cons] at spelled
      obtain ⟨typeSpelled, nameSpelled, _⟩ := spelled
      exact List.forall_mem_cons.mpr
        ⟨⟨typeSpelled.name typeKind, nameSpelled.name nameKind⟩, by simp⟩
  | cons typeKind nameKind _ _ inductionHypothesis =>
      simp only [List.forall_cons] at spelled
      obtain ⟨typeSpelled, nameSpelled, _, othersSpelled⟩ := spelled
      exact List.forall_mem_cons.mpr
        ⟨⟨typeSpelled.name typeKind, nameSpelled.name nameKind⟩,
          inductionHypothesis othersSpelled⟩

theorem Proc.isDeclaration {tokens : List Token} {node : Node}
    (derived : Proc tokens node) (spelled : AllSpelled tokens) :
    node.IsDeclaration := by
  cases derived with
  | empty _ nameKind _ _ body =>
      simp only [List.forall_cons] at spelled
      obtain ⟨_, nameSpelled, _, _, bodySpelled⟩ := spelled
      have isStatement := body.isStatement bodySpelled
      cases body with
      | braces =>
          exact ⟨nameSpelled.name nameKind, by simp, isStatement⟩
  | filled _ nameKind _ heading _ body =>
      simp only [List.forall_cons, List.forall_append] at spelled
      obtain ⟨_, nameSpelled, _, headingSpelled, _, bodySpelled⟩ := spelled
      have isStatement := body.isStatement bodySpelled
      cases body with
      | braces =>
          exact ⟨nameSpelled.name nameKind,
            heading.areNamed headingSpelled, isStatement⟩

theorem Program.areDeclarations {tokens : List Token} {nodes : List Node}
    (derived : Program tokens nodes) (spelled : AllSpelled tokens) :
    ∀ node ∈ nodes, node.IsDeclaration := by
  induction derived with
  | nil =>
      simp
  | trigger head _ inductionHypothesis =>
      simp only [List.forall_append] at spelled
      exact List.forall_mem_cons.mpr ⟨head.isDeclaration spelled.1,
        inductionHypothesis spelled.2⟩
  | proc head _ inductionHypothesis =>
      simp only [List.forall_append] at spelled
      exact List.forall_mem_cons.mpr ⟨head.isDeclaration spelled.1,
        inductionHypothesis spelled.2⟩

end Grammar

namespace Node

theorem printable_of_scan {source : String} {tokens : List Token}
    {nodes : List Node} (scanned : Token.scan source = .ok tokens)
    (parsed : Node.parse tokens = .ok nodes) : Printable nodes := by
  obtain ⟨derived, nearest⟩ := parse_eq_ok_iff.mp parsed
  have spelled : AllSpelled (Token.beforeEnd tokens) := by
    apply List.forall_iff_forall_mem.mpr
    intro token member
    have inTokens : token ∈ tokens :=
      (List.takeWhile_prefix _).subset member
    exact Scanner.tokenize_spelled _ scanned token inTokens
  intro node member
  exact ⟨derived.areDeclarations spelled node member, nearest node member⟩

/-- Source text gives exactly the printable scripts, and the rendering of
each gives that script. -/
theorem render_roundTrip :
    (∀ nodes, Printable nodes →
      ∃ tokens, Token.scan (render nodes) = .ok tokens ∧
        Node.parse tokens = .ok nodes) ∧
    ∀ source tokens nodes, Token.scan source = .ok tokens →
      Node.parse tokens = .ok nodes → Printable nodes := by
  constructor
  · intro nodes printable
    exact parse_scan_render printable
  · intro source tokens nodes scanned parsed
    exact printable_of_scan scanned parsed

/-- A script whose rendering needs parentheses, a sign, a `long` and a string
that looks like a comment, and in which an `else` stands behind two `if`s. -/
def guardScript : List Node :=
  [trigger "npc_talk" "-07"
      (branch
        (compare (compare (var "mood") .less (literal (.int (-5))))
          .notEqual (literal (.bool true)))
        (branch (call "ready" [])
          (call "say" [literal (.string "// \\ \x7b"), var "$who"])
          (some (block [])))
        (some (assign "mood" (literal (.long (-3000000000)))))),
    proc "_init" [⟨"who", "string"⟩, ⟨"count", "int"⟩]
      (block
        [declare "bool" "seen" none,
          declare "int" "on1" (some (literal (.int 0))),
          branch (var "seen") (branch (var "on1") (block []) none) none])]

theorem guardScript_printable : Printable guardScript := by
  simp [guardScript, Printable, IsDeclaration, IsStatement, AreStatements,
    IsExpression, AreExpressions, Literal.Printable, NearestElse,
    AllNearestElse, endsOpen]
  decide

theorem render_roundTrip_guardScript :
    Printable guardScript ∧
      ∃ tokens, Token.scan (render guardScript) = .ok tokens ∧
        Node.parse tokens = .ok guardScript := by
  obtain ⟨tokens, scanned, parsed⟩ :=
    render_roundTrip.1 guardScript guardScript_printable
  exact ⟨render_roundTrip.2 _ tokens guardScript scanned parsed,
    tokens, scanned, parsed⟩

end Node

end TriggerScript
