import TriggerScript.Proofs.Lexemes
import TriggerScript.Proofs.ParserLanguage

/-!
# Scripts as source text

A script is printable if it could have been written: declarations at the top,
statements in bodies, expressions in statements, names that are words and not
reserved, strings without quotes, and every `else` at the nearest `if`.  A
printable script can be rendered as source text, and scanning and parsing that
text gives the script back.  Scanning and parsing never give anything else:
what they return for any source text is printable.
-/

namespace TriggerScript

open Token Grammar

/-! ## Printable scripts -/

/-- Literals that source text can stand for. -/
def Literal.Printable : Literal → Prop
  | int _ => True
  | long value =>
      value.toInt < Int32.minValue.toInt ∨
        Int32.maxValue.toInt < value.toInt
  | string value => '"' ∉ value.toList
  | bool _ => True

namespace Node

mutual

def IsExpression : Node → Prop
  | literal value => value.Printable
  | var name => isName name
  | call name args => isName name ∧ AreExpressions args
  | compare left comparator right =>
      comparator.isComparator ∧ left.IsExpression ∧ right.IsExpression
  | _ => False

def AreExpressions : List Node → Prop
  | [] => True
  | node :: nodes => node.IsExpression ∧ AreExpressions nodes

end

mutual

def IsStatement : Node → Prop
  | block statements => AreStatements statements
  | declare type name none => isName type ∧ isName name
  | declare type name (some value) =>
      isName type ∧ isName name ∧ value.IsExpression
  | assign name value => isName name ∧ value.IsExpression
  | branch condition thenBranch none =>
      condition.IsExpression ∧ thenBranch.IsStatement
  | branch condition thenBranch (some elseBranch) =>
      condition.IsExpression ∧ thenBranch.IsStatement ∧
        elseBranch.IsStatement
  | call name args => isName name ∧ AreExpressions args
  | _ => False

def AreStatements : List Node → Prop
  | [] => True
  | node :: nodes => node.IsStatement ∧ AreStatements nodes

end

def IsDeclaration : Node → Prop
  | trigger event filter body =>
      isName event ∧ isNumeral filter ∧ body.IsStatement
  | proc name params (block statements) =>
      isName name ∧
        (∀ param ∈ params, isName param.type ∧ isName param.name) ∧
        AreStatements statements
  | _ => False

/-- Scripts that source text can stand for. -/
def Printable (nodes : List Node) : Prop :=
  ∀ node ∈ nodes, node.IsDeclaration ∧ node.NearestElse

end Node

/-! ## Rendering -/

def Literal.lexeme : Literal → Lexeme
  | int value => .numeral value.toInt.repr
  | long value => .numeral value.toInt.repr
  | string value => .quoted value
  | bool true => ⟨.bool, "true"⟩
  | bool false => ⟨.bool, "false"⟩

namespace Node

def isComparison : Node → Bool
  | compare .. => true
  | _ => false

/-- Lexemes in parentheses, if these are needed. -/
def grouped : Bool → List Lexeme → List Lexeme
  | true, lexemes => .sign .leftParen :: (lexemes ++ [.sign .rightParen])
  | false, lexemes => lexemes

mutual

def expressionLexemes : Node → List Lexeme
  | literal value => [value.lexeme]
  | var name => [.name name]
  | call name args =>
      .name name :: .sign .leftParen ::
        (argumentLexemes args ++ [.sign .rightParen])
  | compare left comparator right =>
      grouped left.isComparison left.expressionLexemes ++
        .sign comparator ::
          grouped right.isComparison right.expressionLexemes
  | _ => []

def argumentLexemes : List Node → List Lexeme
  | [] => []
  | [node] => node.expressionLexemes
  | node :: next :: nodes =>
      node.expressionLexemes ++ .sign .comma :: argumentLexemes (next :: nodes)

end

mutual

def statementLexemes : Node → List Lexeme
  | block statements =>
      .sign .leftBrace :: (bodyLexemes statements ++ [.sign .rightBrace])
  | declare type name none => [.name type, .name name, .sign .semicolon]
  | declare type name (some value) =>
      .name type :: .name name :: .sign .assign ::
        (value.expressionLexemes ++ [.sign .semicolon])
  | assign name value =>
      .name name :: .sign .assign ::
        (value.expressionLexemes ++ [.sign .semicolon])
  | branch condition thenBranch none =>
      .sign .keyIf :: .sign .leftParen ::
        (condition.expressionLexemes ++
          .sign .rightParen :: thenBranch.statementLexemes)
  | branch condition thenBranch (some elseBranch) =>
      .sign .keyIf :: .sign .leftParen ::
        (condition.expressionLexemes ++ .sign .rightParen ::
          (thenBranch.statementLexemes ++
            .sign .keyElse :: elseBranch.statementLexemes))
  | call name args =>
      expressionLexemes (call name args) ++ [.sign .semicolon]
  | _ => []

def bodyLexemes : List Node → List Lexeme
  | [] => []
  | node :: nodes => node.statementLexemes ++ bodyLexemes nodes

end

def paramLexemes : List Param → List Lexeme
  | [] => []
  | [param] => [.name param.type, .name param.name]
  | param :: next :: params =>
      .name param.type :: .name param.name :: .sign .comma ::
        paramLexemes (next :: params)

def declarationLexemes : Node → List Lexeme
  | trigger event filter body =>
      .sign .keyOn :: .name event :: .sign .leftParen :: .numeral filter ::
        .sign .rightParen :: body.statementLexemes
  | proc name params body =>
      .sign .keyFunc :: .name name :: .sign .leftParen ::
        (paramLexemes params ++ .sign .rightParen :: body.statementLexemes)
  | _ => []

def render (nodes : List Node) : String :=
  Lexeme.render (nodes.flatMap declarationLexemes)

end Node

/-! ## Everything rendered can be scanned -/

theorem Literal.lexeme_scans {value : Literal}
    (printable : value.Printable) : value.lexeme.Scans := by
  cases value with
  | int value =>
      exact Lexeme.scans_numeral (Text.isNumeral_repr _)
  | long value =>
      exact Lexeme.scans_numeral (Text.isNumeral_repr _)
  | string value =>
      exact Lexeme.scans_quoted printable
  | bool value =>
      cases value with
      | true =>
          exact Lexeme.scans_word rfl rfl rfl
      | false =>
          exact Lexeme.scans_word rfl rfl rfl

/-- All lexemes are found again where they are written. -/
abbrev Lexeme.AllScan (lexemes : List Lexeme) : Prop :=
  lexemes.Forall Scans

namespace Node

open Lexeme

theorem allScan_grouped {lexemes : List Lexeme} (needed : Bool)
    (scan : AllScan lexemes) : AllScan (grouped needed lexemes) := by
  cases needed with
  | true =>
      simp [grouped, scan, scans_sign]
  | false =>
      exact scan

mutual

theorem expressionLexemes_scan :
    (node : Node) → node.IsExpression → AllScan node.expressionLexemes
  | literal value, printable => by
      simpa [expressionLexemes] using Literal.lexeme_scans printable
  | var name, named => by
      simpa [expressionLexemes] using scans_name named
  | call name args, ⟨named, areExpressions⟩ => by
      have argsScan := argumentLexemes_scan args areExpressions
      simp [expressionLexemes, scans_name named, argsScan, scans_sign]
  | compare left comparator right, ⟨isSign, isLeft, isRight⟩ => by
      have leftScan := allScan_grouped left.isComparison
        (expressionLexemes_scan left isLeft)
      have rightScan := allScan_grouped right.isComparison
        (expressionLexemes_scan right isRight)
      have signScan : Scans (sign comparator) := by
        apply scans_sign
        cases comparator
        all_goals simp_all [Kind.isComparator]
      simp [expressionLexemes, leftScan, signScan, rightScan]

theorem argumentLexemes_scan :
    (nodes : List Node) → AreExpressions nodes →
      AllScan (argumentLexemes nodes)
  | [], _ => by
      simp [argumentLexemes]
  | [node], ⟨isExpression, _⟩ =>
      expressionLexemes_scan node isExpression
  | node :: next :: nodes, ⟨isExpression, areExpressions⟩ => by
      have headScan := expressionLexemes_scan node isExpression
      have othersScan := argumentLexemes_scan (next :: nodes) areExpressions
      simp [argumentLexemes, headScan, scans_sign, othersScan]

end

mutual

theorem statementLexemes_scan :
    (node : Node) → node.IsStatement → AllScan node.statementLexemes
  | block statements, areStatements => by
      have bodyScan := bodyLexemes_scan statements areStatements
      simp [statementLexemes, scans_sign, bodyScan]
  | declare type name none, ⟨typed, named⟩ => by
      simp [statementLexemes, scans_name typed, scans_name named, scans_sign]
  | declare type name (some value), ⟨typed, named, isExpression⟩ => by
      have valueScan := expressionLexemes_scan value isExpression
      simp [statementLexemes, scans_name typed, scans_name named, scans_sign,
        valueScan]
  | assign name value, ⟨named, isExpression⟩ => by
      have valueScan := expressionLexemes_scan value isExpression
      simp [statementLexemes, scans_name named, scans_sign, valueScan]
  | branch condition thenBranch none, ⟨isExpression, isStatement⟩ => by
      have conditionScan := expressionLexemes_scan condition isExpression
      have thenScan := statementLexemes_scan thenBranch isStatement
      simp [statementLexemes, scans_sign, conditionScan, thenScan]
  | branch condition thenBranch (some elseBranch),
      ⟨isExpression, thenStatement, elseStatement⟩ => by
      have conditionScan := expressionLexemes_scan condition isExpression
      have thenScan := statementLexemes_scan thenBranch thenStatement
      have elseScan := statementLexemes_scan elseBranch elseStatement
      simp [statementLexemes, scans_sign, conditionScan, thenScan, elseScan]
  | call name args, isCall => by
      have callScan := expressionLexemes_scan (call name args) isCall
      simp [statementLexemes, callScan, scans_sign]

theorem bodyLexemes_scan :
    (nodes : List Node) → AreStatements nodes → AllScan (bodyLexemes nodes)
  | [], _ => by
      simp [bodyLexemes]
  | node :: nodes, ⟨isStatement, areStatements⟩ => by
      have headScan := statementLexemes_scan node isStatement
      have othersScan := bodyLexemes_scan nodes areStatements
      simp [bodyLexemes, headScan, othersScan]

end

theorem paramLexemes_scan :
    (params : List Param) →
      (∀ param ∈ params, isName param.type ∧ isName param.name) →
      AllScan (paramLexemes params)
  | [], _ => by
      simp [paramLexemes]
  | [param], named => by
      obtain ⟨typed, isNamed⟩ := named param (by simp)
      simp [paramLexemes, scans_name typed, scans_name isNamed]
  | param :: next :: params, named => by
      obtain ⟨⟨typed, isNamed⟩, othersNamed⟩ := List.forall_mem_cons.mp named
      have othersScan := paramLexemes_scan (next :: params) othersNamed
      simp [paramLexemes, scans_name typed, scans_name isNamed, scans_sign,
        othersScan]

theorem declarationLexemes_scan :
    (node : Node) → node.IsDeclaration → AllScan node.declarationLexemes
  | trigger event filter body, ⟨named, written, isStatement⟩ => by
      have bodyScan := statementLexemes_scan body isStatement
      simp [declarationLexemes, scans_sign, scans_name named,
        scans_numeral written, bodyScan]
  | proc name params (block statements),
      ⟨named, paramsNamed, areStatements⟩ => by
      have paramsScan := paramLexemes_scan params paramsNamed
      have bodyScan := statementLexemes_scan (block statements) areStatements
      simp [declarationLexemes, scans_sign, scans_name named, paramsScan,
        bodyScan]

theorem Printable.allScan {nodes : List Node} (printable : Printable nodes) :
    AllScan (nodes.flatMap declarationLexemes) := by
  apply List.forall_iff_forall_mem.mpr
  intro lexeme member
  obtain ⟨node, inNodes, member⟩ := List.mem_flatMap.mp member
  have allScan := declarationLexemes_scan node (printable node inNodes).1
  exact List.forall_iff_forall_mem.mp allScan lexeme member

end Node

end TriggerScript
