import Mathlib.Data.List.Induction
import TriggerScript.Proofs.Lookahead

/-!
# Scanning across a line break

A line feed ends whatever stands in front of it, except for a string or a
block comment that is still open.  So a source text with another one on the
next line is scanned as the tokens of the first and the tokens of the second,
which only stand further back.

* `Token.Region` follows strings and comments character by character and
  knows neither tokens nor layout.
* `Scanner.move` puts a scanner into another place.
-/

namespace TriggerScript

namespace Token

/-! ## Strings and comments that are still open -/

/-- What a text ends inside of, as far as strings and comments go. -/
inductive Region where
  | code
  /-- Behind a slash, which may open a comment. -/
  | slash
  | string
  | lineComment
  | blockComment
  /-- Behind an asterisk, which may close the comment. -/
  | asterisk
  deriving DecidableEq, Repr

namespace Region

def pass : Region → Char → Region
  | code, c =>
      if c = '/' then slash else if c = '"' then string else code
  | slash, c =>
      if c = '/' then lineComment
      else if c = '*' then blockComment
      else if c = '"' then string
      else code
  | string, c => if c = '"' then code else string
  | lineComment, c => if c = '\n' then code else lineComment
  | blockComment, c => if c = '*' then asterisk else blockComment
  | asterisk, c =>
      if c = '/' then code else if c = '*' then asterisk else blockComment

def after (region : Region) (text : List Char) : Region :=
  text.foldl pass region

def ofSource (source : String) : Region :=
  code.after source.toList

/-- Whether a string or a block comment is still open. -/
def isOpen : Region → Bool
  | string | blockComment | asterisk => true
  | code | slash | lineComment => false

theorem after_cons (region : Region) (c : Char) (text : List Char) :
    region.after (c :: text) = (region.pass c).after text := rfl

theorem after_append (region : Region) (first second : List Char) :
    region.after (first ++ second) = (region.after first).after second :=
  List.foldl_append

/-- A text is passed without leaving a region that none of its characters
ends. -/
theorem after_eq_self {region : Region} {text : List Char}
    (stays : ∀ c ∈ text, region.pass c = region) :
    region.after text = region := by
  induction text with
  | nil =>
      rfl
  | cons c text inductionHypothesis =>
      obtain ⟨here, behind⟩ := List.forall_mem_cons.mp stays
      rw [after_cons, here, inductionHypothesis behind]

theorem pass_code {c : Char} (noSlash : c ≠ '/') (noQuote : c ≠ '"') :
    code.pass c = code := by
  rw [pass, if_neg noSlash, if_neg noQuote]

theorem pass_string {c : Char} (noQuote : c ≠ '"') :
    string.pass c = string := by
  rw [pass, if_neg noQuote]

theorem after_lineComment {body : List Char} (noFeed : '\n' ∉ body) :
    lineComment.after body = lineComment := by
  apply after_eq_self
  intro c member
  rw [pass, if_neg]
  intro isFeed
  exact noFeed (isFeed ▸ member)

theorem after_string {body : List Char} (noQuote : '"' ∉ body) :
    string.after body = string := by
  apply after_eq_self
  intro c member
  apply pass_string
  intro isQuote
  exact noQuote (isQuote ▸ member)

/-- Inside of a block comment only the last character matters. -/
theorem after_blockComment {body : List Char}
    (unclosed : ¬ ['*', '/'] <:+: body) :
    blockComment.after body =
      if body.getLast? = some '*' then asterisk else blockComment := by
  induction body using List.reverseRecOn with
  | nil =>
      rfl
  | append_singleton body c inductionHypothesis =>
      have before : ¬ ['*', '/'] <:+: body := by
        intro inBody
        exact unclosed (inBody.trans (List.prefix_append body [c]).isInfix)
      rw [after_append, inductionHypothesis before, List.getLast?_concat]
      by_cases starred : body.getLast? = some '*'
      · have noSlash : c ≠ '/' := by
          intro isSlash
          obtain ⟨initial, rfl⟩ := List.getLast?_eq_some_iff.mp starred
          apply unclosed
          rw [isSlash, List.append_assoc]
          exact (List.suffix_append initial ['*', '/']).isInfix
        rw [if_pos starred, after_cons, pass, if_neg noSlash]
        simp [after]
      · rw [if_neg starred, after_cons, pass]
        simp [after]

theorem after_closed {body : List Char}
    (notClosed : ¬ ['*', '/'] <:+: body ++ ['*']) (gap : List Char) :
    blockComment.after (body ++ '*' :: '/' :: gap) = code.after gap := by
  have split : body ++ '*' :: '/' :: gap = (body ++ ['*']) ++ '/' :: gap := by
    rw [List.append_assoc, List.singleton_append]
  rw [split, after_append, after_blockComment notClosed,
    List.getLast?_concat, if_pos rfl]
  rfl

end Region

/-! ## Layout and lexemes -/

/-- A character of a class with neither slashes nor quotes in it. -/
theorem noMark {accept : Char → Bool} {c : Char} (accepted : accept c = true)
    (refused : ['/', '"'].any accept = false) : c ≠ '/' ∧ c ≠ '"' := by
  have noSlash : accept '/' = false := by
    simp_all
  have noQuote : accept '"' = false := by
    simp_all
  constructor
  · intro isSlash
    rw [isSlash, noSlash] at accepted
    cases accepted
  · intro isQuote
    rw [isQuote, noQuote] at accepted
    cases accepted

open Region in
/-- Behind layout that something follows, nothing is open. -/
theorem Layout.after_eq_code {following gap : List Char}
    (layout : Layout following gap)
    (goesOn : ∃ c ∈ following.head?, c ≠ '\n') :
    code.after gap = code := by
  induction layout with
  | nil =>
      rfl
  | @space c gap space _ inductionHypothesis =>
      have plain : c ≠ '/' ∧ c ≠ '"' := noMark space rfl
      rw [after_cons, pass_code plain.1 plain.2, inductionHypothesis]
  | @lineComment body gap noFeed ends _ inductionHypothesis =>
      change Region.lineComment.after (body ++ gap) = code
      rw [after_append, after_lineComment noFeed]
      cases gap with
      | nil =>
          obtain ⟨c, isHead, noFeed⟩ := goesOn
          exact absurd (ends c isHead) noFeed
      | cons c gap =>
          obtain rfl : c = '\n' := ends c rfl
          exact inductionHypothesis
  | @blockComment body gap notClosed _ inductionHypothesis =>
      change Region.blockComment.after (body ++ '*' :: '/' :: gap) = code
      rw [after_closed notClosed, inductionHypothesis]
  | openComment _ atEnd =>
      obtain ⟨c, isHead, _⟩ := goesOn
      rw [atEnd] at isHead
      cases isHead

open Region in
/-- Layout at the end of a text is layout in front of a line feed if no
comment is open. -/
theorem Layout.before_feed {gap : List Char} (layout : Layout [] gap)
    (closed : (code.after gap).isOpen = false) (rest : List Char) :
    Layout ('\n' :: rest) gap := by
  induction layout with
  | nil =>
      exact .nil
  | @space c gap space _ inductionHypothesis =>
      have plain : c ≠ '/' ∧ c ≠ '"' := noMark space rfl
      rw [after_cons, pass_code plain.1 plain.2] at closed
      exact .space space (inductionHypothesis closed)
  | @lineComment body gap noFeed ends _ inductionHypothesis =>
      change (Region.lineComment.after (body ++ gap)).isOpen = false at closed
      rw [after_append, after_lineComment noFeed] at closed
      cases gap with
      | nil =>
          exact .lineComment noFeed (by simp) .nil
      | cons c gap =>
          obtain rfl : c = '\n' := ends c rfl
          exact .lineComment noFeed (by simp) (inductionHypothesis closed)
  | @blockComment body gap notClosed _ inductionHypothesis =>
      change (Region.blockComment.after
        (body ++ '*' :: '/' :: gap)).isOpen = false at closed
      rw [after_closed notClosed] at closed
      exact .blockComment notClosed (inductionHypothesis closed)
  | @openComment body unclosed _ =>
      change (Region.blockComment.after body).isOpen = false at closed
      rw [after_blockComment unclosed] at closed
      split at closed
      all_goals cases closed

/-- A run of accepted characters behind a plain one is plain. -/
theorem noMark_run {accept : Char → Bool} {first : Char} {tail : List Char}
    (noMarkFirst : first ≠ '/' ∧ first ≠ '"')
    (run : (first :: tail).length = (tail.takeWhile accept).length + 1)
    (refused : ['/', '"'].any accept = false) :
    ∀ c ∈ first :: tail, c ≠ '/' ∧ c ≠ '"' := by
  have whole : tail.takeWhile accept = tail :=
    (List.takeWhile_prefix accept).eq_of_length (Nat.succ.inj run).symm
  refine List.forall_mem_cons.mpr ⟨noMarkFirst, ?_⟩
  intro c member
  rw [← whole] at member
  exact noMark (List.all_eq_true.mp List.all_takeWhile c member) refused

theorem noMark_sign {kind : Kind} (sign : kind.isSign = true)
    (noSlash : kind ≠ .slash) :
    ∀ c ∈ kind.text.toList, c ≠ '/' ∧ c ≠ '"' := by
  have plain :
      kind.text.toList.all (fun c => c != '/' && c != '"') = true := by
    cases kind
    case identifier | bool | keyOn | keyFunc | keyIf | keyElse | integer
        | string | eof =>
      cases sign
    case slash =>
      exact absurd rfl noSlash
    all_goals rfl
  intro c member
  simpa using List.all_eq_true.mp plain c member

end Token

namespace Lexeme

open Token Region

variable {lexeme : Lexeme} {rest : List Char}

/-- Of all lexemes only strings have quotes, and only the slash has a slash
outside of quotes. -/
theorem ScansBefore.text_cases (scans : lexeme.ScansBefore []) :
    (lexeme.kind ≠ .string ∧
        ∀ c ∈ lexeme.text.toList, c ≠ '/' ∧ c ≠ '"') ∨
      lexeme = Lexeme.sign .slash ∨
      lexeme.kind = .string ∧ ∃ body, '"' ∉ body ∧
        (lexeme.text.toList = '"' :: body ∨
          lexeme.text.toList = '"' :: (body ++ ['"'])) := by
  obtain ⟨_, found⟩ := scans
  rw [List.append_nil] at found
  generalize textEq : lexeme.text.toList = text at found
  generalize lengthEq : text.length = length at found
  generalize kindEq : lexeme.kind = kind at found
  cases matches_of_lexeme? found with
  | word starts =>
      exact .inl ⟨Kind.ofWord_ne.2,
        noMark_run (noMark starts rfl) lengthEq rfl⟩
  | digits digit =>
      exact .inl ⟨by decide, noMark_run (noMark digit rfl) lengthEq rfl⟩
  | signed =>
      exact .inl ⟨by decide, noMark_run (by decide) lengthEq rfl⟩
  | @quoted tail =>
      obtain ⟨body, ending, split, noQuote, closed⟩ := take_stringRest tail
      rw [← Nat.succ.inj lengthEq, List.take_length] at split
      rw [split]
      rcases closed with rfl | rfl
      · exact .inr (.inr ⟨rfl, body, noQuote, .inl (by simp)⟩)
      · exact .inr (.inr ⟨rfl, body, noQuote, .inr rfl⟩)
  | @operator c tail _ _ operates _ =>
      rw [← List.append_nil (c :: tail)] at operates
      have lexemeEq := eq_sign_of_operator? textEq lengthEq kindEq operates
      have sign := isSign_of_operator? operates
      by_cases isSlash : kind = .slash
      · rw [lexemeEq, isSlash]
        exact .inr (.inl rfl)
      · have same : lexeme.text.toList = kind.text.toList := by
          rw [lexemeEq]
          rfl
        rw [← textEq, same]
        refine .inl ⟨?_, noMark_sign sign isSlash⟩
        intro isString
        rw [isString] at sign
        cases sign

/-- A text in which nothing is open has no open string, and nothing is open
in what stands behind its first lexeme. -/
theorem ScansBefore.closed_behind (scans : lexeme.ScansBefore rest)
    (closed : (code.after (lexeme.text.toList ++ rest)).isOpen = false) :
    ¬ lexeme.IsOpen ∧ (code.after rest).isOpen = false := by
  rw [after_append] at closed
  have formed := ((scans.looksAhead rest).mp scans).1
  rcases formed.text_cases with
    ⟨noString, plain⟩ | isSlash | ⟨isString, body, noQuote, opened | whole⟩
  · have stays : code.after lexeme.text.toList = code :=
      after_eq_self fun c member =>
        pass_code (plain c member).1 (plain c member).2
    rw [stays] at closed
    exact ⟨fun isOpen => noString isOpen.1, closed⟩
  · subst isSlash
    refine ⟨?_, ?_⟩
    · rintro ⟨isString, _⟩
      cases isString
    change (slash.after rest).isOpen = false at closed
    cases rest with
    | nil =>
        rfl
    | cons c rest =>
        -- The slash opens no comment, so what follows it is code.
        obtain ⟨noLine, noBlock⟩ := scansBefore_slash_iff.mp scans
        rw [after_cons, Region.pass, if_neg noLine, if_neg noBlock] at closed
        rwa [after_cons, Region.pass, if_neg noLine]
  · have isOpen : lexeme.IsOpen := by
      refine ⟨isString, ?_⟩
      rwa [opened]
    rw [scans.eq_nil_of_isOpen isOpen, opened, after_cons] at closed
    change (string.after body).isOpen = false at closed
    rw [after_string noQuote] at closed
    cases closed
  · rw [whole, after_cons] at closed
    change ((string.after (body ++ ['"'])).after rest).isOpen = false
      at closed
    rw [after_append, after_string noQuote] at closed
    refine ⟨?_, closed⟩
    rintro ⟨_, noQuoteBehind⟩
    apply noQuoteBehind
    rw [whole]
    simp

end Lexeme

namespace Token

open Region

/-- Where nothing is open at the end, no string is open among the tokens, and
nothing is open in the layout behind them. -/
theorem ReadsUpTo.closed {rest before front : List Char}
    {tokens : List Token} (reads : ReadsUpTo rest before front tokens)
    (closed : (code.after (front ++ rest)).isOpen = false) :
    (∀ token ∈ tokens, ¬ token.lexeme.IsOpen) ∧
      (code.after rest).isOpen = false := by
  induction reads with
  | here =>
      exact ⟨nofun, closed⟩
  | @token _ gap front lexeme _ layout scans _ inductionHypothesis =>
      have goesOn :
          ∃ c ∈ (lexeme.text.toList ++ (front ++ rest)).head?, c ≠ '\n' := by
        obtain ⟨c, tail, textEq⟩ :=
          List.exists_cons_of_ne_nil scans.text_ne_nil
        have noLayout := scans.1
        rw [textEq] at noLayout ⊢
        refine ⟨c, rfl, ?_⟩
        intro isFeed
        rw [isFeed, List.cons_append, layoutLength_space rfl] at noLayout
        omega
      rw [List.append_assoc, List.append_assoc, after_append,
        layout.after_eq_code goesOn] at closed
      obtain ⟨lexemeClosed, closedBehind⟩ := scans.closed_behind closed
      obtain ⟨othersClosed, layoutClosed⟩ := inductionHypothesis closedBehind
      exact ⟨List.forall_mem_cons.mpr ⟨lexemeClosed, othersClosed⟩,
        layoutClosed⟩

/-- The tokens in front of a line break do not depend on what follows it. -/
theorem Reads.upTo_feed {before text : List Char} {tokens : List Token}
    (reads : Reads before text tokens)
    (closed : (code.after text).isOpen = false) (rest : List Char) :
    ∃ front gap initial, text = front ++ gap ∧
      tokens = initial ++ [endMarker (before ++ text)] ∧
      Layout ('\n' :: rest) gap ∧
      ReadsUpTo (gap ++ '\n' :: rest) before front initial := by
  obtain ⟨front, gap, initial, rfl, layout, rfl, upTo⟩ := reads.upTo
  obtain ⟨noneOpen, gapClosed⟩ := upTo.closed closed
  refine ⟨front, gap, initial, rfl, rfl, layout.before_feed gapClosed rest,
    upTo.replace ?_ ?_⟩
  · cases gap with
    | nil =>
        intro c isHead
        cases isHead
        exact .inl rfl
    | cons d gap =>
        exact fun c isHead => .inr isHead
  · intro token member isOpen
    exact absurd isOpen (noneOpen token member)

/-! ## Other places -/

def Span.move (distance : Nat) (span : Span) : Span where
  start := span.start + distance
  stop := span.stop + distance

def move (distance : Nat) (token : Token) : Token :=
  { token with span := token.span.move distance }

def ScanError.move (distance : Nat) (error : ScanError) : ScanError :=
  { error with offset := error.offset + distance }

end Token

namespace Scanner

variable {scanner : Scanner}

def move (distance : Nat) (scanner : Scanner) : Scanner :=
  { scanner with offset := scanner.offset + distance }

theorem advance_move (distance count : Nat) :
    (scanner.move distance).advance count =
      (scanner.advance count).move distance := by
  simp only [move, advance, Nat.add_right_comm]

theorem take_move (distance : Nat) :
    (scanner.move distance).take =
      ((scanner.take.1.map (Token.move distance)).mapError
          (Token.ScanError.move distance),
        scanner.take.2.move distance) := by
  cases restEq : scanner.rest with
  | nil =>
      rw [take_of_nil restEq, @take_of_nil (scanner.move distance) restEq]
      rfl
  | cons c tail =>
      cases found : Token.lexeme? scanner.rest with
      | none =>
          rw [take_of_none restEq found,
            @take_of_none (scanner.move distance) c tail restEq found]
          rfl
      | some pair =>
          obtain ⟨kind, length⟩ := pair
          rw [take_of_lexeme? found,
            @take_of_lexeme? (scanner.move distance) kind length found,
            advance_move]
          rfl

theorem next_move (distance : Nat) :
    (scanner.move distance).next =
      (scanner.next.1.map fun result =>
          (result.map (Token.move distance)).mapError
            (Token.ScanError.move distance),
        scanner.next.2.move distance) := by
  by_cases finished : scanner.finished = true
  · have movedFinished : (scanner.move distance).finished = true := finished
    rw [next, next, if_pos finished, if_pos movedFinished]
    rfl
  · have running : scanner.finished = false := by
      simpa using finished
    have movedRunning : (scanner.move distance).finished = false := running
    rw [next_eq running, next_eq movedRunning, advance_move, take_move]
    rfl

/-- Scanning does not depend on the place. -/
theorem tokenize_move (distance : Nat) (scanner : Scanner) :
    (scanner.move distance).tokenize.1 =
      (scanner.tokenize.1.map (List.map (Token.move distance))).mapError
        (Token.ScanError.move distance) := by
  have moved := @next_move scanner distance
  cases step : scanner.next with
  | mk result after =>
      rw [step] at moved
      rcases result with _ | error | token
      · have finished := finished_of_next step
        rw [tokenize_of_finished finished,
          tokenize_of_finished (finished_of_next moved)]
        rfl
      · rw [tokenize_of_error step, tokenize_of_error moved]
        rfl
      · have := pending_next_lt step
        rw [tokenize_of_next step, tokenize_of_next moved,
          tokenize_move distance after]
        cases after.tokenize.1 with
        | error error =>
            rfl
        | ok tokens =>
            rfl
termination_by scanner.pending

theorem tokenize_congr {other : Scanner} (same : scanner.next = other.next) :
    scanner.tokenize.1 = other.tokenize.1 := by
  cases step : scanner.next with
  | mk result after =>
      have otherStep := same.symm.trans step
      rcases result with _ | error | token
      · rw [tokenize_of_finished (finished_of_next step),
          tokenize_of_finished (finished_of_next otherStep)]
      · rw [tokenize_of_error step, tokenize_of_error otherStep]
      · rw [tokenize_of_next step, tokenize_of_next otherStep]

/-- The layout in front of a line break and the line break itself. -/
theorem tokenize_of_feed {gap rest : List Char}
    (layout : Token.Layout ('\n' :: rest) gap) (offset : Nat) :
    (tokenize ⟨gap ++ '\n' :: rest, offset, false⟩).1 =
      (tokenize ⟨rest, offset + Token.byteLength gap + 1, false⟩).1 := by
  apply tokenize_congr
  rw [next_skip layout]
  exact next_skip (.space rfl .nil) _

end Scanner

/-! ## Two texts on lines of their own -/

/-- The tokens of a text in which nothing is left open, and another text on
the next line: the tokens of the other one follow, or its error, further back
by the first text and the line break. -/
theorem Token.scan_append_lineFeed {first : String} {tokens : List Token}
    {marker : Token} (scanned : Token.scan first = .ok (tokens ++ [marker]))
    (closed : (Region.ofSource first).isOpen = false) (second : String) :
    Token.scan (first ++ "\n" ++ second) =
      ((Token.scan second).map fun others =>
          tokens ++ others.map (Token.move (first.utf8ByteSize + 1))).mapError
        (ScanError.move (first.utf8ByteSize + 1)) := by
  obtain ⟨front, gap, initial, textEq, tokensEq, layout, upTo⟩ :=
    (scan_eq_ok_iff.mp scanned).upTo_feed closed second.toList
  obtain ⟨rfl, _⟩ := List.append_inj' tokensEq rfl
  have sourceEq : (first ++ "\n" ++ second).toList =
      front ++ (gap ++ '\n' :: second.toList) := by
    rw [String.toList_append, String.toList_append, textEq]
    simp
  have place : byteLength ([] ++ front) + byteLength gap + 1 =
      first.utf8ByteSize + 1 := by
    rw [List.nil_append, ← byteLength_append, ← textEq, byteLength_eq,
      String.ofList_toList]
  have moved := Scanner.tokenize_move (first.utf8ByteSize + 1)
    (Scanner.ofSource second)
  have run := upTo.yields.tokenize_eq
  rw [Scanner.tokenize_of_feed layout, place] at run
  have start : Scanner.ofSource (first ++ "\n" ++ second) =
      ⟨front ++ (gap ++ '\n' :: second.toList), byteLength [], false⟩ := by
    rw [Scanner.ofSource, sourceEq]
    rfl
  have behind : (Scanner.ofSource second).move (first.utf8ByteSize + 1) =
      ⟨second.toList, first.utf8ByteSize + 1, false⟩ := by
    rw [Scanner.ofSource, Scanner.move, Nat.zero_add]
  rw [behind] at moved
  rw [Token.scan, start, run, moved, Token.scan]
  cases (Scanner.ofSource second).tokenize.1 with
  | error error =>
      rfl
  | ok others =>
      rfl

/-- A minus sign at the end of a line does not belong to the digit on the
next one. -/
theorem Token.scan_minus_lineFeed_digit :
    Token.scan "a /* é */ -" =
        .ok ([⟨.identifier, "a", ⟨0, 1⟩⟩, ⟨.minus, "-", ⟨11, 12⟩⟩] ++
          [⟨.eof, "", ⟨12, 12⟩⟩]) ∧
      (Region.ofSource "a /* é */ -").isOpen = false ∧
      Token.scan ("a /* é */ -" ++ "\n" ++ "1 // b") =
        .ok [⟨.identifier, "a", ⟨0, 1⟩⟩, ⟨.minus, "-", ⟨11, 12⟩⟩,
          ⟨.integer, "1", ⟨13, 14⟩⟩, ⟨.eof, "", ⟨19, 19⟩⟩] := by
  have first : Scanner.tokensWithin 4 (.ofSource "a /* é */ -") =
      some ([⟨.identifier, "a", ⟨0, 1⟩⟩, ⟨.minus, "-", ⟨11, 12⟩⟩] ++
        [⟨.eof, "", ⟨12, 12⟩⟩]) := by
    decide +kernel
  have second : Scanner.tokensWithin 3 (.ofSource "1 // b") =
      some [⟨.integer, "1", ⟨0, 1⟩⟩, ⟨.eof, "", ⟨6, 6⟩⟩] := by
    decide +kernel
  have scanned := Scanner.tokenize_of_tokensWithin first
  have scannedSecond : Token.scan "1 // b" = _ :=
    Scanner.tokenize_of_tokensWithin second
  have closed : (Region.ofSource "a /* é */ -").isOpen = false := by
    decide +kernel
  refine ⟨scanned, closed, ?_⟩
  rw [scan_append_lineFeed scanned closed, scannedSecond]
  rfl

end TriggerScript
