import TriggerScript.Proofs.Lookahead
import TriggerScript.Proofs.Places
import TriggerScript.Proofs.Stages

/-!
# Layout does not matter

The texts of the tokens of a source, written one after the other with other
layout between them, are scanned as the same kinds and texts again, and the
new source is compiled like the old one.  Between two texts there must be white
space at least, for otherwise they could run into each other or into a
comment.
-/

namespace TriggerScript

namespace Token

/-! ## Sources with other layout -/

/-- Text that is layout whatever follows it: white space, line comments with
the line feeds that end them, and closed block comments. -/
inductive ClosedLayout : List Char → Prop
  | nil :
      ClosedLayout []
  | space {c : Char} {gap : List Char} :
      isSpace c = true →
      ClosedLayout gap →
      ClosedLayout (c :: gap)
  | lineComment {body gap : List Char} :
      '\n' ∉ body →
      ClosedLayout gap →
      ClosedLayout ('/' :: '/' :: (body ++ '\n' :: gap))
  | blockComment {body gap : List Char} :
      ¬ ['*', '/'] <:+: body ++ ['*'] →
      ClosedLayout gap →
      ClosedLayout ('/' :: '*' :: (body ++ '*' :: '/' :: gap))

/-- Closed layout that starts with white space. -/
inductive Separator : List Char → Prop
  | mk {c : Char} {gap : List Char} :
      isSpace c = true →
      ClosedLayout gap →
      Separator (c :: gap)

/-- Texts in order, with a separator between any two neighbours and nothing
around them. -/
inductive Rejoins : List String → List Char → Prop
  | nil :
      Rejoins [] []
  | single (text : String) :
      Rejoins [text] text.toList
  | cons (text : String) {next : String} {texts : List String}
      {separator joined : List Char} :
      Separator separator →
      Rejoins (next :: texts) joined →
      Rejoins (text :: next :: texts) (text.toList ++ (separator ++ joined))

def writtenTexts (tokens : List Token) : List String :=
  (tokens.filter fun token => token.kind != .eof).map Token.text

theorem ClosedLayout.layout {gap : List Char} (closed : ClosedLayout gap)
    (following : List Char) : Layout following gap := by
  induction closed with
  | nil =>
      exact .nil
  | space space _ inductionHypothesis =>
      exact .space space inductionHypothesis
  | lineComment noFeed _ inductionHypothesis =>
      exact .lineComment noFeed (by simp) (.space rfl inductionHypothesis)
  | blockComment notClosed _ inductionHypothesis =>
      exact .blockComment notClosed inductionHypothesis

/-! ## Scanning again -/

theorem writtenTexts_cons {lexeme : Lexeme} {rest before : List Char}
    (scans : lexeme.ScansBefore rest) (tokens : List Token) :
    writtenTexts (ofLexeme lexeme before :: tokens) =
      lexeme.text :: writtenTexts tokens := by
  have written := (matches_of_lexeme? scans.2).ne_eof
  simp [writtenTexts, ofLexeme, written]

/-- Nothing but the end marker is read from an empty text. -/
theorem Reads.writtenTexts_nil {before : List Char} {tokens : List Token}
    (reads : Reads before [] tokens) : writtenTexts tokens = [] := by
  generalize empty : ([] : List Char) = text at reads
  cases reads with
  | finish =>
      rfl
  | token layout scans later =>
      obtain ⟨_, behind⟩ := List.append_eq_nil_iff.mp empty.symm
      obtain ⟨noText, _⟩ := List.append_eq_nil_iff.mp behind
      exact absurd noText scans.text_ne_nil

/-- Texts that were read once are read again from any source that rejoins
them. -/
theorem Reads.rejoin {before text : List Char} {tokens : List Token}
    (reads : Reads before text tokens) {gap joined : List Char}
    (closed : ClosedLayout gap)
    (rejoins : Rejoins (writtenTexts tokens) joined)
    (start : List Char) :
    ∃ others, Reads start (gap ++ joined) others ∧
      others.map Token.lexeme = tokens.map Token.lexeme := by
  induction reads generalizing gap joined start with
  | finish _ =>
      cases rejoins with
      | nil =>
          rw [List.append_nil]
          exact ⟨_, .finish (closed.layout []), rfl⟩
  | @token before _ rest lexeme tokens _ scans later
      inductionHypothesis =>
      rw [writtenTexts_cons scans] at rejoins
      generalize textsEq : writtenTexts tokens = texts
        at rejoins inductionHypothesis
      cases rejoins with
      | single =>
          have here : lexeme.ScansBefore [] :=
            scans.replace nofun fun _ => rfl
          obtain ⟨others, othersRead, same⟩ :=
            inductionHypothesis .nil .nil
              (start ++ gap ++ lexeme.text.toList)
          have again := Reads.token (closed.layout _) here othersRead
          rw [List.append_nil] at again
          refine ⟨_, again, ?_⟩
          rw [List.map_cons, List.map_cons, same]
          rfl
      | @cons _ next texts separator behind separates rejoinsBehind =>
          cases separates with
          | @mk c inner space closedInner =>
              -- Something is left to read, so the lexeme is not at the end.
              have notAtEnd : rest ≠ [] := by
                intro atEnd
                rw [atEnd] at later
                rw [later.writtenTexts_nil] at textsEq
                cases textsEq
              have here :
                  lexeme.ScansBefore (c :: inner ++ behind) := by
                apply scans.replace
                · intro first isFirst
                  cases isFirst
                  exact .inl space
                · exact fun isOpen =>
                    absurd (scans.eq_nil_of_isOpen isOpen) notAtEnd
              obtain ⟨others, othersRead, same⟩ :=
                inductionHypothesis (.space space closedInner)
                  rejoinsBehind (start ++ gap ++ lexeme.text.toList)
              refine ⟨_, .token (closed.layout _) here othersRead, ?_⟩
              rw [List.map_cons, List.map_cons, same]
              rfl

/-- A source that rejoins the texts of another source is scanned as the same
kinds and texts. -/
theorem scan_rejoined {source joined : String} {tokens : List Token}
    (scanned : Token.scan source = .ok tokens)
    (rejoins : Rejoins (writtenTexts tokens) joined.toList) :
    ∃ others, Token.scan joined = .ok others ∧
      others.map Token.lexeme = tokens.map Token.lexeme := by
  obtain ⟨others, reads, same⟩ :=
    (scan_eq_ok_iff.mp scanned).rejoin .nil rejoins []
  exact ⟨others, scan_eq_ok_iff.mpr reads, same⟩

end Token

/-! ## Compiling again -/

def Error.Alike : Error → Error → Prop
  | .parse first, .parse second => first.cause = second.cause
  | first, second => first = second

/-- The same program, or errors that are the same but for the offset of a
parse error. -/
inductive Program.CompiledAlike :
    Except Error Program → Except Error Program → Prop
  | ok (program : Program) :
      CompiledAlike (.ok program) (.ok program)
  | error {first second : Error} :
      first.Alike second →
      CompiledAlike (.error first) (.error second)

namespace Program

theorem compile_alike {catalog : Catalog} {source joined : String}
    {tokens others : List Token}
    (scanned : Token.scan source = .ok tokens)
    (scannedAgain : Token.scan joined = .ok others)
    (same : others.map Token.lexeme = tokens.map Token.lexeme) :
    CompiledAlike (compile catalog source) (compile catalog joined) := by
  rcases Node.parse_alike same.symm with
    ⟨nodes, parsed, parsedAgain⟩ |
      ⟨first, second, failed, failedAgain, cause⟩
  · rw [compile_of_parse scanned parsed,
      compile_of_parse scannedAgain parsedAgain]
    cases assemble catalog nodes with
    | error error =>
        exact .error rfl
    | ok program =>
        exact .ok program
  · rw [compile_of_parse_error scanned failed,
      compile_of_parse_error scannedAgain failedAgain]
    exact .error cause

/-- A source and any source that rejoins its texts are scanned as the same
kinds and texts, and compiled alike for every host. -/
theorem compile_rejoined {source joined : String} {tokens : List Token}
    (scanned : Token.scan source = .ok tokens)
    (rejoins : Token.Rejoins (Token.writtenTexts tokens) joined.toList) :
    ∃ others, Token.scan joined = .ok others ∧
      others.map Token.lexeme = tokens.map Token.lexeme ∧
      ∀ catalog, CompiledAlike (compile catalog source)
        (compile catalog joined) := by
  obtain ⟨others, scannedAgain, same⟩ :=
    Token.scan_rejoined scanned rejoins
  exact ⟨others, scannedAgain, same, fun catalog =>
    compile_alike scanned scannedAgain same⟩

end Program

/-- The texts of the commented source with other layout between them. -/
def Token.rejoinedSource : String :=
  "x\t/* = **/== -1\r// /*\n/ \"ß"

theorem Token.rejoins_commented :
    Rejoins (writtenTexts commentedTokens) rejoinedSource.toList := by
  have comment : Separator "\t/* = **/".toList :=
    .mk rfl (@ClosedLayout.blockComment " = *".toList [] (by decide) .nil)
  have line : Separator "\r// /*\n".toList :=
    .mk rfl (@ClosedLayout.lineComment " /*".toList [] (by decide) .nil)
  have blank : Separator " ".toList :=
    .mk rfl .nil
  exact .cons "x" comment (.cons "==" blank
    (.cons "-1" line (.cons "/" blank (.single "\"ß"))))

theorem compile_rejoined_commented :
    Token.scan Token.commentedSource = .ok Token.commentedTokens ∧
      Token.Rejoins (Token.writtenTexts Token.commentedTokens)
        Token.rejoinedSource.toList ∧
      ∃ others, Token.scan Token.rejoinedSource = .ok others ∧
        others.map Token.lexeme =
          Token.commentedTokens.map Token.lexeme ∧
        ∀ catalog, Program.CompiledAlike
          (Program.compile catalog Token.commentedSource)
          (Program.compile catalog Token.rejoinedSource) :=
  ⟨Token.scan_commented, Token.rejoins_commented,
    Program.compile_rejoined Token.scan_commented Token.rejoins_commented⟩

end TriggerScript
