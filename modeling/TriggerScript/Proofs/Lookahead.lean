import TriggerScript.Proofs.Lossless

/-!
# One character of lookahead

Scanning knows where a token ends when it has seen the character behind it.
So a text that was read as tokens is read as the same tokens in front of any
other text that starts with the same character, and also in front of white
space or at the end.  Only a string that is not closed needs the end.

* `Token.Kind.goesOn` gives the characters that would extend a token.
* `Lexeme.ScansBefore.looksAhead` says that nothing else matters.
* `Token.ReadsUpTo` is reading up to a place in the text, and
  `Scanner.Yields` is the same for a scanner that is asked for its tokens one
  by one.
-/

namespace TriggerScript

namespace Token

/-! ## Signs -/

/-- Whether a token of this kind would go on with a character. -/
def Kind.goesOn : Kind → Char → Bool
  | identifier, c | bool, c | keyOn, c | keyFunc, c | keyIf, c
  | keyElse, c => isWordPart c
  | integer, c | minus, c => c.isDigit
  | assign, c | not, c | less, c | greater, c => c == '='
  | slash, c => c == '/' || c == '*'
  | _, _ => false

def Kind.isSign : Kind → Bool
  | identifier | bool | keyOn | keyFunc | keyIf | keyElse | integer
  | string | eof => false
  | _ => true

theorem operator?_equals {c : Char} {rest : List Char} (other : c ≠ '=') :
    operator? ('=' :: c :: rest) = some (.assign, 1) ∧
      operator? ('!' :: c :: rest) = some (.not, 1) ∧
      operator? ('<' :: c :: rest) = some (.less, 1) ∧
      operator? ('>' :: c :: rest) = some (.greater, 1) := by
  simp [operator?, other]

theorem scansBefore_minus_iff {c : Char} {rest : List Char} :
    (Lexeme.sign .minus).ScansBefore (c :: rest) ↔ c.isDigit = false := by
  constructor
  · rintro ⟨_, found⟩
    rw [Bool.eq_false_iff]
    intro digit
    have signed : lexeme? ('-' :: c :: rest) = _ :=
      (Matches.signed (by simpa using digit)).lexeme?_eq
    cases signed.symm.trans found
  · intro noDigit
    have same : lexeme? ('-' :: c :: rest) = some (.minus, 1) := by
      apply Matches.lexeme?_eq
      exact .operator rfl fun _ => by simpa using noDigit
    exact ⟨rfl, same⟩

theorem scansBefore_slash_iff {c : Char} {rest : List Char} :
    (Lexeme.sign .slash).ScansBefore (c :: rest) ↔
      c ≠ '/' ∧ c ≠ '*' := by
  constructor
  · rintro ⟨noLayout, _⟩
    constructor
    · rintro rfl
      have comment : layoutLength ('/' :: '/' :: rest) = 0 := noLayout
      rw [layoutLength] at comment
      omega
    · rintro rfl
      have comment : layoutLength ('/' :: '*' :: rest) = 0 := noLayout
      rw [layoutLength] at comment
      omega
  · rintro ⟨noLine, noBlock⟩
    have noLayout : layoutLength ('/' :: c :: rest) = 0 := by
      simp [layoutLength, noLine, noBlock, isSpace]
    exact ⟨noLayout, rfl⟩

/-- A sign that an equals sign would extend. -/
theorem scansBefore_equals_iff {kind : Kind} {c : Char} {rest : List Char}
    (extended : kind ∈ [Kind.assign, .not, .less, .greater]) :
    (Lexeme.sign kind).ScansBefore (c :: rest) ↔ c ≠ '=' := by
  simp only [List.mem_cons, List.not_mem_nil, or_false] at extended
  by_cases same : c = '='
  · subst same
    constructor
    · rintro ⟨_, found⟩
      rcases extended with rfl | rfl | rfl | rfl
      all_goals cases (found : some _ = some _)
    · exact fun other => absurd rfl other
  · obtain ⟨assign, not, less, greater⟩ :=
      @operator?_equals c rest same
    constructor
    · exact fun _ => same
    · intro _
      rcases extended with rfl | rfl | rfl | rfl
      · exact ⟨rfl, assign⟩
      · exact ⟨rfl, not⟩
      · exact ⟨rfl, less⟩
      · exact ⟨rfl, greater⟩

theorem scansBefore_sign_iff {kind : Kind} (sign : kind.isSign = true)
    {rest : List Char} :
    (Lexeme.sign kind).ScansBefore rest ↔
      ∀ c ∈ rest.head?, kind.goesOn c = false := by
  cases rest with
  | nil =>
      cases kind
      case identifier | bool | keyOn | keyFunc | keyIf | keyElse | integer
          | string | eof =>
        cases sign
      all_goals exact ⟨nofun, fun _ => ⟨rfl, rfl⟩⟩
  | cons c rest =>
      simp only [List.head?_cons, Option.mem_some_iff, forall_eq']
      cases kind
      case identifier | bool | keyOn | keyFunc | keyIf | keyElse | integer
          | string | eof =>
        cases sign
      case minus =>
        exact scansBefore_minus_iff
      case slash =>
        rw [scansBefore_slash_iff]
        simp [Kind.goesOn]
      case assign | not | less | greater =>
        rw [scansBefore_equals_iff (by decide)]
        simp [Kind.goesOn]
      all_goals exact ⟨fun _ => rfl, fun _ => ⟨rfl, rfl⟩⟩

/-! ## Runs and strings -/

theorem length_takeWhile_append_iff {accept : Char → Bool}
    {run rest : List Char} :
    ((run ++ rest).takeWhile accept).length = run.length ↔
      (∀ c ∈ run, accept c = true) ∧
        ∀ c ∈ rest.head?, accept c = false := by
  induction run with
  | nil =>
      cases rest with
      | nil =>
          simp
      | cons c rest =>
          by_cases accepted : accept c = true
          · simp [accepted]
          · simp [accepted]
  | cons c run inductionHypothesis =>
      by_cases accepted : accept c = true
      · simpa [accepted] using inductionHypothesis
      · simp [accepted]

theorem stringRest_append_iff {body rest : List Char} :
    stringRest (body ++ rest) = body.length ↔
      stringRest body = body.length ∧ ('"' ∉ body → rest = []) := by
  induction body with
  | nil =>
      cases rest with
      | nil =>
          simp [stringRest]
      | cons c rest =>
          by_cases quote : c = '"'
          · subst quote
            simp [stringRest]
          · simp [stringRest]
  | cons c body inductionHypothesis =>
      by_cases quote : c = '"'
      · subst quote
        simp [stringRest]
      · have other : '"' ≠ c := Ne.symm quote
        simpa [stringRest, quote, other, Nat.add_comm 1] using
          inductionHypothesis

theorem Kind.goesOn_ofWord (text : String) :
    (Kind.ofWord text).goesOn = isWordPart := by
  unfold Kind.ofWord
  split
  all_goals rfl

theorem Kind.goesOn_of_isSpace {c : Char} (space : isSpace c = true)
    (kind : Kind) : kind.goesOn c = false := by
  rcases isSpace_iff.mp space with rfl | rfl | rfl | rfl
  all_goals
    cases kind
    all_goals rfl

end Token

/-! ## Lexemes -/

namespace Lexeme

open Token

variable {lexeme : Lexeme} {first : Char} {tail rest : List Char}

/-- A string without its closing quote. -/
def IsOpen (lexeme : Lexeme) : Prop :=
  lexeme.kind = .string ∧ '"' ∉ lexeme.text.toList.tail

/-- What a lexeme is in front of a text depends on the first character of the
text alone, and a string that is not closed needs the end. -/
def LooksAhead (lexeme : Lexeme) : Prop :=
  ∀ rest, lexeme.ScansBefore rest ↔
    lexeme.ScansBefore [] ∧
      (∀ c ∈ rest.head?, lexeme.kind.goesOn c = false) ∧
      (lexeme.IsOpen → rest = [])

/-- A lexeme that goes on as long as there are accepted characters. -/
theorem looksAhead_run (accept : Char → Bool) (kindOf : List Char → Kind)
    (textEq : lexeme.text.toList = first :: tail)
    (takes : ∀ rest, layoutLength (first :: (tail ++ rest)) = 0 ∧
      lexeme? (first :: (tail ++ rest)) =
        some (kindOf ((tail ++ rest).takeWhile accept),
          ((tail ++ rest).takeWhile accept).length + 1))
    (going : (kindOf tail).goesOn = accept)
    (noString : kindOf tail ≠ .string) : lexeme.LooksAhead := by
  have scans : ∀ rest, lexeme.ScansBefore rest ↔
      lexeme.kind = kindOf tail ∧ (∀ c ∈ tail, accept c = true) ∧
        ∀ c ∈ rest.head?, accept c = false := by
    intro rest
    obtain ⟨noLayout, found⟩ := takes rest
    rw [ScansBefore, textEq, List.cons_append, noLayout, found,
      List.length_cons, Option.some.injEq, Prod.mk.injEq,
      Nat.add_right_cancel_iff, ← length_takeWhile_append_iff]
    have runEq : ((tail ++ rest).takeWhile accept).length = tail.length →
        (tail ++ rest).takeWhile accept = tail := by
      intro run
      rw [← take_takeWhile, run, List.take_left]
    constructor
    · rintro ⟨_, kindEq, run⟩
      rw [runEq run] at kindEq
      exact ⟨kindEq.symm, run⟩
    · rintro ⟨kindEq, run⟩
      rw [runEq run]
      exact ⟨rfl, kindEq.symm, rfl⟩
  intro rest
  rw [scans rest, scans []]
  constructor
  · rintro ⟨kindEq, all, stops⟩
    refine ⟨⟨kindEq, all, nofun⟩, ?_, ?_⟩
    · rwa [kindEq, going]
    · rintro ⟨isString, _⟩
      exact absurd (kindEq ▸ isString) noString
  · rintro ⟨⟨kindEq, all, _⟩, stops, _⟩
    rw [kindEq, going] at stops
    exact ⟨kindEq, all, stops⟩

theorem looksAhead_word (textEq : lexeme.text.toList = first :: tail)
    (starts : isWordStart first = true) : lexeme.LooksAhead := by
  obtain ⟨noComment, noSpace⟩ := noLayout starts rfl
  apply looksAhead_run isWordPart
    (fun run => .ofWord (String.ofList (first :: run))) textEq
  · intro rest
    exact ⟨layoutLength_eq_zero noComment noSpace,
      (Matches.word starts).lexeme?_eq⟩
  · exact Kind.goesOn_ofWord _
  · exact Kind.ofWord_ne.2

theorem looksAhead_digits (textEq : lexeme.text.toList = first :: tail)
    (digit : first.isDigit = true) : lexeme.LooksAhead := by
  obtain ⟨noComment, noSpace⟩ := noLayout digit rfl
  apply looksAhead_run Char.isDigit (fun _ => .integer) textEq
  · intro rest
    exact ⟨layoutLength_eq_zero noComment noSpace,
      (Matches.digits digit).lexeme?_eq⟩
  · rfl
  · decide

theorem looksAhead_signed (textEq : lexeme.text.toList = '-' :: tail)
    (digit : tail.head?.any Char.isDigit = true) : lexeme.LooksAhead := by
  apply looksAhead_run Char.isDigit (fun _ => .integer) textEq
  · intro rest
    have digitBehind : (tail ++ rest).head?.any Char.isDigit = true := by
      cases tail with
      | nil =>
          cases digit
      | cons c tail =>
          exact digit
    exact ⟨layoutLength_eq_zero (by decide) (by decide),
      (Matches.signed digitBehind).lexeme?_eq⟩
  · rfl
  · decide

theorem looksAhead_quoted (textEq : lexeme.text.toList = '"' :: tail) :
    lexeme.LooksAhead := by
  have scans : ∀ rest, lexeme.ScansBefore rest ↔
      lexeme.kind = .string ∧ stringRest tail = tail.length ∧
        ('"' ∉ tail → rest = []) := by
    intro rest
    have noLayout : layoutLength ('"' :: (tail ++ rest)) = 0 :=
      layoutLength_eq_zero (by decide) (by decide)
    rw [ScansBefore, textEq, List.cons_append, Matches.quoted.lexeme?_eq,
      List.length_cons, Option.some.injEq, Prod.mk.injEq,
      Nat.add_right_cancel_iff, stringRest_append_iff, noLayout]
    simp [eq_comm]
  intro rest
  rw [scans rest, scans [], IsOpen, textEq, List.tail_cons]
  constructor
  · rintro ⟨kindEq, whole, closed⟩
    refine ⟨⟨kindEq, whole, fun _ => rfl⟩, ?_, fun isOpen => closed isOpen.2⟩
    rw [kindEq]
    exact fun _ _ => rfl
  · rintro ⟨⟨kindEq, whole, _⟩, _, closed⟩
    exact ⟨kindEq, whole, fun noQuote => closed ⟨kindEq, noQuote⟩⟩

theorem looksAhead_sign {kind : Kind} (sign : kind.isSign = true) :
    (Lexeme.sign kind).LooksAhead := by
  intro rest
  have noString : ¬ (Lexeme.sign kind).IsOpen := by
    rintro ⟨isString, _⟩
    cases (isString : kind = .string)
    cases sign
  rw [scansBefore_sign_iff sign, scansBefore_sign_iff sign]
  exact ⟨fun stops => ⟨nofun, stops, fun isOpen => absurd isOpen noString⟩,
    fun both => both.2.1⟩

theorem isSign_of_operator? {text : List Char} {kind : Kind} {length : Nat}
    (found : operator? text = some (kind, length)) : kind.isSign = true := by
  unfold operator? at found
  split at found
  case h_20 =>
    cases found
  all_goals
    cases found
    rfl

/-- A lexeme that scanning takes for an operator is that operator. -/
theorem eq_sign_of_operator? {text : List Char} {kind : Kind} {length : Nat}
    (textEq : lexeme.text.toList = text) (lengthEq : text.length = length)
    (kindEq : lexeme.kind = kind)
    (found : operator? (text ++ rest) = some (kind, length)) :
    lexeme = Lexeme.sign kind := by
  obtain ⟨behind, split, lengthIs⟩ := operator?_spec found
  obtain ⟨same, _⟩ := List.append_inj split (lengthEq.trans lengthIs)
  have textIs : lexeme.text = kind.text :=
    String.toList_injective (textEq.trans same)
  rw [Lexeme.sign, ← textIs, ← kindEq]

theorem ScansBefore.text_ne_nil (scans : lexeme.ScansBefore rest) :
    lexeme.text.toList ≠ [] := by
  intro empty
  have positive := lexeme?_length_pos scans.2
  rw [empty] at positive
  cases positive

theorem ScansBefore.looksAhead (scans : lexeme.ScansBefore rest) :
    lexeme.LooksAhead := by
  have nonempty := scans.text_ne_nil
  obtain ⟨_, found⟩ := scans
  cases textEq : lexeme.text.toList with
  | nil =>
      exact absurd textEq nonempty
  | cons first tail =>
      rw [textEq, List.cons_append] at found
      generalize lengthEq : (first :: tail).length = length at found
      generalize kindEq : lexeme.kind = kind at found
      cases matches_of_lexeme? found with
      | word starts =>
          exact looksAhead_word textEq starts
      | digits digit =>
          exact looksAhead_digits textEq digit
      | signed digit =>
          apply looksAhead_signed textEq
          cases tail with
          | nil =>
              -- A sign without digits behind it is no number.
              have stops := (length_takeWhile_append_iff.mp
                (Nat.succ.inj lengthEq).symm).2
              cases rest with
              | nil =>
                  cases digit
              | cons c rest =>
                  have noDigit : c.isDigit = false := stops c rfl
                  rw [List.nil_append, List.head?_cons, Option.any_some,
                    noDigit] at digit
                  cases digit
          | cons c tail =>
              exact digit
      | quoted =>
          exact looksAhead_quoted textEq
      | operator operates =>
          rw [← List.cons_append] at operates
          rw [eq_sign_of_operator? textEq lengthEq kindEq operates]
          exact looksAhead_sign (isSign_of_operator? operates)

theorem ScansBefore.eq_nil_of_isOpen (scans : lexeme.ScansBefore rest)
    (isOpen : lexeme.IsOpen) : rest = [] :=
  ((scans.looksAhead rest).mp scans).2.2 isOpen

/-- A lexeme stays what it is in front of another text if that text starts
with the same character or with white space. -/
theorem ScansBefore.replace {other : List Char}
    (scans : lexeme.ScansBefore rest)
    (starts : ∀ c ∈ other.head?, isSpace c = true ∨ rest.head? = some c)
    (closed : lexeme.IsOpen → other = []) : lexeme.ScansBefore other := by
  have ahead := scans.looksAhead
  obtain ⟨formed, stops, _⟩ := (ahead rest).mp scans
  refine (ahead other).mpr ⟨formed, ?_, closed⟩
  intro c isHead
  rcases starts c isHead with space | same
  · exact Kind.goesOn_of_isSpace space _
  · exact stops c same

end Lexeme

namespace Token

/-- Layout stays layout in front of another text that starts with the same
character, and at the end. -/
theorem Layout.replace {following other gap : List Char}
    (layout : Layout following gap)
    (starts : ∀ c ∈ other.head?, following.head? = some c) :
    Layout other gap := by
  induction layout with
  | nil =>
      exact .nil
  | space space _ inductionHypothesis =>
      exact .space space inductionHypothesis
  | @lineComment body gap noFeed ends _ inductionHypothesis =>
      refine .lineComment noFeed ?_ inductionHypothesis
      cases gap with
      | nil =>
          intro c isHead
          exact ends c (starts c isHead)
      | cons first gap =>
          exact ends
  | blockComment notClosed _ inductionHypothesis =>
      exact .blockComment notClosed inductionHypothesis
  | openComment unclosed atEnd =>
      refine .openComment unclosed (List.head?_eq_none_iff.mp ?_)
      rw [Option.eq_none_iff_forall_not_mem]
      intro c isHead
      have same := starts c isHead
      rw [atEnd] at same
      cases same

/-! ## Reading up to a place -/

/-- The text `front ++ rest` stands behind `before`, and `front` is read as
tokens. -/
inductive ReadsUpTo (rest : List Char) :
    (before front : List Char) → List Token → Prop
  | here {before : List Char} :
      ReadsUpTo rest before [] []
  | token {before gap front : List Char} {lexeme : Lexeme}
      {tokens : List Token} :
      Layout (lexeme.text.toList ++ (front ++ rest)) gap →
      lexeme.ScansBefore (front ++ rest) →
      ReadsUpTo rest (before ++ gap ++ lexeme.text.toList) front tokens →
      ReadsUpTo rest before (gap ++ (lexeme.text.toList ++ front))
        (ofLexeme lexeme (before ++ gap) :: tokens)

namespace ReadsUpTo

variable {rest before front : List Char} {tokens : List Token}

/-- The tokens do not depend on what follows, apart from its first
character. -/
theorem replace (reads : ReadsUpTo rest before front tokens)
    {other : List Char}
    (starts : ∀ c ∈ other.head?, isSpace c = true ∨ rest.head? = some c)
    (closed : ∀ token ∈ tokens, token.lexeme.IsOpen → other = []) :
    ReadsUpTo other before front tokens := by
  induction reads with
  | here =>
      exact .here
  | @token before gap front lexeme tokens layout scans _
      inductionHypothesis =>
      obtain ⟨lexemeClosed, othersClosed⟩ := List.forall_mem_cons.mp closed
      refine .token (layout.replace ?_) (scans.replace ?_ ?_)
        (inductionHypothesis othersClosed)
      · obtain ⟨c, tail, textEq⟩ :=
          List.exists_cons_of_ne_nil scans.text_ne_nil
        rw [textEq]
        exact fun _ isHead => isHead
      · cases front with
        | nil =>
            exact starts
        | cons c front =>
            exact fun d isHead => .inr isHead
      · intro isOpen
        have atEnd := scans.eq_nil_of_isOpen isOpen
        rw [(List.append_eq_nil_iff.mp atEnd).1, lexemeClosed isOpen]
        rfl

/-- A string that is not closed can only stand at the end. -/
theorem not_isOpen (reads : ReadsUpTo rest before front tokens)
    (nonempty : rest ≠ []) : ∀ token ∈ tokens, ¬ token.lexeme.IsOpen := by
  induction reads with
  | here =>
      exact nofun
  | token layout scans _ inductionHypothesis =>
      refine List.forall_mem_cons.mpr ⟨?_, inductionHypothesis⟩
      intro isOpen
      have atEnd := scans.eq_nil_of_isOpen isOpen
      exact nonempty (List.append_eq_nil_iff.mp atEnd).2

theorem stop_le (reads : ReadsUpTo rest before front tokens) :
    ∀ token ∈ tokens, token.span.stop ≤ byteLength (before ++ front) := by
  induction reads with
  | here =>
      exact nofun
  | @token before gap front lexeme tokens layout scans _
      inductionHypothesis =>
      have split : before ++ gap ++ lexeme.text.toList ++ front =
          before ++ (gap ++ (lexeme.text.toList ++ front)) := by
        simp only [List.append_assoc]
      rw [split] at inductionHypothesis
      refine List.forall_mem_cons.mpr ⟨?_, inductionHypothesis⟩
      rw [← split, byteLength_append]
      exact Nat.le_add_right _ _

/-- Tokens in front of nothing but layout are all tokens. -/
theorem finish (reads : ReadsUpTo rest before front tokens)
    (layout : Layout [] rest) :
    Reads before (front ++ rest)
      (tokens ++ [endMarker (before ++ (front ++ rest))]) := by
  induction reads with
  | here =>
      exact .finish layout
  | token gapLayout scans _ inductionHypothesis =>
      have all := Reads.token gapLayout scans inductionHypothesis
      simpa only [List.append_assoc, List.cons_append] using all

end ReadsUpTo

theorem Reads.upTo {before text : List Char} {tokens : List Token}
    (reads : Reads before text tokens) :
    ∃ front rest initial, text = front ++ rest ∧ Layout [] rest ∧
      tokens = initial ++ [endMarker (before ++ text)] ∧
      ReadsUpTo rest before front initial := by
  induction reads with
  | @finish before gap layout =>
      exact ⟨[], gap, [], rfl, layout, rfl, .here⟩
  | @token before gap behind lexeme tokens layout scans _
      inductionHypothesis =>
      obtain ⟨front, rest, initial, rfl, ends, rfl, upTo⟩ :=
        inductionHypothesis
      refine ⟨gap ++ (lexeme.text.toList ++ front), rest, _, ?_, ends, ?_,
        .token layout scans upTo⟩
      · simp only [List.append_assoc]
      · simp only [List.append_assoc, List.cons_append]

end Token

/-! ## Pulling tokens one by one -/

namespace Scanner

theorem advance_advance {scanner : Scanner} (first second : Nat) :
    (scanner.advance first).advance second =
      scanner.advance (first + second) := by
  simp only [advance, List.drop_drop, List.take_add,
    Token.byteLength_append, Nat.add_assoc]

/-- Layout in front of a text is passed over. -/
theorem next_skip {gap rest : List Char} (layout : Token.Layout rest gap)
    (offset : Nat) :
    next ⟨gap ++ rest, offset, false⟩ =
      next ⟨rest, offset + Token.byteLength gap, false⟩ := by
  have front : advance ⟨gap ++ rest, offset, false⟩ gap.length =
      ⟨rest, offset + Token.byteLength gap, false⟩ := by
    rw [advance, List.drop_left, List.take_left]
  rw [next_eq rfl, next_eq rfl, layout.layoutLength_append,
    ← advance_advance, front]

/-- A scanner that is asked again and again yields tokens, and the last
scanner is what is left of it. -/
inductive Yields : Scanner → List Token → Scanner → Prop
  | nil {scanner : Scanner} :
      Yields scanner [] scanner
  | cons {scanner after last : Scanner} {token : Token}
      {tokens : List Token} :
      scanner.next = (some (.ok token), after) →
      Yields after tokens last →
      Yields scanner (token :: tokens) last

theorem Yields.tokenize_eq {scanner last : Scanner} {tokens : List Token}
    (yields : Yields scanner tokens last) :
    scanner.tokenize.1 = last.tokenize.1.map (tokens ++ ·) := by
  induction yields with
  | @nil scanner =>
      cases scanner.tokenize.1 with
      | error error =>
          rfl
      | ok tokens =>
          rfl
  | @cons _ _ last _ _ step _ inductionHypothesis =>
      rw [tokenize_of_next step, inductionHypothesis]
      cases last.tokenize.1 with
      | error error =>
          rfl
      | ok tokens =>
          rfl

end Scanner

theorem Token.ReadsUpTo.yields {rest before front : List Char}
    {tokens : List Token} (reads : ReadsUpTo rest before front tokens) :
    Scanner.Yields ⟨front ++ rest, byteLength before, false⟩ tokens
      ⟨rest, byteLength (before ++ front), false⟩ := by
  induction reads with
  | here =>
      rw [List.append_nil]
      exact .nil
  | @token before gap front lexeme tokens layout scans _
      inductionHypothesis =>
      have step := @Scanner.next_of_scansBefore before gap (front ++ rest)
        lexeme layout scans
      simp only [List.append_assoc] at step inductionHypothesis ⊢
      exact .cons step inductionHypothesis

end TriggerScript
