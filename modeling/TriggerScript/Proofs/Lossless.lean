import TriggerScript.Proofs.Layout

/-!
# Scanning loses nothing

Tokens and the layout between them make up the whole source text.

* `Token.Matches` gives the forms of tokens one by one.
* `Token.Reads` says which tokens a text is read as, with the layout in front
  of each; it holds exactly of the tokens that scanning returns.
* `Token.Lossless` says how tokens lie in their source text.
-/

namespace TriggerScript

namespace Token

/-! ## The forms of lexemes -/

/-- The kind and the number of characters of the token at the front, one rule
for each form of token. -/
inductive Matches : List Char → Kind → Nat → Prop
  | word {c : Char} {rest : List Char} :
      isWordStart c = true →
      Matches (c :: rest)
        (.ofWord (String.ofList (c :: rest.takeWhile isWordPart)))
        ((rest.takeWhile isWordPart).length + 1)
  | digits {c : Char} {rest : List Char} :
      c.isDigit = true →
      Matches (c :: rest) .integer
        ((rest.takeWhile Char.isDigit).length + 1)
  | signed {rest : List Char} :
      rest.head?.any Char.isDigit = true →
      Matches ('-' :: rest) .integer
        ((rest.takeWhile Char.isDigit).length + 1)
  | quoted {rest : List Char} :
      Matches ('"' :: rest) .string (stringRest rest + 1)
  | operator {c : Char} {rest : List Char} {kind : Kind} {length : Nat} :
      operator? (c :: rest) = some (kind, length) →
      (c = '-' → rest.head?.any Char.isDigit = false) →
      Matches (c :: rest) kind length

/-- The text of an operator is the text of its kind. -/
theorem operator?_spec {text : List Char} {kind : Kind} {length : Nat}
    (found : operator? text = some (kind, length)) :
    ∃ rest, text = kind.text.toList ++ rest ∧
      length = kind.text.toList.length := by
  unfold operator? at found
  split at found
  case h_20 =>
    cases found
  all_goals
    cases found
    exact ⟨_, rfl, rfl⟩

/-- The characters that operators start with start no other token, but for
the sign of a number. -/
theorem operator?_first {c : Char} {rest : List Char} {kind : Kind}
    {length : Nat} (found : operator? (c :: rest) = some (kind, length)) :
    isWordStart c = false ∧ c.isDigit = false ∧ c ≠ '"' := by
  unfold operator? at found
  split at found
  case h_20 =>
    cases found
  all_goals
    rename_i equality
    cases equality
    decide

def signs : List Char :=
  ['=', '!', '<', '>', '(', ')', '{', '}', ';', ',', '-', '+', '*', '/', '%']

theorem isSome_operator?_iff {c : Char} {following : List Char} :
    (operator? (c :: following)).isSome = true ↔ c ∈ signs := by
  constructor
  · intro found
    unfold operator? at found
    split at found
    case h_20 =>
      cases found
    all_goals
      rename_i equality
      cases equality
      decide
  · revert c
    simp only [signs, List.forall_mem_cons]
    refine ⟨?_, ?_, ?_, ?_, rfl, rfl, rfl, rfl, rfl, rfl, rfl, rfl, rfl, rfl,
      rfl, nofun⟩
    -- The first four may be followed by an equals sign.
    all_goals
      cases following with
      | nil =>
          rfl
      | cons next rest =>
          by_cases same : next = '='
          · rw [same]
            rfl
          · simp [operator?, same]

theorem matches_of_lexeme? {text : List Char} {kind : Kind} {length : Nat}
    (found : lexeme? text = some (kind, length)) :
    Matches text kind length := by
  cases text with
  | nil =>
      cases found
  | cons c rest =>
      rw [lexeme?] at found
      split at found
      · rename_i starts
        cases found
        exact .word starts
      · split at found
        · rename_i digit
          cases found
          rw [Nat.add_comm]
          exact .digits digit
        · split at found
          · rename_i quote
            cases found
            rw [beq_iff_eq.mp quote, Nat.add_comm]
            exact .quoted
          · split at found
            · rename_i signed
              cases found
              obtain ⟨rfl, digit⟩ : c = '-' ∧
                  rest.head?.any Char.isDigit = true := by
                simpa using signed
              rw [Nat.add_comm]
              exact .signed digit
            · rename_i unsigned
              refine .operator found ?_
              rintro rfl
              simpa using unsigned

theorem Matches.lexeme?_eq {text : List Char} {kind : Kind} {length : Nat}
    (found : Matches text kind length) :
    lexeme? text = some (kind, length) := by
  cases found with
  | word starts =>
      rw [lexeme?, if_pos starts]
      rfl
  | digits digit =>
      rw [lexeme?, if_neg (by simp [isWordStart_of_isDigit digit]),
        if_pos digit, Nat.add_comm]
  | signed digit =>
      rw [lexeme?, if_neg (by decide), if_neg (by decide),
        if_neg (by decide), if_pos (by simpa using digit), Nat.add_comm]
  | quoted =>
      rw [lexeme?, if_neg (by decide), if_neg (by decide),
        if_pos (by decide), Nat.add_comm]
  | @operator c rest kind length found unsigned =>
      obtain ⟨noWord, noDigit, noQuote⟩ := operator?_first found
      rw [lexeme?, if_neg (by simp [noWord]), if_neg (by simp [noDigit]),
        if_neg (by simpa using noQuote),
        if_neg (by simpa using unsigned), found]

end Token

/-! ## Reading tokens -/

/-- The lexeme is what scanning finds where its text is written in front of
`rest`. -/
def Lexeme.ScansBefore (lexeme : Lexeme) (rest : List Char) : Prop :=
  Token.layoutLength (lexeme.text.toList ++ rest) = 0 ∧
    Token.lexeme? (lexeme.text.toList ++ rest) =
      some (lexeme.kind, lexeme.text.toList.length)

namespace Token

def endMarker (before : List Char) : Token where
  kind := .eof
  text := ""
  span := ⟨byteLength before, byteLength before⟩

def ofLexeme (lexeme : Lexeme) (before : List Char) : Token where
  kind := lexeme.kind
  text := lexeme.text
  span := ⟨byteLength before, byteLength (before ++ lexeme.text.toList)⟩

/-- The tokens that a text is read as when it stands behind `before`. -/
inductive Reads : (before text : List Char) → List Token → Prop
  | finish {before gap : List Char} :
      Layout [] gap →
      Reads before gap [endMarker (before ++ gap)]
  | token {before gap rest : List Char} {lexeme : Lexeme}
      {tokens : List Token} :
      Layout (lexeme.text.toList ++ rest) gap →
      lexeme.ScansBefore rest →
      Reads (before ++ gap ++ lexeme.text.toList) rest tokens →
      Reads before (gap ++ (lexeme.text.toList ++ rest))
        (ofLexeme lexeme (before ++ gap) :: tokens)

theorem byteLength_append (left right : List Char) :
    byteLength (left ++ right) = byteLength left + byteLength right := by
  induction left with
  | nil =>
      rw [List.nil_append, byteLength, byteLength, List.foldr_nil,
        Nat.zero_add]
  | cons c left inductionHypothesis =>
      change c.utf8Size + byteLength (left ++ right) =
        c.utf8Size + byteLength left + byteLength right
      rw [inductionHypothesis, Nat.add_assoc]

theorem stringRest_le (text : List Char) :
    stringRest text ≤ text.length := by
  induction text with
  | nil =>
      exact Nat.le_refl 0
  | cons c text inductionHypothesis =>
      by_cases quote : c = '"'
      · subst quote
        rw [stringRest, List.length_cons]
        omega
      · rw [stringRest, List.length_cons]
        · omega
        · exact quote

theorem Matches.length_le {text : List Char} {kind : Kind} {length : Nat}
    (found : Matches text kind length) : length ≤ text.length := by
  cases found with
  | word =>
      exact Nat.succ_le_succ (List.takeWhile_prefix _).length_le
  | digits | signed =>
      exact Nat.succ_le_succ (List.takeWhile_prefix _).length_le
  | quoted =>
      exact Nat.succ_le_succ (stringRest_le _)
  | operator found =>
      obtain ⟨rest, split, rfl⟩ := operator?_spec found
      rw [split, List.length_append]
      exact Nat.le_add_right _ _

end Token

namespace Scanner

variable {scanner after : Scanner} {before : List Char}

/-- Taking a token in front of which there is no layout. -/
theorem take_cases {token : Token} (running : scanner.finished = false)
    (place : scanner.offset = Token.byteLength before)
    (noLayout : Token.layoutLength scanner.rest = 0)
    (taken : scanner.take = (.ok token, after)) :
    (scanner.rest = [] ∧ token = Token.endMarker before ∧
        after.finished = true) ∨
      ∃ lexeme rest, scanner.rest = lexeme.text.toList ++ rest ∧
        lexeme.ScansBefore rest ∧
        token = Token.ofLexeme lexeme before ∧
        after = ⟨rest, Token.byteLength (before ++ lexeme.text.toList),
          false⟩ := by
  cases restEq : scanner.rest with
  | nil =>
      rw [take_of_nil restEq, place] at taken
      cases taken
      exact .inl ⟨rfl, rfl, rfl⟩
  | cons c tail =>
      cases found : Token.lexeme? scanner.rest with
      | none =>
          rw [take, restEq] at taken
          rw [restEq] at found
          simp [found] at taken
      | some pair =>
          obtain ⟨kind, length⟩ := pair
          have bound := (Token.matches_of_lexeme? found).length_le
          have textEq : (String.ofList (scanner.rest.take length)).toList =
              scanner.rest.take length := String.toList_ofList
          rw [take_of_lexeme? found, advance, place,
            ← Token.byteLength_append] at taken
          cases taken
          refine .inr ⟨⟨kind, String.ofList (scanner.rest.take length)⟩,
            scanner.rest.drop length, ?_, ⟨?_, ?_⟩, ?_, ?_⟩
          · rw [textEq, List.take_append_drop, restEq]
          · rw [textEq, List.take_append_drop, noLayout]
          · rw [textEq, List.take_append_drop, List.length_take,
              Nat.min_eq_left bound, found]
          · rw [Token.ofLexeme, textEq]
          · rw [textEq, running]

/-- A running scanner that stands behind `before` reads the next lexeme, or it
finishes. -/
theorem next_cases {token : Token} (running : scanner.finished = false)
    (place : scanner.offset = Token.byteLength before)
    (step : scanner.next = (some (.ok token), after)) :
    (Token.Layout [] scanner.rest ∧
        token = Token.endMarker (before ++ scanner.rest) ∧
        after.finished = true) ∨
      ∃ gap lexeme rest,
        scanner.rest = gap ++ (lexeme.text.toList ++ rest) ∧
          Token.Layout (lexeme.text.toList ++ rest) gap ∧
          lexeme.ScansBefore rest ∧
          token = Token.ofLexeme lexeme (before ++ gap) ∧
          after = ⟨rest,
            Token.byteLength (before ++ gap ++ lexeme.text.toList),
            false⟩ := by
  let front := scanner.advance (Token.layoutLength scanner.rest)
  let gap := scanner.rest.take (Token.layoutLength scanner.rest)
  have split : gap ++ front.rest = scanner.rest :=
    List.take_append_drop _ _
  have layout : Token.Layout front.rest gap := Token.layoutCut scanner.rest
  have frontPlace : front.offset = Token.byteLength (before ++ gap) := by
    rw [Token.byteLength_append, ← place]
    rfl
  have frontRunning : front.finished = false := running
  have taken : front.take = (.ok token, after) := by
    rw [next_eq running, Prod.mk.injEq, Option.some.injEq] at step
    exact Prod.ext step.1 step.2
  rcases take_cases frontRunning frontPlace
      (Token.layoutLength_drop scanner.rest) taken with
    ⟨atEnd, tokenEq, finished⟩ |
      ⟨lexeme, rest, restEq, scans, tokenEq, afterEq⟩
  · rw [atEnd, List.append_nil] at split
    rw [atEnd, split] at layout
    rw [split] at tokenEq
    exact .inl ⟨layout, tokenEq, finished⟩
  · rw [restEq] at layout split
    exact .inr ⟨gap, lexeme, rest, split.symm, layout, scans, tokenEq,
      afterEq⟩

theorem finished_of_next (step : scanner.next = (none, after)) :
    scanner.finished = true := by
  by_cases finished : scanner.finished = true
  · exact finished
  · rw [next_eq (by simpa using finished)] at step
    cases step

theorem tokenize_eq_ok {tokens : List Token}
    (run : scanner.tokenize.1 = .ok tokens) :
    scanner.finished = true ∧ tokens = [] ∨
      ∃ token after others, scanner.next = (some (.ok token), after) ∧
        after.tokenize.1 = .ok others ∧ tokens = token :: others := by
  rw [tokenize] at run
  split at run
  · rename_i step
    cases run
    exact .inl ⟨finished_of_next step, rfl⟩
  · cases run
  · rename_i token after step
    split at run
    · rename_i others last othersRun
      cases run
      exact .inr ⟨token, after, others, step,
        congrArg Prod.fst othersRun, rfl⟩
    · cases run

end Scanner

/-- Scanning reads tokens. -/
theorem Scanner.reads_of_tokenize {scanner : Scanner} {before : List Char}
    {tokens : List Token} (running : scanner.finished = false)
    (place : scanner.offset = Token.byteLength before)
    (run : scanner.tokenize.1 = .ok tokens) :
    Token.Reads before scanner.rest tokens := by
  rcases tokenize_eq_ok run with
    ⟨finished, _⟩ | ⟨token, after, others, step, othersRun, rfl⟩
  · rw [running] at finished
    cases finished
  · rcases next_cases running place step with
      ⟨layout, rfl, finished⟩ |
        ⟨gap, lexeme, rest, restEq, layout, scans, rfl, rfl⟩
    · rw [tokenize_of_finished finished] at othersRun
      cases othersRun
      exact .finish layout
    · have := pending_next_lt step
      rw [restEq]
      exact .token layout scans (reads_of_tokenize rfl rfl othersRun)
termination_by scanner.pending

theorem Scanner.next_of_layout {before gap : List Char}
    (layout : Token.Layout [] gap) :
    next ⟨gap, Token.byteLength before, false⟩ =
      (some (.ok (Token.endMarker (before ++ gap))),
        ⟨[], Token.byteLength (before ++ gap), true⟩) := by
  have measured := layout.layoutLength_append
  rw [List.append_nil, Token.layoutLength, Nat.add_zero] at measured
  have front : advance ⟨gap, Token.byteLength before, false⟩ gap.length =
      ⟨[], Token.byteLength (before ++ gap), false⟩ := by
    rw [advance, List.drop_length, List.take_length,
      ← Token.byteLength_append]
  rw [next_eq rfl]
  simp only [measured, front]
  rfl

theorem Scanner.next_of_scansBefore {before gap rest : List Char}
    {lexeme : Lexeme}
    (layout : Token.Layout (lexeme.text.toList ++ rest) gap)
    (scans : lexeme.ScansBefore rest) :
    next ⟨gap ++ (lexeme.text.toList ++ rest), Token.byteLength before,
        false⟩ =
      (some (.ok (Token.ofLexeme lexeme (before ++ gap))),
        ⟨rest, Token.byteLength (before ++ gap ++ lexeme.text.toList),
          false⟩) := by
  obtain ⟨noLayout, found⟩ := scans
  have measured := layout.layoutLength_append
  rw [noLayout, Nat.add_zero] at measured
  have front : advance ⟨gap ++ (lexeme.text.toList ++ rest),
      Token.byteLength before, false⟩ gap.length =
        ⟨lexeme.text.toList ++ rest, Token.byteLength (before ++ gap),
          false⟩ := by
    rw [advance, List.drop_left, List.take_left, ← Token.byteLength_append]
  rw [next_eq rfl]
  simp only [measured, front]
  rw [take_of_lexeme? found]
  simp only [advance, List.take_left, List.drop_left,
    ← Token.byteLength_append, String.ofList_toList]
  rfl

/-- What can be read is scanned. -/
theorem Scanner.tokenize_of_reads {before text : List Char}
    {tokens : List Token} (reads : Token.Reads before text tokens) :
    (tokenize ⟨text, Token.byteLength before, false⟩).1 = .ok tokens := by
  induction reads with
  | finish layout =>
      rw [tokenize_of_next (next_of_layout layout),
        tokenize_of_finished rfl]
      rfl
  | token layout scans _ inductionHypothesis =>
      rw [tokenize_of_next (next_of_scansBefore layout scans),
        inductionHypothesis]
      rfl

theorem Token.scan_eq_ok_iff {source : String} {tokens : List Token} :
    Token.scan source = .ok tokens ↔ Reads [] source.toList tokens := by
  constructor
  · intro scanned
    exact Scanner.reads_of_tokenize rfl rfl scanned
  · intro reads
    exact Scanner.tokenize_of_reads reads

/-! ## How tokens lie in their source -/

namespace Token

/-- A text stands at a range of bytes, both ends of which lie between
characters, in front of `following`. -/
def Stands (source : String) (span : Span) (text following : String) :
    Prop :=
  ∃ before, source = before ++ text ++ following ∧
    span.start = before.utf8ByteSize ∧
    span.stop = (before ++ text).utf8ByteSize

/-- The ranges in front of tokens, each from the end of the token before it;
the first starts at the given offset. -/
def gaps (offset : Nat) : List Token → List Span
  | [] => []
  | token :: tokens => ⟨offset, token.span.start⟩ :: gaps token.span.stop tokens

/-- How the tokens of a source text lie in it: they are pieces of the source
in their order, and only layout stands between them. -/
structure Lossless (source : String) (tokens : List Token) : Prop where
  slice : ∀ token ∈ tokens,
    ∃ following, Stands source token.span token.text following
  nonempty : ∀ token ∈ tokens.dropLast, token.span.start < token.span.stop
  ordered : tokens.Pairwise fun token later =>
    token.span.stop ≤ later.span.start
  marker : tokens.getLast? =
    some ⟨.eof, "", ⟨source.utf8ByteSize, source.utf8ByteSize⟩⟩
  once : ∀ token ∈ tokens.dropLast, token.kind ≠ .eof
  layout : ∀ gap ∈ gaps 0 tokens,
    ∃ text following, Stands source gap text following ∧
      Layout following.toList text.toList

theorem byteLength_eq (text : List Char) :
    byteLength text = (String.ofList text).utf8ByteSize := by
  induction text with
  | nil =>
      rfl
  | cons c text inductionHypothesis =>
      rw [String.ofList_cons, String.utf8ByteSize_append,
        String.utf8ByteSize_singleton, ← inductionHypothesis]
      rfl

theorem stands_of_append (before text following : List Char) :
    Stands (String.ofList (before ++ (text ++ following)))
      ⟨byteLength before, byteLength (before ++ text)⟩
      (String.ofList text) (String.ofList following) := by
  refine ⟨String.ofList before, ?_, byteLength_eq before, ?_⟩
  · rw [String.ofList_append, String.ofList_append, String.append_assoc]
  · rw [← String.ofList_append]
    exact byteLength_eq _

theorem Kind.ofWord_ne_eof (text : String) : Kind.ofWord text ≠ .eof := by
  unfold Kind.ofWord
  split
  all_goals decide

theorem Matches.ne_eof {text : List Char} {kind : Kind} {length : Nat}
    (found : Matches text kind length) : kind ≠ .eof := by
  cases found with
  | word =>
      exact Kind.ofWord_ne_eof _
  | digits | signed | quoted =>
      decide
  | operator found =>
      unfold operator? at found
      split at found
      all_goals cases found
      all_goals decide

namespace Reads

variable {before text : List Char} {tokens : List Token}

theorem ne_nil (reads : Reads before text tokens) : tokens ≠ [] := by
  cases reads with
  | finish =>
      exact List.cons_ne_nil _ _
  | token =>
      exact List.cons_ne_nil _ _

theorem slice (reads : Reads before text tokens) :
    ∀ token ∈ tokens, ∃ following,
      Stands (String.ofList (before ++ text)) token.span token.text
        following := by
  induction reads with
  | @finish before gap layout =>
      intro token member
      rw [List.mem_singleton.mp member]
      have stands := stands_of_append (before ++ gap) [] []
      simp only [List.append_nil] at stands
      exact ⟨_, stands⟩
  | @token before gap rest lexeme tokens layout scans _
      inductionHypothesis =>
      rw [List.append_assoc, List.append_assoc] at inductionHypothesis
      intro token member
      rcases List.mem_cons.mp member with rfl | later
      · have stands :=
          stands_of_append (before ++ gap) lexeme.text.toList rest
        rw [List.append_assoc, String.ofList_toList] at stands
        exact ⟨_, stands⟩
      · exact inductionHypothesis token later

/-- A lexeme has at least one character. -/
theorem text_pos {lexeme : Lexeme} {rest : List Char}
    (scans : lexeme.ScansBefore rest) (before : List Char) :
    byteLength before < byteLength (before ++ lexeme.text.toList) := by
  have nonempty := lexeme?_length_pos scans.2
  cases textEq : lexeme.text.toList with
  | nil =>
      rw [textEq] at nonempty
      cases nonempty
  | cons c tail =>
      have positive := c.utf8Size_pos
      rw [byteLength_append]
      change _ < _ + (c.utf8Size + byteLength tail)
      omega

theorem nonempty (reads : Reads before text tokens) :
    ∀ token ∈ tokens.dropLast, token.span.start < token.span.stop := by
  induction reads with
  | finish layout =>
      intro token member
      cases member
  | token layout scans later inductionHypothesis =>
      intro token member
      rw [List.dropLast_cons_of_ne_nil later.ne_nil] at member
      rcases List.mem_cons.mp member with rfl | inLater
      · exact text_pos scans _
      · exact inductionHypothesis token inLater

theorem le_start (reads : Reads before text tokens) :
    ∀ token ∈ tokens, byteLength before ≤ token.span.start := by
  induction reads with
  | finish layout =>
      intro token member
      rw [List.mem_singleton.mp member, endMarker, byteLength_append]
      exact Nat.le_add_right _ _
  | token layout scans later inductionHypothesis =>
      intro token member
      rcases List.mem_cons.mp member with rfl | inLater
      · rw [ofLexeme, byteLength_append]
        exact Nat.le_add_right _ _
      · have bound := inductionHypothesis token inLater
        rw [byteLength_append, byteLength_append] at bound
        omega

theorem ordered (reads : Reads before text tokens) :
    tokens.Pairwise fun token later =>
      token.span.stop ≤ later.span.start := by
  induction reads with
  | finish layout =>
      exact List.pairwise_singleton _ _
  | token layout scans later inductionHypothesis =>
      exact .cons later.le_start inductionHypothesis

theorem marker (reads : Reads before text tokens) :
    tokens.getLast? = some (endMarker (before ++ text)) := by
  induction reads with
  | finish layout =>
      rfl
  | token layout scans later inductionHypothesis =>
      rw [List.getLast?_cons_of_ne_nil later.ne_nil, inductionHypothesis]
      simp only [List.append_assoc]

theorem once (reads : Reads before text tokens) :
    ∀ token ∈ tokens.dropLast, token.kind ≠ .eof := by
  induction reads with
  | finish layout =>
      intro token member
      cases member
  | token layout scans later inductionHypothesis =>
      intro token member
      rw [List.dropLast_cons_of_ne_nil later.ne_nil] at member
      rcases List.mem_cons.mp member with rfl | inLater
      · exact (matches_of_lexeme? scans.2).ne_eof
      · exact inductionHypothesis token inLater

theorem layout (reads : Reads before text tokens) :
    ∀ gap ∈ gaps (byteLength before) tokens,
      ∃ inner following,
        Stands (String.ofList (before ++ text)) gap inner following ∧
          Layout following.toList inner.toList := by
  induction reads with
  | @finish before gap layout =>
      intro span member
      rw [gaps, gaps, List.mem_singleton] at member
      have stands := stands_of_append before gap []
      rw [List.append_nil] at stands
      refine ⟨_, _, member ▸ stands, ?_⟩
      rwa [String.toList_ofList, String.toList_ofList]
  | @token before gap rest lexeme tokens layout scans later
      inductionHypothesis =>
      have same : before ++ gap ++ lexeme.text.toList ++ rest =
          before ++ (gap ++ (lexeme.text.toList ++ rest)) := by
        simp only [List.append_assoc]
      rw [same] at inductionHypothesis
      intro span member
      rw [gaps, List.mem_cons] at member
      rcases member with here | inLater
      · have stands :=
          stands_of_append before gap (lexeme.text.toList ++ rest)
        refine ⟨_, _, here ▸ stands, ?_⟩
        rwa [String.toList_ofList, String.toList_ofList]
      · exact inductionHypothesis span inLater

end Reads

/-- Whatever scanning accepts, no character of it is lost. -/
theorem scan_lossless {source : String} {tokens : List Token}
    (scanned : Token.scan source = .ok tokens) :
    Lossless source tokens := by
  have reads := scan_eq_ok_iff.mp scanned
  have whole : String.ofList ([] ++ source.toList) = source :=
    String.ofList_toList
  constructor
  · have slices := reads.slice
    rwa [whole] at slices
  · exact reads.nonempty
  · exact reads.ordered
  · rw [reads.marker, endMarker, byteLength_eq, whole]
  · exact reads.once
  · have layouts := reads.layout
    rwa [whole] at layouts

end Token

/-! ## An example -/

namespace Scanner

/-- The tokens that are left, if the scan ends within the given number of
steps. -/
def tokensWithin : Nat → Scanner → Option (List Token)
  | 0, _ => none
  | steps + 1, scanner =>
      match scanner.next with
      | (none, _) => some []
      | (some (.error _), _) => none
      | (some (.ok token), after) =>
          (tokensWithin steps after).map (List.cons token)

theorem tokenize_of_tokensWithin {steps : Nat} {scanner : Scanner}
    {tokens : List Token}
    (within : tokensWithin steps scanner = some tokens) :
    scanner.tokenize.1 = .ok tokens := by
  induction steps generalizing scanner tokens with
  | zero =>
      cases within
  | succ steps inductionHypothesis =>
      rw [tokensWithin] at within
      split at within
      · rename_i step
        cases within
        exact tokenize_of_finished (finished_of_next step)
      · cases within
      · rename_i step
        obtain ⟨others, othersWithin, rfl⟩ :=
          Option.map_eq_some_iff.mp within
        rw [tokenize_of_next step, inductionHypothesis othersWithin]
        rfl

end Scanner

namespace Token

/-- A source with comments that hold signs, an operator right in front of a
number, and a string that is not closed. -/
def commentedSource : String :=
  "/*/ é **/x==-1// ü\n/ \"ß"

def commentedTokens : List Token :=
  [⟨.identifier, "x", ⟨10, 11⟩⟩, ⟨.equal, "==", ⟨11, 13⟩⟩,
    ⟨.integer, "-1", ⟨13, 15⟩⟩, ⟨.slash, "/", ⟨21, 22⟩⟩,
    ⟨.string, "\"ß", ⟨23, 26⟩⟩, ⟨.eof, "", ⟨26, 26⟩⟩]

theorem scan_commented :
    Token.scan commentedSource = .ok commentedTokens := by
  have within : Scanner.tokensWithin 7 (.ofSource commentedSource) =
      some commentedTokens := by
    decide +kernel
  exact Scanner.tokenize_of_tokensWithin within

theorem scan_lossless_commented :
    Token.scan commentedSource = .ok commentedTokens ∧
      Lossless commentedSource commentedTokens :=
  ⟨scan_commented, scan_lossless scan_commented⟩

end Token

end TriggerScript
