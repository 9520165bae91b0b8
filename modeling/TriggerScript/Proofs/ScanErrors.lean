import TriggerScript.Proofs.Lookahead

/-!
# Where scanning stops

Scanning fails at a character that neither starts a token nor belongs to
layout.  Whether it does depends on the character alone, so the text up to the
character scans on its own, and the text behind it does not matter.

* `Token.isStray` holds of the characters that scanning stops at.
* `Scanner.FailsAfter` says which tokens a scanner yields before its error.
-/

namespace TriggerScript

namespace Token

/-! ## Characters that start nothing -/

def startsToken (c : Char) : Bool :=
  isWordStart c || c.isDigit || c == '"' || signs.contains c

/-- The characters that start neither a token nor layout. -/
def isStray (c : Char) : Bool :=
  !isSpace c && !startsToken c

theorem isSome_lexeme? (c : Char) (tail : List Char) :
    (lexeme? (c :: tail)).isSome = startsToken c := by
  rw [lexeme?, startsToken]
  by_cases word : isWordStart c = true
  · rw [if_pos word, word]
    rfl
  by_cases digit : c.isDigit = true
  · rw [if_neg word, if_pos digit, digit, Bool.or_true]
    rfl
  by_cases quote : (c == '"') = true
  · rw [if_neg word, if_neg digit, if_pos quote, quote, Bool.or_true]
    rfl
  rw [if_neg word, if_neg digit, if_neg quote]
  simp only [Bool.not_eq_true] at word digit quote
  rw [word, digit, quote, Bool.false_or, Bool.false_or, Bool.false_or]
  split
  · rename_i signed
    rw [Bool.and_eq_true, beq_iff_eq] at signed
    rw [signed.1]
    rfl
  · rw [Bool.eq_iff_iff, isSome_operator?_iff, List.contains_iff_mem]

theorem isStray_of_lexeme?_eq_none {c : Char} {tail : List Char}
    (noLayout : layoutLength (c :: tail) = 0)
    (refused : lexeme? (c :: tail) = none) : isStray c = true := by
  have noToken : startsToken c = false := by
    rw [← isSome_lexeme? c tail, refused]
    rfl
  have noSpace : isSpace c = false := by
    rw [Bool.eq_false_iff]
    intro space
    rw [layoutLength_space space] at noLayout
    omega
  rw [isStray, noSpace, noToken]
  rfl

section Stray

variable {c : Char} (stray : isStray c = true) (tail : List Char)
include stray

theorem lexeme?_of_isStray : lexeme? (c :: tail) = none := by
  rw [isStray, Bool.and_eq_true, Bool.not_eq_true', Bool.not_eq_true']
    at stray
  rw [← Option.isNone_iff_eq_none, ← Option.not_isSome, isSome_lexeme?,
    stray.2]
  rfl

theorem layoutLength_of_isStray : layoutLength (c :: tail) = 0 := by
  rw [isStray, Bool.and_eq_true, Bool.not_eq_true', Bool.not_eq_true']
    at stray
  refine layoutLength_eq_zero ?_ stray.1
  intro isSlash
  rw [isSlash] at stray
  cases stray.2

end Stray

/-- The error at a character, with the texts in front of it and behind it. -/
def ScanError.atChar (before : List Char) (c : Char) (tail : List Char) :
    ScanError where
  found := c
  offset := byteLength before
  context := String.ofList ((c :: tail).take 10)

end Token

namespace Scanner

open Token

variable {scanner after last : Scanner} {tokens : List Token}
  {error : ScanError}

/-! ## Pulling tokens up to an error -/

/-- Pulling tokens one by one yields these tokens and then the error. -/
def FailsAfter (scanner : Scanner) (tokens : List Token)
    (error : ScanError) : Prop :=
  ∃ last after, scanner.Yields tokens last ∧
    last.next = (some (.error error), after)

theorem failsAfter_of_tokenize (scanner : Scanner)
    (run : scanner.tokenize.1 = .error error) :
    ∃ tokens, scanner.FailsAfter tokens error := by
  cases step : scanner.next with
  | mk result after =>
      rcases result with _ | found | token
      · rw [tokenize_of_finished (finished_of_next step)] at run
        cases run
      · rw [tokenize_of_error step] at run
        cases run
        exact ⟨[], scanner, after, .nil, step⟩
      · have := pending_next_lt step
        rw [tokenize_of_next step] at run
        have runAfter : after.tokenize.1 = .error error := by
          cases outcome : after.tokenize.1 with
          | error found =>
              rw [outcome] at run
              exact run
          | ok others =>
              rw [outcome] at run
              cases run
        obtain ⟨tokens, last, final, yields, fails⟩ :=
          failsAfter_of_tokenize after runAfter
        exact ⟨token :: tokens, last, final, .cons step yields, fails⟩
termination_by scanner.pending

theorem running_of_next {result : Except ScanError Token}
    (step : scanner.next = (some result, after)) :
    scanner.finished = false := by
  rw [Bool.eq_false_iff]
  intro finished
  rw [next, if_pos finished] at step
  cases step

/-- The tokens that a scanner yields while it goes on are read off the front
of its text. -/
theorem Yields.readsUpTo (yields : Yields scanner tokens last)
    (running : last.finished = false) {before : List Char}
    (place : scanner.offset = byteLength before) :
    ∃ front, scanner.rest = front ++ last.rest ∧
      last.offset = byteLength (before ++ front) ∧
      ReadsUpTo last.rest before front tokens := by
  induction yields generalizing before with
  | nil =>
      rw [← List.append_nil before] at place
      exact ⟨[], rfl, place, .here⟩
  | @cons scanner after last token tokens step yields inductionHypothesis =>
      rcases next_cases (running_of_next step) place step with
        ⟨_, _, finished⟩ | ⟨gap, lexeme, rest, restEq, layout, scans, rfl, rfl⟩
      · -- Behind the end marker there is nothing to yield.
        cases yields with
        | nil =>
            rw [finished] at running
            cases running
        | cons behind _ =>
            rw [running_of_next behind] at finished
            cases finished
      · obtain ⟨front, rfl, lastPlace, upTo⟩ :=
          inductionHypothesis running rfl
        refine ⟨gap ++ (lexeme.text.toList ++ front), ?_, ?_,
          .token layout scans upTo⟩
        · rw [restEq, List.append_assoc, List.append_assoc]
        · simpa only [List.append_assoc] using lastPlace

/-- A scanner fails at the first character behind layout, and it is a stray
one. -/
theorem next_error {before : List Char}
    (place : scanner.offset = byteLength before)
    (step : scanner.next = (some (.error error), after)) :
    ∃ gap c tail, scanner.rest = gap ++ c :: tail ∧
      Layout (c :: tail) gap ∧ isStray c = true ∧
      error = .atChar (before ++ gap) c tail := by
  let front := scanner.advance (layoutLength scanner.rest)
  let gap := scanner.rest.take (layoutLength scanner.rest)
  have layout : Layout front.rest gap := layoutCut scanner.rest
  have noLayout : layoutLength front.rest = 0 :=
    layoutLength_drop scanner.rest
  have frontPlace : front.offset = byteLength (before ++ gap) := by
    rw [byteLength_append, ← place]
    rfl
  have split : gap ++ front.rest = scanner.rest :=
    List.take_append_drop _ _
  have failed : front.take.1 = .error error := by
    rw [next_eq (running_of_next step), Prod.mk.injEq,
      Option.some.injEq] at step
    exact step.1
  cases restEq : front.rest with
  | nil =>
      rw [take_of_nil restEq] at failed
      cases failed
  | cons c tail =>
      cases found : lexeme? front.rest with
      | none =>
          rw [take_of_none restEq found, frontPlace, restEq] at failed
          cases failed
          rw [restEq] at layout noLayout split found
          exact ⟨gap, c, tail, split.symm, layout,
            isStray_of_lexeme?_eq_none noLayout found, rfl⟩
      | some pair =>
          rw [take_of_lexeme? found] at failed
          cases failed

theorem next_of_isStray {before gap tail : List Char} {c : Char}
    (layout : Layout (c :: tail) gap) (stray : isStray c = true) :
    ∃ after, next ⟨gap ++ c :: tail, byteLength before, false⟩ =
      (some (.error (.atChar (before ++ gap) c tail)), after) := by
  rw [next_skip layout, next_eq rfl]
  simp only [layoutLength_of_isStray stray, advance]
  rw [take_of_none rfl (lexeme?_of_isStray stray tail), ScanError.atChar,
    byteLength_append]
  exact ⟨_, rfl⟩

/-- Another text behind the stray character changes neither the tokens nor
the error, apart from the context that the error shows. -/
theorem failsAfter_of_readsUpTo {front gap tail : List Char} {c : Char}
    (upTo : ReadsUpTo (gap ++ c :: tail) [] front tokens)
    (layout : Layout (c :: tail) gap) (stray : isStray c = true)
    (other : List Char) :
    FailsAfter ⟨front ++ (gap ++ c :: other), 0, false⟩ tokens
      (.atChar (front ++ gap) c other) := by
  have noneOpen := upTo.not_isOpen (by simp)
  have replaced : ReadsUpTo (gap ++ c :: other) [] front tokens := by
    refine upTo.replace ?_ ?_
    · intro d isHead
      rw [List.head?_append] at isHead ⊢
      exact .inr isHead
    · intro token member isOpen
      exact absurd isOpen (noneOpen token member)
  have otherLayout : Layout (c :: other) gap :=
    layout.replace fun _ isHead => isHead
  obtain ⟨after, fails⟩ := @next_of_isStray front gap other c otherLayout stray
  exact ⟨_, after, replaced.yields, fails⟩

end Scanner

namespace Token

variable {front gap tail : List Char} {c : Char} {tokens : List Token}

/-- The text in front of the stray character scans on its own. -/
theorem ReadsUpTo.scan_front
    (upTo : ReadsUpTo (gap ++ c :: tail) [] front tokens)
    (layout : Layout (c :: tail) gap) :
    Token.scan (String.ofList (front ++ gap)) =
      .ok (tokens ++ [endMarker (front ++ gap)]) := by
  have noneOpen := upTo.not_isOpen (by simp)
  have cut : ReadsUpTo gap [] front tokens := by
    refine upTo.replace ?_ ?_
    · intro d isHead
      rw [List.head?_append, Option.mem_def.mp isHead]
      exact .inr rfl
    · intro token member isOpen
      exact absurd isOpen (noneOpen token member)
  rw [scan_eq_ok_iff, String.toList_ofList]
  exact cut.finish (layout.replace nofun)

/-! ## The error and the tokens in front of it -/

/-- How a scanning error lies in its source text: `before` is the text in
front of it and `tokens` are the tokens of that text. -/
structure CutsAt (source before following : String) (tokens : List Token)
    (error : ScanError) : Prop where
  split : source = before ++ String.singleton error.found ++ following
  offset : error.offset = before.utf8ByteSize
  context : error.context =
    String.ofList ((error.found :: following.toList).take 10)
  fails : (Scanner.ofSource source).FailsAfter tokens error
  stop_le : ∀ token ∈ tokens, token.span.stop ≤ error.offset
  front : Token.scan before =
    .ok (tokens ++ [⟨.eof, "", ⟨error.offset, error.offset⟩⟩])
  anyEnding : ∀ other : String,
    (Scanner.ofSource
        (before ++ String.singleton error.found ++ other)).FailsAfter tokens
      { error with
        context := String.ofList ((error.found :: other.toList).take 10) }

/-- Scanning fails at a character of the source.  The text in front of the
character has exactly the tokens that were yielded before, and every text that
continues with this character yields them and then fails at it. -/
theorem scan_error_cuts {source : String} {error : ScanError}
    (failed : Token.scan source = .error error) :
    ∃ before following tokens, CutsAt source before following tokens error := by
  obtain ⟨tokens, last, after, yields, step⟩ :=
    Scanner.failsAfter_of_tokenize (.ofSource source) failed
  obtain ⟨front, sourceEq, place, upTo⟩ :=
    @Scanner.Yields.readsUpTo _ _ _ yields (Scanner.running_of_next step) []
      rfl
  obtain ⟨gap, c, tail, restEq, layout, stray, rfl⟩ :=
    Scanner.next_error place step
  rw [restEq] at upTo sourceEq
  have started : ∀ other : List Char,
      Scanner.ofSource (String.ofList (front ++ gap) ++ String.singleton c ++
          String.ofList other) =
        ⟨front ++ (gap ++ c :: other), 0, false⟩ := by
    intro other
    rw [Scanner.ofSource]
    simp
  refine ⟨String.ofList (front ++ gap), String.ofList tail, tokens, ?_⟩
  constructor
  case split =>
    apply String.toList_injective
    exact sourceEq.trans (congrArg Scanner.rest (started tail)).symm
  case offset =>
    exact byteLength_eq (front ++ gap)
  case context =>
    rw [String.toList_ofList]
    rfl
  case fails =>
    exact ⟨last, after, yields, step⟩
  case stop_le =>
    intro token member
    have stop := upTo.stop_le token member
    change token.span.stop ≤ byteLength (front ++ gap)
    rw [byteLength_append]
    exact Nat.le_add_right_of_le stop
  case front =>
    exact upTo.scan_front layout
  case anyEnding =>
    intro other
    have fails :=
      Scanner.failsAfter_of_readsUpTo upTo layout stray other.toList
    rw [← started, String.ofList_toList] at fails
    exact fails

def straySource : String :=
  "a=-1/* é */§;"

def strayError : ScanError :=
  ⟨'§', 12, "§;"⟩

theorem scan_stray : Token.scan straySource = .error strayError := by
  have yields : (Scanner.ofSource straySource).Yields
      [⟨.identifier, "a", ⟨0, 1⟩⟩, ⟨.assign, "=", ⟨1, 2⟩⟩,
        ⟨.integer, "-1", ⟨2, 4⟩⟩] ⟨"/* é */§;".toList, 4, false⟩ :=
    .cons rfl (.cons rfl (.cons rfl .nil))
  have step : (Scanner.mk "/* é */§;".toList 4 false).next =
      (some (.error strayError), ⟨"§;".toList, 12, true⟩) := rfl
  rw [Token.scan, yields.tokenize_eq, Scanner.tokenize_of_error step]
  rfl

theorem scan_error_cuts_stray :
    Token.scan straySource = .error strayError ∧
      ∃ before following tokens,
        CutsAt straySource before following tokens strayError :=
  ⟨scan_stray, scan_error_cuts scan_stray⟩

end Token

end TriggerScript
