import Mathlib.Data.List.DropRight
import TriggerScript.Text.Blank
import TriggerScript.Text.Decimal

/-!
# How texts are cut

What trimming, splitting and cutting a text say about the text: each cut is
undone by putting the pieces together again, and a text that is put together
from suitable pieces is cut into these pieces.
-/

namespace TriggerScript.Text

def AllBlank (text : List Char) : Prop :=
  ∀ c ∈ text, isBlank c = true

theorem AllBlank.append {left right : List Char} (first : AllBlank left)
    (second : AllBlank right) : AllBlank (left ++ right) := by
  intro c member
  rcases List.mem_append.mp member with inLeft | inRight
  · exact first c inLeft
  · exact second c inRight

def blankCodes : List Nat :=
  [0x09, 0x0A, 0x0B, 0x0C, 0x0D, 0x20, 0x85, 0xA0, 0x1680, 0x2000, 0x2001,
    0x2002, 0x2003, 0x2004, 0x2005, 0x2006, 0x2007, 0x2008, 0x2009, 0x200A,
    0x2028, 0x2029, 0x202F, 0x205F, 0x3000]

theorem mem_blankCodes {c : Char} (blank : isBlank c = true) :
    c.toNat ∈ blankCodes := by
  simp only [isBlank, Bool.or_eq_true, Bool.and_eq_true, decide_eq_true_eq,
    beq_iff_eq] at blank
  simp only [blankCodes, List.mem_cons, List.not_mem_nil, or_false]
  omega

/-- What is accepted is no blank if no blank is accepted. -/
theorem isBlank_eq_false {accept : Char → Bool} {c : Char}
    (accepted : accept c = true)
    (refused : blankCodes.any (fun code => accept (Char.ofNat code)) =
      false) : isBlank c = false := by
  rw [Bool.eq_false_iff]
  intro blank
  have found :
      blankCodes.any (fun code => accept (Char.ofNat code)) = true := by
    refine List.any_eq_true.mpr ⟨c.toNat, mem_blankCodes blank, ?_⟩
    rwa [Char.ofNat_toNat]
  rw [refused] at found
  cases found

theorem notMem_of_refused {accept : Char → Bool} {text : List Char}
    {c : Char} (all : ∀ d ∈ text, accept d = true)
    (refused : accept c = false) : c ∉ text := by
  intro member
  rw [all c member] at refused
  cases refused

theorem isBlank_of_isDigit {c : Char} (digit : c.isDigit = true) :
    isBlank c = false :=
  isBlank_eq_false digit (by decide)

/-! ## Trimming -/

theorem trimEnd_eq_rdropWhile (text : List Char) :
    trimEnd text = text.rdropWhile isBlank := rfl

/-- Only blanks are trimmed off the end. -/
theorem exists_eq_trimEnd_append (text : List Char) :
    ∃ gap, text = trimEnd text ++ gap ∧ AllBlank gap := by
  refine ⟨text.rtakeWhile isBlank, ?_, ?_⟩
  · rw [trimEnd_eq_rdropWhile, List.rdropWhile_append_rtakeWhile]
  · exact fun c member => List.mem_rtakeWhile_imp member

theorem trimEnd_append_of_allBlank {text gap : List Char}
    (blank : AllBlank gap) : trimEnd (text ++ gap) = trimEnd text := by
  induction gap using List.reverseRecOn with
  | nil =>
      rw [List.append_nil]
  | append_singleton gap c inductionHypothesis =>
      have isBlank : isBlank c = true := blank c (by simp)
      have others : AllBlank gap := by
        intro d member
        exact blank d (List.mem_append_left [c] member)
      rw [← List.append_assoc, trimEnd_eq_rdropWhile,
        List.rdropWhile_concat_pos _ _ _ isBlank]
      exact inductionHypothesis others

/-- A text that ends in no blank is cut off behind its end. -/
theorem trimEnd_append {text gap : List Char} {last : Char}
    (noBlank : isBlank last = false) (blank : AllBlank gap) :
    trimEnd (text ++ last :: gap) = text ++ [last] := by
  have split : text ++ last :: gap = text ++ [last] ++ gap := by
    rw [List.append_assoc, List.singleton_append]
  rw [split, trimEnd_append_of_allBlank blank, trimEnd_eq_rdropWhile,
    List.rdropWhile_concat_neg]
  rw [noBlank]
  exact Bool.false_ne_true

/-- Blanks are trimmed off both ends. -/
theorem exists_eq_append_trim (text : List Char) :
    ∃ before after, text = before ++ (trim text ++ after) ∧
      AllBlank before ∧ AllBlank after := by
  obtain ⟨after, split, blank⟩ := exists_eq_trimEnd_append (trimStart text)
  refine ⟨text.takeWhile isBlank, after, ?_, ?_, blank⟩
  · rw [trim, ← split, trimStart, List.takeWhile_append_dropWhile]
  · exact List.all_eq_true.mp List.all_takeWhile

/-- Trimming gives the text between blanks that has none at its ends. -/
theorem trim_append {before text after : List Char}
    (blankBefore : AllBlank before) (blankAfter : AllBlank after)
    (noBlank : ∀ c ∈ text, isBlank c = false) :
    trim (before ++ (text ++ after)) = text := by
  rw [trim, trimStart, List.dropWhile_append_of_pos blankBefore]
  rcases List.eq_nil_or_concat' text with rfl | ⟨initial, last, rfl⟩
  · have nothing : after.dropWhile isBlank = [] :=
      List.dropWhile_eq_nil_iff.mpr blankAfter
    rw [List.nil_append, nothing]
    rfl
  · have lastNoBlank : isBlank last = false := noBlank last (by simp)
    have kept : (initial ++ [last] ++ after).dropWhile isBlank =
        initial ++ [last] ++ after := by
      cases initial with
      | nil =>
          exact List.dropWhile_cons_of_neg (by simp [lastNoBlank])
      | cons first initial =>
          have firstNoBlank : isBlank first = false :=
            noBlank first (by simp)
          exact List.dropWhile_cons_of_neg (by simp [firstNoBlank])
    rw [kept, List.append_assoc, List.singleton_append,
      trimEnd_append lastNoBlank blankAfter]

theorem trim_eq_nil_iff {text : List Char} :
    trim text = [] ↔ AllBlank text := by
  constructor
  · intro empty
    obtain ⟨before, after, split, blankBefore, blankAfter⟩ :=
      exists_eq_append_trim text
    rw [split, empty]
    exact blankBefore.append blankAfter
  · intro blank
    have trimmed := @trim_append text [] [] blank (by simp [AllBlank])
      (by simp)
    simpa using trimmed

/-- A trimmed text does not start with a blank. -/
theorem isBlank_head_trim {text : List Char} :
    ∀ c ∈ (trim text).head?, isBlank c = false := by
  intro c isHead
  obtain ⟨gap, split, _⟩ := exists_eq_trimEnd_append (trimStart text)
  obtain ⟨rest, trimmed⟩ := List.head?_eq_some_iff.mp isHead
  have starts : trimStart text = c :: (rest ++ gap) := by
    rw [split]
    change trim text ++ gap = _
    rw [trimmed, List.cons_append]
  have noBlank := List.head?_dropWhile_not isBlank text
  rw [trimStart] at starts
  rw [starts] at noBlank
  exact noBlank

/-- A blank at the end makes no difference to what is trimmed. -/
theorem trim_concat {text : List Char} {c : Char}
    (blank : isBlank c = true) : trim (text ++ [c]) = trim text := by
  by_cases allBlank : AllBlank text
  · have longer : AllBlank (text ++ [c]) := by
      apply allBlank.append
      intro d member
      rwa [List.mem_singleton.mp member]
    rw [trim_eq_nil_iff.mpr longer, trim_eq_nil_iff.mpr allBlank]
  · have someNot : ∃ d ∈ text, ¬ isBlank d = true := by
      simpa [AllBlank] using allBlank
    have kept : trimStart (text ++ [c]) = trimStart text ++ [c] := by
      obtain ⟨d, member, noBlank⟩ := someNot
      rw [trimStart, List.dropWhile_append, if_neg]
      · rfl
      · rw [List.isEmpty_iff, List.dropWhile_eq_nil_iff]
        intro all
        exact noBlank (all d member)
    rw [trim, kept, trimEnd_append_of_allBlank]
    · rfl
    · intro d member
      rwa [List.mem_singleton.mp member]

/-! ## Splitting -/

theorem splitWhere_eq_splitOnP (separates : Char → Bool)
    (text : List Char) :
    splitWhere separates text = text.splitOnP separates := by
  induction text with
  | nil =>
      rw [splitWhere, List.splitOnP_nil]
  | cons c text inductionHypothesis =>
      rw [splitWhere, List.splitOnP_cons_eq_if_modifyHead,
        inductionHypothesis]
      split
      · rfl
      · cases pieces : text.splitOnP separates with
        | nil =>
            exact absurd pieces (List.splitOnP_ne_nil _ _)
        | cons piece pieces =>
            rfl

/-- A text has no separator and is one piece, or it is cut at its first
separator. -/
theorem splitWhere_cases (separates : Char → Bool) (text : List Char) :
    (splitWhere separates text = [text] ∧
        ∀ c ∈ text, separates c = false) ∨
      ∃ before mark after, text = before ++ mark :: after ∧
        separates mark = true ∧ (∀ c ∈ before, separates c = false) ∧
        splitWhere separates text =
          before :: splitWhere separates after := by
  simp only [splitWhere_eq_splitOnP]
  have run : ∀ c ∈ text.takeWhile (!separates ·), separates c = false := by
    intro c member
    have all := List.all_eq_true.mp
      (List.all_takeWhile (p := (!separates ·)) (l := text))
    simpa using all c member
  have split : text.takeWhile (!separates ·) ++
      text.dropWhile (!separates ·) = text :=
    List.takeWhile_append_dropWhile
  cases rest : text.dropWhile (!separates ·) with
  | nil =>
      rw [rest, List.append_nil] at split
      rw [split] at run
      exact .inl ⟨List.splitOnP_eq_singleton run, run⟩
  | cons mark after =>
      have isMark := List.head?_dropWhile_not (!separates ·) text
      rw [rest] at isMark split
      have separated : separates mark = true := by
        simpa using isMark
      refine .inr ⟨_, mark, after, split.symm, separated, run, ?_⟩
      conv_lhs => rw [← split]
      exact List.splitOnP_append_cons_of_forall_mem run mark separated after

theorem splitWhere_of_free {separates : Char → Bool} {text : List Char}
    (free : ∀ c ∈ text, separates c = false) :
    splitWhere separates text = [text] := by
  rw [splitWhere_eq_splitOnP]
  exact List.splitOnP_eq_singleton free

theorem splitWhere_append {separates : Char → Bool}
    {before after : List Char} {mark : Char}
    (free : ∀ c ∈ before, separates c = false)
    (separated : separates mark = true) :
    splitWhere separates (before ++ mark :: after) =
      before :: splitWhere separates after := by
  rw [splitWhere_eq_splitOnP, splitWhere_eq_splitOnP]
  exact List.splitOnP_append_cons_of_forall_mem free mark separated after

/-! ## Lines -/

/-- A line without the carriage return before its line feed. -/
def dropReturn (line : List Char) : List Char :=
  if line.getLast? = some '\r' then line.dropLast else line

/-- The lines of a text, without the line breaks; nothing behind the last
line feed is no line. -/
def lineContents (text : List Char) : List (List Char) :=
  let pieces := text.splitOn '\n'
  pieces.dropLast.map dropReturn ++
    pieces.getLast?.toList.filter fun piece => !piece.isEmpty

theorem trim_dropReturn (line : List Char) :
    trim (dropReturn line) = trim line := by
  unfold dropReturn
  split
  · rename_i isLast
    rw [← trim_concat (c := '\r') rfl, List.dropLast_append_getLast? _ isLast]
  · rfl

/-- Neither carriage returns nor an empty last line make a difference for
trimmed lines that are not empty. -/
theorem filter_trim_lines {keep : List Char → Bool} (text : List Char)
    (skipsEmpty : keep [] = false) :
    ((lines text).map trim).filter keep =
      ((lineContents text).map trim).filter keep := by
  have pieces : lines text = text.splitOn '\n' :=
    splitWhere_eq_splitOnP _ text
  have nonempty : text.splitOn '\n' ≠ [] := List.splitOn_ne_nil _ _
  obtain ⟨initial, last, split⟩ :=
    (List.eq_nil_or_concat' _).resolve_left nonempty
  have returns : initial.map (trim ∘ dropReturn) = initial.map trim :=
    List.map_congr_left fun line _ => trim_dropReturn line
  -- The last piece has no line feed behind it; the others end their lines.
  rw [pieces, lineContents, split]
  simp only [List.dropLast_concat, List.getLast?_concat, Option.toList_some,
    List.map_append, List.filter_append, List.map_map, returns]
  congr 1
  cases last with
  | nil =>
      simpa [trim, trimStart, trimEnd] using skipsEmpty
  | cons c last =>
      rfl

/-! ## Words -/

theorem words_cons_blank {c : Char} (blank : isBlank c = true)
    (text : List Char) : words (c :: text) = words text := by
  rw [words, splitWhere, if_pos blank]
  rfl

theorem words_append_allBlank {gap : List Char} (blank : AllBlank gap)
    (text : List Char) : words (gap ++ text) = words text := by
  induction gap with
  | nil =>
      rfl
  | cons c gap inductionHypothesis =>
      rw [List.cons_append, words_cons_blank (blank c List.mem_cons_self)]
      apply inductionHypothesis
      intro d member
      exact blank d (List.mem_cons_of_mem c member)

/-- A text of no blanks. -/
structure IsWord (text : List Char) : Prop where
  nonempty : text ≠ []
  noBlank : ∀ c ∈ text, isBlank c = false

/-- A word at the front of a text that does not go on with it. -/
theorem words_append_word {word rest : List Char} (isWord : IsWord word)
    (boundary : ∀ c ∈ rest.head?, isBlank c = true) :
    words (word ++ rest) = word :: words rest := by
  cases rest with
  | nil =>
      rw [List.append_nil, words, splitWhere_of_free isWord.noBlank,
        List.filter_cons_of_pos (by simpa using isWord.nonempty)]
      rfl
  | cons c rest =>
      have blank : isBlank c = true := boundary c rfl
      rw [words_cons_blank blank, words,
        splitWhere_append isWord.noBlank blank,
        List.filter_cons_of_pos (by simpa using isWord.nonempty)]
      rfl

/-- A text has only blanks, or it starts with blanks and a word. -/
theorem words_cases (text : List Char) :
    (AllBlank text ∧ words text = []) ∨
      ∃ gap word rest, text = gap ++ (word ++ rest) ∧ AllBlank gap ∧
        IsWord word ∧ (∀ c ∈ rest.head?, isBlank c = true) ∧
        words text = word :: words rest := by
  have blank : AllBlank (text.takeWhile isBlank) :=
    List.all_eq_true.mp List.all_takeWhile
  have split : text.takeWhile isBlank ++ text.dropWhile isBlank = text :=
    List.takeWhile_append_dropWhile
  have sameWords : words text = words (text.dropWhile isBlank) := by
    conv_lhs => rw [← split]
    exact words_append_allBlank blank _
  cases behind : text.dropWhile isBlank with
  | nil =>
      rw [behind, List.append_nil] at split
      rw [split] at blank
      rw [behind] at sameWords
      exact .inl ⟨blank, sameWords⟩
  | cons c tail =>
      have starts := List.head?_dropWhile_not isBlank text
      rw [behind] at starts split sameWords
      have wordEq : (c :: tail).takeWhile (!isBlank ·) ++
          (c :: tail).dropWhile (!isBlank ·) = c :: tail :=
        List.takeWhile_append_dropWhile
      have isWord : IsWord ((c :: tail).takeWhile (!isBlank ·)) := by
        constructor
        · rw [List.takeWhile_cons_of_pos (by simpa using starts)]
          exact List.cons_ne_nil _ _
        · intro d member
          have all := List.all_eq_true.mp
            (List.all_takeWhile (p := (!isBlank ·)) (l := c :: tail))
          simpa using all d member
      have boundary : ∀ d ∈ ((c :: tail).dropWhile (!isBlank ·)).head?,
          isBlank d = true := by
        intro d isHead
        have stops := List.head?_dropWhile_not (!isBlank ·) (c :: tail)
        rw [isHead] at stops
        simpa using stops
      refine .inr ⟨text.takeWhile isBlank, _, _, ?_, blank, isWord,
        boundary, ?_⟩
      · rw [wordEq, split]
      · rw [sameWords, ← words_append_word isWord boundary, wordEq]

theorem words_eq_nil_iff {text : List Char} :
    words text = [] ↔ AllBlank text := by
  constructor
  · intro none
    rcases words_cases text with ⟨blank, _⟩ | ⟨_, _, _, _, _, _, _, some⟩
    · exact blank
    · rw [none] at some
      cases some
  · intro blank
    rw [← List.append_nil text, words_append_allBlank blank]
    rfl

/-- The first word of a text, and what follows it. -/
theorem words_eq_cons {text word : List Char} {others : List (List Char)}
    (split : words text = word :: others) :
    ∃ gap rest, text = gap ++ (word ++ rest) ∧ AllBlank gap ∧
      IsWord word ∧ (∀ c ∈ rest.head?, isBlank c = true) ∧
      words rest = others := by
  rcases words_cases text with
    ⟨_, none⟩ | ⟨gap, found, rest, textEq, blank, isWord, boundary, some⟩
  · rw [split] at none
    cases none
  · rw [split] at some
    obtain ⟨rfl, othersEq⟩ := List.cons.inj some
    exact ⟨gap, rest, textEq, blank, isWord, boundary, othersEq.symm⟩

/-- The texts of exactly two words. -/
theorem words_eq_pair_iff {text first second : List Char} :
    words text = [first, second] ↔
      ∃ before between after,
        text = before ++ (first ++ (between ++ (second ++ after))) ∧
          AllBlank before ∧ AllBlank between ∧ between ≠ [] ∧
          AllBlank after ∧ IsWord first ∧ IsWord second := by
  constructor
  · intro split
    obtain ⟨before, rest, textEq, blankBefore, firstWord, boundary,
      restWords⟩ := words_eq_cons split
    obtain ⟨between, after, restEq, blankBetween, secondWord, _,
      afterWords⟩ := words_eq_cons restWords
    refine ⟨before, between, after, by rw [textEq, restEq], blankBefore,
      blankBetween, ?_, words_eq_nil_iff.mp afterWords, firstWord,
      secondWord⟩
    -- Without a blank between them the two words would be one.
    rintro rfl
    obtain ⟨c, tail, secondEq⟩ :=
      List.exists_cons_of_ne_nil secondWord.nonempty
    have blank : isBlank c = true := by
      apply boundary
      rw [restEq, secondEq]
      rfl
    have noBlank := secondWord.noBlank c (by simp [secondEq])
    rw [blank] at noBlank
    cases noBlank
  · rintro ⟨before, between, after, rfl, blankBefore, blankBetween,
      separated, blankAfter, firstWord, secondWord⟩
    obtain ⟨c, tail, rfl⟩ := List.exists_cons_of_ne_nil separated
    have startsBlank : ∀ d ∈ (c :: tail ++ (second ++ after)).head?,
        isBlank d = true := by
      intro d isHead
      cases isHead
      exact blankBetween c List.mem_cons_self
    have endsBlank : ∀ d ∈ after.head?, isBlank d = true := by
      intro d isHead
      exact blankAfter d (List.mem_of_mem_head? isHead)
    rw [words_append_allBlank blankBefore,
      words_append_word firstWord startsBlank,
      words_append_allBlank blankBetween,
      words_append_word secondWord endsBlank,
      words_eq_nil_iff.mpr blankAfter]

/-! ## Cutting -/

theorem cutFirst?_eq_some {mark : Char} {text before after : List Char}
    (cut : cutFirst? mark text = some (before, after)) :
    text = before ++ mark :: after := by
  induction text generalizing before with
  | nil =>
      cases cut
  | cons c text inductionHypothesis =>
      rw [cutFirst?] at cut
      split at cut
      · rename_i isMark
        cases cut
        rw [beq_iff_eq.mp isMark, List.nil_append]
      · obtain ⟨⟨initial, rest⟩, found, equality⟩ :=
          Option.map_eq_some_iff.mp cut
        cases equality
        rw [List.cons_append, inductionHypothesis found]

theorem cutFirst?_append {mark : Char} {before after : List Char}
    (free : mark ∉ before) :
    cutFirst? mark (before ++ mark :: after) = some (before, after) := by
  induction before with
  | nil =>
      rw [List.nil_append, cutFirst?, if_pos (beq_self_eq_true mark)]
  | cons c before inductionHypothesis =>
      rw [List.mem_cons, not_or] at free
      rw [List.cons_append, cutFirst?, inductionHypothesis free.2,
        if_neg (by simpa using Ne.symm free.1)]
      rfl

theorem cutLastArrow?_eq_some {text before after : List Char}
    (cut : cutLastArrow? text = some (before, after)) :
    text = before ++ '-' :: '>' :: after := by
  induction text generalizing before with
  | nil =>
      cases cut
  | cons c text inductionHypothesis =>
      unfold cutLastArrow? at cut
      split at cut
      · rename_i initial rest found
        cases cut
        rw [List.cons_append, ← inductionHypothesis found]
      · split at cut
        · cases cut
          rfl
        · cases cut

theorem cutLastArrow?_eq_none {text : List Char} (free : '-' ∉ text) :
    cutLastArrow? text = none := by
  induction text with
  | nil =>
      rfl
  | cons c text inductionHypothesis =>
      rw [List.mem_cons, not_or] at free
      unfold cutLastArrow?
      rw [inductionHypothesis free.2]
      dsimp only
      split
      · exact absurd rfl free.1
      · rfl

theorem cutLastArrow?_append {before after : List Char}
    (free : '-' ∉ after) :
    cutLastArrow? (before ++ '-' :: '>' :: after) =
      some (before, after) := by
  induction before with
  | nil =>
      have noneBehind : cutLastArrow? ('>' :: after) = none :=
        cutLastArrow?_eq_none (by simpa using free)
      rw [List.nil_append]
      unfold cutLastArrow?
      rw [noneBehind]
      rfl
  | cons c before inductionHypothesis =>
      rw [List.cons_append]
      unfold cutLastArrow?
      rw [inductionHypothesis]

theorem dropEnd?_eq_some_iff {mark : Char} {text body : List Char} :
    dropEnd? mark text = some body ↔ text = body ++ [mark] := by
  unfold dropEnd?
  constructor
  · intro dropped
    split at dropped
    · rename_i isLast
      cases dropped
      exact (List.dropLast_append_getLast? mark isLast).symm
    · cases dropped
  · rintro rfl
    rw [List.getLast?_concat, if_pos rfl, List.dropLast_concat]

theorem readNat?_eq_some_iff {text : List Char} {value : Nat} :
    readNat? text = some value ↔
      text ≠ [] ∧ (∀ c ∈ text, c.isDigit = true) ∧
        digitsValue text = value := by
  unfold readNat?
  split
  · rename_i refused
    constructor
    · intro impossible
      cases impossible
    · rintro ⟨nonempty, areDigits, _⟩
      obtain ⟨c, member, noDigit⟩ : ∃ c ∈ text, c.isDigit = false := by
        simpa [nonempty] using refused
      rw [areDigits c member] at noDigit
      cases noDigit
  · rename_i accepted
    have digits : text ≠ [] ∧ ∀ c ∈ text, c.isDigit = true := by
      simpa using accepted
    rw [Option.some.injEq]
    exact ⟨fun same => ⟨digits.1, digits.2, same⟩, fun read => read.2.2⟩

end TriggerScript.Text
