import Mathlib.Data.List.Nodup
import TriggerScript.Constant
import TriggerScript.Proofs.Lexemes
import TriggerScript.Text.Decimal

/-!
# Reading the parts of a line back

A line of a listing is put together from parts: words, numbers, columns and
quoted texts.  Where a part is followed by a character that cannot belong to
it, the line determines the part.

* `Text.cut_inj` is this rule, for parts of a class of characters.
* `Text.Numeral` says which digits stand for a number, and `Text.numeral_inj`
  reads them back.
* `Text.quoted_injective` does the same for quoted texts.
-/

namespace TriggerScript

namespace Text

/-! ## Where a part ends -/

/-- Nothing of a class stands at the front. -/
def Stops {α : Type} (accept : α → Bool) (items : List α) : Prop :=
  items.head?.any accept = false

theorem takeWhile_append_of_stops {α : Type} {accept : α → Bool}
    {run rest : List α} (accepted : ∀ item ∈ run, accept item = true)
    (stops : Stops accept rest) :
    (run ++ rest).takeWhile accept = run := by
  rw [List.takeWhile_append_of_pos accepted]
  cases rest with
  | nil =>
      exact List.append_nil run
  | cons item rest =>
      have refused : accept item = false := stops
      rw [List.takeWhile_cons_of_neg (by simp [refused]), List.append_nil]

/-- Two runs of a class are equal if the lists that start with them are, and
so is what follows. -/
theorem cut_inj {α : Type} {accept : α → Bool}
    {first second rest others : List α}
    (same : first ++ rest = second ++ others)
    (inFirst : ∀ item ∈ first, accept item = true)
    (inSecond : ∀ item ∈ second, accept item = true)
    (stops : Stops accept rest) (stopsOther : Stops accept others) :
    first = second ∧ rest = others := by
  have runs : first = second := by
    rw [← takeWhile_append_of_stops inFirst stops, same,
      takeWhile_append_of_stops inSecond stopsOther]
  rw [runs] at same
  exact ⟨runs, List.append_cancel_left same⟩

/-- A list is cut at the first occurrence of an item. -/
theorem cut_at_inj {α : Type} [BEq α] [LawfulBEq α] {mark : α}
    {first second rest others : List α}
    (same : first ++ mark :: rest = second ++ mark :: others)
    (inFirst : mark ∉ first) (inSecond : mark ∉ second) :
    first = second ∧ rest = others := by
  have free : ∀ {items : List α}, mark ∉ items →
      ∀ item ∈ items, (item != mark) = true := by
    intro items absent item member
    rw [bne_iff_ne]
    intro isMark
    exact absent (isMark ▸ member)
  have stops : ∀ items : List α, Stops (· != mark) (mark :: items) := by
    intro items
    simp [Stops]
  obtain ⟨runs, marked⟩ :=
    cut_inj same (free inFirst) (free inSecond) (stops rest) (stops others)
  exact ⟨runs, (List.cons.inj marked).2⟩

/-! ## Numbers and columns -/

/-- Digits with a given value, leading zeros allowed. -/
structure Numeral (number : Nat) (text : List Char) : Prop where
  nonempty : text ≠ []
  digits : ∀ c ∈ text, c.isDigit = true
  value : digitsValue text = number

theorem Numeral.unique {number other : Nat} {text : List Char}
    (shows : Numeral number text) (showsOther : Numeral other text) :
    number = other :=
  shows.value.symm.trans showsOther.value

theorem numeral_inj {number other : Nat}
    {first second rest others : List Char}
    (same : first ++ rest = second ++ others)
    (shows : Numeral number first) (showsOther : Numeral other second)
    (stops : Stops Char.isDigit rest)
    (stopsOther : Stops Char.isDigit others) :
    number = other ∧ rest = others := by
  obtain ⟨digits, behind⟩ :=
    cut_inj same shows.digits showsOther.digits stops stopsOther
  rw [digits] at shows
  exact ⟨shows.unique showsOther, behind⟩

theorem numeral_toString (number : Nat) :
    Numeral number (toString number).toList := by
  have shown : (toString number).toList = Nat.toDigits 10 number :=
    Nat.toList_repr
  rw [shown]
  exact ⟨Nat.toDigits_ne_nil, areDigits_toDigits number,
    digitsValue_toDigits number⟩

theorem toList_pushn (text : String) (c : Char) (count : Nat) :
    (text.pushn c count).toList = text.toList ++ List.replicate count c := by
  rw [String.pushn_eq_repeat_push]
  induction count with
  | zero =>
      exact (List.append_nil _).symm
  | succ count inductionHypothesis =>
      rw [Nat.repeat, String.toList_push, inductionHypothesis,
        List.append_assoc, List.replicate_succ']

theorem toList_column (width : Nat) (text : String) :
    (column width text).toList =
      text.toList ++ List.replicate (width - text.length) ' ' :=
  toList_pushn text ' ' _

theorem numeral_zeroPadded (width number : Nat) :
    Numeral number (zeroPadded width number).toList := by
  have shows := numeral_toString number
  rw [zeroPadded, String.toList_append, toList_pushn]
  refine ⟨?_, ?_, ?_⟩
  · exact List.append_ne_nil_of_right_ne_nil _ shows.nonempty
  · intro c member
    rcases List.mem_append.mp member with padding | digit
    · rw [List.eq_of_mem_replicate padding]
      rfl
    · exact shows.digits c digit
  · have zeros : ∀ count, (List.replicate count '0').foldl
        (fun value c => 10 * value + (c.toNat - '0'.toNat)) 0 = 0 := by
      intro count
      induction count with
      | zero =>
          rfl
      | succ count inductionHypothesis =>
          exact inductionHypothesis
    rw [digitsValue, List.foldl_append]
    change List.foldl _ (List.foldl _ 0 (List.replicate _ '0')) _ = _
    rw [zeros]
    exact shows.value

/-! ## Hexadecimal digits -/

/-- Numbers are written with digits only. -/
theorem notMem_toDigits {base : Nat} (large : 1 < base) {c : Char}
    (noDigit : ∀ digit, Nat.digitChar digit ≠ c) (number : Nat) :
    c ∉ Nat.toDigits base number := by
  induction number using Nat.strongRecOn with
  | ind number inductionHypothesis =>
      rw [Nat.toDigits_eq_if large]
      by_cases small : number < base
      · rw [if_pos small, List.mem_singleton]
        exact (noDigit number).symm
      · rw [if_neg small, List.mem_append, List.mem_singleton, not_or]
        exact ⟨inductionHypothesis (number / base)
          (Nat.div_lt_self (by omega) large), (noDigit _).symm⟩

def hexValue (digits : List Char) : Nat :=
  digits.foldl
    (fun value c => 16 * value + "0123456789abcdef".toList.idxOf c) 0

theorem idxOf_digitChar :
    ∀ digit < 16,
      "0123456789abcdef".toList.idxOf (Nat.digitChar digit) = digit := by
  decide

theorem hexValue_toDigits (number : Nat) :
    hexValue (Nat.toDigits 16 number) = number := by
  have large : 1 < 16 := by
    decide
  induction number using Nat.strongRecOn with
  | ind number inductionHypothesis =>
      rw [Nat.toDigits_eq_if large]
      by_cases small : number < 16
      · rw [if_pos small, hexValue, List.foldl_cons, List.foldl_nil,
          idxOf_digitChar number small, Nat.mul_zero, Nat.zero_add]
      · have front := inductionHypothesis (number / 16)
          (Nat.div_lt_self (by omega) large)
        rw [hexValue] at front
        rw [if_neg small, hexValue, List.foldl_append, front,
          List.foldl_cons, List.foldl_nil,
          idxOf_digitChar _ (Nat.mod_lt number (by decide)),
          Nat.div_add_mod]

/-! ## Quoted texts -/

/-- The characters with an escape of two characters, and its second one. -/
def shortEscapes : List (Char × Char) :=
  [('\x00', '0'), ('\t', 't'), ('\r', 'r'), ('\n', 'n'), ('"', '"'),
    ('\\', '\\')]

/-- A character stands for itself, or it has an escape. -/
theorem spellChar_cases (c : Char) :
    (spellChar c = [c] ∧ c ≠ '\\' ∧ c ≠ '\n') ∨
      (∃ short, spellChar c = ['\\', short] ∧ (c, short) ∈ shortEscapes) ∨
      spellChar c =
        '\\' :: 'u' :: '{' :: (Nat.toDigits 16 c.toNat ++ ['}']) := by
  unfold spellChar
  split
  case h_7 =>
    rename_i noNull noTab noReturn noFeed noQuote noBackslash
    split
    · exact .inl ⟨rfl, noBackslash, noFeed⟩
    · exact .inr (.inr rfl)
  all_goals exact .inr (.inl ⟨_, rfl, by decide⟩)

/-- The character that is spelled at the front, and what follows it. -/
def readSpelled : List Char → Option (Char × List Char)
  | '\\' :: mark :: rest =>
      match shortEscapes.find? (·.2 == mark) with
      | some (c, _) => some (c, rest)
      | none =>
          let digits := (rest.drop 1).takeWhile (· != '}')
          some (Char.ofNat (hexValue digits),
            rest.drop (digits.length + 2))
  | c :: rest => some (c, rest)
  | [] => none

theorem readSpelled_spellChar (c : Char) (rest : List Char) :
    readSpelled (spellChar c ++ rest) = some (c, rest) := by
  rcases spellChar_cases c with
    ⟨plain, noEscape, _⟩ | ⟨mark, short, escaped⟩ | long
  · rw [plain, List.singleton_append, readSpelled]
    intro mark behind isEscape
    exact absurd isEscape noEscape
  · have found : shortEscapes.find? (·.2 == mark) = some (c, mark) := by
      simp only [shortEscapes, List.mem_cons, Prod.mk.injEq,
        List.not_mem_nil, or_false] at escaped
      rcases escaped with ⟨rfl, rfl⟩ | ⟨rfl, rfl⟩ | ⟨rfl, rfl⟩ |
        ⟨rfl, rfl⟩ | ⟨rfl, rfl⟩ | ⟨rfl, rfl⟩
      all_goals rfl
    rw [short, List.cons_append, List.singleton_append, readSpelled, found]
  · have digits : (Nat.toDigits 16 c.toNat ++ '}' :: rest).takeWhile
        (· != '}') = Nat.toDigits 16 c.toNat := by
      apply takeWhile_append_of_stops
      · intro digit member
        rw [bne_iff_ne]
        intro isBrace
        exact notMem_toDigits (by decide)
          (fun _ => Nat.digitChar_ne '}' rfl) c.toNat (isBrace ▸ member)
      · rfl
    have noShort : shortEscapes.find? (·.2 == 'u') = none := rfl
    rw [long, List.cons_append, List.cons_append, List.cons_append,
      List.append_assoc, List.singleton_append, readSpelled, noShort]
    simp only [List.drop_succ_cons, List.drop_zero, digits,
      hexValue_toDigits, Char.ofNat_toNat]
    rw [List.drop_append, List.drop_of_length_le (Nat.le_succ _)]
    simp

theorem feed_notMem_spellChar (c : Char) : '\n' ∉ spellChar c := by
  intro member
  rcases spellChar_cases c with
    ⟨plain, _, noFeed⟩ | ⟨mark, short, escaped⟩ | long
  · rw [plain] at member
    exact noFeed (List.mem_singleton.mp member).symm
  · rw [short, List.mem_cons, List.mem_singleton] at member
    rcases member with isEscape | rfl
    · cases isEscape
    · simp [shortEscapes] at escaped
  · rw [long] at member
    simp only [List.mem_cons, List.mem_append, List.not_mem_nil,
      or_false] at member
    rcases member with isEscape | isLetter | isBrace | inDigits | isBrace
    · cases isEscape
    · cases isLetter
    · cases isBrace
    · exact notMem_toDigits (by decide)
        (fun _ => Nat.digitChar_ne '\n' rfl) c.toNat inDigits
    · cases isBrace

theorem flatMap_spellChar_injective {first second : List Char}
    (same : first.flatMap spellChar = second.flatMap spellChar) :
    first = second := by
  induction first generalizing second with
  | nil =>
      cases second with
      | nil =>
          rfl
      | cons d second =>
          have read := readSpelled_spellChar d (second.flatMap spellChar)
          rw [← List.flatMap_cons, ← same] at read
          cases read
  | cons c first inductionHypothesis =>
      have read := readSpelled_spellChar c (first.flatMap spellChar)
      rw [← List.flatMap_cons, same] at read
      cases second with
      | nil =>
          cases read
      | cons d second =>
          rw [List.flatMap_cons, readSpelled_spellChar, Option.some.injEq,
            Prod.mk.injEq] at read
          rw [read.1, inductionHypothesis read.2.symm]

theorem quoted_injective {first second : String}
    (same : quoted first = quoted second) : first = second := by
  have texts := String.ofList_injective same
  obtain ⟨spelled, _⟩ := List.append_inj' (List.cons.inj texts).2 rfl
  exact String.toList_injective (flatMap_spellChar_injective spelled)

/-! ## Single lines -/

def OneLine (text : String) : Prop :=
  '\n' ∉ text.toList

instance (text : String) : Decidable (OneLine text) :=
  inferInstanceAs (Decidable ('\n' ∉ text.toList))

@[simp]
theorem oneLine_append {first second : String} :
    OneLine (first ++ second) ↔ OneLine first ∧ OneLine second := by
  rw [OneLine, String.toList_append, List.mem_append, not_or]
  rfl

theorem Numeral.oneLine {number : Nat} {text : String}
    (shows : Numeral number text.toList) : OneLine text := by
  intro member
  have digit := shows.digits '\n' member
  cases digit

@[simp]
theorem oneLine_toString (number : Nat) : OneLine (toString number) :=
  (numeral_toString number).oneLine

@[simp]
theorem oneLine_zeroPadded (width number : Nat) :
    OneLine (zeroPadded width number) :=
  (numeral_zeroPadded width number).oneLine

@[simp]
theorem oneLine_column {width : Nat} {text : String} :
    OneLine (column width text) ↔ OneLine text := by
  rw [OneLine, toList_column, List.mem_append, not_or, OneLine,
    and_iff_left]
  intro member
  cases List.eq_of_mem_replicate member

theorem oneLine_quoted (text : String) : OneLine (quoted text) := by
  intro member
  rw [quoted, String.toList_ofList, List.mem_cons, List.mem_append,
    List.mem_flatMap] at member
  rcases member with quote | ⟨c, _, inSpelling⟩ | quote
  · cases quote
  · exact feed_notMem_spellChar c inSpelling
  · cases List.mem_singleton.mp quote

end Text

/-! ## Constants -/

namespace Constant

open Text

theorem toString_injective {first second : Int}
    (same : toString first = toString second) : first = second := by
  have read := readInt?_repr first
  rw [show first.repr = second.repr from same, readInt?_repr] at read
  exact (Option.some.inj read).symm

/-- A constant is known from its type and its text. -/
theorem text_inj {first second : Constant}
    (types : first.type = second.type) (texts : first.text = second.text) :
    first = second := by
  cases first with
  | int value =>
      cases second with
      | int other =>
          rw [Int32.toInt_inj.mp (toString_injective texts)]
      | long | string =>
          cases types
  | long value =>
      cases second with
      | long other =>
          have shown := congrArg String.toList texts
          rw [text, text, String.toList_append, String.toList_append] at shown
          have numbers :=
            String.toList_injective (List.append_cancel_right shown)
          rw [Int64.toInt_inj.mp (toString_injective numbers)]
      | int | string =>
          cases types
  | string value =>
      cases second with
      | string other =>
          rw [quoted_injective texts]
      | int | long =>
          cases types

theorem oneLine_int (number : Int) : OneLine (toString number) := by
  intro member
  have noFeed : '\n' ∉ Nat.toDigits 10 number.natAbs :=
    notMem_toDigits (by decide) (fun _ => Nat.digitChar_ne '\n' rfl) _
  change '\n' ∈ number.repr.toList at member
  rcases toList_repr number with ⟨plain, _⟩ | ⟨signed, _⟩
  · rw [plain] at member
    exact noFeed member
  · rw [signed, List.mem_cons] at member
    rcases member with isSign | inDigits
    · cases isSign
    · exact noFeed inDigits

theorem oneLine_text (constant : Constant) : OneLine constant.text := by
  cases constant with
  | int value =>
      exact oneLine_int value.toInt
  | long value =>
      exact oneLine_append.mpr ⟨oneLine_int value.toInt, by decide⟩
  | string value =>
      exact oneLine_quoted value

end Constant

end TriggerScript
