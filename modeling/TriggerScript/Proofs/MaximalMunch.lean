import TriggerScript.Proofs.Lossless

/-!
# Scanning takes the longest match

The lexical grammar as a list of patterns, and the plain scanner that goes by
it: drop layout piece by piece, then take the longest prefix that fits some
pattern.

* `kindOf?` is the grammar.  It looks at a whole lexeme and at what follows,
  which only matters to a string that is not closed.
* `longest?` tries the prefixes of a text, the longest first.
* `scanFrom` is the scanner.  It gives the same outcome as `Token.scan` on
  every source text.
-/

namespace TriggerScript

namespace Munch

open Token

/-! ## The lexical grammar -/

def keywords : List (String × Kind) :=
  [("on", .keyOn), ("func", .keyFunc), ("if", .keyIf), ("else", .keyElse),
    ("true", .bool), ("false", .bool)]

def operators : List (String × Kind) :=
  [("==", .equal), ("!=", .notEqual), ("<=", .lessEqual),
    (">=", .greaterEqual), ("=", .assign), ("!", .not), ("<", .less),
    (">", .greater), ("(", .leftParen), (")", .rightParen),
    ("\x7b", .leftBrace), ("\x7d", .rightBrace), (";", .semicolon),
    (",", .comma), ("-", .minus), ("+", .plus), ("*", .star),
    ("/", .slash), ("%", .percent)]

def isLetter (c : Char) : Bool :=
  c.isAlpha || ['_', '$'].contains c

/-- A letter with letters and digits behind it. -/
def isWord : List Char → Bool
  | [] => false
  | first :: rest =>
      isLetter first && rest.all fun c => isLetter c || c.isDigit

/-- What belongs to a string behind its opening quote: all through the next
quote, or all through the end of the source. -/
def closesString (following : List Char) : List Char → Bool
  | [] => following.isEmpty
  | c :: rest =>
      if c == '"' then rest.isEmpty else closesString following rest

def isString (following : List Char) : List Char → Bool
  | [] => false
  | first :: rest => first == '"' && closesString following rest

/-- The kind of a lexeme, with what follows it in the source. -/
def kindOf? (following text : List Char) : Option Kind :=
  if isWord text then
    some ((keywords.lookup (String.ofList text)).getD .identifier)
  else if isNumeral (String.ofList text) then
    some .integer
  else if isString following text then
    some .string
  else
    operators.lookup (String.ofList text)

/-- The longest lexeme at the front that has at most so many characters: its
kind and its length. -/
def longestWithin? (text : List Char) : Nat → Option (Kind × Nat)
  | 0 => none
  | bound + 1 =>
      match kindOf? (text.drop (bound + 1)) (text.take (bound + 1)) with
      | some kind => some (kind, bound + 1)
      | none => longestWithin? text bound

def longest? (text : List Char) : Option (Kind × Nat) :=
  longestWithin? text text.length

/-! ## The scanner -/

/-- What stands behind the first `*/`; nothing if there is none. -/
def behindClose : List Char → List Char
  | '*' :: '/' :: rest => rest
  | _ :: rest => behindClose rest
  | [] => []

/-- Drop a single white space or comment.  A line comment ends in front of
its line feed. -/
def dropPiece? : List Char → Option (List Char)
  | '/' :: '/' :: rest => some (rest.dropWhile (· != '\n'))
  | '/' :: '*' :: rest => some (behindClose rest)
  | c :: rest => if [' ', '\t', '\n', '\r'].contains c then some rest else none
  | [] => none

theorem behindClose_length (text : List Char) :
    (behindClose text).length ≤ text.length := by
  fun_induction behindClose text with
  | case1 rest =>
      simp only [List.length_cons]
      omega
  | case2 c rest _ inductionHypothesis =>
      rw [List.length_cons]
      omega
  | case3 =>
      exact Nat.le_refl 0

theorem dropPiece?_length {text rest : List Char}
    (dropped : dropPiece? text = some rest) : rest.length < text.length := by
  unfold dropPiece? at dropped
  split at dropped
  · rename_i inside
    cases dropped
    have bound := (List.dropWhile_suffix (· != '\n') (l := inside)).length_le
    simp only [List.length_cons]
    omega
  · rename_i inside
    cases dropped
    have bound := behindClose_length inside
    simp only [List.length_cons]
    omega
  · split at dropped
    · cases dropped
      exact Nat.lt_succ_self _
    · cases dropped
  · cases dropped

/-- Drop white space and comments as long as there are any. -/
def dropLayout (text : List Char) : List Char :=
  match dropped : dropPiece? text with
  | some rest =>
      have := dropPiece?_length dropped
      dropLayout rest
  | none => text
termination_by text.length

theorem dropLayout_length (text : List Char) :
    (dropLayout text).length ≤ text.length := by
  fun_induction dropLayout text with
  | case1 text rest dropped shorter inductionHypothesis =>
      omega
  | case2 text dropped =>
      exact Nat.le_refl _

theorem longestWithin?_bounds {text : List Char} {bound length : Nat}
    {kind : Kind} (found : longestWithin? text bound = some (kind, length)) :
    0 < length ∧ length ≤ bound := by
  induction bound with
  | zero =>
      cases found
  | succ bound inductionHypothesis =>
      rw [longestWithin?] at found
      split at found
      · cases found
        omega
      · have bounds := inductionHypothesis found
        omega

/-- What is left behind a lexeme is less than there was. -/
theorem length_drop_longest {text : List Char} {kind : Kind} {length : Nat}
    (found : longest? (dropLayout text) = some (kind, length)) :
    ((dropLayout text).drop length).length < text.length := by
  have bounds := longestWithin?_bounds found
  have shorter := dropLayout_length text
  rw [List.length_drop]
  omega

def scanFrom (size : Nat) (text : List Char) :
    Except ScanError (List Token) :=
  let rest := dropLayout text
  let start := size - byteLength rest
  match rest.head? with
  | none => .ok [⟨.eof, "", ⟨start, start⟩⟩]
  | some first =>
      match _found : longest? rest with
      | none => .error ⟨first, start, String.ofList (rest.take 10)⟩
      | some (kind, length) =>
          let stop := size - byteLength (rest.drop length)
          let token :=
            ⟨kind, String.ofList (rest.take length), ⟨start, stop⟩⟩
          (scanFrom size (rest.drop length)).map (List.cons token)
termination_by text.length
decreasing_by exact length_drop_longest _found

def scan (source : String) : Except ScanError (List Token) :=
  scanFrom source.utf8ByteSize source.toList

/-! ## The longest lexeme -/

section Longest

variable {text following : List Char} {kind : Kind}

theorem isLetter_eq (c : Char) : isLetter c = isWordStart c := by
  rw [isLetter, isWordStart, Bool.or_assoc, Bool.eq_iff_iff]
  simp

theorem isWord_cons (first : Char) (rest : List Char) :
    isWord (first :: rest) =
      (isWordStart first && rest.all isWordPart) := by
  simp only [isWord, isLetter_eq]
  rfl

theorem getD_lookup_keywords (word : String) :
    (keywords.lookup word).getD .identifier = Kind.ofWord word := by
  unfold Kind.ofWord
  split
  case h_7 =>
    have missing : keywords.lookup word = none := by
      rw [List.lookup_eq_none_iff]
      simp_all [keywords]
    rw [missing]
    rfl
  all_goals rfl

theorem kindOf?_eq_some (found : kindOf? following text = some kind) :
    isWord text = true ∨ isNumeral (String.ofList text) = true ∨
      isString following text = true ∨
      (String.ofList text, kind) ∈ operators := by
  unfold kindOf? at found
  split at found
  · rename_i word
    exact .inl word
  · split at found
    · rename_i numeral
      exact .inr (.inl numeral)
    · split at found
      · rename_i quoted
        exact .inr (.inr (.inl quoted))
      · obtain ⟨before, after, split, _⟩ :=
          List.lookup_eq_some_iff.mp found
        rw [split]
        exact .inr (.inr (.inr (by simp)))

/-- A string is closed where scanning closes it. -/
theorem closesString_iff :
    closesString following text = true ↔
      stringRest (text ++ following) = text.length := by
  induction text with
  | nil =>
      cases following with
      | nil =>
          simp [closesString, stringRest]
      | cons c following =>
          unfold stringRest
          split <;> simp_all [closesString]
  | cons c rest inductionHypothesis =>
      by_cases quote : c = '"'
      · subst quote
        simp [closesString, stringRest]
      · rw [closesString, if_neg (by simpa using quote), inductionHypothesis,
          List.cons_append, stringRest, List.length_cons]
        · omega
        · exact quote

theorem length_le_takeWhile {accept : Char → Bool}
    (all : ∀ c ∈ text, accept c = true) :
    text.length ≤ ((text ++ following).takeWhile accept).length := by
  rw [List.takeWhile_append_of_pos all, List.length_append]
  exact Nat.le_add_right _ _

/-- Scanning finds a lexeme at the front, and it is at least as long as the
given text. -/
def Covered (text following : List Char) : Prop :=
  ∃ kind length, lexeme? (text ++ following) = some (kind, length) ∧
    text.length ≤ length

theorem covered_of_isWord (word : isWord text = true) :
    Covered text following := by
  cases text with
  | nil =>
      cases word
  | cons first rest =>
      rw [isWord_cons, Bool.and_eq_true, List.all_eq_true] at word
      refine ⟨_, _, (Matches.word word.1).lexeme?_eq, ?_⟩
      exact Nat.succ_le_succ (length_le_takeWhile word.2)

theorem covered_of_isNumeral
    (numeral : isNumeral (String.ofList text) = true) :
    Covered text following := by
  obtain ⟨digits, nonempty, areDigits, split⟩ := isNumeral_iff.mp numeral
  rw [String.toList_ofList] at split
  cases digits with
  | nil =>
      exact absurd rfl nonempty
  | cons digit digits =>
      have isDigit : digit.isDigit = true := areDigits digit (by simp)
      rcases split with rfl | rfl
      · refine ⟨_, _, (Matches.digits isDigit).lexeme?_eq, ?_⟩
        apply Nat.succ_le_succ (length_le_takeWhile _)
        intro c member
        exact areDigits c (List.mem_cons_of_mem digit member)
      · refine ⟨_, _, (Matches.signed (by simpa using isDigit)).lexeme?_eq,
          ?_⟩
        exact Nat.succ_le_succ (length_le_takeWhile areDigits)

theorem covered_of_isString (quoted : isString following text = true) :
    Covered text following := by
  cases text with
  | nil =>
      cases quoted
  | cons first rest =>
      rw [isString, Bool.and_eq_true, beq_iff_eq] at quoted
      obtain ⟨rfl, closed⟩ := quoted
      refine ⟨_, _, Matches.quoted.lexeme?_eq, ?_⟩
      exact Nat.succ_le_succ (Nat.le_of_eq (closesString_iff.mp closed).symm)

/-- Where a sign could be taken, some lexeme is. -/
theorem covered_singleton {c : Char}
    (operator : (operator? (c :: following)).isSome = true) :
    Covered [c] following := by
  have found : (lexeme? (c :: following)).isSome = true := by
    rw [lexeme?]
    split
    · rfl
    · split
      · rfl
      · split
        · rfl
        · split
          · rfl
          · exact operator
  obtain ⟨⟨kind, length⟩, foundEq⟩ := Option.isSome_iff_exists.mp found
  exact ⟨kind, length, foundEq, lexeme?_length_pos foundEq⟩

theorem toList_operators :
    operators.map (fun entry => entry.1.toList) =
      [['=', '='], ['!', '='], ['<', '='], ['>', '=']] ++
        signs.map fun sign => [sign] := by
  decide

theorem covered_of_mem_operators
    (member : (String.ofList text, kind) ∈ operators) :
    Covered text following := by
  have listed := List.mem_map_of_mem (f := fun entry => entry.1.toList) member
  rw [toList_operators, String.toList_ofList, List.mem_append] at listed
  rcases listed with pair | single
  · clear member
    revert text
    simp only [List.forall_mem_cons]
    refine ⟨⟨_, _, rfl, Nat.le_refl _⟩, ⟨_, _, rfl, Nat.le_refl _⟩,
      ⟨_, _, rfl, Nat.le_refl _⟩, ⟨_, _, rfl, Nat.le_refl _⟩, ?_⟩
    intro text member
    cases member
  · obtain ⟨sign, isSign, textEq⟩ := List.mem_map.mp single
    rw [← textEq]
    exact covered_singleton (isSome_operator?_iff.mpr isSign)

/-- No pattern fits more than scanning takes. -/
theorem covered_of_kindOf? (fits : kindOf? following text = some kind) :
    Covered text following := by
  rcases kindOf?_eq_some fits with word | numeral | quoted | operator
  · exact covered_of_isWord word
  · exact covered_of_isNumeral numeral
  · exact covered_of_isString quoted
  · exact covered_of_mem_operators operator

end Longest

theorem kindOf?_of_digits {following text digits : List Char}
    (nonempty : digits ≠ []) (areDigits : ∀ c ∈ digits, c.isDigit = true)
    (split : text = digits ∨ text = '-' :: digits) :
    kindOf? following text = some .integer := by
  have numeral : isNumeral (String.ofList text) = true := by
    rw [isNumeral_iff, String.toList_ofList]
    exact ⟨digits, nonempty, areDigits, split⟩
  have noWord : isWord text = false := by
    rcases split with rfl | rfl
    · cases text with
      | nil =>
          rfl
      | cons digit digits =>
          rw [isWord_cons, isWordStart_of_isDigit (areDigits digit (by simp)),
            Bool.false_and]
    · rfl
  rw [kindOf?, if_neg (by simp [noWord]), if_pos numeral]

theorem kindOf?_of_closesString {following body : List Char}
    (closed : closesString following body = true) :
    kindOf? following ('"' :: body) = some .string := by
  have noNumeral : isNumeral (String.ofList ('"' :: body)) = false := by
    rw [isNumeral, String.toList_ofList]
    rfl
  have quoted : isString following ('"' :: body) = true := closed
  rw [kindOf?, if_neg (by simp [isWord_cons, isWordStart]),
    if_neg (Bool.not_eq_true _ ▸ noNumeral), if_pos quoted]

theorem head?_of_isString {following text : List Char}
    (quoted : isString following text = true) : text.head? = some '"' := by
  cases text with
  | nil =>
      cases quoted
  | cons first rest =>
      rw [isString, Bool.and_eq_true, beq_iff_eq] at quoted
      rw [quoted.1, List.head?_cons]

/-- The operators fit no other pattern, and none of them is listed twice. -/
theorem operators_distinct :
    ∀ entry ∈ operators, isWord entry.1.toList = false ∧
      isNumeral entry.1 = false ∧ entry.1.toList.head? ≠ some '"' ∧
      operators.lookup entry.1 = some entry.2 := by
  decide

theorem mem_operators {text : List Char} {kind : Kind} {length : Nat}
    (found : operator? text = some (kind, length)) :
    (kind.text, kind) ∈ operators := by
  unfold operator? at found
  split at found
  all_goals cases found
  all_goals decide

theorem kindOf?_of_operator? {text : List Char} {kind : Kind} {length : Nat}
    (found : operator? text = some (kind, length)) :
    kindOf? (text.drop length) (text.take length) = some kind := by
  obtain ⟨noWord, noNumeral, noQuote, listed⟩ :=
    operators_distinct _ (mem_operators found)
  obtain ⟨rest, rfl, rfl⟩ := operator?_spec found
  have noString : ¬ isString rest kind.text.toList = true := by
    intro quoted
    exact noQuote (head?_of_isString quoted)
  rw [List.take_left, List.drop_left, kindOf?, if_neg (by simp [noWord]),
    String.ofList_toList, if_neg (by simp [noNumeral]), if_neg noString,
    listed]

/-- What scanning takes fits a pattern. -/
theorem kindOf?_of_matches {text : List Char} {kind : Kind} {length : Nat}
    (found : Matches text kind length) :
    kindOf? (text.drop length) (text.take length) = some kind := by
  cases found with
  | @word c rest starts =>
      have word : isWord (c :: rest.takeWhile isWordPart) = true := by
        rw [isWord_cons, starts]
        exact List.all_takeWhile
      rw [List.take_succ_cons, take_takeWhile, kindOf?, if_pos word,
        getD_lookup_keywords]
  | @digits c rest digit =>
      rw [List.take_succ_cons, take_takeWhile]
      apply kindOf?_of_digits (List.cons_ne_nil _ _) _ (.inl rfl)
      exact List.forall_mem_cons.mpr
        ⟨digit, List.all_eq_true.mp List.all_takeWhile⟩
  | @signed rest digit =>
      rw [List.take_succ_cons, take_takeWhile]
      apply kindOf?_of_digits _ (List.all_eq_true.mp List.all_takeWhile)
        (.inr rfl)
      cases rest with
      | nil =>
          cases digit
      | cons first rest =>
          have isDigit : first.isDigit = true := by simpa using digit
          simp [isDigit]
  | @quoted rest =>
      rw [List.take_succ_cons, List.drop_succ_cons]
      apply kindOf?_of_closesString
      rw [closesString_iff, List.take_append_drop, List.length_take,
        Nat.min_eq_left (stringRest_le rest)]
  | operator found =>
      exact kindOf?_of_operator? found

section Search

variable {text : List Char} {bound : Nat}

theorem longestWithin?_eq_none
    (refused : ∀ length ≤ bound,
      kindOf? (text.drop length) (text.take length) = none) :
    longestWithin? text bound = none := by
  induction bound with
  | zero =>
      rfl
  | succ bound inductionHypothesis =>
      rw [longestWithin?, refused (bound + 1) (Nat.le_refl _)]
      apply inductionHypothesis
      intro length within
      exact refused length (Nat.le_succ_of_le within)

theorem longestWithin?_eq_some {kind : Kind} {length : Nat}
    (positive : 0 < length) (within : length ≤ bound)
    (fits : kindOf? (text.drop length) (text.take length) = some kind)
    (refused : ∀ longer, length < longer → longer ≤ bound →
      kindOf? (text.drop longer) (text.take longer) = none) :
    longestWithin? text bound = some (kind, length) := by
  induction bound with
  | zero =>
      omega
  | succ bound inductionHypothesis =>
      by_cases last : length = bound + 1
      · rw [longestWithin?, ← last, fits]
      · have shorter : length ≤ bound := by omega
        rw [longestWithin?, refused (bound + 1) (by omega) (Nat.le_refl _)]
        apply inductionHypothesis shorter
        intro longer further atMost
        exact refused longer further (Nat.le_succ_of_le atMost)

end Search

/-- Scanning takes the longest prefix that fits a pattern. -/
theorem longest?_eq (text : List Char) : longest? text = lexeme? text := by
  have bounded : ∀ length ≤ text.length,
      kindOf? (text.drop length) (text.take length) = none ∨
        ∃ kind taken, lexeme? text = some (kind, taken) ∧
          length ≤ taken := by
    intro length within
    cases fits : kindOf? (text.drop length) (text.take length) with
    | none =>
        exact .inl rfl
    | some kind =>
        have covered := covered_of_kindOf? fits
        rw [Covered, List.take_append_drop, List.length_take,
          Nat.min_eq_left within] at covered
        exact .inr covered
  cases found : lexeme? text with
  | none =>
      apply longestWithin?_eq_none
      intro length within
      rcases bounded length within with refused | ⟨kind, taken, other, _⟩
      · exact refused
      · rw [found] at other
        cases other
  | some pair =>
      obtain ⟨kind, length⟩ := pair
      have fits := matches_of_lexeme? found
      apply longestWithin?_eq_some (lexeme?_length_pos found) fits.length_le
        (kindOf?_of_matches fits)
      intro longer further within
      rcases bounded longer within with refused | ⟨_, taken, other, atMost⟩
      · exact refused
      · rw [found] at other
        cases other
        omega

/-! ## Layout -/

theorem dropLayout_of_some {text rest : List Char}
    (dropped : dropPiece? text = some rest) :
    dropLayout text = dropLayout rest := by
  rw [dropLayout]
  split
  · rename_i other same
    rw [dropped] at same
    cases same
    rfl
  · rename_i same
    rw [dropped] at same
    cases same

theorem dropLayout_of_none {text : List Char}
    (kept : dropPiece? text = none) : dropLayout text = text := by
  rw [dropLayout]
  split
  · rename_i same
    rw [kept] at same
    cases same
  · rfl

/-- Dropping layout piece by piece drops what scanning measures. -/
theorem dropLayout_eq (text : List Char) :
    dropLayout text = text.drop (layoutLength text) := by
  revert text
  suffices all :
      (∀ text, dropLayout text = text.drop (layoutLength text)) ∧
      (∀ text, dropLayout (behindClose text) =
        text.drop (blockCommentLength text)) ∧
      ∀ text : List Char, dropLayout (text.dropWhile (· != '\n')) =
        text.drop (lineCommentLength text) from all.1
  apply layoutLength.mutual_induct
  case case1 =>
    intro text inside
    rw [dropLayout_of_some rfl, inside, layoutLength, Nat.add_comm,
      List.drop_succ_cons, List.drop_succ_cons]
  case case2 =>
    intro text inside
    rw [dropLayout_of_some rfl, inside, layoutLength, Nat.add_comm,
      List.drop_succ_cons, List.drop_succ_cons]
  case case3 =>
    intro c text notLine notBlock space behind
    have dropped : dropPiece? (c :: text) = some text := by
      rw [dropPiece?, if_pos (by simpa [isSpace, or_assoc] using space)]
      · exact notLine
      · exact notBlock
    rw [dropLayout_of_some dropped, behind, layoutLength_space space,
      Nat.add_comm, List.drop_succ_cons]
  case case4 =>
    intro c text notLine notBlock noSpace
    have kept : dropPiece? (c :: text) = none := by
      rw [dropPiece?, if_neg (by simpa [isSpace, or_assoc] using noSpace)]
      · exact notLine
      · exact notBlock
    rw [dropLayout_of_none kept, layoutLength, if_neg noSpace, List.drop_zero]
    · exact notLine
    · exact notBlock
  case case5 =>
    exact dropLayout_of_none rfl
  case case6 =>
    intro text behind
    rw [behindClose, behind, blockCommentLength, Nat.add_comm,
      List.drop_succ_cons, List.drop_succ_cons]
  case case7 =>
    intro c text notClose behind
    rw [behindClose, behind, blockCommentLength, Nat.add_comm,
      List.drop_succ_cons]
    · exact notClose
    · exact notClose
  case case8 =>
    exact dropLayout_of_none rfl
  case case9 =>
    intro text behind
    have feed : dropPiece? ('\n' :: text) = some text := rfl
    rw [List.dropWhile_cons_of_neg (by simp), dropLayout_of_some feed, behind,
      lineCommentLength, Nat.add_comm, List.drop_succ_cons]
  case case10 =>
    intro c text noFeed behind
    rw [List.dropWhile_cons_of_pos (by simpa using noFeed), behind,
      lineCommentLength, Nat.add_comm, List.drop_succ_cons]
    exact noFeed
  case case11 =>
    exact dropLayout_of_none rfl

end Munch

/-! ## The whole scan -/

namespace Scanner

variable {scanner : Scanner} {size : Nat}

/-- Advancing keeps the end of the source where it is. -/
theorem offset_advance (count : Nat)
    (place : scanner.offset + Token.byteLength scanner.rest = size) :
    (scanner.advance count).offset +
      Token.byteLength (scanner.advance count).rest = size := by
  have split := Token.byteLength_append (scanner.rest.take count)
    (scanner.rest.drop count)
  rw [List.take_append_drop] at split
  simp only [advance]
  omega

end Scanner

/-- A running scanner does what longest match does with the text that is
left. -/
theorem Scanner.tokenize_eq_scanFrom {scanner : Scanner} {size : Nat}
    (running : scanner.finished = false)
    (place : scanner.offset + Token.byteLength scanner.rest = size) :
    scanner.tokenize.1 = Munch.scanFrom size scanner.rest := by
  let front := scanner.advance (Token.layoutLength scanner.rest)
  have frontRest : Munch.dropLayout scanner.rest = front.rest :=
    Munch.dropLayout_eq scanner.rest
  have frontPlace : front.offset + Token.byteLength front.rest = size :=
    offset_advance _ place
  have start : size - Token.byteLength front.rest = front.offset := by
    omega
  have step : scanner.next = (some front.take.1, front.take.2) :=
    next_eq running
  rw [Munch.scanFrom]
  simp only [frontRest, start]
  split
  · rename_i atEnd
    rw [take_of_nil (List.head?_eq_none_iff.mp atEnd)] at step
    rw [tokenize_of_next step, tokenize_of_finished rfl]
    rfl
  · rename_i first starts
    obtain ⟨tail, restEq⟩ := List.head?_eq_some_iff.mp starts
    split
    · rename_i refused
      rw [frontRest, Munch.longest?_eq] at refused
      rw [take_of_none restEq refused] at step
      exact tokenize_of_error step
    · rename_i kind length found
      rw [frontRest, Munch.longest?_eq] at found
      rw [take_of_lexeme? found] at step
      simp only at step
      have shorter := pending_next_lt step
      have afterRunning : (front.advance length).finished = false := running
      have afterPlace := offset_advance length frontPlace
      have stop : size - Token.byteLength (front.rest.drop length) =
          (front.advance length).offset := by
        rw [← afterPlace]
        exact Nat.add_sub_cancel _ _
      have others := tokenize_eq_scanFrom afterRunning afterPlace
      rw [tokenize_of_next step, others, stop]
      rfl
termination_by scanner.pending

/-- Scanning is maximal munch: on every source text it gives the tokens, or
the error, that taking the longest lexeme again and again gives. -/
theorem Token.scan_eq_munch (source : String) :
    Token.scan source = Munch.scan source := by
  apply Scanner.tokenize_eq_scanFrom rfl
  change 0 + Token.byteLength source.toList = source.utf8ByteSize
  rw [Nat.zero_add, Token.byteLength_eq, String.ofList_toList]

end TriggerScript
