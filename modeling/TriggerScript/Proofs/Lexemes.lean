import TriggerScript.Node.Basic
import TriggerScript.Token.Scanner

/-!
# Writing and scanning lexemes

A lexeme is the kind and the text of a token, without its place in the
source.  Lexemes written one after the other, each with a space behind it,
are scanned as these lexemes again.  Conversely the text of every token that
scanning returns has the form its kind asks for: names are words that are not
reserved, integers are digits behind at most one minus sign, and what stands
between the quotes of a string has no quote in it.
-/

namespace TriggerScript

/-! ## The forms of names, integers and strings -/

namespace Token

def reserved : List String :=
  ["on", "func", "if", "else", "true", "false"]

def isName (text : String) : Bool :=
  match text.toList with
  | [] => false
  | first :: rest =>
      isWordStart first && rest.all isWordPart && !reserved.contains text

/-- Whether a text is a nonempty row of digits behind at most one minus
sign. -/
def isNumeral (text : String) : Bool :=
  match text.toList with
  | '-' :: digits => !digits.isEmpty && digits.all Char.isDigit
  | digits => !digits.isEmpty && digits.all Char.isDigit

theorem Kind.ofWord_eq_identifier_iff {text : String} :
    Kind.ofWord text = .identifier ↔ text ∉ reserved := by
  unfold Kind.ofWord
  split
  all_goals simp_all [reserved]

theorem Kind.ofWord_ne {text : String} :
    Kind.ofWord text ≠ .integer ∧ Kind.ofWord text ≠ .string := by
  unfold Kind.ofWord
  split
  all_goals simp

theorem isName_iff {text : String} :
    isName text = true ↔
      ∃ first rest, text.toList = first :: rest ∧
        isWordStart first = true ∧ (∀ c ∈ rest, isWordPart c = true) ∧
        Kind.ofWord text = .identifier := by
  rw [Kind.ofWord_eq_identifier_iff, isName]
  cases text.toList with
  | nil =>
      simp
  | cons first rest =>
      simp [and_assoc]

theorem isNumeral_iff {text : String} :
    isNumeral text = true ↔
      ∃ digits, digits ≠ [] ∧ (∀ c ∈ digits, c.isDigit = true) ∧
        (text.toList = digits ∨ text.toList = '-' :: digits) := by
  unfold isNumeral
  constructor
  · intro numeral
    split at numeral
    · rename_i digits signed
      obtain ⟨nonempty, areDigits⟩ : digits ≠ [] ∧
          ∀ c ∈ digits, c.isDigit = true := by
        simpa using numeral
      exact ⟨digits, nonempty, areDigits, .inr signed⟩
    · obtain ⟨nonempty, areDigits⟩ : text.toList ≠ [] ∧
          ∀ c ∈ text.toList, c.isDigit = true := by
        simpa using numeral
      exact ⟨text.toList, nonempty, areDigits, .inl rfl⟩
  · rintro ⟨digits, nonempty, areDigits, plain | signed⟩
    · rw [plain]
      split
      · have impossible := areDigits '-' (by simp)
        cases impossible
      · simpa using ⟨nonempty, areDigits⟩
    · rw [signed]
      simpa using ⟨nonempty, areDigits⟩

theorem ofQuoted_eq {text body tail : List Char}
    (split : text = '"' :: (body ++ tail)) (noQuote : '"' ∉ body)
    (closed : tail = [] ∨ tail = ['"']) :
    Literal.ofQuoted (String.ofList text) =
      .string (String.ofList body) := by
  rcases closed with rfl | rfl
  · have lastNe : body.getLast? ≠ some '"' := by
      intro last
      exact noQuote (List.mem_of_getLast? last)
    simp [Literal.ofQuoted, split, lastNe]
  · simp [Literal.ofQuoted, split]

end Token

/-! ## Decimal numbers -/

namespace Text

theorem readInt?_of_digits {digits : List Char} (nonempty : digits ≠ [])
    (areDigits : ∀ c ∈ digits, c.isDigit = true) :
    readInt? digits = some (digitsValue digits : Int) ∧
      readInt? ('-' :: digits) = some (-(digitsValue digits : Int)) := by
  have read : readNat? digits = some (digitsValue digits) := by
    rw [readNat?, if_neg]
    simpa [nonempty] using areDigits
  constructor
  · unfold readInt?
    split
    · have impossible := areDigits '-' (by simp)
      cases impossible
    · have impossible := areDigits '+' (by simp)
      cases impossible
    · rw [read]
      rfl
  · rw [readInt?, read]
    rfl

theorem areDigits_toDigits (number : Nat) :
    ∀ c ∈ Nat.toDigits 10 number, c.isDigit = true := by
  intro c member
  exact Nat.isDigit_of_mem_toDigits (by decide) (by decide) member

theorem digitsValue_toDigits (number : Nat) :
    digitsValue (Nat.toDigits 10 number) = number := by
  calc digitsValue (Nat.toDigits 10 number)
    _ = Nat.ofDigitChars 10 (Nat.toDigits 10 number) 0 :=
        Nat.ofDigitChars_eq_foldl.symm
    _ = number := Nat.ofDigitChars_ten_toDigits

theorem toList_repr (number : Int) :
    number.repr.toList = Nat.toDigits 10 number.natAbs ∧ 0 ≤ number ∨
      number.repr.toList = '-' :: Nat.toDigits 10 number.natAbs ∧
        number < 0 := by
  rw [Int.repr_eq_if]
  by_cases nonneg : 0 ≤ number
  · have absEq : number.toNat = number.natAbs := by
      omega
    rw [if_pos nonneg, Nat.toList_repr, absEq]
    exact .inl ⟨rfl, nonneg⟩
  · have absEq : (-number).toNat = number.natAbs := by
      omega
    rw [if_neg nonneg, String.toList_append, Nat.toList_repr, absEq]
    exact .inr ⟨rfl, by omega⟩

theorem readInt?_repr (number : Int) :
    readInt? number.repr.toList = some number := by
  obtain ⟨plainRead, signedRead⟩ :=
    readInt?_of_digits Nat.toDigits_ne_nil
      (areDigits_toDigits number.natAbs)
  rw [digitsValue_toDigits] at plainRead signedRead
  rcases toList_repr number with ⟨plain, nonneg⟩ | ⟨signed, negative⟩
  · rw [plain, plainRead, Int.natAbs_of_nonneg nonneg]
  · rw [signed, signedRead]
    congr 1
    omega

theorem isNumeral_repr (number : Int) :
    Token.isNumeral number.repr = true := by
  apply Token.isNumeral_iff.mpr
  refine ⟨Nat.toDigits 10 number.natAbs, Nat.toDigits_ne_nil,
    areDigits_toDigits _, ?_⟩
  rcases toList_repr number with ⟨plain, _⟩ | ⟨signed, _⟩
  · exact .inl plain
  · exact .inr signed

end Text

/-! ## Writing lexemes -/

/-- A token without its place. -/
structure Lexeme where
  kind : Token.Kind
  text : String

def Token.lexeme (token : Token) : Lexeme where
  kind := token.kind
  text := token.text

namespace Lexeme

def name (text : String) : Lexeme where
  kind := .identifier
  text := text

def numeral (text : String) : Lexeme where
  kind := .integer
  text := text

def sign (kind : Token.Kind) : Lexeme where
  kind := kind
  text := kind.text

/-- The characters of some lexemes, with a space behind each. -/
def chars (lexemes : List Lexeme) : List Char :=
  lexemes.flatMap fun lexeme => lexeme.text.toList ++ [' ']

/-- The lexeme is what scanning finds where its text is written. -/
def Scans (lexeme : Lexeme) : Prop :=
  ∀ rest, Token.layoutLength (lexeme.text.toList ++ ' ' :: rest) = 0 ∧
    Token.lexeme? (lexeme.text.toList ++ ' ' :: rest) =
      some (lexeme.kind, lexeme.text.toList.length)

end Lexeme

namespace Token

theorem layoutLength_eq_zero {c : Char} {rest : List Char}
    (noComment : c ≠ '/') (noSpace : isSpace c = false) :
    layoutLength (c :: rest) = 0 := by
  unfold layoutLength
  split
  · rename_i equality
    cases equality
    exact absurd rfl noComment
  · rename_i equality
    cases equality
    exact absurd rfl noComment
  · rename_i equality
    cases equality
    simp [noSpace]
  · rename_i equality
    cases equality

theorem isSpace_iff {c : Char} :
    isSpace c = true ↔ c = ' ' ∨ c = '\t' ∨ c = '\n' ∨ c = '\r' := by
  simp [isSpace, or_assoc]

/-- What does not accept the characters layout starts with starts none. -/
theorem noLayout {accept : Char → Bool} {c : Char}
    (accepted : accept c = true)
    (refused : ['/', ' ', '\t', '\n', '\r'].any accept = false) :
    c ≠ '/' ∧ isSpace c = false := by
  have differs : ∀ other ∈ ['/', ' ', '\t', '\n', '\r'], c ≠ other := by
    rintro other member rfl
    have found : ['/', ' ', '\t', '\n', '\r'].any accept = true :=
      List.any_eq_true.mpr ⟨c, member, accepted⟩
    rw [refused] at found
    cases found
  constructor
  · exact differs '/' (by simp)
  · rw [Bool.eq_false_iff]
    intro space
    rcases isSpace_iff.mp space with blank | blank | blank | blank
    all_goals exact differs _ (by simp) blank

theorem isWordStart_of_isDigit {c : Char} (digit : c.isDigit = true) :
    isWordStart c = false := by
  have noLetter : ∀ code ≤ '9'.toNat, '0'.toNat ≤ code →
      isWordStart (Char.ofNat code) = false := by
    decide
  obtain ⟨lower, upper⟩ := Char.isDigit_iff_toNat.mp digit
  rw [← Char.ofNat_toNat c]
  exact noLetter c.toNat upper lower

theorem takeWhile_append_space {accept : Char → Bool}
    {accepted rest : List Char}
    (all : ∀ c ∈ accepted, accept c = true)
    (noSpace : accept ' ' = false) :
    (accepted ++ ' ' :: rest).takeWhile accept = accepted := by
  rw [List.takeWhile_append_of_pos all]
  simp [noSpace]

end Token

namespace Lexeme

open Token

theorem scans_word {text : String} {first : Char} {rest : List Char}
    (split : text.toList = first :: rest)
    (starts : isWordStart first = true)
    (goesOn : rest.all isWordPart = true) :
    Scans ⟨Kind.ofWord text, text⟩ := by
  intro behind
  obtain ⟨noComment, noSpace⟩ := noLayout starts rfl
  have textEq : String.ofList (first :: rest) = text := by
    rw [← split, String.ofList_toList]
  rw [split]
  constructor
  · exact layoutLength_eq_zero noComment noSpace
  · rw [List.cons_append, lexeme?, if_pos starts,
      takeWhile_append_space (List.all_eq_true.mp goesOn) rfl]
    simp only [textEq]

theorem scans_name {text : String} (named : isName text = true) :
    Scans (name text) := by
  obtain ⟨first, rest, split, starts, goesOn, kindEq⟩ :=
    isName_iff.mp named
  have scans := scans_word split starts (List.all_eq_true.mpr goesOn)
  rwa [kindEq] at scans

theorem scans_numeral {text : String} (written : isNumeral text = true) :
    Scans (numeral text) := by
  intro behind
  obtain ⟨digits, nonempty, areDigits, plain | signed⟩ :=
    isNumeral_iff.mp written
  · cases digits with
    | nil =>
        exact absurd rfl nonempty
    | cons first others =>
        obtain ⟨isDigit, othersDigits⟩ := List.forall_mem_cons.mp areDigits
        obtain ⟨noComment, noSpace⟩ := noLayout isDigit rfl
        have noWord := isWordStart_of_isDigit isDigit
        change layoutLength (text.toList ++ _) = 0 ∧
          lexeme? (text.toList ++ _) = some (.integer, text.toList.length)
        rw [plain]
        constructor
        · exact layoutLength_eq_zero noComment noSpace
        · rw [List.cons_append, lexeme?, if_neg (by simp [noWord]),
            if_pos isDigit, takeWhile_append_space othersDigits rfl,
            List.length_cons, Nat.add_comm]
  · change layoutLength (text.toList ++ _) = 0 ∧
      lexeme? (text.toList ++ _) = some (.integer, text.toList.length)
    rw [signed]
    constructor
    · exact layoutLength_eq_zero (by decide) (by decide)
    · have digitBehind :
          (digits ++ ' ' :: behind).head?.any Char.isDigit = true := by
        cases digits with
        | nil =>
            exact absurd rfl nonempty
        | cons first others =>
            simpa using areDigits first (by simp)
      rw [List.cons_append, lexeme?, if_neg (by decide),
        if_neg (by decide), if_neg (by decide),
        if_pos (by simpa using digitBehind),
        takeWhile_append_space areDigits rfl, List.length_cons,
        Nat.add_comm]

def quoted (body : String) : Lexeme where
  kind := .string
  text := String.ofList ('"' :: (body.toList ++ ['"']))

theorem stringRest_append {body rest : List Char} (noQuote : '"' ∉ body) :
    stringRest (body ++ '"' :: rest) = body.length + 1 := by
  induction body with
  | nil =>
      rfl
  | cons c body inductionHypothesis =>
      have headNe : c ≠ '"' := by
        rintro rfl
        exact noQuote List.mem_cons_self
      have tailFree : '"' ∉ body := by
        intro member
        exact noQuote (List.mem_cons_of_mem c member)
      rw [List.cons_append, stringRest, inductionHypothesis tailFree,
        List.length_cons, Nat.add_comm]
      exact headNe

theorem scans_quoted {body : String} (noQuote : '"' ∉ body.toList) :
    Scans (quoted body) := by
  intro behind
  simp only [quoted, String.toList_ofList, List.cons_append,
    List.append_assoc]
  constructor
  · exact layoutLength_eq_zero (by decide) (by decide)
  · rw [lexeme?, if_neg (by decide), if_neg (by decide),
      if_pos (by decide), List.nil_append, stringRest_append noQuote]
    simp
    omega

theorem scans_sign {kind : Kind}
    (fixed : kind ∉ [.integer, .string, .bool, .identifier, .eof]) :
    Scans (sign kind) := by
  intro behind
  cases kind
  case integer | string | bool | identifier | eof =>
    simp at fixed
  case keyOn | keyFunc | keyIf | keyElse =>
    exact scans_word rfl rfl rfl behind
  all_goals exact ⟨rfl, rfl⟩

end Lexeme

/-! ## Scanning what was written -/

namespace Scanner

variable {scanner after : Scanner}

theorem tokenize_of_next {token : Token}
    (step : scanner.next = (some (.ok token), after)) :
    scanner.tokenize.1 = after.tokenize.1.map (List.cons token) := by
  rw [tokenize]
  split
  · rename_i other
    rw [step] at other
    cases other
  · rename_i other
    rw [step] at other
    cases other
  · rename_i found other
    rw [step] at other
    cases other
    cases rest : after.tokenize with
    | mk result last =>
        cases result with
        | error error =>
            rfl
        | ok tokens =>
            rfl

theorem tokenize_of_error {error : Token.ScanError}
    (step : scanner.next = (some (.error error), after)) :
    scanner.tokenize.1 = .error error := by
  rw [tokenize]
  split
  · rename_i other
    rw [step] at other
    cases other
  · rename_i other
    rw [step] at other
    cases other
    rfl
  · rename_i other
    rw [step] at other
    cases other

theorem take_of_nil (atEnd : scanner.rest = []) :
    scanner.take =
      (.ok ⟨.eof, "", ⟨scanner.offset, scanner.offset⟩⟩,
        scanner.finish) := by
  unfold take
  split
  · rfl
  · rename_i nonempty
    rw [atEnd] at nonempty
    cases nonempty

theorem take_of_lexeme? {kind : Token.Kind} {length : Nat}
    (found : Token.lexeme? scanner.rest = some (kind, length)) :
    scanner.take =
      (.ok ⟨kind, String.ofList (scanner.rest.take length),
        ⟨scanner.offset, (scanner.advance length).offset⟩⟩,
        scanner.advance length) := by
  unfold take
  split
  · rename_i atEnd
    rw [atEnd] at found
    cases found
  · rw [found]

theorem take_of_none {first : Char} {tail : List Char}
    (restEq : scanner.rest = first :: tail)
    (refused : Token.lexeme? scanner.rest = none) :
    scanner.take =
      (.error ⟨first, scanner.offset,
        String.ofList (scanner.rest.take 10)⟩, scanner.finish) := by
  unfold take
  split
  · rename_i atEnd
    rw [restEq] at atEnd
    cases atEnd
  · rename_i other
    rw [restEq] at other
    cases other
    rw [refused]

theorem next_eq (running : scanner.finished = false) :
    scanner.next =
      (some (scanner.advance (Token.layoutLength scanner.rest)).take.1,
        (scanner.advance (Token.layoutLength scanner.rest)).take.2) := by
  rw [next, if_neg (by simp [running])]

theorem tokenize_of_finished (finished : scanner.finished = true) :
    scanner.tokenize.1 = .ok [] := by
  have step : scanner.next = (none, scanner) := by
    rw [next, if_pos finished]
  rw [tokenize]
  split
  · rfl
  · rename_i other
    rw [step] at other
    cases other
  · rename_i other
    rw [step] at other
    cases other

end Scanner

theorem Lexeme.layoutLength_chars {lexemes : List Lexeme}
    (scans : ∀ lexeme ∈ lexemes, lexeme.Scans) :
    Token.layoutLength (chars lexemes) = 0 := by
  cases lexemes with
  | nil =>
      rfl
  | cons lexeme others =>
      have first := (scans lexeme List.mem_cons_self (chars others)).1
      simpa [chars] using first

/-- Lexemes that stand behind layout are scanned one by one, and then the end
marker. -/
theorem Scanner.tokenize_chars {lexemes : List Lexeme} {scanner : Scanner}
    (running : scanner.finished = false)
    (front : scanner.rest.drop (Token.layoutLength scanner.rest) =
      Lexeme.chars lexemes)
    (scans : ∀ lexeme ∈ lexemes, lexeme.Scans) :
    ∃ tokens marker, scanner.tokenize.1 = .ok (tokens ++ [marker]) ∧
      tokens.map Token.lexeme = lexemes ∧ marker.kind = .eof := by
  induction lexemes generalizing scanner with
  | nil =>
      have step := next_eq running
      rw [take_of_nil front] at step
      rw [tokenize_of_next step, tokenize_of_finished rfl]
      exact ⟨[], _, rfl, rfl, rfl⟩
  | cons lexeme others inductionHypothesis =>
      obtain ⟨lexemeScans, othersScan⟩ := List.forall_mem_cons.mp scans
      obtain ⟨_, found⟩ := lexemeScans (Lexeme.chars others)
      have split : Lexeme.chars (lexeme :: others) =
          lexeme.text.toList ++ ' ' :: Lexeme.chars others := by
        simp [Lexeme.chars]
      rw [split] at front
      rw [← front] at found
      have step := next_eq running
      rw [take_of_lexeme? found] at step
      -- Behind the lexeme stands one space, and no layout behind that.
      generalize afterEq :
        (scanner.advance (Token.layoutLength scanner.rest)).advance
          lexeme.text.toList.length = after at step
      have stillRunning : after.finished = false := by
        rw [← afterEq]
        exact running
      have afterRest : after.rest = ' ' :: Lexeme.chars others := by
        rw [← afterEq]
        change (scanner.rest.drop _).drop _ = _
        rw [front, List.drop_left]
      have afterFront :
          after.rest.drop (Token.layoutLength after.rest) =
            Lexeme.chars others := by
        have noLayout := Lexeme.layoutLength_chars othersScan
        have oneSpace :
            Token.layoutLength (' ' :: Lexeme.chars others) = 1 := by
          change 1 + Token.layoutLength (Lexeme.chars others) = 1
          rw [noLayout]
        rw [afterRest, oneSpace]
        rfl
      obtain ⟨tokens, marker, run, same, ends⟩ :=
        inductionHypothesis stillRunning afterFront othersScan
      rw [tokenize_of_next step, run]
      refine ⟨_ :: tokens, marker, rfl, ?_, ends⟩
      have textEq : String.ofList
          ((scanner.rest.drop (Token.layoutLength scanner.rest)).take
            lexeme.text.toList.length) = lexeme.text := by
        rw [front, List.take_left, String.ofList_toList]
      rw [List.map_cons, same]
      exact congrArg (fun text => Lexeme.mk lexeme.kind text :: others)
        textEq

def Lexeme.render (lexemes : List Lexeme) : String :=
  String.ofList (chars lexemes)

theorem Token.scan_render {lexemes : List Lexeme}
    (scans : ∀ lexeme ∈ lexemes, lexeme.Scans) :
    ∃ tokens marker,
      Token.scan (Lexeme.render lexemes) = .ok (tokens ++ [marker]) ∧
        tokens.map Token.lexeme = lexemes ∧ marker.kind = .eof := by
  apply Scanner.tokenize_chars rfl _ scans
  have front : (Scanner.ofSource (Lexeme.render lexemes)).rest =
      Lexeme.chars lexemes :=
    String.toList_ofList
  rw [front, Lexeme.layoutLength_chars scans, List.drop_zero]

/-! ## What scanning returns -/

/-- The text of a token has the form its kind asks for. -/
structure Token.Spelled (token : Token) : Prop where
  name : token.kind = .identifier → isName token.text = true
  numeral : token.kind = .integer → isNumeral token.text = true
  quoted : token.kind = .string →
    ∃ body, Literal.ofQuoted token.text = .string body ∧
      '"' ∉ body.toList

namespace Token

theorem take_stringRest (text : List Char) :
    ∃ body tail, text.take (stringRest text) = body ++ tail ∧
      '"' ∉ body ∧ (tail = [] ∨ tail = ['"']) := by
  induction text with
  | nil =>
      exact ⟨[], [], rfl, by simp, .inl rfl⟩
  | cons c text inductionHypothesis =>
      by_cases quote : c = '"'
      · subst quote
        exact ⟨[], ['"'], rfl, by simp, .inr rfl⟩
      · obtain ⟨body, tail, split, noQuote, closed⟩ := inductionHypothesis
        refine ⟨c :: body, tail, ?_, ?_, closed⟩
        · rw [stringRest, Nat.add_comm, List.take_succ_cons, split]
          · rfl
          · exact quote
        · intro member
          rcases List.mem_cons.mp member with same | member
          · exact quote same.symm
          · exact noQuote member

theorem take_takeWhile (accept : Char → Bool) (text : List Char) :
    text.take (text.takeWhile accept).length = text.takeWhile accept := by
  have isPrefix := List.takeWhile_prefix accept (l := text)
  exact (List.prefix_iff_eq_take.mp isPrefix).symm

theorem operator?_kind {text : List Char} {kind : Kind} {length : Nat}
    (found : operator? text = some (kind, length)) :
    kind ≠ .identifier ∧ kind ≠ .integer ∧ kind ≠ .string := by
  unfold operator? at found
  split at found
  all_goals cases found
  all_goals decide

theorem word_spelled {c : Char} (rest : List Char) {span : Span}
    (starts : isWordStart c = true) :
    Spelled ⟨.ofWord (String.ofList (c :: rest.takeWhile isWordPart)),
      String.ofList (c :: rest.takeWhile isWordPart), span⟩ := by
  constructor
  · intro kindEq
    exact isName_iff.mpr ⟨c, rest.takeWhile isWordPart,
      String.toList_ofList, starts, List.all_eq_true.mp List.all_takeWhile,
      kindEq⟩
  · intro kindEq
    exact absurd kindEq Kind.ofWord_ne.1
  · intro kindEq
    exact absurd kindEq Kind.ofWord_ne.2

theorem numeral_spelled {text digits : List Char} {span : Span}
    (nonempty : digits ≠ [])
    (areDigits : ∀ c ∈ digits, c.isDigit = true)
    (split : text = digits ∨ text = '-' :: digits) :
    Spelled ⟨.integer, String.ofList text, span⟩ := by
  have numeral : isNumeral (String.ofList text) = true := by
    apply isNumeral_iff.mpr
    rw [String.toList_ofList]
    exact ⟨digits, nonempty, areDigits, split⟩
  exact ⟨by simp, fun _ => numeral, by simp⟩

theorem quoted_spelled (rest : List Char) {span : Span} :
    Spelled ⟨.string,
      String.ofList ('"' :: rest.take (stringRest rest)), span⟩ := by
  obtain ⟨body, tail, split, noQuote, closed⟩ := take_stringRest rest
  have quoted : ∃ inner,
      Literal.ofQuoted
          (String.ofList ('"' :: rest.take (stringRest rest))) =
        .string inner ∧ '"' ∉ inner.toList := by
    refine ⟨String.ofList body, ofQuoted_eq ?_ noQuote closed, ?_⟩
    · rw [split]
    · rwa [String.toList_ofList]
  exact ⟨by simp, by simp, fun _ => quoted⟩

theorem lexeme?_spelled {text : List Char} {kind : Kind} {length : Nat}
    {span : Span} (found : lexeme? text = some (kind, length)) :
    Spelled ⟨kind, String.ofList (text.take length), span⟩ := by
  cases text with
  | nil =>
      cases found
  | cons c rest =>
      have digitsCut : (c :: rest).take
          (1 + (rest.takeWhile Char.isDigit).length) =
            c :: rest.takeWhile Char.isDigit := by
        rw [Nat.add_comm, List.take_succ_cons, take_takeWhile]
      have areDigits : ∀ digit ∈ rest.takeWhile Char.isDigit,
          digit.isDigit = true :=
        List.all_eq_true.mp List.all_takeWhile
      rw [lexeme?] at found
      split at found
      · rename_i starts
        cases found
        rw [List.length_cons, List.take_succ_cons, take_takeWhile]
        exact word_spelled rest starts
      · split at found
        · rename_i isDigit
          cases found
          rw [digitsCut]
          exact numeral_spelled (by simp)
            (List.forall_mem_cons.mpr ⟨isDigit, areDigits⟩) (.inl rfl)
        · split at found
          · rename_i isQuote
            cases found
            rw [Nat.add_comm, List.take_succ_cons, beq_iff_eq.mp isQuote]
            exact quoted_spelled rest
          · split at found
            · rename_i signed
              cases found
              obtain ⟨rfl, digitBehind⟩ : c = '-' ∧
                  rest.head?.any Char.isDigit = true := by
                simpa using signed
              have nonempty : rest.takeWhile Char.isDigit ≠ [] := by
                cases rest with
                | nil =>
                    cases digitBehind
                | cons digit rest =>
                    have isDigit : digit.isDigit = true := by
                      simpa using digitBehind
                    simp [isDigit]
              rw [digitsCut]
              exact numeral_spelled nonempty areDigits (.inr rfl)
            · obtain ⟨noName, noInteger, noString⟩ := operator?_kind found
              exact ⟨fun kindEq => absurd kindEq noName,
                fun kindEq => absurd kindEq noInteger,
                fun kindEq => absurd kindEq noString⟩

end Token

namespace Scanner

theorem take_spelled {scanner : Scanner} {token : Token}
    (taken : scanner.take.1 = .ok token) : token.Spelled := by
  unfold take at taken
  split at taken
  · cases taken
    exact ⟨by simp, by simp, by simp⟩
  · split at taken
    · rename_i found
      cases taken
      exact Token.lexeme?_spelled found
    · cases taken

theorem next_spelled {scanner after : Scanner} {token : Token}
    (step : scanner.next = (some (.ok token), after)) :
    token.Spelled := by
  cases finished : scanner.finished with
  | true =>
      rw [next, if_pos finished] at step
      cases step
  | false =>
      rw [next_eq finished] at step
      have taken := congrArg Prod.fst step
      exact take_spelled (Option.some.inj taken)

theorem tokenize_spelled (scanner : Scanner) {tokens : List Token}
    (run : scanner.tokenize.1 = .ok tokens) :
    ∀ token ∈ tokens, token.Spelled := by
  rw [tokenize] at run
  split at run
  · cases run
    simp
  · cases run
  · rename_i token after step
    have := pending_next_lt step
    split at run
    · rename_i others last othersRun
      cases run
      have othersSpelled :=
        tokenize_spelled after (congrArg Prod.fst othersRun)
      exact List.forall_mem_cons.mpr ⟨next_spelled step, othersSpelled⟩
    · cases run
termination_by scanner.pending

end Scanner

end TriggerScript
