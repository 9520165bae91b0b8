/-!
# Blank characters and the pieces of a text

Texts are lists of characters here.  A character is *blank* when it has the
Unicode property `White_Space`.  Splitting keeps empty pieces, so a text with
`n` separators has exactly `n + 1` pieces; words are the nonempty pieces
between blanks.
-/

namespace TriggerScript.Text

/-- The characters with the Unicode property `White_Space`. -/
def isBlank (c : Char) : Bool :=
  let code := c.toNat
  (0x09 ≤ code && code ≤ 0x0D) || code == 0x20 || code == 0x85 ||
    code == 0xA0 || code == 0x1680 ||
    (0x2000 ≤ code && code ≤ 0x200A) || code == 0x2028 ||
    code == 0x2029 || code == 0x202F || code == 0x205F ||
    code == 0x3000

def trimStart (text : List Char) : List Char :=
  text.dropWhile isBlank

def trimEnd (text : List Char) : List Char :=
  (text.reverse.dropWhile isBlank).reverse

def trim (text : List Char) : List Char :=
  trimEnd (trimStart text)

/-- The pieces between the characters that satisfy `separates`. -/
def splitWhere (separates : Char → Bool) : List Char → List (List Char)
  | [] => [[]]
  | c :: rest =>
      if separates c then
        [] :: splitWhere separates rest
      else
        match splitWhere separates rest with
        | [] => [[c]]
        | piece :: pieces => (c :: piece) :: pieces

/-- The lines of a text; the line feeds themselves belong to no line. -/
def lines (text : List Char) : List (List Char) :=
  splitWhere (· == '\n') text

/-- The maximal runs without a blank. -/
def words (text : List Char) : List (List Char) :=
  (splitWhere isBlank text).filter fun piece => !piece.isEmpty

/-- Cut at the first occurrence of `mark`, which belongs to neither part. -/
def cutFirst? (mark : Char) : List Char → Option (List Char × List Char)
  | [] => none
  | c :: rest =>
      if c == mark then
        some ([], rest)
      else
        (cutFirst? mark rest).map fun (before, after) =>
          (c :: before, after)

/-- Cut at the last occurrence of `->`, which belongs to neither part. -/
def cutLastArrow? : List Char → Option (List Char × List Char)
  | [] => none
  | c :: rest =>
      match cutLastArrow? rest with
      | some (before, after) => some (c :: before, after)
      | none =>
          match c, rest with
          | '-', '>' :: after => some ([], after)
          | _, _ => none

/-- Take off `mark` at the end; a text that does not end in it is refused. -/
def dropEnd? (mark : Char) (text : List Char) : Option (List Char) :=
  if text.getLast? = some mark then some text.dropLast else none

end TriggerScript.Text
