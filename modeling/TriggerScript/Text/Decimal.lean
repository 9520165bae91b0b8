/-!
# Decimal numbers as text

Reading accepts ASCII digits only, any number of them and with any leading
zeros; range checks belong to the caller.
-/

namespace TriggerScript.Text

/-- The value of a row of decimal digits, most significant first. -/
def digitsValue (digits : List Char) : Nat :=
  digits.foldl (fun value c => 10 * value + (c.toNat - '0'.toNat)) 0

def readNat? (text : List Char) : Option Nat :=
  if text.isEmpty || !text.all Char.isDigit then
    none
  else
    some (digitsValue text)

/-- Read an optional sign and a nonempty row of decimal digits. -/
def readInt? : List Char → Option Int
  | '-' :: digits => (readNat? digits).map fun value => -(value : Int)
  | '+' :: digits => (readNat? digits).map fun value => (value : Int)
  | digits => (readNat? digits).map fun value => (value : Int)

/-- A number in decimal, filled up with zeros on the left. -/
def zeroPadded (width number : Nat) : String :=
  let digits := toString number
  "".pushn '0' (width - digits.length) ++ digits

/-- A text filled up with spaces on the right. -/
def column (width : Nat) (text : String) : String :=
  text.pushn ' ' (width - text.length)

end TriggerScript.Text
