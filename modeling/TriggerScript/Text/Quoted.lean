import TriggerScript.Text.Shown

/-!
# Quoted texts

A quoted text stands between double quotes on one line.  The quote, the
backslash and the usual control characters have short escapes; every other
character that is not shown as it is gets its code point in lower-case
hexadecimal between braces.
-/

namespace TriggerScript.Text

def spellChar (c : Char) : List Char :=
  match c with
  | '\x00' => ['\\', '0']
  | '\t' => ['\\', 't']
  | '\r' => ['\\', 'r']
  | '\n' => ['\\', 'n']
  | '"' => ['\\', '"']
  | '\\' => ['\\', '\\']
  | c =>
      if isShown c then
        [c]
      else
        ['\\', 'u', '{'] ++ Nat.toDigits 16 c.toNat ++ ['}']

def quoted (text : String) : String :=
  String.ofList ('"' :: (text.toList.flatMap spellChar ++ ['"']))

end TriggerScript.Text
