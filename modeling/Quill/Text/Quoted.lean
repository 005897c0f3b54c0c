import Quill.Text.Unprintable

/-!
Quoted names. Quotes and backslashes are escaped, line breaks and the like by letters,
and characters that do not show by their number.
-/

namespace Quill.Text

set_option autoImplicit false

def escape (char : Char) : String :=
  if char = '\x22' then "\\\""
  else if char = '\\' then "\\\\"
  else if char = '\n' then "\\n"
  else if char = '\r' then "\\r"
  else if char = '\t' then "\\t"
  else if char = '\x00' then "\\0"
  else if Unprintable.contains char then
    "\\u\x7b" ++ String.ofList (Nat.toDigits 16 char.toNat) ++ "\x7d"
  else String.singleton char

def quoted (text : String) : String :=
  "\"" ++ String.join (text.toList.map escape) ++ "\""

end Quill.Text
