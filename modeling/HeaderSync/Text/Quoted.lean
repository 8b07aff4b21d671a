import HeaderSync.Text.Hidden

/-!
# Quoted text

`quoted` writes a text between double quotes so that every character of it can be told: the quote
and the backslash are escaped, the common controls have their letters, and any other character that
does not show by itself is given by its code point.
-/

namespace HeaderSync.Text

/-- The number in hexadecimal digits, without leading zeros. -/
def hexadecimal (n : Nat) : Text :=
  Nat.toDigits 16 n

def quotedChar (c : Char) : Text :=
  match c with
  | '"' => "\\\""
  | '\\' => "\\\\"
  | '\n' => "\\n"
  | '\r' => "\\r"
  | '\t' => "\\t"
  | '\x00' => "\\0"
  | c => if isHidden c then "\\u\x7b" ++ hexadecimal c.toNat ++ "\x7d" else [c]

def quoted (t : Text) : Text :=
  "\"" ++ t.flatMap quotedChar ++ "\""

end HeaderSync.Text
