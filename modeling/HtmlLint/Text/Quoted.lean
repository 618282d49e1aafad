import HtmlLint.Text.Printable

/-! # Quoted texts

Traces show a text between double quotes.  A quote, a backslash and the common controls have a short
escape, and every other character without a shape of its own is written by its number in
hexadecimal. -/

namespace HtmlLint.Text

/-- A number in lower-case hexadecimal without leading zeros. -/
def hexadecimal (n : Nat) : String :=
  String.ofList (Nat.toDigits 16 n)

/-- One character as it stands inside a quoted text. -/
def quoteChar (c : Char) : String :=
  match c with
  | '\x00' => "\\0"
  | '\t' => "\\t"
  | '\r' => "\\r"
  | '\n' => "\\n"
  | '"' => "\\\""
  | '\\' => "\\\\"
  | c => if isPrintable c then String.singleton c else "\\u\x7b" ++ hexadecimal c.toNat ++ "\x7d"

/-- The text between double quotes, with escapes. -/
def quoted (s : String) : String :=
  "\"" ++ String.join (s.toList.map quoteChar) ++ "\""

end HtmlLint.Text
