import HtmlLint.Decimal.Shortest
import HtmlLint.Text.Listing
import HtmlLint.Text.Search
import HtmlLint.Toml.Value

/-! # Writing values of a configuration

A value is written on one line, except for strings that are easier to read on several.  A string
stands between double quotes where it needs no escapes there, else between single quotes where it
can, else between three of either, and else between double quotes with escapes. -/

namespace HtmlLint.Toml

/-- The greatest number of quotes in a row. -/
def longestRun (quote : Char) : Nat → List Char → Nat
  | run, [] => run
  | run, c :: cs =>
    if c = quote then longestRun quote (run + 1) cs else max run (longestRun quote 0 cs)

/-- A control that cannot be written as it is. -/
def isControl (c : Char) : Bool :=
  (c.toNat < 0x20 && c != '\t' && c != '\n') || c.toNat == 0x7F

/-- One digit of a hexadecimal number. -/
def upperHexDigit (n : Nat) : Char :=
  if n < 10 then Char.ofNat (48 + n) else Char.ofNat (55 + n)

/-- A character between double quotes; where there are several lines, a line break is written as it
is. -/
def escapeChar (lines : Bool) (c : Char) : List Char :=
  match c with
  | '\x08' => ['\\', 'b']
  | '\t' => ['\\', 't']
  | '\n' => if lines then ['\n'] else ['\\', 'n']
  | '\x0c' => ['\\', 'f']
  | '\r' => ['\\', 'r']
  | '"' => ['\\', '"']
  | '\\' => ['\\', '\\']
  | c =>
    if c.toNat < 0x20 || c.toNat == 0x7F then
      "\\u00".toList ++ [upperHexDigit (c.toNat / 16), upperHexDigit (c.toNat % 16)]
    else [c]

/-- Characters between three double quotes, after `run` quotes that stand as they are.  Two in a row
may do so, and a third is escaped. -/
def escapeLines : Nat → List Char → List Char
  | _, [] => []
  | run, c :: cs =>
    if c ≠ '"' then escapeChar true c ++ escapeLines 0 cs
    else if run < 2 then c :: escapeLines (run + 1) cs
    else '\\' :: c :: escapeLines 0 cs

/-- A string with its quotes. -/
def renderString (s : String) : String :=
  let cs := s.toList
  let controls := cs.any isControl
  let backslash := cs.contains '\\'
  let breaks := cs.contains '\n'
  let doubles := longestRun '"' 0 cs
  let singles := longestRun '\'' 0 cs
  let lead := if breaks then ['\n'] else []
  String.ofList <|
    if !controls && !backslash && doubles == 0 && !breaks then
      '"' :: cs.flatMap (escapeChar false) ++ ['"']
    else if !controls && singles == 0 && !breaks then '\'' :: cs ++ ['\'']
    else if !controls && !backslash && doubles ≤ 2 then
      "\"\"\"".toList ++ lead ++ escapeLines 0 cs ++ "\"\"\"".toList
    else if !controls && singles ≤ 2 then "'''".toList ++ lead ++ cs ++ "'''".toList
    else if breaks then
      "\"\"\"".toList ++ lead ++ escapeLines 0 cs ++ "\"\"\"".toList
    else '"' :: cs.flatMap (escapeChar false) ++ ['"']

/-- A key, with quotes if it needs them. -/
def renderKey (key : String) : String :=
  let cs := key.toList
  let bare := !cs.isEmpty && cs.all fun c => c.isAlphanum || c == '_' || c == '-'
  let plain := !cs.any isControl && !cs.contains '\n'
  if bare then key
  else
    String.ofList <|
      if plain && !cs.contains '\\' && !cs.contains '"' then
        '"' :: cs.flatMap (escapeChar false) ++ ['"']
      else if plain && !cs.contains '\'' then '\'' :: cs ++ ['\'']
      else '"' :: cs.flatMap (escapeChar false) ++ ['"']

mutual

/-- The text of a value. -/
def Value.render : Value → String
  | .string s => renderString s
  | .integer n => toString n
  | .float x => Decimal.ofFloat x
  | .boolean b => if b then "true" else "false"
  | .datetime text => text
  | .array items => "[" ++ Text.joinWith ", " (renderItems items) ++ "]"
  | .table [] => "\x7b\x7d"
  | .table (e :: entries) =>
    "\x7b " ++ Text.joinWith ", " (renderEntries (e :: entries)) ++ " \x7d"

/-- The texts of values. -/
def renderItems : List Value → List String
  | [] => []
  | v :: rest => v.render :: renderItems rest

/-- The texts of entries. -/
def renderEntries : List (String × Value) → List String
  | [] => []
  | (key, v) :: rest => (renderKey key ++ " = " ++ v.render) :: renderEntries rest

end

end HtmlLint.Toml
