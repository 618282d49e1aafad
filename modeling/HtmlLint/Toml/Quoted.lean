import HtmlLint.Text.Search

/-! # Quoted strings of a configuration

A string stands between double quotes, with escapes, or between single quotes, as it is; with three
quotes it may go over several lines, and keeps its line breaks as they are.  Each reader takes the
characters after the opening quotes and returns the text and what follows the closing ones. -/

namespace HtmlLint.Toml

/-- A blank within a line. -/
def isBlank (c : Char) : Bool :=
  c == ' ' || c == '\t'

/-- A character that may stand in a comment or in a string as it is. -/
def isPlain (c : Char) : Bool :=
  c == '\t' || (0x20 ≤ c.toNat && c.toNat != 0x7F)

/-- The text begins with a line break. -/
def startsLine (cs : List Char) : Bool :=
  Text.startsWith cs "\n" || Text.startsWith cs "\r\n"

/-- Put a character before what is read. -/
def keep (c : Char) (read : Option (List Char × List Char)) : Option (List Char × List Char) :=
  read.map fun r => (c :: r.1, r.2)

/-- The value of a hexadecimal digit. -/
def hexValue? (c : Char) : Option Nat :=
  if c.isDigit then some (c.toNat - 48)
  else if 'a' ≤ c && c ≤ 'f' then some (c.toNat - 87)
  else if 'A' ≤ c && c ≤ 'F' then some (c.toNat - 55)
  else none

/-- The character of a number, where there is one. -/
def charOfNumber? (n : Nat) : Option Char :=
  if n.isValidChar then some (Char.ofNat n) else none

/-- The character that a backslash and a letter stand for. -/
def escaped? : Char → Option Char
  | 'b' => some '\x08'
  | 't' => some '\t'
  | 'n' => some '\n'
  | 'f' => some '\x0c'
  | 'r' => some '\r'
  | 'e' => some '\x1b'
  | '"' => some '"'
  | '\\' => some '\\'
  | _ => none

/-- The number of digits after a letter that announces the number of a character. -/
def numberWidth? : Char → Option Nat
  | 'x' => some 2
  | 'u' => some 4
  | 'U' => some 8
  | _ => none

/-- Where a reader is between two characters of a string with escapes. -/
inductive EscapeState where
  /-- not in an escape -/
  | outside
  /-- after a backslash -/
  | begun
  /-- in the number of a character: the digits still to come and the number so far -/
  | number (left value : Nat)
  /-- after a backslash that ends its line, before the line break -/
  | lineEnd
  /-- after that line break, in the blanks to leave out -/
  | nextLine
  deriving DecidableEq, Inhabited

/-- A string between double quotes. -/
def readBasic (state : EscapeState) : List Char → Option (List Char × List Char)
  | [] => none
  | c :: cs =>
    match state with
    | .begun =>
      match numberWidth? c, escaped? c with
      | some width, _ => readBasic (.number width 0) cs
      | none, some d => keep d (readBasic .outside cs)
      | none, none => none
    | .number left value =>
      match hexValue? c with
      | none => none
      | some d =>
        if left ≤ 1 then (charOfNumber? (16 * value + d)).bind fun d =>
          keep d (readBasic .outside cs)
        else readBasic (.number (left - 1) (16 * value + d)) cs
    | _ =>
      if c = '"' then some ([], cs)
      else if c = '\\' then readBasic .begun cs
      else if isPlain c then keep c (readBasic .outside cs)
      else none

/-- The end of a string of several lines, before its closing quotes: of the quotes there the last
three close, and up to two before them belong to the text. -/
def closeLines? (quote : Char) (cs : List Char) : Option (List Char × List Char) :=
  let count := min 5 (cs.takeWhile (· == quote)).length
  if count < 3 then none else some (List.replicate (count - 3) quote, cs.drop count)

/-- A string of several lines between triple double quotes. -/
def readBasicLines (state : EscapeState) : List Char → Option (List Char × List Char)
  | [] => none
  | c :: cs =>
    match state with
    | .begun =>
      match numberWidth? c, escaped? c with
      | some width, _ => readBasicLines (.number width 0) cs
      | none, some d => keep d (readBasicLines .outside cs)
      | none, none =>
        if c = '\n' then readBasicLines .nextLine cs
        else if isBlank c || startsLine (c :: cs) then readBasicLines .lineEnd cs
        else none
    | .number left value =>
      match hexValue? c with
      | none => none
      | some d =>
        if left ≤ 1 then
          (charOfNumber? (16 * value + d)).bind fun d => keep d (readBasicLines .outside cs)
        else readBasicLines (.number (left - 1) (16 * value + d)) cs
    | .lineEnd =>
      if c = '\n' then readBasicLines .nextLine cs
      else if isBlank c || startsLine (c :: cs) then readBasicLines .lineEnd cs
      else none
    | state =>
      if state = .nextLine && (isBlank c || startsLine (c :: cs)) then readBasicLines .nextLine cs
      else
        match closeLines? '"' (c :: cs) with
        | some r => some r
        | none =>
          if c = '\\' then readBasicLines .begun cs
          else if isPlain c || startsLine (c :: cs) then keep c (readBasicLines .outside cs)
          else none

/-- A string between single quotes. -/
def readLiteral : List Char → Option (List Char × List Char)
  | [] => none
  | c :: cs =>
    if c = '\'' then some ([], cs)
    else if isPlain c then keep c (readLiteral cs)
    else none

/-- A string of several lines between triple single quotes. -/
def readLiteralLines : List Char → Option (List Char × List Char)
  | [] => none
  | c :: cs =>
    match closeLines? '\'' (c :: cs) with
    | some r => some r
    | none =>
      if isPlain c || startsLine (c :: cs) then keep c (readLiteralLines cs)
      else none

/-- Leave out a line break at the beginning. -/
def dropLineBreak : List Char → List Char
  | '\n' :: cs => cs
  | '\r' :: '\n' :: cs => cs
  | cs => cs

/-- A string on one line with its quotes. -/
def readLine? : List Char → Option (String × List Char)
  | '"' :: cs => (readBasic .outside cs).map fun r => (String.ofList r.1, r.2)
  | '\'' :: cs => (readLiteral cs).map fun r => (String.ofList r.1, r.2)
  | _ => none

/-- Any string with its quotes. -/
def readString? (cs : List Char) : Option (String × List Char) :=
  if Text.startsWith cs "\"\"\"" then
    (readBasicLines .outside (dropLineBreak (cs.drop 3))).map fun r => (String.ofList r.1, r.2)
  else if Text.startsWith cs "'''" then
    (readLiteralLines (dropLineBreak (cs.drop 3))).map fun r => (String.ofList r.1, r.2)
  else readLine? cs

end HtmlLint.Toml
