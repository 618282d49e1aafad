import HtmlLint.Decimal.Shortest
import HtmlLint.Text.Listing

/-! # JSON

Reports can be written as JSON, and a message can carry a JSON value for the tools that read the
report.  A number is an integer or a floating-point number.  The members of an object keep their
order. -/

namespace HtmlLint

/-- A JSON value. -/
inductive Json where
  | null
  | bool (b : Bool)
  | num (n : Int)
  | float (x : Float)
  | str (s : String)
  | arr (items : List Json)
  | obj (members : List (String × Json))
  deriving Inhabited

namespace Json

/-- A text, or `null` where there is none. -/
def ofOption (s : Option String) : Json :=
  match s with
  | some s => str s
  | none => null

/-- One hexadecimal digit. -/
def hexDigit (n : Nat) : Char :=
  if n < 10 then Char.ofNat (48 + n) else Char.ofNat (87 + n)

/-- One character as it stands inside a JSON string. -/
def escapeChar (c : Char) : String :=
  if c = '"' then "\\\""
  else if c = '\\' then "\\\\"
  else if c = '\n' then "\\n"
  else if c = '\r' then "\\r"
  else if c = '\t' then "\\t"
  else if c.toNat = 8 then "\\b"
  else if c.toNat = 12 then "\\f"
  else if c.toNat < 0x20 then
    "\\u00" ++ String.ofList [hexDigit (c.toNat / 16), hexDigit (c.toNat % 16)]
  else String.singleton c

/-- A JSON string. -/
def renderString (s : String) : String :=
  "\"" ++ String.join (s.toList.map escapeChar) ++ "\""

/-- A line break and the indentation of a depth. -/
def lineBreak (depth : Nat) : String :=
  "\n" ++ String.join (List.replicate depth "  ")

/-- Rendered items between brackets, each on a line of its own. -/
def bracketed (opening closing : String) (depth : Nat) (items : List String) : String :=
  if items.isEmpty then opening ++ closing
  else
    opening ++ lineBreak (depth + 1) ++ Text.joinWith ("," ++ lineBreak (depth + 1)) items
      ++ lineBreak depth ++ closing

mutual

/-- A value on several lines, where the first one is already indented. -/
def renderAt (depth : Nat) : Json → String
  | null => "null"
  | bool b => if b then "true" else "false"
  | num n => toString n
  | float x => Decimal.ofFloat x
  | str s => renderString s
  | arr items => bracketed "[" "]" depth (renderItems (depth + 1) items)
  | obj members => bracketed "\x7b" "\x7d" depth (renderMembers (depth + 1) members)

/-- The items of an array. -/
def renderItems (depth : Nat) : List Json → List String
  | [] => []
  | j :: js => renderAt depth j :: renderItems depth js

/-- The members of an object. -/
def renderMembers (depth : Nat) : List (String × Json) → List String
  | [] => []
  | (key, j) :: js => (renderString key ++ ": " ++ renderAt depth j) :: renderMembers depth js

end

/-- A value on several lines with an indentation of two blanks a level. -/
def render (j : Json) : String :=
  renderAt 0 j

end Json

end HtmlLint
