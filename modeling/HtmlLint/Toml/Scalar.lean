import HtmlLint.Decimal.Shortest
import HtmlLint.Text.Search
import HtmlLint.Toml.Value

/-! # Numbers, dates and truth values of a configuration

Values other than strings, arrays and tables are written as words.  A word is read as a whole. -/

namespace HtmlLint.Toml

/-- A character of such a word. -/
def isWordChar (c : Char) : Bool :=
  c.isAlphanum || c == '+' || c == '-' || c == '.' || c == '_' || c == ':'

/-- Digits, in which an underscore may stand between two of them; returned without underscores. -/
def digits? (isDigit : Char → Bool) (cs : List Char) : Option (List Char) :=
  let parts := Text.splitOn '_' cs
  if parts.all fun p => !p.isEmpty && p.all isDigit then some parts.flatten else none

/-- The value of digits in some base. -/
def valueOf (base : Nat) (digits : List Char) : Nat :=
  digits.foldl (fun n c => base * n + if c.isDigit then c.toNat - 48 else c.toLower.toNat - 87) 0

/-- Decimal digits without leading zeros. -/
def wholeDigits? (cs : List Char) : Option (List Char) :=
  (digits? Char.isDigit cs).filter fun ds => ds.length == 1 || ds.head? != some '0'

/-- A sign and what follows it; no sign is as good as a plus. -/
def signed (cs : List Char) : Bool × List Char :=
  match cs with
  | '-' :: rest => (true, rest)
  | '+' :: rest => (false, rest)
  | _ => (false, cs)

/-- An integer of 64 bits. -/
def word64? (n : Int) : Option Value :=
  if -0x8000000000000000 ≤ n && n < 0x8000000000000000 then some (.integer n) else none

/-- An integer in the decimal, hexadecimal, octal or binary system. -/
def integer? (cs : List Char) : Option Value :=
  match cs with
  | '0' :: 'x' :: rest =>
    (digits? (fun c => c.isDigit || ('a' ≤ c.toLower && c.toLower ≤ 'f')) rest).bind fun ds =>
      word64? (valueOf 16 ds)
  | '0' :: 'o' :: rest =>
    (digits? (fun c => '0' ≤ c && c ≤ '7') rest).bind fun ds => word64? (valueOf 8 ds)
  | '0' :: 'b' :: rest =>
    (digits? (fun c => c == '0' || c == '1') rest).bind fun ds => word64? (valueOf 2 ds)
  | _ =>
    let (negative, rest) := signed cs
    (wholeDigits? rest).bind fun ds =>
      let n : Int := valueOf 10 ds
      word64? (if negative then -n else n)

/-- The floating-point number next to `m * 10 ^ e`; none if it is too large for one. -/
def nearestFloat? (m : Nat) (e : Int) : Option Float :=
  let magnitude := (Decimal.digitCount m : Int) + e
  if m = 0 || magnitude < -400 then some 0.0
  else if magnitude > 400 then none
  else
    let x := if e < 0 then Float.ofScientific m true (-e).toNat
      else Float.ofScientific m false e.toNat
    if x.isInf then none else some x

/-- The exponent of a floating-point number. -/
def exponent? (cs : List Char) : Option Int :=
  let (negative, rest) := signed cs
  (digits? Char.isDigit rest).map fun ds =>
    let n : Int := valueOf 10 ds
    if negative then -n else n

/-- A floating-point number: it has a fraction or an exponent, or is one of the special ones. -/
def float? (cs : List Char) : Option Value :=
  let (negative, rest) := signed cs
  let signedFloat (x : Float) : Value := .float (if negative then -x else x)
  if rest == "inf".toList then some (signedFloat (1.0 / 0.0))
  else if rest == "nan".toList then some (signedFloat (0.0 / 0.0))
  else
    let isMark (c : Char) : Bool := c == 'e' || c == 'E'
    let number := rest.takeWhile (!isMark ·)
    let whole := number.takeWhile (· != '.')
    let fraction? : Option (List Char) :=
      match number.dropWhile (· != '.') with
      | [] => some []
      | _ :: ds => digits? Char.isDigit ds
    let exponent? : Option Int :=
      match rest.dropWhile (!isMark ·) with
      | [] => some 0
      | _ :: ds => exponent? ds
    match wholeDigits? whole, fraction?, exponent? with
    | some ds, some fs, some e =>
      if whole == rest then none
      else (nearestFloat? (valueOf 10 (ds ++ fs)) (e - fs.length)).map signedFloat
    | _, _, _ => none

/-! ## Dates and times -/

/-- A number of exactly this many digits, within limits. -/
def numberWithin? (width low high : Nat) (cs : List Char) : Option Nat :=
  if cs.length == width && cs.all Char.isDigit then
    let n := valueOf 10 cs
    if low ≤ n && n ≤ high then some n else none
  else none

/-- The number of days of a month. -/
def daysOf (year month : Nat) : Nat :=
  if month = 2 then if year % 4 = 0 && (year % 100 ≠ 0 || year % 400 = 0) then 29 else 28
  else if month = 4 || month = 6 || month = 9 || month = 11 then 30
  else 31

/-- A day of the calendar, `year-month-day`. -/
def isDate (cs : List Char) : Bool :=
  match Text.splitOn '-' cs with
  | [y, m, d] =>
    match numberWithin? 4 0 9999 y, numberWithin? 2 1 12 m with
    | some year, some month => (numberWithin? 2 1 (daysOf year month) d).isSome
    | _, _ => false
  | _ => false

/-- The fraction of a second, of at most nine digits and without needless zeros. -/
def fractionText? (cs : List Char) : Option (List Char) :=
  if cs.isEmpty || !cs.all Char.isDigit then none
  else
    let ds := ((cs.take 9).reverse.dropWhile (· == '0')).reverse
    some ('.' :: if ds.isEmpty then ['0'] else ds)

/-- Seconds with their fraction. -/
def secondsText? (cs : List Char) : Option (List Char) :=
  let whole := cs.takeWhile (· != '.')
  match numberWithin? 2 0 60 whole, cs.dropWhile (· != '.') with
  | some _, [] => some whole
  | some _, _ :: fs => (fractionText? fs).map (whole ++ ·)
  | none, _ => none

/-- A time of the day, `hour:minute`, with or without seconds. -/
def timeText? (cs : List Char) : Option (List Char) :=
  let clock (h m : List Char) : Bool :=
    (numberWithin? 2 0 23 h).isSome && (numberWithin? 2 0 59 m).isSome
  match Text.splitOn ':' cs with
  | [h, m] => if clock h m then some cs else none
  | [h, m, s] =>
    if clock h m then (secondsText? s).map fun s => h ++ ':' :: m ++ ':' :: s else none
  | _ => none

/-- A time of the day with its distance from universal time, if that is given. -/
def zonedTimeText? (cs : List Char) : Option (List Char) :=
  let isSign (c : Char) : Bool := c == '+' || c == '-'
  let clock := cs.takeWhile fun c => !isSign c && c != 'Z' && c != 'z'
  match timeText? clock, cs.drop clock.length with
  | some t, [] => some t
  | some t, sign :: offset =>
    if isSign sign then
      match timeText? offset with
      | some o =>
        if o.length == 5 then some (t ++ (if o == "00:00".toList then '+' else sign) :: o) else none
      | none => none
    else if offset.isEmpty then some (t ++ ['Z']) else none
  | none, _ => none

/-- A date, a time, or both with `T` or a blank between them. -/
def datetime? (cs : List Char) : Option Value :=
  let date := cs.take 10
  if isDate date then
    match cs.drop 10 with
    | [] => some (.datetime (String.ofList cs))
    | mark :: time =>
      if mark == 'T' || mark == 't' || mark == ' ' then
        (zonedTimeText? time).map fun t => .datetime (String.ofList (date ++ 'T' :: t))
      else none
  else (timeText? cs).map fun t => .datetime (String.ofList t)

mutual

/-- Replace tables that stand for dates by these dates.  A table stands for a date if its first key
says so, and then there must be the text of a date under that key. -/
def Value.withDates? : Value → Option Value
  | .array items => (itemsWithDates? items).map .array
  | .table entries =>
    match entries with
    | [] => some (.table [])
    | (key, v) :: _ =>
      if key = dateKey then v.string?.bind fun text => datetime? text.toList
      else (entriesWithDates? entries).map .table
  | v => some v

/-- Replace tables that stand for dates in items. -/
def itemsWithDates? : List Value → Option (List Value)
  | [] => some []
  | v :: rest => do return (← v.withDates?) :: (← itemsWithDates? rest)

/-- Replace tables that stand for dates in entries. -/
def entriesWithDates? : List (String × Value) → Option (List (String × Value))
  | [] => some []
  | (key, v) :: rest => do return (key, ← v.withDates?) :: (← entriesWithDates? rest)

end

/-- The value of a word. -/
def scalar? (cs : List Char) : Option Value :=
  if cs == "true".toList then some (.boolean true)
  else if cs == "false".toList then some (.boolean false)
  else integer? cs <|> float? cs <|> datetime? cs

/-- Read a word.  A date may be followed by a blank and a time. -/
def readScalar? (cs : List Char) : Option (Value × List Char) :=
  let word := cs.takeWhile isWordChar
  let rest := cs.drop word.length
  match rest with
  | ' ' :: c :: more =>
    if isDate word && c.isDigit then
      let time := (c :: more).takeWhile isWordChar
      (scalar? (word ++ ' ' :: time)).map (·, (c :: more).drop time.length)
    else (scalar? word).map (·, rest)
  | _ => (scalar? word).map (·, rest)

end HtmlLint.Toml
