/-! # Shortest decimals

A binary floating-point number is written with the fewest decimal digits that read back as the same
number.  The digits are found with exact arithmetic: the reals that round to the number form an
interval, and decimal grids are tried from the coarsest on until one has a point in it. -/

namespace HtmlLint

/-- A positive binary number, `significand * 2 ^ exponent`. -/
structure Binary where
  significand : Nat
  exponent : Int
  /-- the gap to the number below is half the gap to the number above -/
  narrowBelow : Bool
  deriving DecidableEq, Inhabited

/-- A decimal number, `digits * 10 ^ exponent`. -/
structure Decimal where
  digits : Nat
  exponent : Int
  deriving DecidableEq, Inhabited

/-- The size of a finite number, from its 64 bits. -/
def Binary.ofBits (bits : Nat) : Binary :=
  let e : Nat := bits / Nat.pow 2 52 % Nat.pow 2 11
  let f : Nat := bits % Nat.pow 2 52
  if e = 0 then ⟨f, -1074, false⟩ else ⟨Nat.pow 2 52 + f, (e : Int) - 1075, f == 0 && e > 1⟩

/-- Compare `a * 10 ^ i` with `n * 2 ^ j`. -/
def Decimal.compareScaled (a : Nat) (i : Int) (n : Nat) (j : Int) : Ordering :=
  compare (a * Nat.pow 10 i.toNat * Nat.pow 2 (-j).toNat)
    (n * Nat.pow 2 j.toNat * Nat.pow 10 (-i).toNat)

/-- The decimal lies among the reals that round to the number, to nearest and in a tie to even. -/
def Binary.readsBack (x : Binary) (d : Decimal) : Bool :=
  let low := if x.narrowBelow then 4 * x.significand - 1 else 4 * x.significand - 2
  let high := 4 * x.significand + 2
  let ends := x.significand % 2 == 0
  let below := Decimal.compareScaled d.digits d.exponent low (x.exponent - 2)
  let above := Decimal.compareScaled d.digits d.exponent high (x.exponent - 2)
  (below == .gt || (ends && below == .eq)) && (above == .lt || (ends && above == .eq))

/-- The number of decimal digits of a natural. -/
def Decimal.digitCount (n : Nat) : Nat :=
  (Nat.toDigits 10 n).length

/-- The number as a fraction. -/
def Binary.fraction (x : Binary) : Nat × Nat :=
  (x.significand * Nat.pow 2 x.exponent.toNat, Nat.pow 2 (-x.exponent).toNat)

/-- The least `k` such that the number is below `10 ^ k`. -/
def Binary.scale (x : Binary) : Int :=
  let (num, den) := x.fraction
  if num < den then 1 - (Decimal.digitCount ((den - 1) / num) : Int)
    else Decimal.digitCount (num / den)

/-- The point of a decimal grid that reads back; of two the closer one, in a tie the greater one. -/
def Binary.onGrid? (x : Binary) (exponent : Int) : Option Decimal :=
  let (num, den) := x.fraction
  let num := num * Nat.pow 10 (-exponent).toNat
  let den := den * Nat.pow 10 exponent.toNat
  let lower : Decimal := ⟨num / den, exponent⟩
  let upper : Decimal := ⟨num / den + 1, exponent⟩
  match x.readsBack lower, x.readsBack upper with
  | true, true => if 2 * (num % den) < den then some lower else some upper
  | true, false => some lower
  | false, true => some upper
  | false, false => none

/-- The fewest digits that read back; seventeen always suffice. -/
def Binary.shortest (x : Binary) : Decimal :=
  ((List.range 17).findSome? fun (n : Nat) => x.onGrid? (x.scale - (n + 1))).getD
    ⟨x.fraction.1 * Nat.pow 5 (-x.exponent).toNat, min x.exponent 0⟩

/-- A decimal written without an exponent, with at least one digit after the point. -/
def Decimal.positional (d : Decimal) : String :=
  let digits := Nat.toDigits 10 d.digits ++ List.replicate d.exponent.toNat '0'
  let places := (-d.exponent).toNat
  let digits := List.replicate (places + 1 - digits.length) '0' ++ digits
  let whole := digits.take (digits.length - places)
  let part := ((digits.drop (digits.length - places)).reverse.dropWhile (· == '0')).reverse
  String.ofList (whole ++ '.' :: if part.isEmpty then ['0'] else part)

/-- A floating-point number in its shortest decimal form, without an exponent. -/
def Decimal.ofFloat (x : Float) : String :=
  if x.isNaN then "nan"
  else
    let bits := x.toBits.toNat
    let sign := if bits / Nat.pow 2 63 = 1 then "-" else ""
    if x.isInf then sign ++ "inf"
    else if bits % Nat.pow 2 63 = 0 then sign ++ "0.0"
    else sign ++ (Binary.ofBits bits).shortest.positional

end HtmlLint
