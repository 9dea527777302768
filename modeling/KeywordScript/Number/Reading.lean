/-!
Digits and numbers read from text. Decimals go to the nearest number, and a half to the even
neighbour.
-/

namespace KeywordScript.Number

def hexDigit? (c : Char) : Option Nat :=
  if c.isDigit then some (c.toNat - '0'.toNat)
  else if 'a' ≤ c && c ≤ 'f' then some (c.toNat - 'a'.toNat + 10)
  else if 'A' ≤ c && c ≤ 'F' then some (c.toNat - 'A'.toNat + 10)
  else none

/-- The natural number that a row of decimal digits writes. -/
def digitsValue (ds : List Char) : Nat :=
  ds.foldl (fun n d => 10 * n + (d.toNat - '0'.toNat)) 0

private def infinite : Float :=
  1.0 / 0.0

/-- The number nearest to `digits · 10 ^ exponent`. Beyond the range of numbers the answer is known
without scaling. -/
def nearest (digits : Nat) (exponent : Int) : Float :=
  let order := (digits.repr.length : Int) + exponent
  if digits = 0 || order < -330 then 0.0
  else if 310 < order then infinite
  else Float.ofScientific digits (exponent < 0) exponent.natAbs

/-- A row of digits, not empty, with a sign or without. -/
def signedInteger? (cs : List Char) : Option Int :=
  match cs with
  | '-' :: ds => if ds.isEmpty || !ds.all Char.isDigit then none else some (-(digitsValue ds : Int))
  | '+' :: ds => if ds.isEmpty || !ds.all Char.isDigit then none else some (digitsValue ds)
  | ds => if ds.isEmpty || !ds.all Char.isDigit then none else some (digitsValue ds)

def fitsWord (n : Int) : Bool :=
  Int64.minValue.toInt ≤ n && n ≤ Int64.maxValue.toInt

private def exponentPart? : List Char → Option Int
  | [] => some 0
  | e :: cs => if e == 'e' || e == 'E' then signedInteger? cs else none

/-- Digits with an optional point and exponent; there is a digit before or after the point. -/
def unsigned? (cs : List Char) : Option Float :=
  let whole := cs.takeWhile Char.isDigit
  let rest := cs.dropWhile Char.isDigit
  let (fraction, rest) := match rest with
    | '.' :: more => (more.takeWhile Char.isDigit, more.dropWhile Char.isDigit)
    | other => ([], other)
  if whole.isEmpty && fraction.isEmpty then none
  else (exponentPart? rest).map fun e =>
    nearest (digitsValue (whole ++ fraction)) (e - (fraction.length : Int))

/-- Infinity and the absent number by name, anything else by its digits. -/
def magnitude? (cs : List Char) : Option Float :=
  let word := String.ofList (cs.map Char.toLower)
  if word == "inf" || word == "infinity" then some infinite
  else if word == "nan" then some (0.0 / 0.0)
  else unsigned? cs

def ofText? (s : String) : Option Float :=
  match s.toList with
  | '-' :: cs => (magnitude? cs).map fun x => -x
  | '+' :: cs => magnitude? cs
  | cs => magnitude? cs

end KeywordScript.Number
