import KeywordScript.Json.Basic
import KeywordScript.Number.Reading

/-!
Number literals of documents. A literal that is no small integer is read through a significand of 64
bits and one scaling by powers of ten, so its last place may be off by rounding.
-/

namespace KeywordScript.Numeral

open Number (digitsValue)

/-- The parts of a number literal: sign, digits before and after the point, power of ten. -/
structure Literal where
  negative : Bool
  whole : List Char
  fraction : Option (List Char)
  exponent : Option Int

private def fraction? : List Char → Option (Option (List Char) × List Char)
  | '.' :: cs =>
    let digits := cs.takeWhile Char.isDigit
    if digits.isEmpty then none else some (some digits, cs.dropWhile Char.isDigit)
  | cs => some (none, cs)

private def power? : List Char → Option (Option Int)
  | [] => some none
  | e :: cs => if e == 'e' || e == 'E' then (Number.signedInteger? cs).map some else none

/-- Splits a literal. No zero may stand before another digit of the whole part. -/
def Literal.ofText? (cs : List Char) : Option Literal := do
  let (negative, cs) := match cs with
    | '-' :: rest => (true, rest)
    | rest => (false, rest)
  let whole := cs.takeWhile Char.isDigit
  if whole.isEmpty || (whole.head? == some '0' && 1 < whole.length) then
    failure
  let (fraction, rest) ← fraction? (cs.dropWhile Char.isDigit)
  let exponent ← power? rest
  return { negative, whole, fraction, exponent }

/-- Appends digits to a significand as long as it fits 64 bits. Also gives the digits left over. -/
def fill (significand : Nat) : List Char → Nat × List Char
  | [] => (significand, [])
  | d :: ds =>
    let next := 10 * significand + digitsValue [d]
    if next < UInt64.size then fill next ds else (significand, d :: ds)

private def powerOfTen (k : Nat) : Float :=
  Float.ofScientific 1 false k

/-- The quotient `f / 10 ^ k`, in steps of at most `10 ^ 308`. -/
def scaleDown (f : Float) (k : Nat) : Float :=
  if k ≤ 308 then f / powerOfTen k
  else if f == 0 then f
  else scaleDown (f / powerOfTen 308) (k - 308)
termination_by k

def scaleUp? (f : Float) (k : Nat) : Option Float :=
  if k ≤ 308 then
    let g := f * powerOfTen k
    if g.isInf then none else some g
  else if f == 0 then some f
  else none

def Literal.magnitude? (l : Literal) : Option Float :=
  let (significand, dropped) := fill 0 l.whole
  let fraction := l.fraction.getD []
  let (significand, unused) := fill significand fraction
  let taken := fraction.length - unused.length
  let power := (dropped.length : Int) - (taken : Int) + l.exponent.getD 0
  let f := (UInt64.ofNat significand).toFloat
  if power < 0 then some (scaleDown f power.natAbs) else scaleUp? f power.natAbs

/-- The number that a literal writes. A zero with a sign is no integer. -/
def Literal.value? (l : Literal) : Option Numeral :=
  let n := digitsValue l.whole
  if l.fraction.isNone && l.exponent.isNone && n < UInt64.size then
    if !l.negative then some (.natural (UInt64.ofNat n))
    else if 0 < n && Number.fitsWord (-n) then some (.negative (UInt64.ofNat n))
    else some (.real (-(UInt64.ofNat n).toFloat))
  else
    l.magnitude?.map fun x => .real (if l.negative then -x else x)

def ofText? (cs : List Char) : Option Numeral := do
  (← Literal.ofText? cs).value?

end KeywordScript.Numeral
