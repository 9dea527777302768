/-!
Fewest decimal digits. A number `m · 2 ^ q` stands for an interval of reals, those that round to it.
`shortest` takes a decimal in that interval with as few digits as possible, and of those the
nearest.
-/

namespace KeywordScript.Number

/-- The decimal `digits · 10 ^ exponent`. -/
structure Decimal where
  digits : Nat
  exponent : Int
deriving DecidableEq

/-- Which of two decimals equally near to a number is taken. -/
inductive Tie where
  | up
  | even
deriving DecidableEq

/-- A number and the ends of its interval over one denominator. The ends belong to the interval when
`closed`. -/
structure Span where
  low : Nat
  value : Nat
  high : Nat
  den : Nat
  closed : Bool

/-- The interval of `m · 2 ^ q`, in quarters of the last place. Below a power of two the neighbour
is half as far, unless that power is the least normal one. -/
def span (m : Nat) (q : Int) : Span :=
  let scale := 1 <<< (q - 2).toNat
  let below := if m == 1 <<< 52 && -1074 < q then 1 else 2
  { low := (4 * m - below) * scale
    value := 4 * m * scale
    high := (4 * m + 2) * scale
    den := 1 <<< (2 - q).toNat
    closed := m % 2 == 0 }

private def digitCount (n : Nat) : Nat :=
  n.repr.length

def decimalOrder (num den : Nat) : Int :=
  if den ≤ num then
    (digitCount (num / den) : Int) - 1
  else
    let k := digitCount (den / num)
    if den ≤ num * Nat.pow 10 (k - 1) then 1 - (k : Int) else -(k : Int)

namespace Span

/-- Whether `c · 10 ^ k` lies in the interval. -/
def contains (s : Span) (k : Int) (c : Nat) : Bool :=
  let point := c * Nat.pow 10 k.toNat * s.den
  let low := s.low * Nat.pow 10 (-k).toNat
  let high := s.high * Nat.pow 10 (-k).toNat
  if s.closed then low ≤ point && point ≤ high else low < point && point < high

/-- The multiple of `10 ^ k` at or below the value. -/
def floorOn (s : Span) (k : Int) : Nat :=
  s.value * Nat.pow 10 (-k).toNat / (Nat.pow 10 k.toNat * s.den)

/-- The multiple of `10 ^ k` in the interval that is nearest to the value, if there is one. -/
def nearestOn? (s : Span) (tie : Tie) (k : Int) : Option Nat :=
  let c := s.floorOn k
  match s.contains k c, s.contains k (c + 1) with
  | false, false => none
  | true, false => some c
  | false, true => some (c + 1)
  | true, true =>
    let twice := 2 * s.value * Nat.pow 10 (-k).toNat
    let middle := (2 * c + 1) * Nat.pow 10 k.toNat * s.den
    match compare twice middle, tie with
    | .lt, _ => some c
    | .gt, _ => some (c + 1)
    | .eq, .up => some (c + 1)
    | .eq, .even => some (if c % 2 == 0 then c else c + 1)

end Span

/-- The decimal written for `m · 2 ^ q`. Seventeen digits always suffice. -/
def shortest (tie : Tie) (m : Nat) (q : Int) : Decimal :=
  let s := span m q
  let order := decimalOrder s.value s.den
  let grids := (List.range 17).map fun (i : Nat) => order - (i : Int)
  match grids.findSome? fun k => (s.nearestOn? tie k).map fun c => Decimal.mk c k with
  | some d => d
  | none => { digits := s.floorOn (order - 16), exponent := order - 16 }

end KeywordScript.Number
