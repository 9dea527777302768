import KeywordScript.Number.Shortest

/-!
Written forms of numbers. The digits are always the fewest that read back; a `Layout` decides how
they are set out.
-/

namespace KeywordScript.Number

/-- How a number is set out. `positional` tells, from the exponent of the leading digit, whether the
number is written without an exponent. -/
structure Layout where
  tie : Tie
  positional : Int → Bool
  /-- Whole numbers end in `.0`. -/
  pointZero : Bool
  /-- Exponents that are not negative carry a `+`. -/
  plus : Bool
  nan : String
  infinity : String

private def withoutTrailingZeros (ds : List Char) : List Char :=
  (ds.reverse.dropWhile (· == '0')).reverse

private def zeros (n : Nat) : List Char :=
  List.replicate n '0'

namespace Layout

/-- Digits around the point; `order` is the exponent of the first of them. -/
def positionalText (f : Layout) (ds : List Char) (order : Int) : List Char :=
  if order < 0 then
    '0' :: '.' :: zeros (-order - 1).toNat ++ ds
  else
    let whole := order.toNat + 1
    if ds.length ≤ whole then
      ds ++ zeros (whole - ds.length) ++ if f.pointZero then ['.', '0'] else []
    else
      ds.take whole ++ '.' :: ds.drop whole

/-- One digit, the others behind a point, and the exponent. -/
def scientificText (f : Layout) (ds : List Char) (order : Int) : List Char :=
  let mantissa := match ds with
    | d :: e :: rest => d :: '.' :: e :: rest
    | short => short
  let sign := if order < 0 then ['-'] else if f.plus then ['+'] else []
  mantissa ++ 'e' :: sign ++ order.natAbs.repr.toList

def decimalText (f : Layout) (d : Decimal) : List Char :=
  let all := d.digits.repr.toList
  let order := d.exponent + (all.length : Int) - 1
  let ds := withoutTrailingZeros all
  if f.positional order then f.positionalText ds order else f.scientificText ds order

private def signed (s : Float.Model.UnpackedFloat.Sign) (text : String) : String :=
  match s with
  | .positive => text
  | .negative => "-" ++ text

def write (f : Layout) (x : Float) : String :=
  match x.toModel.unpack with
  | .notANumber => f.nan
  | .infinity s => signed s f.infinity
  | .zero s => signed s (if f.pointZero then "0.0" else "0")
  | .finite s m q _ => signed s (String.ofList (f.decimalText (shortest f.tie m q)))

end Layout

/-- Every number positionally, whole numbers without a point. -/
def Layout.plain : Layout where
  tie := .up
  positional _ := true
  pointZero := false
  plus := false
  nan := "NaN"
  infinity := "inf"

end KeywordScript.Number
