import KeywordScript.Fault
import KeywordScript.Value.Text

/-!
Operators on two values.
-/

namespace KeywordScript

namespace Number

private def notANumber : Float :=
  0.0 / 0.0

/-- The remainder of `m · 2 ^ q` by `m' · 2 ^ q'`, which is always a number again. -/
def finiteRemainder (m : Nat) (q : Int) (m' : Nat) (q' : Int) : Float :=
  let low := min q q'
  let r := (m <<< (q - low).toNat) % (m' <<< (q' - low).toNat)
  (UInt64.ofNat r).toFloat.scaleB low

/-- The exact remainder `a - n · b`, where `n` is the quotient cut off toward zero. It has the sign
of `a`, also when it is zero. -/
def remainder (a b : Float) : Float :=
  match a.toModel.unpack, b.toModel.unpack with
  | .notANumber, _ | _, .notANumber | .infinity _, _ | _, .zero _ => notANumber
  | .zero _, _ | _, .infinity _ => a
  | .finite .positive m q _, .finite _ m' q' _ => finiteRemainder m q m' q'
  | .finite .negative m q _, .finite _ m' q' _ => -finiteRemainder m q m' q'

end Number

namespace Operator

variable {H : Type}

private def clash (op : Operator) (a b : Value H) : Except Fault (Value H) :=
  .error (.mismatch op a.kind b.kind)

/-- Numbers are added, and a text is joined with the text of any other value. -/
def sum : Value H → Value H → Except Fault (Value H)
  | .num x, .num y => .ok (.num (x + y))
  | .str s, b => .ok (.str (s ++ b.text))
  | a, .str t => .ok (.str (a.text ++ t))
  | a, b => clash add a b

/-- An operator on numbers only. -/
def numeric (op : Operator) (f : Float → Float → Float) : Value H → Value H → Except Fault (Value H)
  | .num x, .num y => .ok (.num (f x y))
  | a, b => clash op a b

/-- Whether two values are ordered as asked. -/
def ordered (op : Operator) (accept : Ordering → Bool) (a b : Value H) : Except Fault (Value H) :=
  match a.compare? b with
  | some order => .ok (.bool (order.any accept))
  | none => clash op a b

def combine (op : Operator) (a b : Value H) : Except Fault (Value H) :=
  match op with
  | add => sum a b
  | sub => numeric op (· - ·) a b
  | mul => numeric op (· * ·) a b
  | div => numeric op (· / ·) a b
  | mod => numeric op Number.remainder a b
  | eq => .ok (.bool (a == b))
  | ne => .ok (.bool (a != b))
  | gt => ordered op Ordering.isGT a b
  | lt => ordered op Ordering.isLT a b
  | ge => ordered op Ordering.isGE a b
  | le => ordered op Ordering.isLE a b
  | and => .ok (if a.isTruthy then b else a)
  | or => .ok (if a.isTruthy then a else b)

/-- An operator takes exactly two arguments. -/
def apply (op : Operator) : List (Value H) → Except Fault (Value H)
  | [a, b] => op.combine a b
  | args => .error (.arity op.name .two args.length)

end Operator

end KeywordScript
