import KeywordScript.Expr.Basic
import KeywordScript.Keyword

/-!
Values. Besides data there is code that was not evaluated, and there are three kinds of callables:
keywords, natives and functions. `H` is the type of the natives that a host adds to those for
numbers; with `Empty` there are no others.
-/

namespace KeywordScript

/-- Natives on one number. -/
inductive MathOp where
  | floor
  | ceil
  | abs
  | round
deriving DecidableEq

namespace MathOp

def name : MathOp → String
  | floor => "FLOOR"
  | ceil => "CEIL"
  | abs => "ABS"
  | round => "ROUND"

/-- Rounding takes a half away from zero. -/
def apply : MathOp → Float → Float
  | floor, x => x.floor
  | ceil, x => x.ceil
  | abs, x => x.abs
  | round, x => x.round

end MathOp

inductive Action (H : Type) where
  | math (op : MathOp)
  | host (h : H)

/-- A native that was made for a plugin. No two natives that were made have the same `id`. -/
structure Native (H : Type) where
  id : Nat
  name : String
  action : Action H

/-- A function that a script defined. No two definitions give the same `id`. -/
structure Function where
  id : Nat
  name : String
  params : List String
  body : Expr

inductive Value (H : Type) where
  | null
  | bool (b : Bool)
  | num (x : Float)
  | str (s : String)
  /-- What a script evaluates to. -/
  | list (items : List (Value H))
  | code (c : Code)
  | builtin (k : Keyword)
  | native (n : Native H)
  | func (f : Function)

/-- The kinds of values that messages tell apart. -/
inductive Kind where
  | null
  | bool
  | number
  | string
  | list
  | script
  | function
deriving DecidableEq

def Kind.name : Kind → String
  | null => "null"
  | bool => "bool"
  | number => "number"
  | string => "string"
  | list => "list"
  | script => "script"
  | function => "function"

def Literal.toValue {H : Type} : Literal → Value H
  | null => .null
  | bool b => .bool b
  | num x => .num x
  | str s => .str s

namespace Value

variable {H : Type}

def kind : Value H → Kind
  | null => .null
  | bool _ => .bool
  | num _ => .number
  | str _ => .string
  | list _ => .list
  | code _ => .script
  | builtin _ | native _ | func _ => .function

/-- Whether a condition holds. Null, false, zero, NaN and the empty text do not. -/
def isTruthy : Value H → Bool
  | null => false
  | bool b => b
  | num x => x != 0 && !x.isNaN
  | str s => !s.isEmpty
  | _ => true

def str? : Value H → Option String
  | str s => some s
  | _ => none

def num? : Value H → Option Float
  | num x => some x
  | _ => none

/-- The arguments that an evaluated argument stands for. -/
def arguments : Value H → List (Value H)
  | list items => items
  | v => [v]

mutual

/-- Equality of values. Values of different kinds differ; code, natives and functions are equal only
to themselves. -/
def equal : Value H → Value H → Bool
  | null, null => true
  | bool a, bool b => a == b
  | num a, num b => a == b
  | str a, str b => a == b
  | list as, list bs => equalItems as bs
  | code a, code b => a.site == b.site
  | builtin a, builtin b => a == b
  | native a, native b => a.id == b.id
  | func a, func b => a.id == b.id
  | _, _ => false

def equalItems : List (Value H) → List (Value H) → Bool
  | [], [] => true
  | a :: as, b :: bs => a.equal b && equalItems as bs
  | _, _ => false

end

instance : BEq (Value H) :=
  ⟨equal⟩

/-- How two values are ordered. Only numbers and texts can be compared, and a NaN comes neither
before nor after a number. -/
def compare? : Value H → Value H → Option (Option Ordering)
  | num a, num b => some (a.toModel.compare b.toModel)
  | str a, str b => some (some (compare a b))
  | _, _ => none

end Value

end KeywordScript
