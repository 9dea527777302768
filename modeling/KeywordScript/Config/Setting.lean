import KeywordScript.Number.Layout
import KeywordScript.Number.Reading

/-!
Settings: values of configuration files and of environment variables, and what they can be taken
for.
-/

namespace KeywordScript

inductive Setting where
  | text (s : String)
  | integer (n : Int)
  | real (x : Float)
  | truth (b : Bool)
  | list (items : List Setting)
  | table

namespace Setting

/-- The value of an environment variable: a truth value, an integer of 64 bits, a number, or
text. -/
def ofText (s : String) : Setting :=
  let lower := String.ofList (s.toList.map Char.toLower)
  if lower = "true" then truth true
  else if lower = "false" then truth false
  else
    match (Number.signedInteger? s.toList).filter Number.fitsWord with
    | some n => integer n
    | none =>
      match Number.ofText? s with
      | some x => real x
      | none => text s

/-- Any single value can be taken for text. -/
def text? : Setting → Option String
  | text s => some s
  | integer n => some (if n < 0 then "-" ++ n.natAbs.repr else n.natAbs.repr)
  | real x => some (Number.Layout.plain.write x)
  | truth b => some (if b then "true" else "false")
  | list _ | table => none

def countOfText? (s : String) : Option Nat :=
  let lower := String.ofList (s.toList.map Char.toLower)
  if lower = "true" || lower = "on" || lower = "yes" then some 1
  else if lower = "false" || lower = "off" || lower = "no" then some 0
  else
    match s.toList with
    | '-' :: _ => none
    | cs => ((Number.signedInteger? cs).map Int.toNat).filter fun n => n < UInt64.size

/-- A number is taken for a count when it is not a negative integer. -/
def count? : Setting → Option Nat
  | text s => countOfText? s
  | integer n => if n < 0 then none else some n.toNat
  | real x => some x.round.toUInt64.toNat
  | truth b => some (if b then 1 else 0)
  | list _ | table => none

def texts? : Setting → Option (List String)
  | list items => items.mapM text?
  | _ => none

end Setting

end KeywordScript
