import KeywordScript.Value.Basic

/-!
Faults: the ways in which an evaluation can fail.
-/

namespace KeywordScript

/-- What is asked of a whole list of arguments, or of the parts of a piece of code. -/
inductive Shape where
  | one
  | two
  | name
  | number
  | trailingCode
  | nameAndCode
  | conditionAndCode
  | counting
  | conditionAndBody
  | condition
deriving DecidableEq

def Shape.text : Shape → String
  | one => "1"
  | two => "2"
  | name => "a name"
  | number => "a number"
  | trailingCode => "a trailing script"
  | nameAndCode => "a name and a script"
  | conditionAndCode => "a condition and a script"
  | counting => "a name, start, end, optional step and a script"
  | conditionAndBody => "a [[condition], body] script"
  | condition => "a condition expression"

/-- What is asked of one argument. -/
inductive Role where
  | name
  | number
  | code
  | parameter
  | boundNumber
  | loopNumber
deriving DecidableEq

def Role.text : Role → String
  | name => "a name"
  | number => "a number"
  | code => "a script"
  | parameter => "a parameter name"
  | boundNumber => "a name bound to a number"
  | loopNumber => "a numeric loop variable"

inductive Fault where
  | arity (caller : String) (wanted : Shape) (got : Nat)
  | argument (caller : String) (index : Nat) (wanted : Role) (got : Kind)
  | mismatch (op : Operator) (left right : Kind)
  | unbound (name : String)
  /-- As many calls of functions are under way as there may be. -/
  | depthExceeded (limit : Nat)
deriving DecidableEq

def Fault.message : Fault → String
  | arity caller wanted got =>
    caller ++ ": expected " ++ wanted.text ++ " argument(s), got " ++ got.repr
  | argument caller index wanted got =>
    caller ++ ": argument " ++ index.repr ++ " must be " ++ wanted.text ++ ", got " ++ got.name
  | mismatch op left right =>
    op.name ++ ": cannot apply to " ++ left.name ++ " and " ++ right.name
  | unbound name => "'" ++ name ++ "' is not bound"
  | depthExceeded limit => "call depth limit of " ++ limit.repr ++ " exceeded"

end KeywordScript
