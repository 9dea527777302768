/-!
The keywords that every script knows.
-/

namespace KeywordScript

/-- Keywords that make one value of two and do nothing else. -/
inductive Operator where
  | add
  | sub
  | mul
  | div
  | mod
  | eq
  | ne
  | gt
  | lt
  | ge
  | le
  | and
  | or
deriving DecidableEq

namespace Operator

def name : Operator → String
  | add => "ADD"
  | sub => "SUB"
  | mul => "MUL"
  | div => "DIV"
  | mod => "MOD"
  | eq => "=="
  | ne => "<>"
  | gt => ">"
  | lt => "<"
  | ge => ">="
  | le => "<="
  | and => "AND"
  | or => "OR"

def all : List Operator :=
  [add, sub, mul, div, mod, eq, ne, gt, lt, ge, le, and, or]

end Operator

inductive Keyword where
  /-- LET binds a name to a value. -/
  | bind
  /-- SET gives a bound name another value. -/
  | assign
  /-- INC adds one to a bound number. -/
  | increment
  /-- FUNCTION binds a name to a function. -/
  | define
  /-- RETURN leaves the nearest function call with a value. -/
  | leave
  | operator (op : Operator)
  /-- PRINT writes a line. -/
  | print
  /-- FOR counts a bound number up to an end. -/
  | count
  /-- IF evaluates one of two pieces of code. -/
  | choose
  /-- WHILE evaluates code as long as a condition holds. -/
  | loop
deriving DecidableEq

namespace Keyword

def name : Keyword → String
  | bind => "LET"
  | assign => "SET"
  | increment => "INC"
  | define => "FUNCTION"
  | leave => "RETURN"
  | operator op => op.name
  | print => "PRINT"
  | count => "FOR"
  | choose => "IF"
  | loop => "WHILE"

def all : List Keyword :=
  [bind, assign, increment, define, leave] ++ Operator.all.map operator ++
    [print, count, choose, loop]

def ofName? (s : String) : Option Keyword :=
  all.find? fun k => k.name == s

def names : List String :=
  (all.map name).mergeSort

end Keyword

end KeywordScript
