import KeywordScript.Fault

/-!
Arguments, and the statements that keywords with several arguments are asked to carry out. A
statement is read off the whole list of arguments before anything happens.
-/

namespace KeywordScript

variable {H : Type}

namespace Argument

/-- The argument at `index` as `take?` takes it. One that is missing is asked for by its `shape`,
and one that does not fit by its `role`. -/
def read {α : Type} (take? : Value H → Option α) (shape : Shape) (role : Role) (caller : String)
    (args : List (Value H)) (index : Nat) : Except Fault α :=
  match args[index]? with
  | none => .error (.arity caller shape args.length)
  | some v =>
    match take? v with
    | some a => .ok a
    | none => .error (.argument caller index role v.kind)

def name : String → List (Value H) → Nat → Except Fault String :=
  read Value.str? .name .name

def number : String → List (Value H) → Nat → Except Fault Float :=
  read Value.num? .number .number

/-- The code at the end, and the arguments before it. -/
def splitCode (caller : String) (args : List (Value H)) : Except Fault (Expr × List (Value H)) :=
  match args.getLast? with
  | some (.code c) => .ok (c.body, args.dropLast)
  | some v => .error (.argument caller (args.length - 1) .code v.kind)
  | none => .error (.arity caller .trailingCode 0)

end Argument

/-- What `LET` and `SET` are asked for; a missing value counts as null. -/
structure Binding (H : Type) where
  name : String
  value : Value H

def Binding.read (caller : String) (args : List (Value H)) : Except Fault (Binding H) := do
  return { name := ← Argument.name caller args 0, value := args[1]?.getD .null }

structure Definition where
  name : String
  params : List String
  body : Expr

namespace Definition

/-- Parameter names; `index` is the place of the first among the arguments. -/
def params? (caller : String) (index : Nat) : List (Value H) → Except Fault (List String)
  | [] => .ok []
  | .str s :: rest => do return s :: (← params? caller (index + 1) rest)
  | v :: _ => .error (.argument caller index .parameter v.kind)

def read (args : List (Value H)) : Except Fault Definition := do
  let caller := Keyword.define.name
  let (body, rest) ← Argument.splitCode caller args
  if rest.isEmpty then
    throw (.arity caller .nameAndCode args.length)
  let name ← Argument.name caller rest 0
  return { name, params := ← params? caller 1 rest.tail, body }

end Definition

/-- The branch that the condition of `IF` chooses, if it is there. -/
def chosenBranch (args : List (Value H)) : Except Fault (Option Expr) := do
  let caller := Keyword.choose.name
  let (branches, rest) ← Argument.splitCode caller args
  match rest with
  | [] => throw (.arity caller .conditionAndCode args.length)
  | condition :: _ =>
    return if condition.isTruthy then branches.items[0]? else branches.items[1]?

/-- What `FOR` is asked for: a count from `start` by `step` as long as `stop` is not passed. -/
structure Count where
  name : String
  start : Float
  stop : Float
  step : Float
  body : Expr

namespace Count

/-- No step, or one that leads nowhere, counts as one. -/
def readStep : Option (Value H) → Except Fault Float
  | none | some .null => .ok 1
  | some (.num x) => .ok (if x == 0 || x.isNaN then 1 else x)
  | some v => .error (.argument Keyword.count.name 3 .number v.kind)

def read (args : List (Value H)) : Except Fault Count := do
  let caller := Keyword.count.name
  let (body, rest) ← Argument.splitCode caller args
  if rest.length < 3 then
    throw (.arity caller .counting args.length)
  let name ← Argument.name caller rest 0
  let start ← Argument.number caller rest 1
  let stop ← Argument.number caller rest 2
  let step ← readStep rest[3]?
  return { name, start, stop, step, body }

end Count

/-- What `WHILE` is asked for. -/
structure Repetition where
  condition : Expr
  body : Expr

def Repetition.read (args : List (Value H)) : Except Fault Repetition := do
  let caller := Keyword.loop.name
  let (code, _) ← Argument.splitCode caller args
  match code.items with
  | head :: body :: _ =>
    match head.items with
    | condition :: _ => return { condition, body }
    | [] => throw (.arity caller .condition 0)
  | items => throw (.arity caller .conditionAndBody items.length)

end KeywordScript
