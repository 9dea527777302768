import KeywordScript.Eval.Loop
import KeywordScript.Operator

/-!
What keywords, natives on numbers and functions do with their arguments, for a given way to evaluate
expressions.
-/

namespace KeywordScript

variable {H : Type}

/-- A native on numbers takes exactly one. -/
def MathOp.invoke (op : MathOp) (args : List (Value H)) : Except Fault (Value H) := do
  if args.length ≠ 1 then
    throw (.arity op.name .one args.length)
  return .num (op.apply (← Argument.number op.name args 0))

/-- The values of items, each evaluated with its number as the line. Lines are not bounded here, so
that a script is meant to have fewer than `2 ^ 32 - 1` items. -/
def evaluateItems (evaluate : Expr → Option Nat → EvalM H (Value H)) :
    Nat → List Expr → EvalM H (List (Value H))
  | _, [] => return []
  | line, e :: rest => do
    let v ← evaluate e (some line)
    let vs ← evaluateItems evaluate (line + 1) rest
    return v :: vs

def Function.invoke (f : Function) (evaluate : Expr → Option Nat → EvalM H (Value H))
    (args : List (Value H)) : EvalM H (Value H) :=
  EvalM.asCall do
    .modify fun m => m.bindAll f.params args
    evaluateItems evaluate 1 f.body.items

/-- Assigns to the newest frame of a name, or binds the name. -/
def Binding.assign (b : Binding H) (m : Machine H) : Machine H :=
  match m.stack.assign? b.name b.value with
  | some stack => { m with stack }
  | none => m.bind b.name b.value

/-- Adds one to the number that a name is bound to. -/
def increment (name : String) : EvalM H Unit := do
  match ← EvalM.gets fun m => m.stack.lookup? name with
  | some (.num x) => .modify (Binding.assign { name, value := .num (x + 1) })
  | some v => .fail (.argument Keyword.increment.name 0 .boundNumber v.kind)
  | none => .fail (.unbound name)

/-- Binds a name to a function that differs from all before it. -/
def Definition.bind (d : Definition) (m : Machine H) : Machine H :=
  let (id, m) := m.issue
  m.bind d.name (.func { id, name := d.name, params := d.params, body := d.body })

def Keyword.invoke (fuel : Nat) (evaluate : Expr → Option Nat → EvalM H (Value H))
    (k : Keyword) (args : List (Value H)) : EvalM H (Value H) := do
  match k with
  | operator op => op.apply args
  | bind =>
    let b ← Binding.read k.name args
    .modify fun m => m.bind b.name b.value
    return .null
  | assign =>
    let b ← Binding.read k.name args
    .modify b.assign
    return .null
  | increment =>
    KeywordScript.increment (← Argument.name k.name args 0)
    return .null
  | define =>
    let d ← Definition.read args
    .modify d.bind
    return .null
  | leave => .leave (args.headD .null)
  | print =>
    .modify fun m => m.print (Value.line args)
    return .null
  | choose =>
    match ← chosenBranch args with
    | some body =>
      let _ ← evaluate body none
      return .null
    | none => return .null
  | count =>
    let c ← Count.read args
    c.run (evaluate c.body none) fuel
    return .null
  | loop =>
    let r ← Repetition.read args
    .whileTruthy (evaluate r.condition none) (evaluate r.body none) fuel
    return .null

end KeywordScript
