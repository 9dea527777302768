import KeywordScript.Eval.Monad
import KeywordScript.Eval.Statement

/-!
Loops over an evaluation. The number of passes is bounded by the fuel.
-/

namespace KeywordScript

variable {H : Type}

/-- Evaluates `body` as long as `condition` gives something truthy. -/
def EvalM.whileTruthy (condition body : EvalM H (Value H)) : Nat → EvalM H Unit
  | 0 => .exhausted
  | n + 1 => do
    let v ← condition
    if v.isTruthy then
      let _ ← body
      whileTruthy condition body n
    else
      return ()

namespace Count

/-- The number of a `FOR`, which stands in the frame at position `slot`. -/
def current (c : Count) (slot : Nat) : EvalM H Float := do
  match ← EvalM.gets fun m => m.stack.get? slot with
  | some { value := .num x, .. } => return x
  | some { value := v, .. } => .fail (.argument Keyword.count.name 0 .loopNumber v.kind)
  | none => .fail (.unbound c.name)

def advance (c : Count) (slot : Nat) : EvalM H Unit := do
  let x ← c.current slot
  .modify fun m => { m with stack := m.stack.set slot (.num (x + c.step)) }

def passes (c : Count) (slot : Nat) (body : EvalM H (Value H)) : Nat → EvalM H Unit
  | 0 => .exhausted
  | n + 1 => do
    let x ← c.current slot
    if x ≤ c.stop then
      let _ ← body
      c.advance slot
      c.passes slot body n
    else
      return ()

/-- Binds the name, which outlives the loop, and makes the passes. -/
def run (c : Count) (body : EvalM H (Value H)) (fuel : Nat) : EvalM H Unit := do
  let slot ← EvalM.gets fun m => m.stack.size
  .modify fun m => m.bind c.name (.num c.start)
  c.passes slot body fuel

end Count

end KeywordScript
