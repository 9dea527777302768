import KeywordScript.Eval.Invoke

/-!
Evaluation of expressions. The fuel bounds how deep evaluations stand inside each other and how many
passes a loop makes; an evaluation that ends does so the same way with any larger fuel.
-/

namespace KeywordScript

variable {H : Type}

/-- The ways back into evaluation that keywords and natives have. -/
structure Reentry (H : Type) where
  evaluate : Expr → Option Nat → EvalM H (Value H)
  call : Value H → List (Value H) → EvalM H (Value H)

/-- What the natives of a host do. -/
class Host (H : Type) where
  invoke : Reentry H → H → List (Value H) → EvalM H (Value H)

instance : Host Empty where
  invoke _ h := h.elim

variable [Host H]

mutual

/-- Evaluates an expression. `context` is the line to blame where the expression has none. -/
def evaluate : Nat → Expr → Option Nat → EvalM H (Value H)
  | 0, _, _ => .exhausted
  | _ + 1, .lit l, _ => return l.toValue
  | fuel + 1, .script items, _ => do
    return .list (← (evaluateItems (evaluate fuel) 1 items).inScope)
  | fuel + 1, .node keyword arg code line, context => do
    let line := line <|> context
    let v ← evaluate fuel arg line
    let args := v.arguments ++ (code.map Value.code).toList
    match ← EvalM.gets fun m => m.find? keyword with
    | some callee => call fuel callee args
    | none =>
      .modify fun m => m.report { keyword, line }
      return .str keyword

/-- Calls a callable. Any other value gives itself. -/
def call : Nat → Value H → List (Value H) → EvalM H (Value H)
  | 0, _, _ => .exhausted
  | fuel + 1, callee, args =>
    match callee with
    | .builtin k => k.invoke fuel (evaluate fuel) args
    | .native n =>
      match n.action with
      | .math op => .ofExcept (op.invoke args)
      | .host h => Host.invoke { evaluate := evaluate fuel, call := call fuel } h args
    | .func f => f.invoke (evaluate fuel) args
    | v => return v

end

end KeywordScript
