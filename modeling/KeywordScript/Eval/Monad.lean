import KeywordScript.Fault
import KeywordScript.Machine

/-!
Evaluations: actions on a machine that end with a value, leave a function with one, or fail. The
machine is there in each case. An evaluation that was given too little fuel ends with nothing.
-/

namespace KeywordScript

inductive Outcome (H α : Type) where
  | value (a : α)
  /-- On the way out to the nearest function call. -/
  | returned (v : Value H)
  | failed (f : Fault)

def EvalM (H α : Type) :=
  Machine H → Option (Outcome H α × Machine H)

namespace EvalM

variable {H α β : Type}

instance : Monad (EvalM H) where
  pure a := fun m => some (.value a, m)
  bind x f := fun m =>
    match x m with
    | none => none
    | some (.value a, m) => f a m
    | some (.returned v, m) => some (.returned v, m)
    | some (.failed e, m) => some (.failed e, m)

def exhausted : EvalM H α :=
  fun _ => none

def fail (f : Fault) : EvalM H α :=
  fun m => some (.failed f, m)

/-- Leaves the nearest function call with a value. -/
def leave (v : Value H) : EvalM H α :=
  fun m => some (.returned v, m)

def gets (f : Machine H → α) : EvalM H α :=
  fun m => some (.value (f m), m)

def modify (f : Machine H → Machine H) : EvalM H Unit :=
  fun m => some (.value (), f m)

def ofExcept : Except Fault α → EvalM H α
  | .ok a => pure a
  | .error f => fail f

instance : MonadLift (Except Fault) (EvalM H) :=
  ⟨ofExcept⟩

/-- Drops what was bound meanwhile, however the evaluation ends. -/
def inScope (x : EvalM H α) : EvalM H α := fun m =>
  (x m).map fun (outcome, m') => (outcome, m'.truncate m.stack.size)

end EvalM

/-- A function call ends with what was returned to it, and with null when its body ran to the
end. -/
def Outcome.ofBody {H α : Type} : Outcome H α → Outcome H (Value H)
  | value _ => .value .null
  | returned v => .value v
  | failed f => .failed f

/-- Evaluates a body as one more function call, unless too many are under way. -/
def EvalM.asCall {H α : Type} (body : EvalM H α) : EvalM H (Value H) := fun m =>
  if m.maxDepth ≤ m.depth then
    some (.failed (.depthExceeded m.maxDepth), m)
  else
    (body.inScope { m with depth := m.depth + 1 }).map fun (outcome, m') =>
      (outcome.ofBody, { m' with depth := m'.depth - 1 })

end KeywordScript
