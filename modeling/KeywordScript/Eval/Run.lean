import KeywordScript.Eval.Basic

/-!
Runs: scripts evaluated for a host, outside any function.
-/

namespace KeywordScript

variable {H : Type}

inductive RunError (H : Type) where
  | fault (f : Fault)
  /-- A return that met no function call. -/
  | returnOutside (v : Value H)

def RunError.message : RunError H → String
  | fault f => f.message
  | returnOutside v => "RETURN outside of a function (value: " ++ v.text ++ ")"

def Outcome.toExcept {α : Type} : Outcome H α → Except (RunError H) α
  | value a => .ok a
  | returned v => .error (.returnOutside v)
  | failed f => .error (.fault f)

variable [Host H]

/-- Evaluates the items of a script in a scope of their own, after `init`. -/
def evaluateScript (fuel : Nat) (init : EvalM H Unit) (script : List Expr) :
    EvalM H (List (Value H)) :=
  EvalM.inScope do
    init
    evaluateItems (evaluate fuel) 1 script

/-- Runs a script after `init`, in the same scope: the value of each item, in order. -/
def Machine.runAfter (m : Machine H) (fuel : Nat) (init : EvalM H Unit) (script : List Expr) :
    Option (Except (RunError H) (List (Value H)) × Machine H) :=
  (evaluateScript fuel init script m).map fun (outcome, m') => (outcome.toExcept, m')

def Machine.run (m : Machine H) (fuel : Nat) (script : List Expr) :
    Option (Except (RunError H) (List (Value H)) × Machine H) :=
  m.runAfter fuel (pure ()) script

end KeywordScript
