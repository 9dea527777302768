import KeywordScript.Plugin.Reflection
import KeywordScript.Proofs.Postcondition
import KeywordScript.Proofs.Stack

/-! Operations: expressions made of literals, scripts and operators. They have a value that no
machine is asked for, and evaluating them gives that value and does nothing else. -/

namespace KeywordScript

/-- An expression whose nodes are operators. Its nodes may carry any code, since no operator
evaluates it. -/
inductive Operation where
  | lit (l : Literal)
  | script (items : List Operation)
  | node (op : Operator) (arg : Operation) (code : Option Code) (line : Option Nat)

namespace Operation

mutual

def toExpr : Operation → Expr
  | lit l => .lit l
  | script items => .script (toExprs items)
  | node op arg code line => .node op.name arg.toExpr code line

def toExprs : List Operation → List Expr
  | [] => []
  | q :: rest => q.toExpr :: toExprs rest

end

mutual

/-- How deep the evaluations of its parts stand inside each other. -/
def height : Operation → Nat
  | lit _ => 1
  | script items => itemsHeight items + 1
  | node _ arg _ _ => arg.height + 1

def itemsHeight : List Operation → Nat
  | [] => 0
  | q :: rest => max q.height (itemsHeight rest)

end

private theorem height_pos (q : Operation) : 0 < q.height := by
  cases q <;> simp [height]

section Values

variable {H : Type}

mutual

/-- The value, or the fault of the first operator that fails. -/
def value : Operation → Except Fault (Value H)
  | lit l => .ok l.toValue
  | script items => do
    return .list (← values items)
  | node op arg code _ => do
    let v ← arg.value
    op.apply (v.arguments ++ (code.map Value.code).toList)

def values : List Operation → Except Fault (List (Value H))
  | [] => .ok []
  | q :: rest => do
    let v ← q.value
    let vs ← values rest
    return v :: vs

end

def outcome (q : Operation) : Outcome H (Value H) :=
  match q.value with
  | .ok v => .value v
  | .error f => .failed f

end Values

end Operation

section Idle

variable {H α β : Type} {x : EvalM H α} {r : Except Fault α} {m : Machine H}

/-- What follows on an action that leaves the machine as it is begins on the same machine. -/
theorem EvalM.bind_of_lift (hx : x m = (liftM r : EvalM H α) m) {f : α → EvalM H β}
    {g : α → Except Fault β} (hf : ∀ a, f a m = (liftM (g a) : EvalM H β) m) :
    (x >>= f) m = (liftM (r >>= g) : EvalM H β) m := by
  cases r with
  | error e => exact EvalM.bind_of_failed hx f
  | ok a => exact (EvalM.bind_of_value hx f).trans (hf a)

/-- A scope in which no frame is left over ends as what is in it does. -/
theorem EvalM.inScope_of_size {o : Outcome H α} {m₁ : Machine H} (h : x m = some (o, m₁))
    (hsize : m₁.stack.size = m.stack.size) : x.inScope m = some (o, m₁) := by
  simp only [EvalM.inScope, h, Option.map_some, Machine.truncate, ← hsize, Stack.truncate_size]

theorem EvalM.inScope_of_lift (hx : x m = (liftM r : EvalM H α) m) :
    x.inScope m = (liftM r : EvalM H α) m := by
  cases r with
  | ok a => exact EvalM.inScope_of_size hx rfl
  | error f => exact EvalM.inScope_of_size hx rfl

end Idle

namespace Operation

variable {H : Type} [Host H] {m : Machine H}

theorem call_operator (fuel : Nat) (op : Operator) (args : List (Value H)) :
    call (fuel + 1) (.builtin (.operator op)) args m =
      (liftM (op.apply args) : EvalM H (Value H)) m := by
  rw [call]
  rfl

/-- An operator that is called by its name is applied to the arguments. -/
theorem evaluate_operator {op : Operator} (hop : op.name ∉ m.stack.names) {fuel : Nat}
    (hfuel : 0 < fuel) {arg : Expr} {code : Option Code} {line context : Option Nat}
    {r : Except Fault (Value H)}
    (harg : evaluate fuel arg (line <|> context) m = (liftM r : EvalM H (Value H)) m) :
    evaluate (fuel + 1) (.node op.name arg code line) context m =
      (liftM (r >>= fun v => op.apply (v.arguments ++ (code.map Value.code).toList)) :
        EvalM H (Value H)) m := by
  have hfind : m.find? op.name = some (.builtin (.operator op)) :=
    Machine.find?_keyword (k := .operator op) hop
  rw [evaluate]
  refine EvalM.bind_of_lift harg fun v => ?_
  rw [EvalM.bind_of_value (a := m.find? op.name) rfl, hfind]
  obtain ⟨k, rfl⟩ := Nat.exists_eq_add_of_lt hfuel
  rw [Nat.zero_add]
  exact call_operator k op _

-- Scripts hold operations and operations hold scripts, so one induction goes through both.
mutual

theorem evaluate_toExpr (hm : ∀ op : Operator, op.name ∉ m.stack.names) :
    (q : Operation) → {fuel : Nat} → q.height ≤ fuel → (line : Option Nat) →
      evaluate fuel q.toExpr line m =
        (liftM (q.value : Except Fault (Value H)) : EvalM H (Value H)) m
  | lit l, fuel + 1, _, line => by
    rw [toExpr, evaluate, value]
    rfl
  | script items, fuel + 1, hfuel, line => by
    have hitems := evaluateItems_toExprs hm items (Nat.le_of_succ_le_succ hfuel) 1
    rw [toExpr, evaluate, value]
    exact EvalM.bind_of_lift (EvalM.inScope_of_lift hitems) fun _ => rfl
  | node op arg code ownLine, fuel + 1, hfuel, line => by
    have hle : arg.height ≤ fuel := Nat.le_of_succ_le_succ hfuel
    rw [toExpr, value]
    exact evaluate_operator (hm op) (Nat.lt_of_lt_of_le arg.height_pos hle)
      (evaluate_toExpr hm arg hle _)

theorem evaluateItems_toExprs (hm : ∀ op : Operator, op.name ∉ m.stack.names) :
    (qs : List Operation) → {fuel : Nat} → itemsHeight qs ≤ fuel → (n : Nat) →
      evaluateItems (evaluate fuel) n (toExprs qs) m =
        (liftM (values qs : Except Fault (List (Value H))) : EvalM H (List (Value H))) m
  | [], _, _, _ => rfl
  | q :: rest, fuel, hfuel, n => by
    have hfirst := evaluate_toExpr hm q (Nat.le_trans (Nat.le_max_left _ _) hfuel) (some n)
    have hrest := evaluateItems_toExprs hm rest (Nat.le_trans (Nat.le_max_right _ _) hfuel) (n + 1)
    rw [toExprs, evaluateItems, values]
    exact EvalM.bind_of_lift hfirst fun v => EvalM.bind_of_lift hrest fun _ => rfl

end

end Operation

/-- An operation has one outcome, which is a value or a fault and never on the way out of a
function. On every machine with no frame for an operator, with whatever natives, and whatever line
is to blame, its evaluation ends with that outcome and leaves the machine as it was. -/
theorem operations_pure {H : Type} [Host H] (q : Operation) :
    (∀ v, (q.outcome : Outcome H (Value H)) ≠ .returned v) ∧
    ∀ m : Machine H, (∀ op : Operator, op.name ∉ m.stack.names) → ∀ line fuel, q.height ≤ fuel →
      evaluate fuel q.toExpr line m = some (q.outcome, m) := by
  constructor
  · intro v
    unfold Operation.outcome
    split <;> simp
  · intro m hm line fuel hfuel
    rw [Operation.evaluate_toExpr hm q hfuel line, EvalM.lift_apply, Operation.outcome]
    cases (q.value : Except Fault (Value H)) <;> rfl

/-- An operator that is given code, alone and as an argument of one that cannot take it, on a
machine that other natives can reach and on one in the middle of a call. -/
theorem operations_pure_beside_natives :
    let code : Code := ⟨{ document := 0 }, .node "PRINT" (.lit (.str "x")) none none⟩
    let pick : Operation := .node .and (.lit (.bool true)) (some code) (some 3)
    let clash : Operation := .script [pick, .node .sub (.script [.lit (.str "a"), pick]) none none]
    let m : Machine Reflection := Machine.importPlugin {} Reflection.plugin
    let m' : Machine Reflection := { depth := 2, transcript := { lines := #["earlier"] } }
    (∀ op : Operator, op.name ∉ m.stack.names) ∧ (∀ op : Operator, op.name ∉ m'.stack.names) ∧
    evaluate 2 pick.toExpr none m = some (.value (.code code), m) ∧
    evaluate 5 clash.toExpr none m = some (.failed (.mismatch .sub .string .script), m) ∧
    evaluate 9 clash.toExpr (some 4) m' = some (.failed (.mismatch .sub .string .script), m') := by
  intro code pick clash m m'
  have hm : ∀ op : Operator, op.name ∉ m.stack.names := by
    intro op
    cases op <;> decide
  have hm' : ∀ op : Operator, op.name ∉ m'.stack.names := by
    intro op
    cases op <;> decide
  have hpick := (operations_pure pick).2 m hm none 2 (by decide)
  have hclash := (operations_pure clash).2 m hm none 5 (by decide)
  have hclash' := (operations_pure clash).2 m' hm' (some 4) 9 (by decide)
  exact ⟨hm, hm', hpick, hclash, hclash'⟩

end KeywordScript
