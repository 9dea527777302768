import KeywordScript.Eval.Run

/-! Postconditions of evaluations. They are about evaluations that end, in whichever way; one rule
for each way to build an evaluation. -/

namespace KeywordScript

variable {H α β : Type}

/-- However `x` ends on `m`, its outcome and the machine it leaves satisfy `post`. -/
def EvalM.Ensures (x : EvalM H α) (m : Machine H) (post : Outcome H α → Machine H → Prop) : Prop :=
  ∀ o m', x m = some (o, m') → post o m'

namespace EvalM

theorem pure_apply (a : α) (m : Machine H) : (pure a : EvalM H α) m = some (.value a, m) := rfl

theorem lift_apply (r : Except Fault α) (m : Machine H) :
    (liftM r : EvalM H α) m =
      match r with
      | .ok a => some (.value a, m)
      | .error f => some (.failed f, m) := by
  cases r <;> rfl

theorem bind_apply (x : EvalM H α) (f : α → EvalM H β) (m : Machine H) :
    (x >>= f) m =
      match x m with
      | none => none
      | some (.value a, m') => f a m'
      | some (.returned v, m') => some (.returned v, m')
      | some (.failed e, m') => some (.failed e, m') := rfl

theorem bind_of_value {x : EvalM H α} {m m₁ : Machine H} {a : α} (h : x m = some (.value a, m₁))
    (f : α → EvalM H β) : (x >>= f) m = f a m₁ := by
  rw [bind_apply, h]

theorem bind_of_returned {x : EvalM H α} {m m₁ : Machine H} {v : Value H}
    (h : x m = some (.returned v, m₁)) (f : α → EvalM H β) :
    (x >>= f) m = some (.returned v, m₁) := by
  rw [bind_apply, h]

theorem bind_of_failed {x : EvalM H α} {m m₁ : Machine H} {e : Fault}
    (h : x m = some (.failed e, m₁)) (f : α → EvalM H β) : (x >>= f) m = some (.failed e, m₁) := by
  rw [bind_apply, h]

theorem bind_eq_some {x : EvalM H α} {f : α → EvalM H β} {m m' : Machine H} {o : Outcome H β}
    (h : (x >>= f) m = some (o, m')) :
    (∃ a m₁, x m = some (.value a, m₁) ∧ f a m₁ = some (o, m')) ∨
      (∃ v, x m = some (.returned v, m') ∧ o = .returned v) ∨
      (∃ e, x m = some (.failed e, m') ∧ o = .failed e) := by
  rw [bind_apply] at h
  match hx : x m, h with
  | some (.value a, m₁), h => exact .inl ⟨a, m₁, rfl, h⟩
  | some (.returned v, m₁), h =>
    cases h
    exact .inr (.inl ⟨v, rfl, rfl⟩)
  | some (.failed e, m₁), h =>
    cases h
    exact .inr (.inr ⟨e, rfl, rfl⟩)

theorem asCall_of_le (x : EvalM H α) {m : Machine H} (h : m.maxDepth ≤ m.depth) :
    x.asCall m = some (.failed (.depthExceeded m.maxDepth), m) :=
  if_pos h

theorem asCall_of_lt (x : EvalM H α) {m : Machine H} (h : m.depth < m.maxDepth) :
    x.asCall m = (x.inScope { m with depth := m.depth + 1 }).map fun (o, m') =>
      (o.ofBody, { m' with depth := m'.depth - 1 }) :=
  if_neg (Nat.not_le_of_lt h)

variable {m : Machine H} {post : Outcome H α → Machine H → Prop}

@[simp] theorem ensures_pure {a : α} : (pure a : EvalM H α).Ensures m post ↔ post (.value a) m := by
  simp [Ensures, pure_apply]

@[simp] theorem ensures_exhausted : (exhausted : EvalM H α).Ensures m post := by
  simp [Ensures, exhausted]

@[simp] theorem ensures_fail {f : Fault} :
    (fail f : EvalM H α).Ensures m post ↔ post (.failed f) m := by
  simp [Ensures, fail]

@[simp] theorem ensures_leave {v : Value H} :
    (leave v : EvalM H α).Ensures m post ↔ post (.returned v) m := by
  simp [Ensures, leave]

@[simp] theorem ensures_gets {f : Machine H → α} :
    (gets f).Ensures m post ↔ post (.value (f m)) m := by
  simp [Ensures, gets]

@[simp] theorem ensures_modify {f : Machine H → Machine H}
    {post : Outcome H Unit → Machine H → Prop} :
    (modify f).Ensures m post ↔ post (.value ()) (f m) := by
  simp [Ensures, modify]

theorem ensures_lift {r : Except Fault α} (hok : ∀ a, r = .ok a → post (.value a) m)
    (herror : ∀ f, r = .error f → post (.failed f) m) : (liftM r : EvalM H α).Ensures m post := by
  intro o m' h
  rw [lift_apply] at h
  cases r with
  | ok a =>
    cases h
    exact hok a rfl
  | error f =>
    cases h
    exact herror f rfl

theorem ensures_bind {x : EvalM H α} {f : α → EvalM H β} {post : Outcome H β → Machine H → Prop} :
    (x >>= f).Ensures m post ↔ x.Ensures m fun
      | .value a, m' => (f a).Ensures m' post
      | .returned v, m' => post (.returned v) m'
      | .failed e, m' => post (.failed e) m' := by
  constructor
  · intro h o m' hx
    have hb := bind_apply x f m
    rw [hx] at hb
    cases o with
    | value a => exact fun o m'' hf => h o m'' (hb.trans hf)
    | returned v => exact h _ _ hb
    | failed e => exact h _ _ hb
  · intro h o m' hb
    rcases bind_eq_some hb with ⟨a, m₁, hx, hf⟩ | ⟨v, hx, rfl⟩ | ⟨e, hx, rfl⟩
    · exact h _ _ hx o m' hf
    · exact h _ _ hx
    · exact h _ _ hx

theorem ensures_inScope {x : EvalM H α} :
    x.inScope.Ensures m post ↔ x.Ensures m fun o m' => post o (m'.truncate m.stack.size) := by
  constructor
  · intro h o m' hx
    exact h o _ (by rw [inScope, hx]; rfl)
  · intro h o m' hs
    obtain ⟨⟨o₁, m₁⟩, hx, he⟩ := Option.map_eq_some_iff.mp hs
    cases he
    exact h _ _ hx

/-- A body is evaluated one call deeper. -/
theorem ensures_asCall {x : EvalM H α} {post : Outcome H (Value H) → Machine H → Prop}
    (hlimit : m.maxDepth ≤ m.depth → post (.failed (.depthExceeded m.maxDepth)) m)
    (hbody : m.depth < m.maxDepth → x.Ensures { m with depth := m.depth + 1 } fun o m' =>
      post o.ofBody { m'.truncate m.stack.size with depth := m'.depth - 1 }) :
    x.asCall.Ensures m post := by
  intro o m' h
  by_cases hm : m.maxDepth ≤ m.depth
  · rw [asCall_of_le x hm] at h
    cases h
    exact hlimit hm
  · have hlt := Nat.lt_of_not_le hm
    rw [asCall_of_lt x hlt] at h
    obtain ⟨⟨o₁, m₁⟩, hs, he⟩ := Option.map_eq_some_iff.mp h
    obtain ⟨⟨o₂, m₂⟩, hx, ht⟩ := Option.map_eq_some_iff.mp hs
    cases ht
    cases he
    exact hbody hlt _ _ hx

end EvalM

/-- The body of a function, evaluated after its parameters are bound. -/
def Function.evaluateBody (f : Function) (evaluate : Expr → Option Nat → EvalM H (Value H))
    (args : List (Value H)) : EvalM H (List (Value H)) := do
  .modify fun m => m.bindAll f.params args
  evaluateItems evaluate 1 f.body.items

theorem Function.invoke_eq_asCall (f : Function) (evaluate : Expr → Option Nat → EvalM H (Value H))
    (args : List (Value H)) : f.invoke evaluate args = (f.evaluateBody evaluate args).asCall := rfl

end KeywordScript
