import KeywordScript.Proofs.Job
import KeywordScript.Proofs.Scope

/-! Writing: what a frame holds when a job has ended is what it held before, or what some call of
`SET` or `INC` that was under way meanwhile has put there. Bindings, calls and loops of other frames
leave it alone. -/

namespace KeywordScript

namespace EvalM

variable {H α β : Type} {m : Machine H} {Q : Machine H → Prop}

/-- A condition on the machine that holds after a first part, however it ends, and is kept by what
comes after it. -/
theorem ensures_next {x : EvalM H α} {f : α → EvalM H β} (hx : x.Ensures m fun _ m₁ => Q m₁)
    (hf : ∀ a m₁, x m = some (.value a, m₁) → Q m₁ → (f a).Ensures m₁ fun _ m' => Q m') :
    (x >>= f).Ensures m fun _ m' => Q m' := by
  rw [ensures_bind]
  intro o m₁ h
  cases o with
  | value a => exact hf a m₁ h (hx _ m₁ h)
  | returned v => exact hx _ m₁ h
  | failed e => exact hx _ m₁ h

theorem ensures_read {r : Except Fault α} {f : α → EvalM H β} (hm : Q m)
    (hf : ∀ a, r = .ok a → (f a).Ensures m fun _ m' => Q m') :
    (liftM r >>= f : EvalM H β).Ensures m fun _ m' => Q m' := by
  rw [ensures_bind]
  exact ensures_lift hf fun _ _ => hm

end EvalM

theorem Machine.get?_bindAll {H : Type} {m : Machine H} {i : Nat} (hi : i < m.stack.size)
    (ps : List String) (args : List (Value H)) :
    (m.bindAll ps args).stack.get? i = m.stack.get? i := by
  induction ps generalizing m args with
  | nil => rfl
  | cons p ps ih =>
    have hbound : i < (m.bind p (args.headD .null)).stack.size := by
      rw [Machine.bind, Stack.size_push]
      omega
    rw [Machine.bindAll, ih hbound, Machine.bind, Stack.get?_push_of_lt hi]

namespace Activation

/-- The call puts a value into the frame at position `i`: it is `SET` or `INC` of a name, and the
newest frame of that name stands there. -/
inductive Writes (i : Nat) : Activation → Value Empty → Prop where
  | assign {args b m} : Binding.read Keyword.assign.name args = .ok b →
    m.stack.position? b.name = some i → Writes i ⟨.call (.builtin .assign) args, m⟩ b.value
  | increment {args name x m} : Argument.name Keyword.increment.name args 0 = .ok name →
    m.stack.position? name = some i → m.stack.lookup? name = some (.num x) →
    Writes i ⟨.call (.builtin .increment) args, m⟩ (.num (x + 1))

/-- On `m'`, the frame at position `i` is as it was when `a` started, or holds what some `SET` or
`INC` under way meanwhile has put into it. -/
def Accounts (i : Nat) (a : Activation) (m' : Machine Empty) : Prop :=
  m'.stack.get? i = a.machine.stack.get? i ∨
    ∃ b rest v, UnderWay a (b :: rest) ∧ Writes i b v ∧
      m'.stack.get? i = (a.machine.stack.get? i).map fun f => { f with value := v }

section Steps

variable {i : Nat} {a b : Activation} {m m₁ m' : Machine Empty}

theorem Accounts.refl (i : Nat) (a : Activation) : Accounts i a a.machine :=
  .inl rfl

theorem Accounts.of_get? (h : Accounts i a m₁) (hget : m'.stack.get? i = m₁.stack.get? i) :
    Accounts i a m' := by
  unfold Accounts at h ⊢
  rwa [hget]

/-- What happens in a job that `a` starts adds to what has happened in `a` by then. -/
theorem Accounts.next (h : Accounts i a b.machine) (hs : Starts a b) (h' : Accounts i b m') :
    Accounts i a m' := by
  rcases h' with h' | ⟨c, rest, v, hc, hw, h'⟩
  · exact h.of_get? h'
  · refine .inr ⟨c, rest ++ [a], v, .of_starts hs hc, hw, ?_⟩
    rcases h with h | ⟨-, -, w, -, -, h⟩
    · rw [h', h]
    · rw [h', h, Option.map_map]
      rfl

theorem Accounts.start (hs : Starts a b) (hget : b.machine.stack.get? i = a.machine.stack.get? i)
    (h : Accounts i b m') : Accounts i a m' :=
  ((Accounts.refl i a).of_get? hget).next hs h

end Steps

section Jobs

variable {i : Nat} {m : Machine Empty}

/-- With `fuel`, whatever an expression does to the frame at position `i` is accounted for. -/
def ExprAccounts (i fuel : Nat) : Prop :=
  ∀ ⦃e line m⦄, i < m.stack.size →
    (evaluate fuel e line).Ensures m fun _ m' => Accounts i ⟨.expr e line, m⟩ m'

theorem size_le_of_evaluate {fuel : Nat} {e : Expr} {line : Option Nat}
    {o : Outcome Empty (Value Empty)} {m' : Machine Empty}
    (h : evaluate fuel e line m = some (o, m')) : m.stack.size ≤ m'.stack.size := by
  simpa using (names_prefix_of_evaluate h).length_le

variable {fuel : Nat} (hev : ExprAccounts i fuel)

include hev

theorem accounts_items (hi : i < m.stack.size) (n : Nat) (es : List Expr) :
    (evaluateItems (evaluate fuel) n es).Ensures m fun _ m' => Accounts i ⟨.items n es, m⟩ m' := by
  induction es generalizing n m with
  | nil => exact EvalM.ensures_pure.mpr (.refl i _)
  | cons e rest ih =>
    refine EvalM.ensures_next ?_ fun v m₁ h₁ hacc => ?_
    · exact fun o m₁ h₁ => .start .item rfl (hev hi o m₁ h₁)
    · have hrest := ih (Nat.lt_of_lt_of_le hi (size_le_of_evaluate h₁)) (n + 1)
      refine EvalM.ensures_next (fun o m₂ h₂ => ?_) fun vs m₂ _ h₂ => EvalM.ensures_pure.mpr h₂
      exact hacc.next (.nextItem ⟨fuel, h₁⟩) (hrest o m₂ h₂)

private theorem accounts_rounds (r : Repetition) (n : Nat) (hi : i < m.stack.size) :
    (EvalM.whileTruthy (evaluate fuel r.condition none) (evaluate fuel r.body none) n).Ensures
      m fun _ m' =>
      Accounts i ⟨.rounds r, m⟩ m' := by
  induction n generalizing m with
  | zero => exact EvalM.ensures_exhausted
  | succ n ih =>
    refine EvalM.ensures_next ?_ fun v m₁ h₁ hacc => ?_
    · exact fun o m₁ h₁ => .start .condition rfl (hev hi o m₁ h₁)
    · have hi₁ : i < m₁.stack.size := Nat.lt_of_lt_of_le hi (size_le_of_evaluate h₁)
      split
      · rename_i hv
        refine EvalM.ensures_next (fun o m₂ h₂ => ?_) fun w m₂ h₂ hacc₂ o m' h' => ?_
        · exact hacc.next (.round ⟨fuel, h₁⟩ hv) (hev hi₁ o m₂ h₂)
        · have hi₂ : i < m₂.stack.size := Nat.lt_of_lt_of_le hi₁ (size_le_of_evaluate h₂)
          exact hacc₂.next (.nextRound ⟨fuel, h₁⟩ hv ⟨fuel, h₂⟩) (ih hi₂ o m' h')
      · exact EvalM.ensures_pure.mpr hacc

/-- Its step `FOR` adds to a frame of its own only. -/
private theorem accounts_passes (c : Count) {slot : Nat} (hslot : slot ≠ i) (n : Nat)
    (hi : i < m.stack.size) :
    (c.passes slot (evaluate fuel c.body none) n).Ensures m fun _ m' =>
      Accounts i ⟨.passes c slot, m⟩ m' := by
  induction n generalizing m with
  | zero => exact EvalM.ensures_exhausted
  | succ n ih =>
    intro o m' h
    cases Count.turn_of_passes h with
    | unread _ | past _ _ => exact .refl i _
    | left hx hle hbody | broken hx hle hbody | spoilt hx hle hbody _ =>
      exact .start (.pass hx hle) rfl (hev hi _ m' hbody)
    | @next x v m₁ m₂ _ _ hx hle hbody hadvance hrest =>
      have hacc : Accounts i ⟨.passes c slot, m⟩ m₁ := .start (.pass hx hle) rfl (hev hi _ m₁ hbody)
      obtain ⟨y, -, rfl⟩ := Count.advance_eq_value hadvance
      let m₂ : Machine Empty := { m₁ with stack := m₁.stack.set slot (.num (y + c.step)) }
      have hset : Accounts i ⟨.passes c slot, m⟩ m₂ :=
        hacc.of_get? (Stack.get?_set_of_ne m₁.stack hslot _)
      have hi₂ : i < m₂.stack.size := by
        rw [Stack.size_set]
        exact Nat.lt_of_lt_of_le hi (size_le_of_evaluate hbody)
      exact hset.next (.nextPass hx hle ⟨fuel, hbody⟩ hadvance) (ih hi₂ o m' hrest)

omit hev in
theorem accounts_assign {k : Keyword} {args : List (Value Empty)} (b : Binding Empty)
    (hi : i < m.stack.size)
    (hw : m.stack.position? b.name = some i → Writes i ⟨.call (.builtin k) args, m⟩ b.value) :
    Accounts i ⟨.call (.builtin k) args, m⟩ (b.assign m) := by
  rw [Binding.assign, Stack.assign?_eq_set]
  cases hp : m.stack.position? b.name with
  | none => exact .inl (Stack.get?_push_of_lt hi _ _)
  | some j =>
    by_cases hj : j = i
    · subst hj
      exact .inr ⟨_, [], b.value, .start, hw hp, Stack.get?_set_self _ _ _⟩
    · exact .inl (Stack.get?_set_of_ne _ hj _)

private theorem accounts_keyword (k : Keyword) (args : List (Value Empty)) (hi : i < m.stack.size) :
    (k.invoke fuel (evaluate fuel) args).Ensures m fun _ m' =>
      Accounts i ⟨.call (.builtin k) args, m⟩ m' := by
  have hrefl : Accounts i ⟨.call (.builtin k) args, m⟩ m := .refl i _
  have hnull :
    ∀ {f : Machine Empty → Machine Empty}, Accounts i ⟨.call (.builtin k) args, m⟩ (f m) →
      (do .modify f; return .null : EvalM Empty (Value Empty)).Ensures m fun _ m' =>
        Accounts i ⟨.call (.builtin k) args, m⟩ m' := by
    intro f hf
    rw [EvalM.ensures_bind, EvalM.ensures_modify]
    exact EvalM.ensures_pure.mpr hf
  unfold Keyword.invoke
  cases k with
  | operator op => exact EvalM.ensures_lift (fun _ _ => hrefl) fun _ _ => hrefl
  | bind => exact EvalM.ensures_read hrefl fun b _ => hnull (.inl (Stack.get?_push_of_lt hi _ _))
  | assign => exact EvalM.ensures_read hrefl fun b hb => hnull (accounts_assign b hi (.assign hb))
  | increment =>
    refine EvalM.ensures_read hrefl fun name hname => EvalM.ensures_next ?_ fun _ m₁ _ h₁ =>
      EvalM.ensures_pure.mpr h₁
    rw [increment, EvalM.ensures_bind, EvalM.ensures_gets]
    dsimp only
    split
    · rename_i x hx
      exact EvalM.ensures_modify.mpr (accounts_assign ⟨name, _⟩ hi fun hp => .increment hname hp hx)
    · exact EvalM.ensures_fail.mpr hrefl
    · exact EvalM.ensures_fail.mpr hrefl
  | define => exact EvalM.ensures_read hrefl fun d _ => hnull (.inl (Stack.get?_push_of_lt hi _ _))
  | leave => exact EvalM.ensures_leave.mpr hrefl
  | print => exact hnull (hrefl.of_get? rfl)
  | choose =>
    refine EvalM.ensures_read hrefl fun branch hbranch => ?_
    cases branch with
    | none => exact EvalM.ensures_pure.mpr hrefl
    | some e =>
      refine EvalM.ensures_next (fun o m₁ h₁ => ?_) fun _ m₁ _ h₁ => EvalM.ensures_pure.mpr h₁
      exact .start (.branch hbranch) rfl (hev hi o m₁ h₁)
  | count =>
    refine EvalM.ensures_read hrefl fun c hc => EvalM.ensures_next ?_ fun _ m₁ _ h₁ =>
      EvalM.ensures_pure.mpr h₁
    rw [Count.run, EvalM.ensures_bind, EvalM.ensures_gets]
    dsimp only
    rw [EvalM.ensures_bind, EvalM.ensures_modify]
    intro o m' h
    have hbound : i < (m.bind c.name (.num c.start)).stack.size := by
      rw [Machine.bind, Stack.size_push]
      omega
    have hpasses := accounts_passes hev c (Nat.ne_of_gt hi) fuel hbound o m' h
    exact .start (.count hc) (Stack.get?_push_of_lt hi _ _) hpasses
  | loop =>
    refine EvalM.ensures_read hrefl fun r hr => EvalM.ensures_next ?_ fun _ m₁ _ h₁ =>
      EvalM.ensures_pure.mpr h₁
    exact fun o m₁ h₁ => .start (.loop hr) rfl (accounts_rounds hev r fuel hi o m₁ h₁)

private theorem accounts_function (f : Function) (args : List (Value Empty))
    (hi : i < m.stack.size) :
    (f.invoke (evaluate fuel) args).Ensures m fun _ m' =>
      Accounts i ⟨.call (.func f) args, m⟩ m' := by
  rw [Function.invoke_eq_asCall]
  refine EvalM.ensures_asCall (fun _ => .refl i _) fun hlt => ?_
  rw [Function.evaluateBody, EvalM.ensures_bind, EvalM.ensures_modify]
  intro o m' h
  let m₁ : Machine Empty := { m with depth := m.depth + 1 }
  have hbound : i < (m₁.bindAll f.params args).stack.size := by
    have hprefix : m₁.stack.names <+: (m₁.bindAll f.params args).stack.names :=
      (Discipline.bindAll_kept (D := .names) f.params (fun _ _ => trivial)
        (Discipline.names_holds m₁)).1
    have hle : m₁.stack.size ≤ (m₁.bindAll f.params args).stack.size := by
      simpa using hprefix.length_le
    exact Nat.lt_of_lt_of_le hi hle
  have hitems := accounts_items hev hbound 1 f.body.items o m' h
  have hbody : Accounts i ⟨.body f args, m₁⟩ m' :=
    .start .body (Machine.get?_bindAll (m := m₁) hi f.params args) hitems
  have hcall : Accounts i ⟨.call (.func f) args, m⟩ m' := .start (.enter hlt) rfl hbody
  exact hcall.of_get? (Stack.get?_truncate_of_lt m'.stack hi)

end Jobs

/-- Whatever an evaluation or a call does to a frame that was there before is accounted for. -/
theorem accounts (i fuel : Nat) :
    ExprAccounts i fuel ∧ ∀ ⦃callee args m⦄, i < m.stack.size →
      (KeywordScript.call fuel callee args).Ensures m
      fun _ m' => Accounts i ⟨.call callee args, m⟩ m' := by
  -- Evaluations and calls use each other with less fuel.
  induction fuel with
  | zero =>
    constructor
    · intro e line m _
      rw [evaluate]
      exact EvalM.ensures_exhausted
    · intro callee args m _
      rw [KeywordScript.call]
      exact EvalM.ensures_exhausted
  | succ fuel ih =>
    obtain ⟨hev, hcall⟩ := ih
    constructor
    · intro e line m hi
      cases e with
      | lit l =>
        rw [evaluate]
        exact EvalM.ensures_pure.mpr (.refl i _)
      | script es =>
        rw [evaluate]
        refine EvalM.ensures_next ?_ fun vs m₁ _ h₁ => EvalM.ensures_pure.mpr h₁
        rw [EvalM.ensures_inScope]
        intro o m₁ h₁
        have hitems := accounts_items hev hi 1 es o m₁ h₁
        exact .of_get? (.start .script rfl hitems) (Stack.get?_truncate_of_lt m₁.stack hi)
      | node k arg code ownLine =>
        rw [evaluate_node]
        refine EvalM.ensures_next (fun o m₁ h₁ => .start .argument rfl (hev hi o m₁ h₁))
          fun v m₁ h₁ hacc o m' h => ?_
        cases hf : m₁.find? k with
        | none =>
          rw [dispatch_of_not_find hf] at h
          cases h
          exact hacc.of_get? rfl
        | some callee =>
          rw [dispatch_of_find hf] at h
          have hi₁ : i < m₁.stack.size := Nat.lt_of_lt_of_le hi (size_le_of_evaluate h₁)
          exact hacc.next (.call ⟨fuel, h₁⟩ hf) (hcall hi₁ o m' h)
    · intro callee args m hi
      cases callee with
      | builtin k =>
        rw [KeywordScript.call]
        exact accounts_keyword hev k args hi
      | native n =>
        rw [KeywordScript.call]
        cases n.action with
        | math op => exact EvalM.ensures_lift (fun _ _ => .refl i _) fun _ _ => .refl i _
        | host h => exact h.elim
      | func f =>
        rw [KeywordScript.call]
        exact accounts_function hev f args hi
      | _ =>
        rw [KeywordScript.call]
        · exact EvalM.ensures_pure.mpr (.refl i _)
        all_goals simp

end Activation

end KeywordScript
