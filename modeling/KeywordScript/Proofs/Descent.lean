import KeywordScript.Proofs.Progress

/-! Descent: below a job that ends no chain of jobs goes on for ever. What a job has whenever the
jobs that it starts have it is therefore had by every job that ends. -/

namespace KeywordScript

namespace Activation

section Descent

/-- No chain of jobs, each of which starts the next, goes on for ever below this one. -/
def Grounded (a : Activation) : Prop :=
  Acc (fun b c => Starts c b) a

variable {n : Nat} {m : Machine Empty}
  (hev : ∀ {e line m r}, evaluate n e line m = some r → Grounded ⟨.expr e line, m⟩)

include hev

theorem grounded_items {line : Nat} {es : List Expr}
    {r : Outcome Empty (List (Value Empty)) × Machine Empty}
    (h : evaluateItems (evaluate n) line es m = some r) : Grounded ⟨.items line es, m⟩ := by
  induction es generalizing line m r with
  | nil => exact ⟨_, fun b hb => by cases hb⟩
  | cons e rest ih =>
    refine ⟨_, fun b hb => ?_⟩
    cases hb with
    | item =>
      obtain ⟨r', he⟩ := EvalM.exists_of_bind h
      exact hev he
    | nextItem he =>
      have hrest := EvalM.Ends.run_of_bind (Job.run_mono (.expr e (some line))) he h
      obtain ⟨r', hr'⟩ := EvalM.exists_of_bind hrest
      exact ih hr'

theorem grounded_passes {c : Count} {slot k : Nat} {r : Outcome Empty Unit × Machine Empty}
    (h : c.passes slot (evaluate n c.body none) k m = some r) : Grounded ⟨.passes c slot, m⟩ := by
  induction k generalizing m r with
  | zero => cases h
  | succ k ih =>
    refine ⟨_, fun b hb => ?_⟩
    cases hb with
    | pass hx hle =>
      rw [Count.passes, EvalM.bind_of_value hx, if_pos hle] at h
      obtain ⟨r', hbody⟩ := EvalM.exists_of_bind h
      exact hev hbody
    | nextPass hx hle he ha =>
      rw [Count.passes, EvalM.bind_of_value hx, if_pos hle] at h
      have hadvance := EvalM.Ends.run_of_bind (evaluate_mono c.body none) he h
      rw [EvalM.bind_of_value ha] at hadvance
      exact ih hadvance

theorem grounded_rounds {l : Repetition} {k : Nat} {r : Outcome Empty Unit × Machine Empty}
    (h : EvalM.whileTruthy (evaluate n l.condition none) (evaluate n l.body none) k m = some r) :
    Grounded ⟨.rounds l, m⟩ := by
  induction k generalizing m r with
  | zero => cases h
  | succ k ih =>
    refine ⟨_, fun b hb => ?_⟩
    cases hb with
    | condition =>
      obtain ⟨r', hcondition⟩ := EvalM.exists_of_bind h
      exact hev hcondition
    | round he hv =>
      have hbody := EvalM.Ends.run_of_bind (evaluate_mono l.condition none) he h
      rw [if_pos hv] at hbody
      obtain ⟨r', hr'⟩ := EvalM.exists_of_bind hbody
      exact hev hr'
    | nextRound he hv hb =>
      have hbody := EvalM.Ends.run_of_bind (evaluate_mono l.condition none) he h
      rw [if_pos hv] at hbody
      exact ih (EvalM.Ends.run_of_bind (evaluate_mono l.body none) hb hbody)

theorem grounded_body {f : Function} {args : List (Value Empty)}
    {r : Outcome Empty (List (Value Empty)) × Machine Empty}
    (h : (f.evaluateBody (evaluate n) args).inScope m = some r) : Grounded ⟨.body f args, m⟩ := by
  obtain ⟨r', hitems, -⟩ := Option.map_eq_some_iff.mp h
  refine ⟨_, fun b hb => ?_⟩
  cases hb with
  | body => exact grounded_items hev hitems

private theorem grounded_call {callee : Value Empty} {args : List (Value Empty)}
    {r : Outcome Empty (Value Empty) × Machine Empty}
    (h : KeywordScript.call (n + 1) callee args m = some r) :
    Grounded ⟨.call callee args, m⟩ := by
  refine ⟨_, fun b hb => ?_⟩
  cases hb with
  | branch hc =>
    rw [call_choose, hc] at h
    obtain ⟨r', hr'⟩ := EvalM.exists_of_bind h
    exact hev hr'
  | count hc =>
    rw [call_count, hc] at h
    obtain ⟨r', hr'⟩ := EvalM.exists_of_bind h
    exact grounded_passes hev hr'
  | loop hc =>
    rw [call_loop, hc] at h
    obtain ⟨r', hr'⟩ := EvalM.exists_of_bind h
    exact grounded_rounds hev hr'
  | enter hlt =>
    rw [KeywordScript.call, Function.invoke_eq_asCall, EvalM.asCall_of_lt _ hlt] at h
    obtain ⟨r', hbody, -⟩ := Option.map_eq_some_iff.mp h
    exact grounded_body hev hbody

end Descent

theorem grounded_of_run (n : Nat) :
    (∀ {e line m r}, evaluate n e line m = some r → Grounded ⟨.expr e line, m⟩) ∧
      ∀ {callee args m r}, KeywordScript.call n callee args m = some r →
        Grounded ⟨.call callee args, m⟩ := by
  induction n with
  | zero =>
    constructor
    · intro e line m r h
      obtain ⟨k, hk⟩ := exists_succ_of_evaluate h
      cases hk
    · intro callee args m r h
      obtain ⟨k, hk⟩ := exists_succ_of_call h
      cases hk
  | succ n ih =>
    obtain ⟨hev, hcall⟩ := ih
    refine ⟨?_, fun h => grounded_call hev h⟩
    intro e line m r h
    refine ⟨_, fun b hb => ?_⟩
    cases hb with
    | script =>
      rw [evaluate] at h
      obtain ⟨r', hs⟩ := EvalM.exists_of_bind h
      obtain ⟨r'', hitems, -⟩ := Option.map_eq_some_iff.mp hs
      exact grounded_items hev hitems
    | argument =>
      rw [evaluate_node] at h
      obtain ⟨r', hr'⟩ := EvalM.exists_of_bind h
      exact hev hr'
    | call he hf =>
      rw [evaluate_node] at h
      have hdispatch := EvalM.Ends.run_of_bind (evaluate_mono _ _) he h
      rw [dispatch_of_find hf] at hdispatch
      exact hcall hdispatch

theorem Terminates.grounded {a : Activation} (h : a.Terminates) : a.Grounded := by
  obtain ⟨n, r, hr⟩ := h
  obtain ⟨hev, hcall⟩ := grounded_of_run n
  obtain ⟨job, m⟩ := a
  cases job with
  | expr e line => exact hev hr
  | items line es => exact grounded_items hev hr
  | call callee args => exact hcall hr
  | body f args => exact grounded_body hev hr
  | passes c slot => exact grounded_passes hev hr
  | rounds l => exact grounded_rounds hev hr

end Activation

end KeywordScript
