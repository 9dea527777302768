import KeywordScript.Proofs.Job
import KeywordScript.Proofs.Stack

/-! Unwinding: a value on the way out passes through every job that is under way up to the nearest
function call, and nothing happens on the way but the end of scopes. -/

namespace KeywordScript

namespace Activation

/-- The machine once a job that ends on `m'` has been left. Scripts and bodies are scopes. -/
def leave (a : Activation) (m' : Machine Empty) : Machine Empty :=
  match a.job with
  | .expr (.script _) _ | .body _ _ => m'.truncate a.machine.stack.size
  | _ => m'

/-- The machine once all the jobs have been left, in order. -/
def leaveAll (stack : List Activation) (m' : Machine Empty) : Machine Empty :=
  stack.foldl (fun m a => a.leave m) m'

variable {a b : Activation} {v : Value Empty} {m' : Machine Empty}

/-- One job that is not the body of a function hands a value on the way out to the job that started
it. -/
theorem Starts.returned (h : Starts a b) (hb : b.isBody = false) (hr : b.Ends (.returned v) m') :
    a.Ends (.returned v) (a.leave m') := by
  cases h with
  | @script es line m =>
    obtain ⟨n, hn⟩ := hr
    have hs : (evaluateItems (evaluate n) 1 es).inScope m =
        some (.returned v, m'.truncate m.stack.size) := by
      rw [EvalM.inScope]
      exact congrArg _ hn
    refine ⟨n + 1, ?_⟩
    change evaluate (n + 1) (.script es) line m = _
    rw [evaluate]
    exact EvalM.bind_of_returned hs _
  | item => exact EvalM.Ends.bind_returned hr
  | @nextItem line e rest m w m₁ he =>
    exact EvalM.Ends.bind (Job.run_mono (.expr e (some line)))
      (fun w => fun n n' hn => EvalM.bind_mono (Job.run_mono (.items (line + 1) rest) hn) fun _ =>
        le_rfl)
      he (EvalM.Ends.bind_returned hr)
  | @argument k arg code line context m =>
    refine EvalM.Ends.of_succ ?_
    change EvalM.Ends (fun n => evaluate (n + 1) (.node k arg code line) context) m _ _
    simp only [evaluate_node]
    exact EvalM.Ends.bind_returned hr
  | @call k arg code line context m w m₁ callee he hf =>
    refine EvalM.Ends.of_succ ?_
    change EvalM.Ends (fun n => evaluate (n + 1) (.node k arg code line) context) m _ _
    simp only [evaluate_node]
    refine EvalM.Ends.bind (evaluate_mono _ _) dispatch_mono he ?_
    obtain ⟨n, hn⟩ := hr
    exact ⟨n, (dispatch_of_find hf n).trans hn⟩
  | @branch args e m hc =>
    obtain ⟨n, hn⟩ := hr
    refine ⟨n + 1, ?_⟩
    change KeywordScript.call (n + 1) (.builtin .choose) args m = _
    rw [call_choose, hc]
    exact EvalM.bind_of_returned hn _
  | @count args c m hc =>
    obtain ⟨n, hn⟩ := hr
    refine ⟨n + 1, ?_⟩
    change KeywordScript.call (n + 1) (.builtin .count) args m = _
    rw [call_count, hc]
    exact EvalM.bind_of_returned hn _
  | pass hx hle => exact Count.ends_passes hx hle (EvalM.Ends.bind_returned hr)
  | @nextPass c slot m x w m₁ m₂ hx hle he ha =>
    refine Count.ends_passes hx hle ?_
    refine EvalM.Ends.bind (evaluate_mono c.body none) (fun _ => c.afterPass_mono slot) he ?_
    exact EvalM.Ends.bind monotone_const (fun _ => Job.run_mono (.passes c slot)) ⟨0, ha⟩ hr
  | @loop args r m hc =>
    obtain ⟨n, hn⟩ := hr
    refine ⟨n + 1, ?_⟩
    change KeywordScript.call (n + 1) (.builtin .loop) args m = _
    rw [call_loop, hc]
    exact EvalM.bind_of_returned hn _
  | condition => exact Repetition.ends_rounds (EvalM.Ends.bind_returned hr)
  | @round r m w m₁ he hw =>
    refine Repetition.ends_rounds
      (EvalM.Ends.bind (evaluate_mono _ none) r.afterCondition_mono he ?_)
    simp only [hw, if_true]
    exact EvalM.Ends.bind_returned hr
  | @nextRound r m w m₁ w₂ m₂ he hw hbody =>
    refine Repetition.ends_rounds
      (EvalM.Ends.bind (evaluate_mono _ none) r.afterCondition_mono he ?_)
    simp only [hw, if_true]
    exact EvalM.Ends.bind (evaluate_mono r.body none) (fun _ => Job.run_mono (.rounds r)) hbody hr
  | enter => cases hb
  | @body f args m =>
    obtain ⟨n, hn⟩ := hr
    have hs : f.evaluateBody (evaluate n) args m = some (.returned v, m') := hn
    refine ⟨n, ?_⟩
    change (f.evaluateBody (evaluate n) args).inScope m = _
    rw [EvalM.inScope, hs]
    rfl

private theorem leave_eq_truncate (a : Activation) (m' : Machine Empty) :
    ∃ n, a.leave m' = m'.truncate n := by
  have hself : m' = m'.truncate m'.stack.size := by simp [Machine.truncate]
  unfold leave
  split
  · exact ⟨_, rfl⟩
  · exact ⟨_, rfl⟩
  · exact ⟨_, hself⟩

theorem leaveAll_eq_truncate (stack : List Activation) (m' : Machine Empty) :
    ∃ n, leaveAll stack m' = m'.truncate n := by
  induction stack generalizing m' with
  | nil => exact ⟨m'.stack.size, by simp [leaveAll, Machine.truncate]⟩
  | cons a rest ih =>
    obtain ⟨n, hn⟩ := a.leave_eq_truncate m'
    obtain ⟨k, hk⟩ := ih (a.leave m')
    refine ⟨min n k, ?_⟩
    change leaveAll rest (a.leave m') = _
    rw [hk, hn]
    simp [Machine.truncate]

theorem UnderWay.returned {hole : Activation} {rest : List Activation}
    (h : UnderWay a (hole :: rest)) (hb : bodies (hole :: rest) = bodies [a])
    (hr : hole.Ends (.returned v) m') :
    a.Ends (.returned v) (leaveAll rest m') := by
  -- From the inside out: what a job hands on is what the job around it hands on.
  induction h using UnderWay.innermost generalizing m' with
  | start => exact hr
  | @next b rest c h hc ih =>
    have hle := h.bodies_le
    rw [bodies_cons c] at hb
    have hc' : c.isBody = false := by
      by_contra hbody
      rw [if_pos (by simpa using hbody)] at hb
      omega
    rw [hc', if_neg (by simp)] at hb
    exact ih hb (hc.returned hc' hr)

theorem not_returned_of_function {f : Function} {args : List (Value Empty)} {m : Machine Empty}
    {o : Outcome Empty (Value Empty)} (h : Ends ⟨.call (.func f) args, m⟩ o m') (v : Value Empty) :
    o ≠ .returned v := by
  obtain ⟨n, hn⟩ := h
  cases n with
  | zero =>
    change KeywordScript.call 0 (.func f) args m = _ at hn
    rw [KeywordScript.call] at hn
    cases hn
  | succ n =>
    change KeywordScript.call (n + 1) (.func f) args m = _ at hn
    rw [KeywordScript.call, Function.invoke_eq_asCall] at hn
    have hcall : (f.evaluateBody (evaluate n) args).asCall.Ensures m fun o _ => o ≠ .returned v :=
      EvalM.ensures_asCall (fun _ => by simp) fun _ o₁ _ _ => by cases o₁ <;> simp [Outcome.ofBody]
    exact hcall o m' hn

/-- The nearest function call ends with the value that was on the way out. -/
theorem UnderWay.value_of_returned {f : Function} {args : List (Value Empty)} {m : Machine Empty}
    {hole : Activation} {rest : List Activation}
    (h : UnderWay ⟨.call (.func f) args, m⟩ (hole :: rest)) (hb : bodies (hole :: rest) = 1)
    (hr : hole.Ends (.returned v) m') :
    Ends ⟨.call (.func f) args, m⟩ (.value v) { leaveAll rest m' with depth := m'.depth - 1 } := by
  have hcall : bodies [⟨.call (.func f) args, m⟩] = 0 := rfl
  rcases h.eq_or_starts with ⟨rfl, rfl⟩ | ⟨b, rest', hs, hu, rfl⟩
  · rw [hcall] at hb
    cases hb
  · cases hs with
    | enter hlt =>
      rw [← List.cons_append, bodies_append, hcall] at hb
      have hbody := hu.returned hb hr
      have hdepth : (leaveAll rest' m').depth = m'.depth := by
        obtain ⟨n, hn⟩ := leaveAll_eq_truncate rest' m'
        rw [hn]
        rfl
      have hend := ends_call_function hlt hbody
      rw [hdepth] at hend
      rw [leaveAll, List.foldl_append]
      exact hend

theorem runAfter_of_returned {m m₁ : Machine Empty} {init : EvalM Empty Unit} {script : List Expr}
    (hi : init m = some (.value (), m₁)) (h : Ends ⟨.items 1 script, m₁⟩ (.returned v) m') :
    ∃ fuel, m.runAfter fuel init script =
      some (.error (.returnOutside v), m'.truncate m.stack.size) := by
  obtain ⟨n, hn⟩ := h
  have hitems : evaluateItems (evaluate n) 1 script m₁ = some (.returned v, m') := hn
  refine ⟨n, ?_⟩
  rw [Machine.runAfter, evaluateScript, EvalM.inScope, EvalM.bind_of_value hi, hitems]
  rfl

/-- What `RETURN` sends on the way out leaves every job up to the nearest function call, and all
that happens is that scopes end. The call ends with that value; no call of a function hands a value
on, and one whose body ran to the end gives null. Outside any function the run fails and names the
value. -/
theorem return_unwinds_to_call :
    (∀ (a hole : Activation) (rest : List Activation) (v : Value Empty) (m' : Machine Empty),
      UnderWay a (hole :: rest) → bodies (hole :: rest) = bodies [a] → hole.Ends (.returned v) m' →
      a.Ends (.returned v) (leaveAll rest m') ∧ ∃ n, leaveAll rest m' = m'.truncate n) ∧
    (∀ (f : Function) (args : List (Value Empty)) (m : Machine Empty),
      (∀ (hole : Activation) (rest : List Activation) (v : Value Empty) (m' : Machine Empty),
        UnderWay ⟨.call (.func f) args, m⟩ (hole :: rest) → bodies (hole :: rest) = 1 →
        hole.Ends (.returned v) m' →
        Ends ⟨.call (.func f) args, m⟩ (.value v) { leaveAll rest m' with depth := m'.depth - 1 }) ∧
      (∀ o m', Ends ⟨.call (.func f) args, m⟩ o m' → ∀ v, o ≠ .returned v) ∧
      ∀ vs m', m.depth < m.maxDepth →
        Ends ⟨.body f args, { m with depth := m.depth + 1 }⟩ (.value vs) m' →
        Ends ⟨.call (.func f) args, m⟩ (.value .null) { m' with depth := m'.depth - 1 }) ∧
    ∀ (m m₁ : Machine Empty) (init : EvalM Empty Unit) (script : List Expr) (hole : Activation)
      (rest : List Activation) (v : Value Empty) (m' : Machine Empty),
      init m = some (.value (), m₁) → UnderWay ⟨.items 1 script, m₁⟩ (hole :: rest) →
      bodies (hole :: rest) = 0 → hole.Ends (.returned v) m' →
      ∃ fuel, m.runAfter fuel init script =
        some (.error (.returnOutside v), (leaveAll rest m').truncate m.stack.size) := by
  refine ⟨?_, ?_, ?_⟩
  · intro a hole rest v m' h hb hr
    exact ⟨h.returned hb hr, leaveAll_eq_truncate rest m'⟩
  · intro f args m
    refine ⟨fun _ _ _ _ h hb hr => h.value_of_returned hb hr, ?_, ?_⟩
    · exact fun _ _ h => not_returned_of_function h
    · exact fun _ _ hlt h => ends_call_function hlt h
  · intro m m₁ init script hole rest v m' hi h hb hr
    exact runAfter_of_returned hi (h.returned hb hr)

/-- A `RETURN` in the second round of `WHILE`, in a script that was bound meanwhile. -/
theorem return_unwinds_from_round :
    let give : Expr := .node "RETURN" (.node "x" (.lit .null) none none) none none
    let body : Expr := .node "IF" (.node "x" (.lit .null) none none)
      (some ⟨{ document := 0 }, .script [.script [give],
        .node "SET" (.script [.lit (.str "x"), .lit (.str "done")]) none none]⟩) none
    let loop : Expr := .node "WHILE" (.script [])
      (some ⟨{ document := 0 }, .script [.script [.lit (.bool true)], body]⟩) none
    let script : List Expr := [.node "LET" (.lit (.str "x")) none none, loop]
    ∃ (hole : Activation) (rest : List Activation) (m' : Machine Empty),
      UnderWay ⟨.items 1 script, {}⟩ (hole :: rest) ∧ bodies (hole :: rest) = 0 ∧
      hole.job = .expr give (some 1) ∧ hole.Ends (.returned (.str "done")) m' ∧
      ∃ fuel m'', Machine.run ({} : Machine Empty) fuel script =
        some (.error (.returnOutside (.str "done")), m'') := by
  intro give body loop script
  have hbind := UnderWay.start.next (a := ⟨.items 1 script, {}⟩) (.nextItem ⟨4, rfl⟩)
  have hloop := (hbind.next .item).next (.call ⟨4, rfl⟩ rfl)
  have hround :=
    ((hloop.next (.loop rfl)).next (.nextRound ⟨4, rfl⟩ rfl ⟨8, rfl⟩)).next (.round ⟨4, rfl⟩ rfl)
  have hbranch := (hround.next (.call ⟨4, rfl⟩ rfl)).next (.branch rfl)
  have hpath := (hbranch.next .script).next .item
  refine ⟨_, _, _, hpath, rfl, rfl, ⟨8, rfl⟩, ?_⟩
  obtain ⟨fuel, hrun⟩ :=
    return_unwinds_to_call.2.2 {} {} (pure ()) script _ _ _ _ rfl hpath rfl ⟨8, rfl⟩
  exact ⟨fuel, _, hrun⟩

end Activation

end KeywordScript
