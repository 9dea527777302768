import KeywordScript.Proofs.Job

/-! Progress: a job ends exactly when every job that it starts does, and the expressions under way
at one time are no more than the fuel. -/

namespace KeywordScript

namespace EvalM

variable {H α β : Type} {m m₁ : Machine H}

theorem exists_of_bind {x : EvalM H α} {f : α → EvalM H β} {r : Outcome H β × Machine H}
    (h : (x >>= f) m = some r) : ∃ r', x m = some r' := by
  obtain ⟨o, m'⟩ := r
  rcases bind_eq_some h with ⟨a, m₁, hx, -⟩ | ⟨v, hx, -⟩ | ⟨e, hx, -⟩
  · exact ⟨_, hx⟩
  · exact ⟨_, hx⟩
  · exact ⟨_, hx⟩

/-- What comes after a first part that ends with `a` is reached with any fuel that is enough for
both. -/
theorem Ends.run_of_bind {x : Nat → EvalM H α} (hx : Monotone x) {a : α}
    (h : Ends x m (.value a) m₁) {n : Nat} {f : α → EvalM H β} {r : Outcome H β × Machine H}
    (hr : (x n >>= f) m = some r) : f a m₁ = some r := by
  obtain ⟨r', hr'⟩ := exists_of_bind hr
  rw [h.eq_of_run hx hr'] at hr'
  rwa [bind_of_value hr'] at hr

def Total (x : EvalM H α) : Prop :=
  ∀ m, ∃ r, x m = some r

theorem total_pure (a : α) : Total (pure a : EvalM H α) :=
  fun _ => ⟨_, rfl⟩

theorem total_lift (r : Except Fault α) : Total (liftM r : EvalM H α) := by
  intro m
  cases r with
  | ok a => exact ⟨_, rfl⟩
  | error f => exact ⟨_, rfl⟩

theorem total_modify (f : Machine H → Machine H) : Total (modify f) :=
  fun _ => ⟨_, rfl⟩

theorem exists_bind_of_run {x : EvalM H α} {f : α → EvalM H β} {r : Outcome H α × Machine H}
    (hx : x m = some r) (hf : ∀ a, Total (f a)) : ∃ r', (x >>= f) m = some r' := by
  obtain ⟨o, m₁⟩ := r
  cases o with
  | value a =>
    obtain ⟨r', hr'⟩ := hf a m₁
    exact ⟨r', (bind_of_value hx f).trans hr'⟩
  | returned v => exact ⟨_, bind_of_returned hx f⟩
  | failed e => exact ⟨_, bind_of_failed hx f⟩

theorem total_bind {x : EvalM H α} {f : α → EvalM H β} (hx : Total x) (hf : ∀ a, Total (f a)) :
    Total (x >>= f) := by
  intro m
  obtain ⟨r, hr⟩ := hx m
  exact exists_bind_of_run hr hf

end EvalM

open EvalM

private theorem total_increment {H : Type} (name : String) :
    Total (increment name : EvalM H Unit) := by
  unfold increment
  refine total_bind (fun _ => ⟨_, rfl⟩) fun found m => ?_
  split
  · exact total_modify _ m
  · exact ⟨_, rfl⟩
  · exact ⟨_, rfl⟩

/-- Keywords other than `IF`, `FOR` and `WHILE` end on every machine. -/
theorem Keyword.total_invoke {H : Type} {k : Keyword} (hchoose : k ≠ .choose) (hcount : k ≠ .count)
    (hloop : k ≠ .loop) (fuel : Nat) (ev : Expr → Option Nat → EvalM H (Value H))
    (args : List (Value H)) :
    Total (k.invoke fuel ev args) := by
  unfold Keyword.invoke
  cases k with
  | operator op => exact total_lift _
  | bind | assign | define =>
    exact total_bind (total_lift _) fun _ => total_bind (total_modify _) fun _ => total_pure _
  | increment =>
    exact total_bind (total_lift _) fun name => total_bind (total_increment name) fun _ =>
      total_pure _
  | leave => exact fun _ => ⟨_, rfl⟩
  | print => exact total_bind (total_modify _) fun _ => total_pure _
  | choose => exact absurd rfl hchoose
  | count => exact absurd rfl hcount
  | loop => exact absurd rfl hloop

theorem exists_succ_of_evaluate {n : Nat} {e : Expr} {line : Option Nat} {m : Machine Empty}
    {r : Outcome Empty (Value Empty) × Machine Empty} (h : evaluate n e line m = some r) :
    ∃ k, n = k + 1 := by
  cases n with
  | zero =>
    rw [evaluate] at h
    cases h
  | succ k => exact ⟨k, rfl⟩

theorem exists_succ_of_call {n : Nat} {callee : Value Empty} {args : List (Value Empty)}
    {m : Machine Empty} {r : Outcome Empty (Value Empty) × Machine Empty}
    (h : call n callee args m = some r) :
    ∃ k, n = k + 1 := by
  cases n with
  | zero =>
    rw [call] at h
    cases h
  | succ k => exact ⟨k, rfl⟩

/-- How something ends that gives null in place of what it got. -/
def Outcome.toNull {H α : Type} : Outcome H α → Outcome H (Value H)
  | value _ => .value .null
  | returned v => .returned v
  | failed f => .failed f

theorem EvalM.bind_null {H α : Type} (x : EvalM H α) (m : Machine H) :
    (do let _ ← x; return .null : EvalM H (Value H)) m = (x m).map fun (o, m') =>
      (o.toNull, m') := by
  rw [bind_apply]
  cases x m with
  | none => rfl
  | some r =>
    obtain ⟨o, m'⟩ := r
    cases o <;> rfl

namespace Activation

variable {a b : Activation}

section Loops

variable {args : List (Value Empty)} {m m₁ m' : Machine Empty} {o : Outcome Empty (Value Empty)}

theorem ends_call_iff_of_null {callee : Value Empty} {x : Nat → EvalM Empty Unit}
    (h : ∀ n, KeywordScript.call (n + 1) callee args m =
      (x n m₁).map fun (o, m') => (o.toNull, m')) :
    Ends ⟨.call callee args, m⟩ o m' ↔ ∃ o', EvalM.Ends x m₁ o' m' ∧ o = o'.toNull := by
  constructor
  · rintro ⟨n, hn⟩
    obtain ⟨n, rfl⟩ := exists_succ_of_call hn
    obtain ⟨⟨o', m₂⟩, hx, ho⟩ := Option.map_eq_some_iff.mp ((h n).symm.trans hn)
    cases ho
    exact ⟨o', ⟨n, hx⟩, rfl⟩
  · rintro ⟨o', ⟨n, hn⟩, rfl⟩
    exact ⟨n + 1, (h n).trans (Option.map_eq_some_iff.mpr ⟨_, hn, rfl⟩)⟩

/-- A call of `FOR` ends as its passes do. -/
theorem ends_call_count_iff {c : Count} (h : Count.read args = .ok c) :
    Ends ⟨.call (.builtin .count) args, m⟩ o m' ↔
      ∃ o', Ends ⟨.passes c m.stack.size, m.bind c.name (.num c.start)⟩ o' m' ∧ o = o'.toNull := by
  refine ends_call_iff_of_null fun n => ?_
  rw [call_count, h]
  exact bind_null _ _

/-- A call of `WHILE` ends as its rounds do. -/
theorem ends_call_loop_iff {r : Repetition} (h : Repetition.read args = .ok r) :
    Ends ⟨.call (.builtin .loop) args, m⟩ o m' ↔
      ∃ o', Ends ⟨.rounds r, m⟩ o' m' ∧ o = o'.toNull := by
  refine ends_call_iff_of_null fun n => ?_
  rw [call_loop, h]
  exact bind_null _ _

end Loops

def isExpr (a : Activation) : Bool :=
  match a.job with
  | .expr .. => true
  | _ => false

/-- What a job starts ends with the fuel that was enough for the job, and with less where the job
was an expression. -/
theorem Starts.run_of_run (h : Starts a b) {n : Nat}
    {r : Outcome Empty a.job.Result × Machine Empty} (hr : a.job.run n a.machine = some r) :
    ∃ n' r', b.job.run n' b.machine = some r' ∧ n' + (if a.isExpr then 1 else 0) ≤ n := by
  cases h with
  | @script es line m =>
    change evaluate n (.script es) line m = _ at hr
    obtain ⟨n, rfl⟩ := exists_succ_of_evaluate hr
    rw [evaluate] at hr
    obtain ⟨r', hs⟩ := exists_of_bind hr
    obtain ⟨r'', hitems, -⟩ := Option.map_eq_some_iff.mp hs
    exact ⟨n, r'', hitems, Nat.le_refl _⟩
  | item =>
    obtain ⟨r', hr'⟩ := exists_of_bind hr
    exact ⟨n, r', hr', Nat.le_refl _⟩
  | @nextItem line e rest m v m' he =>
    have hrest := EvalM.Ends.run_of_bind (Job.run_mono (.expr e (some line))) he hr
    obtain ⟨r', hr'⟩ := exists_of_bind hrest
    exact ⟨n, r', hr', Nat.le_refl _⟩
  | @argument k arg code line context m =>
    change evaluate n (.node k arg code line) context m = _ at hr
    obtain ⟨n, rfl⟩ := exists_succ_of_evaluate hr
    rw [evaluate_node] at hr
    obtain ⟨r', hr'⟩ := exists_of_bind hr
    exact ⟨n, r', hr', Nat.le_refl _⟩
  | @call k arg code line context m v m' callee he hf =>
    change evaluate n (.node k arg code line) context m = _ at hr
    obtain ⟨n, rfl⟩ := exists_succ_of_evaluate hr
    rw [evaluate_node] at hr
    have hcall := EvalM.Ends.run_of_bind (evaluate_mono arg (line <|> context)) he hr
    rw [dispatch_of_find hf] at hcall
    exact ⟨n, r, hcall, Nat.le_refl _⟩
  | @branch args e m hc =>
    change KeywordScript.call n (.builtin .choose) args m = _ at hr
    obtain ⟨n, rfl⟩ := exists_succ_of_call hr
    rw [call_choose, hc] at hr
    obtain ⟨r', hr'⟩ := exists_of_bind hr
    exact ⟨n, r', hr', Nat.le_succ n⟩
  | @count args c m hc =>
    change KeywordScript.call n (.builtin .count) args m = _ at hr
    obtain ⟨n, rfl⟩ := exists_succ_of_call hr
    rw [call_count, hc] at hr
    obtain ⟨r', hr'⟩ := exists_of_bind hr
    exact ⟨n, r', hr', Nat.le_succ n⟩
  | @pass c slot m x hx hle =>
    change c.passes slot (evaluate n c.body none) n m = _ at hr
    cases n with
    | zero => cases hr
    | succ n =>
      rw [Count.passes, bind_of_value hx, if_pos hle] at hr
      obtain ⟨r', hr'⟩ := exists_of_bind hr
      exact ⟨n + 1, r', hr', Nat.le_refl _⟩
  | @nextPass c slot m x v m' m'' hx hle he ha =>
    change c.passes slot (evaluate n c.body none) n m = _ at hr
    cases n with
    | zero => cases hr
    | succ n =>
      rw [Count.passes, bind_of_value hx, if_pos hle] at hr
      have hadvance := EvalM.Ends.run_of_bind (evaluate_mono c.body none) he hr
      rw [bind_of_value ha] at hadvance
      exact ⟨n + 1, r, c.passes_mono slot le_rfl (Nat.le_succ n) m'' _ hadvance, Nat.le_refl _⟩
  | @loop args r' m hc =>
    change KeywordScript.call n (.builtin .loop) args m = _ at hr
    obtain ⟨n, rfl⟩ := exists_succ_of_call hr
    rw [call_loop, hc] at hr
    obtain ⟨r', hr'⟩ := exists_of_bind hr
    exact ⟨n, r', hr', Nat.le_succ n⟩
  | @condition l m =>
    change EvalM.whileTruthy (evaluate n l.condition none) (evaluate n l.body none) n m = _ at hr
    cases n with
    | zero => cases hr
    | succ n =>
      obtain ⟨r', hr'⟩ := exists_of_bind hr
      exact ⟨n + 1, r', hr', Nat.le_refl _⟩
  | @round l m v m' he hv =>
    change EvalM.whileTruthy (evaluate n l.condition none) (evaluate n l.body none) n m = _ at hr
    cases n with
    | zero => cases hr
    | succ n =>
      have hbody := EvalM.Ends.run_of_bind (evaluate_mono l.condition none) he hr
      rw [if_pos hv] at hbody
      obtain ⟨r', hr'⟩ := exists_of_bind hbody
      exact ⟨n + 1, r', hr', Nat.le_refl _⟩
  | @nextRound l m v m' w m'' he hv hb =>
    change EvalM.whileTruthy (evaluate n l.condition none) (evaluate n l.body none) n m = _ at hr
    cases n with
    | zero => cases hr
    | succ n =>
      have hbody := EvalM.Ends.run_of_bind (evaluate_mono l.condition none) he hr
      rw [if_pos hv] at hbody
      have hnext := EvalM.Ends.run_of_bind (evaluate_mono l.body none) hb hbody
      exact ⟨n + 1, r, EvalM.whileTruthy_mono le_rfl le_rfl (Nat.le_succ n) m'' _ hnext,
        Nat.le_refl _⟩
  | @enter f args m hlt =>
    change KeywordScript.call n (.func f) args m = _ at hr
    obtain ⟨n, rfl⟩ := exists_succ_of_call hr
    rw [KeywordScript.call, Function.invoke_eq_asCall, asCall_of_lt _ hlt] at hr
    obtain ⟨r', hr', -⟩ := Option.map_eq_some_iff.mp hr
    exact ⟨n, r', hr', Nat.le_succ n⟩
  | body =>
    obtain ⟨r', hr', -⟩ := Option.map_eq_some_iff.mp hr
    exact ⟨n, r', hr', Nat.le_refl _⟩

private theorem terminates_call_of_starts {callee : Value Empty} {args : List (Value Empty)}
    {m : Machine Empty} (h : ∀ b, Starts ⟨.call callee args, m⟩ b → b.Terminates) :
    Terminates ⟨.call callee args, m⟩ := by
  -- It is enough to say what one call does, and with which fuel.
  have hrun : ∀ {n r}, KeywordScript.call n callee args m = some r →
      Terminates ⟨.call callee args, m⟩ :=
    fun hr => ⟨_, _, hr⟩
  cases callee with
  | builtin k =>
    by_cases hchoose : k = .choose
    · subst hchoose
      cases hc : chosenBranch args with
      | error f => exact hrun (n := 1) (by rw [call_choose, hc])
      | ok branch =>
        cases branch with
        | none => exact hrun (n := 1) (by rw [call_choose, hc])
        | some e =>
          obtain ⟨n, r, hn⟩ := h _ (.branch hc)
          obtain ⟨r', hr'⟩ := exists_bind_of_run hn fun _ => total_pure Value.null
          exact hrun (n := n + 1) (by rw [call_choose, hc]; exact hr')
    by_cases hcount : k = .count
    · subst hcount
      cases hc : Count.read args with
      | error f => exact hrun (n := 1) (by rw [call_count, hc])
      | ok c =>
        obtain ⟨n, r, hn⟩ := h _ (.count hc)
        obtain ⟨r', hr'⟩ := exists_bind_of_run hn fun _ => total_pure Value.null
        exact hrun (n := n + 1) (by rw [call_count, hc]; exact hr')
    by_cases hloop : k = .loop
    · subst hloop
      cases hc : Repetition.read args with
      | error f => exact hrun (n := 1) (by rw [call_loop, hc])
      | ok l =>
        obtain ⟨n, r, hn⟩ := h _ (.loop hc)
        obtain ⟨r', hr'⟩ := exists_bind_of_run hn fun _ => total_pure Value.null
        exact hrun (n := n + 1) (by rw [call_loop, hc]; exact hr')
    obtain ⟨r, hr⟩ := Keyword.total_invoke hchoose hcount hloop 0 (evaluate 0) args m
    exact hrun (n := 1) (by rw [KeywordScript.call]; exact hr)
  | native f =>
    cases ha : f.action with
    | math op =>
      obtain ⟨r, hr⟩ := total_lift (op.invoke args) m
      exact hrun (n := 1) (by rw [KeywordScript.call, ha]; exact hr)
    | host empty => exact empty.elim
  | func f =>
    by_cases hlt : m.depth < m.maxDepth
    · obtain ⟨n, ⟨o, m'⟩, hn⟩ := h _ (.enter hlt)
      exact (ends_call_function hlt ⟨n, hn⟩).terminates
    · have hle := Nat.le_of_not_lt hlt
      exact hrun (n := 1) (by rw [KeywordScript.call, Function.invoke_eq_asCall,
        asCall_of_le _ hle])
  | _ => exact ⟨1, _, rfl⟩

/-- A job ends when every job that it starts does. -/
theorem terminates_of_starts (h : ∀ b, Starts a b → b.Terminates) : a.Terminates := by
  obtain ⟨job, m⟩ := a
  cases job with
  | expr e line =>
    cases e with
    | lit l => exact ⟨1, _, rfl⟩
    | script es =>
      obtain ⟨n, r, hitems⟩ := h _ .script
      have hs : (evaluateItems (evaluate n) 1 es).inScope m = some _ :=
        Option.map_eq_some_iff.mpr ⟨r, hitems, rfl⟩
      obtain ⟨r', hr'⟩ := exists_bind_of_run hs fun vs => total_pure (Value.list vs)
      refine ⟨n + 1, r', ?_⟩
      change evaluate (n + 1) (.script es) line m = _
      rw [evaluate]
      exact hr'
    | node k arg code ownLine =>
      have hnode :
          EvalM.Terminates (fun n => evaluate (n + 1) (.node k arg code ownLine) line) m := by
        simp only [evaluate_node]
        refine terminates_bind (evaluate_mono _ _) dispatch_mono (h _ .argument) fun v m₁ he => ?_
        cases hf : m₁.find? k with
        | none => exact ⟨0, _, dispatch_of_not_find hf 0⟩
        | some callee =>
          obtain ⟨n, r, hcall⟩ := h _ (.call he hf)
          exact ⟨n, r, (dispatch_of_find hf n).trans hcall⟩
      obtain ⟨n, r, hn⟩ := hnode
      exact ⟨n + 1, r, hn⟩
  | items line es =>
    cases es with
    | nil => exact ⟨0, _, rfl⟩
    | cons e rest =>
      refine terminates_bind (Job.run_mono (.expr e (some line))) (fun v => ?_)
        (h _ .item) fun v m₁ he => ?_
      · exact fun n n' hn => EvalM.bind_mono (Job.run_mono (.items (line + 1) rest) hn) fun _ =>
          le_rfl
      · obtain ⟨n, r, hrest⟩ := h _ (.nextItem he)
        obtain ⟨r', hr'⟩ := exists_bind_of_run hrest fun vs => total_pure (v :: vs)
        exact ⟨n, r', hr'⟩
  | call callee args => exact terminates_call_of_starts h
  | body f args =>
    obtain ⟨n, r, hitems⟩ := h _ .body
    exact ⟨n, _, Option.map_eq_some_iff.mpr ⟨r, hitems, rfl⟩⟩
  | passes c slot =>
    rcases c.current_cases slot m with ⟨x, hx⟩ | ⟨f, hf⟩
    · by_cases hle : x ≤ c.stop
      · have honce : EvalM.Terminates (c.passOnce slot) m := by
          refine terminates_bind (evaluate_mono c.body none) (fun _ => c.afterPass_mono slot)
            (h _ (.pass hx hle)) fun v m₁ he => ?_
          rcases c.current_cases slot m₁ with ⟨y, hy⟩ | ⟨f, hf⟩
          · have ha := Count.advance_of_value hy
            obtain ⟨n, r, hn⟩ := h _ (.nextPass hx hle he ha)
            exact ⟨n, r, (bind_of_value ha _).trans hn⟩
          · have ha : c.advance slot m₁ = some (.failed f, m₁) := bind_of_failed hf _
            exact ⟨0, _, bind_of_failed ha _⟩
        obtain ⟨n, ⟨o, m'⟩, hn⟩ := honce
        exact (Count.ends_passes hx hle ⟨n, hn⟩).terminates
      · refine ⟨1, (.value (), m), ?_⟩
        change c.passes slot (evaluate 1 c.body none) 1 m = _
        rw [Count.passes, bind_of_value hx, if_neg hle]
        rfl
    · exact ⟨1, _, bind_of_failed hf _⟩
  | rounds r =>
    have honce : EvalM.Terminates r.roundOnce m := by
      refine terminates_bind (evaluate_mono _ none) r.afterCondition_mono
        (h _ .condition) fun v m₁ he => ?_
      by_cases hv : v.isTruthy = true
      · simp only [hv, if_true]
        exact terminates_bind (evaluate_mono r.body none) (fun _ => Job.run_mono (.rounds r))
          (h _ (.round he hv)) fun w m₂ hb => h _ (.nextRound he hv hb)
      · simp only [hv]
        exact ⟨0, _, rfl⟩
    obtain ⟨n, ⟨o, m'⟩, hn⟩ := honce
    exact (Repetition.ends_rounds ⟨n, hn⟩).terminates

theorem terminates_iff_starts : a.Terminates ↔ ∀ b, Starts a b → b.Terminates := by
  refine ⟨fun ⟨n, r, hr⟩ b hb => ?_, terminates_of_starts⟩
  obtain ⟨n', r', hr', -⟩ := hb.run_of_run hr
  exact ⟨n', r', hr'⟩

theorem UnderWay.terminates {rest : List Activation} (h : UnderWay a (b :: rest))
    (ha : a.Terminates) :
    b.Terminates := by
  induction h using UnderWay.innermost with
  | start => exact ha
  | next _ hc ih => exact terminates_iff_starts.mp ih _ hc

/-- The innermost job ends with what the expressions around it leave of the fuel. -/
theorem UnderWay.run_of_run {n : Nat} {r : Outcome Empty a.job.Result × Machine Empty}
    (hr : a.job.run n a.machine = some r) {rest : List Activation} (h : UnderWay a (b :: rest)) :
    ∃ n' r', b.job.run n' b.machine = some r' ∧ n' + rest.countP isExpr ≤ n := by
  induction h using UnderWay.innermost with
  | start => exact ⟨n, r, hr, Nat.le_refl _⟩
  | next _ hc ih =>
    obtain ⟨n₁, r₁, hr₁, hn₁⟩ := ih
    obtain ⟨n₂, r₂, hr₂, hn₂⟩ := hc.run_of_run hr₁
    refine ⟨n₂, r₂, hr₂, ?_⟩
    rw [List.countP_cons]
    omega

/-- A job that comes to itself again inside an expression never ends. -/
theorem UnderWay.not_terminates {rest : List Activation} (h : UnderWay a (a :: rest))
    (hpos : 0 < rest.countP isExpr) : ¬a.Terminates := by
  rintro ⟨n, r, hr⟩
  -- Each time round there is less fuel left.
  induction n using Nat.strongRecOn generalizing r with
  | ind n ih =>
    obtain ⟨n', r', hr', hle⟩ := h.run_of_run hr
    exact ih n' (by omega) r' hr'

end Activation

end KeywordScript
