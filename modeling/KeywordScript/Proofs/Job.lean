import KeywordScript.Proofs.Discipline
import KeywordScript.Proofs.Fuel

/-! Jobs: the pieces of work into which an evaluation falls. A job starts other jobs, and those that
have started and not ended are under way. -/

namespace KeywordScript

section Ends

variable {H α β : Type}

/-- With enough fuel, `x` ends on `m` with `o` and leaves `m'`. -/
def EvalM.Ends (x : Nat → EvalM H α) (m : Machine H) (o : Outcome H α) (m' : Machine H) : Prop :=
  ∃ fuel, x fuel m = some (o, m')

def EvalM.Terminates (x : Nat → EvalM H α) (m : Machine H) : Prop :=
  ∃ fuel r, x fuel m = some r

namespace EvalM

variable {x : Nat → EvalM H α} {f : Nat → α → EvalM H β} {m m₁ m' : Machine H}

theorem Ends.terminates {o : Outcome H α} (h : Ends x m o m') : Terminates x m := by
  obtain ⟨n, hn⟩ := h
  exact ⟨n, _, hn⟩

theorem Ends.eq_of_run (hx : Monotone x) {o : Outcome H α} (h : Ends x m o m') {n : Nat}
    {r : Outcome H α × Machine H} (hr : x n m = some r) : r = (o, m') := by
  obtain ⟨k, hk⟩ := h
  have hn := hx (Nat.le_max_left n k) m _ hr
  have hk' := hx (Nat.le_max_right n k) m _ hk
  exact Option.some.inj (hn.symm.trans hk')

theorem Ends.of_succ {o : Outcome H α} (h : Ends (fun n => x (n + 1)) m o m') : Ends x m o m' := by
  obtain ⟨n, hn⟩ := h
  exact ⟨n + 1, hn⟩

theorem Ends.bind (hx : Monotone x) (hf : ∀ a, Monotone fun n => f n a) {a : α} {o : Outcome H β}
    (h : Ends x m (.value a) m₁) (h' : Ends (fun n => f n a) m₁ o m') :
    Ends (fun n => x n >>= f n) m o m' := by
  obtain ⟨n, hn⟩ := h
  obtain ⟨k, hk⟩ := h'
  have hn' := hx (Nat.le_max_left n k) m _ hn
  have hk' := hf a (Nat.le_max_right n k) m₁ _ hk
  exact ⟨max n k, (bind_of_value hn' _).trans hk'⟩

theorem Ends.bind_returned {v : Value H} (h : Ends x m (.returned v) m') :
    Ends (fun n => x n >>= f n) m (.returned v) m' := by
  obtain ⟨n, hn⟩ := h
  exact ⟨n, bind_of_returned hn _⟩

theorem terminates_bind (hx : Monotone x) (hf : ∀ a, Monotone fun n => f n a) (h : Terminates x m)
    (h' : ∀ a m₁, Ends x m (.value a) m₁ → Terminates (fun n => f n a) m₁) :
    Terminates (fun n => x n >>= f n) m := by
  obtain ⟨n, ⟨o, m₁⟩, hn⟩ := h
  cases o with
  | value a =>
    obtain ⟨k, ⟨o, m'⟩, hk⟩ := h' a m₁ ⟨n, hn⟩
    exact (Ends.bind hx hf ⟨n, hn⟩ ⟨k, hk⟩).terminates
  | returned v => exact ⟨n, _, bind_of_returned hn _⟩
  | failed e => exact ⟨n, _, bind_of_failed hn _⟩

end EvalM

end Ends

inductive Job where
  | expr (e : Expr) (line : Option Nat)
  /-- The items from the one with number `line` on. -/
  | items (line : Nat) (es : List Expr)
  | call (callee : Value Empty) (args : List (Value Empty))
  /-- The body of a function, in a scope of its own. -/
  | body (f : Function) (args : List (Value Empty))
  /-- The passes of `FOR` from the next one on. -/
  | passes (c : Count) (slot : Nat)
  /-- The rounds of `WHILE` from the next one on. -/
  | rounds (r : Repetition)

namespace Job

abbrev Result : Job → Type
  | expr .. | call .. => Value Empty
  | items .. | body .. => List (Value Empty)
  | passes .. | rounds .. => Unit

def run (fuel : Nat) : (j : Job) → EvalM Empty j.Result
  | expr e line => evaluate fuel e line
  | items line es => evaluateItems (evaluate fuel) line es
  | call callee args => KeywordScript.call fuel callee args
  | body f args => (f.evaluateBody (evaluate fuel) args).inScope
  | passes c slot => c.passes slot (evaluate fuel c.body none) fuel
  | rounds r => .whileTruthy (evaluate fuel r.condition none) (evaluate fuel r.body none) fuel

theorem run_mono (j : Job) : Monotone fun n => j.run n := by
  intro n n' hn
  have hev : ∀ e line, (evaluate n e line : EvalM Empty (Value Empty)) ≤ evaluate n' e line :=
    fun e line => evaluate_mono e line hn
  cases j with
  | expr e line => exact hev e line
  | items line es => exact evaluateItems_mono hev line es
  | call callee args => exact call_mono callee args hn
  | body f args => exact EvalM.inScope_mono (f.evaluateBody_mono hev args)
  | passes c slot => exact c.passes_mono slot (hev c.body none) hn
  | rounds r => exact EvalM.whileTruthy_mono (hev r.condition none) (hev r.body none) hn

end Job

/-- A job and the machine it is started on. -/
structure Activation where
  job : Job
  machine : Machine Empty

namespace Activation

def Ends (a : Activation) (o : Outcome Empty a.job.Result) (m' : Machine Empty) : Prop :=
  EvalM.Ends (fun n => a.job.run n) a.machine o m'

def Terminates (a : Activation) : Prop :=
  EvalM.Terminates (fun n => a.job.run n) a.machine

/-- The job `a` starts `b`, which begins on the machine that `a` has reached by then. -/
inductive Starts : Activation → Activation → Prop where
  | script {es line m} : Starts ⟨.expr (.script es) line, m⟩ ⟨.items 1 es, m⟩
  | item {line e rest m} : Starts ⟨.items line (e :: rest), m⟩ ⟨.expr e (some line), m⟩
  | nextItem {line e rest m v m'} : Ends ⟨.expr e (some line), m⟩ (.value v) m' →
    Starts ⟨.items line (e :: rest), m⟩ ⟨.items (line + 1) rest, m'⟩
  | argument {k arg code line context m} :
    Starts ⟨.expr (.node k arg code line) context, m⟩ ⟨.expr arg (line <|> context), m⟩
  | call {k arg code line context m v m' callee} :
    Ends ⟨.expr arg (line <|> context), m⟩ (.value v) m' → m'.find? k = some callee →
    Starts ⟨.expr (.node k arg code line) context, m⟩
      ⟨.call callee (v.arguments ++ (code.map Value.code).toList), m'⟩
  | branch {args e m} : chosenBranch args = .ok (some e) →
    Starts ⟨.call (.builtin .choose) args, m⟩ ⟨.expr e none, m⟩
  | count {args c m} : Count.read args = .ok c →
    Starts ⟨.call (.builtin .count) args, m⟩ ⟨.passes c m.stack.size, m.bind c.name (.num c.start)⟩
  | pass {c slot m x} : c.current slot m = some (.value x, m) → x ≤ c.stop →
    Starts ⟨.passes c slot, m⟩ ⟨.expr c.body none, m⟩
  | nextPass {c slot m x v m' m''} : c.current slot m = some (.value x, m) → x ≤ c.stop →
    Ends ⟨.expr c.body none, m⟩ (.value v) m' → c.advance slot m' = some (.value (), m'') →
    Starts ⟨.passes c slot, m⟩ ⟨.passes c slot, m''⟩
  | loop {args r m} : Repetition.read args = .ok r →
    Starts ⟨.call (.builtin .loop) args, m⟩ ⟨.rounds r, m⟩
  | condition {r m} : Starts ⟨.rounds r, m⟩ ⟨.expr r.condition none, m⟩
  | round {r m v m'} : Ends ⟨.expr r.condition none, m⟩ (.value v) m' → v.isTruthy = true →
    Starts ⟨.rounds r, m⟩ ⟨.expr r.body none, m'⟩
  | nextRound {r m v m' w m''} :
    Ends ⟨.expr r.condition none, m⟩ (.value v) m' → v.isTruthy = true →
    Ends ⟨.expr r.body none, m'⟩ (.value w) m'' → Starts ⟨.rounds r, m⟩ ⟨.rounds r, m''⟩
  | enter {f args m} : m.depth < m.maxDepth →
    Starts ⟨.call (.func f) args, m⟩ ⟨.body f args, { m with depth := m.depth + 1 }⟩
  | body {f args m} : Starts ⟨.body f args, m⟩ ⟨.items 1 f.body.items, m.bindAll f.params args⟩

/-- The jobs that are under way at some time while `a` is, innermost first. -/
inductive UnderWay (a : Activation) : List Activation → Prop where
  | start : UnderWay a [a]
  | next {b rest c} : UnderWay a (b :: rest) → Starts b c → UnderWay a (c :: b :: rest)

/-- Induction on what is under way, with the innermost job and those around it apart. -/
theorem UnderWay.innermost {a : Activation}
    {motive : (b : Activation) → (rest : List Activation) → UnderWay a (b :: rest) → Prop}
    (start : motive a [] .start)
    (next : ∀ {b rest c} (h : UnderWay a (b :: rest)) (hc : Starts b c), motive b rest h →
      motive c (b :: rest) (h.next hc))
    {b : Activation} {rest : List Activation} (h : UnderWay a (b :: rest)) : motive b rest h := by
  have hall : ∀ stack, UnderWay a stack → ∀ b rest, stack = b :: rest → ∀ h, motive b rest h := by
    intro stack h
    induction h with
    | start =>
      rintro b rest hstack h
      cases hstack
      exact start
    | next h hc ih =>
      rintro b rest hstack _
      cases hstack
      exact next h hc (ih _ _ rfl h)
  exact hall _ h b rest rfl h

theorem UnderWay.of_starts {a b : Activation} (h : Starts a b) {stack : List Activation}
    (hb : UnderWay b stack) : UnderWay a (stack ++ [a]) := by
  induction hb with
  | start => exact .next .start h
  | next _ hc ih => exact .next ih hc

/-- Either nothing was started, or all but the last are under way in a job that `a` started. -/
theorem UnderWay.eq_or_starts {a b : Activation} {rest : List Activation}
    (h : UnderWay a (b :: rest)) :
    (b = a ∧ rest = []) ∨
      ∃ c rest', Starts a c ∧ UnderWay c (b :: rest') ∧ rest = rest' ++ [a] := by
  induction h using UnderWay.innermost with
  | start => exact .inl ⟨rfl, rfl⟩
  | @next b rest c h hc ih =>
    right
    rcases ih with ⟨rfl, rfl⟩ | ⟨first, rest', hs, hu, rfl⟩
    · exact ⟨c, [], hc, .start, rfl⟩
    · exact ⟨first, b :: rest', hs, hu.next hc, rfl⟩

def isBody (a : Activation) : Bool :=
  match a.job with
  | .body .. => true
  | _ => false

@[simp] theorem isBody_call (callee : Value Empty) (args : List (Value Empty)) (m : Machine Empty) :
    isBody ⟨.call callee args, m⟩ = false := rfl

/-- How many of the jobs are bodies of functions. -/
def bodies (stack : List Activation) : Nat :=
  stack.countP isBody

@[simp] theorem bodies_cons (a : Activation) (stack : List Activation) :
    bodies (a :: stack) = bodies stack + if a.isBody then 1 else 0 :=
  List.countP_cons

@[simp] theorem bodies_append (stack stack' : List Activation) :
    bodies (stack ++ stack') = bodies stack + bodies stack' :=
  List.countP_append

@[simp] theorem bodies_nil : bodies [] = 0 := rfl

theorem UnderWay.bodies_le {a : Activation} {stack : List Activation} (h : UnderWay a stack) :
    bodies [a] ≤ bodies stack := by
  induction h with
  | start => exact Nat.le_refl _
  | @next b rest c _ _ ih =>
    rw [bodies_cons c]
    omega

end Activation

section Steps

variable {m m' : Machine Empty} {k : String} {code : Option Code} {line : Option Nat}
  {v : Value Empty}

/-- What follows in a node once its argument has the value `v`. -/
def dispatch (fuel : Nat) (k : String) (code : Option Code) (line : Option Nat) (v : Value Empty) :
    EvalM Empty (Value Empty) := do
  match ← EvalM.gets fun m => m.find? k with
  | some callee => call fuel callee (v.arguments ++ (code.map Value.code).toList)
  | none =>
    .modify fun m => m.report { keyword := k, line }
    return .str k

theorem evaluate_node (fuel : Nat) (arg : Expr) (context : Option Nat) :
    (evaluate (fuel + 1) (.node k arg code line) context : EvalM Empty (Value Empty)) =
      evaluate fuel arg (line <|> context) >>= dispatch fuel k code (line <|> context) := by
  rw [evaluate]
  congr 1
  funext v
  unfold dispatch
  dsimp only
  congr 1
  funext found
  cases found <;> rfl

theorem dispatch_of_find {callee : Value Empty} (h : m.find? k = some callee) (fuel : Nat) :
    dispatch fuel k code line v m =
      call fuel callee (v.arguments ++ (code.map Value.code).toList) m := by
  rw [dispatch, EvalM.bind_of_value (a := m.find? k) rfl, h]

theorem dispatch_of_not_find (h : m.find? k = none) (fuel : Nat) :
    dispatch fuel k code line v m = some (.value (.str k), m.report { keyword := k, line }) := by
  rw [dispatch, EvalM.bind_of_value (a := m.find? k) rfl, h]
  rfl

theorem dispatch_mono (v : Value Empty) : Monotone fun n => dispatch n k code line v := by
  intro n n' hn
  refine EvalM.bind_mono le_rfl fun found => ?_
  cases found with
  | none => exact le_rfl
  | some callee => exact call_mono callee _ hn

theorem call_choose (fuel : Nat) (args : List (Value Empty)) :
    call (fuel + 1) (.builtin .choose) args m =
      match chosenBranch args with
      | .error f => some (.failed f, m)
      | .ok none => some (.value .null, m)
      | .ok (some e) =>
        (do let _ ← evaluate fuel e none; return .null : EvalM Empty (Value Empty)) m := by
  rw [call, Keyword.invoke]
  cases h : chosenBranch args with
  | error f => rfl
  | ok branch => cases branch <;> rfl

theorem call_count (fuel : Nat) (args : List (Value Empty)) :
    call (fuel + 1) (.builtin .count) args m =
      match Count.read args with
      | .error f => some (.failed f, m)
      | .ok c =>
        (do
          c.passes m.stack.size (evaluate fuel c.body none) fuel
          return .null : EvalM Empty (Value Empty)) (m.bind c.name (.num c.start)) := by
  rw [call, Keyword.invoke]
  cases h : Count.read args with
  | error f => rfl
  | ok c => rfl

theorem call_loop (fuel : Nat) (args : List (Value Empty)) :
    call (fuel + 1) (.builtin .loop) args m =
      match Repetition.read args with
      | .error f => some (.failed f, m)
      | .ok r =>
        (do
          .whileTruthy (evaluate fuel r.condition none) (evaluate fuel r.body none) fuel
          return .null : EvalM Empty (Value Empty)) m := by
  rw [call, Keyword.invoke]
  cases h : Repetition.read args with
  | error f => rfl
  | ok r => rfl

theorem Activation.ends_call_function {f : Function} {args : List (Value Empty)}
    (hlt : m.depth < m.maxDepth) {o : Outcome Empty (List (Value Empty))}
    (h : Activation.Ends ⟨.body f args, { m with depth := m.depth + 1 }⟩ o m') :
    Activation.Ends ⟨.call (.func f) args, m⟩ o.ofBody { m' with depth := m'.depth - 1 } := by
  obtain ⟨n, hn⟩ := h
  have hs : (f.evaluateBody (evaluate n) args).inScope { m with depth := m.depth + 1 } =
      some (o, m') := hn
  refine ⟨n + 1, ?_⟩
  change KeywordScript.call (n + 1) (.func f) args m = _
  rw [KeywordScript.call, Function.invoke_eq_asCall, EvalM.asCall_of_lt _ hlt, hs]
  rfl

theorem Count.current_cases (c : Count) (slot : Nat) (m : Machine Empty) :
    (∃ x, c.current slot m = some (.value x, m)) ∨ ∃ f, c.current slot m = some (.failed f, m) := by
  rw [Count.current, EvalM.bind_of_value (a := m.stack.get? slot) rfl]
  cases m.stack.get? slot with
  | none => exact .inr ⟨_, rfl⟩
  | some f =>
    obtain ⟨name, value⟩ := f
    cases value with
    | num x => exact .inl ⟨x, rfl⟩
    | _ => exact .inr ⟨_, rfl⟩

theorem Count.advance_of_value {c : Count} {slot : Nat} {x : Float}
    (h : c.current slot m = some (.value x, m)) :
    c.advance slot m = some (.value (),
      { m with stack := m.stack.set slot (.num (x + c.step)) }) := by
  rw [Count.advance, EvalM.bind_of_value h]
  rfl

theorem Count.advance_eq_value {c : Count} {slot : Nat}
    (h : c.advance slot m = some (.value (), m')) :
    ∃ x, c.current slot m = some (.value x, m) ∧
      m' = { m with stack := m.stack.set slot (.num (x + c.step)) } := by
  rcases c.current_cases slot m with ⟨x, hx⟩ | ⟨f, hf⟩
  · rw [Count.advance_of_value hx] at h
    cases h
    exact ⟨x, hx, rfl⟩
  · rw [Count.advance, EvalM.bind_of_failed hf] at h
    cases h

/-- How `FOR` goes on from `m`, if each pass evaluates `body` and `rest` follows the first one. -/
inductive Count.Turn (c : Count) (slot : Nat) (body : EvalM Empty (Value Empty))
    (rest : EvalM Empty Unit) (m : Machine Empty) : Outcome Empty Unit → Machine Empty → Prop where
  | unread {f} : c.current slot m = some (.failed f, m) → Turn c slot body rest m (.failed f) m
  | past {x} : c.current slot m = some (.value x, m) → ¬x ≤ c.stop →
    Turn c slot body rest m (.value ()) m
  | left {x v m'} : c.current slot m = some (.value x, m) → x ≤ c.stop →
    body m = some (.returned v, m') → Turn c slot body rest m (.returned v) m'
  | broken {x f m'} : c.current slot m = some (.value x, m) → x ≤ c.stop →
    body m = some (.failed f, m') → Turn c slot body rest m (.failed f) m'
  | spoilt {x v f m'} : c.current slot m = some (.value x, m) → x ≤ c.stop →
    body m = some (.value v, m') →
    c.current slot m' = some (.failed f, m') → Turn c slot body rest m (.failed f) m'
  | next {x v m₁ m₂ o m'} :
    c.current slot m = some (.value x, m) → x ≤ c.stop → body m = some (.value v, m₁) →
    c.advance slot m₁ = some (.value (), m₂) → rest m₂ = some (o, m') → Turn c slot body rest m o m'

theorem Count.turn_of_passes {c : Count} {slot n : Nat} {body : EvalM Empty (Value Empty)}
    {o : Outcome Empty Unit} (h : c.passes slot body (n + 1) m = some (o, m')) :
    c.Turn slot body (c.passes slot body n) m o m' := by
  rcases c.current_cases slot m with ⟨x, hx⟩ | ⟨f, hf⟩
  · rw [Count.passes, EvalM.bind_of_value hx] at h
    split at h
    · rename_i hle
      rcases EvalM.bind_eq_some h with ⟨v, m₁, hbody, hafter⟩ | ⟨v, hbody, rfl⟩ | ⟨e, hbody, rfl⟩
      · rcases c.current_cases slot m₁ with ⟨y, hy⟩ | ⟨f, hf⟩
        · have hadvance := Count.advance_of_value hy
          rw [EvalM.bind_of_value hadvance] at hafter
          exact .next hx hle hbody hadvance hafter
        · rw [Count.advance, EvalM.bind_apply, EvalM.bind_of_failed hf] at hafter
          cases hafter
          exact .spoilt hx hle hbody hf
      · exact .left hx hle hbody
      · exact .broken hx hle hbody
    · rename_i hle
      cases h
      exact .past hx hle
  · rw [Count.passes, EvalM.bind_of_failed hf] at h
    cases h
    exact .unread hf

def Count.passOnce (c : Count) (slot fuel : Nat) : EvalM Empty Unit := do
  let _ ← evaluate fuel c.body none
  c.advance slot
  c.passes slot (evaluate fuel c.body none) fuel

theorem Count.ends_passes {c : Count} {slot : Nat} {x : Float}
    (hx : c.current slot m = some (.value x, m)) (hle : x ≤ c.stop) {o : Outcome Empty Unit}
    (h : EvalM.Ends (c.passOnce slot) m o m') :
    Activation.Ends ⟨.passes c slot, m⟩ o m' := by
  obtain ⟨n, hn⟩ := h
  have hev := evaluate_mono c.body none (Nat.le_succ n)
  have hmono : c.passOnce slot n ≤ (do
      let _ ← evaluate (n + 1) c.body none
      c.advance slot
      c.passes slot (evaluate (n + 1) c.body none) n : EvalM Empty Unit) :=
    EvalM.bind_mono hev fun _ => EvalM.bind_mono le_rfl fun _ => c.passes_mono slot hev le_rfl
  refine ⟨n + 1, ?_⟩
  change c.passes slot (evaluate (n + 1) c.body none) (n + 1) m = _
  rw [Count.passes, EvalM.bind_of_value hx, if_pos hle]
  exact hmono m _ hn

theorem Count.afterPass_mono (c : Count) (slot : Nat) : Monotone fun n =>
    (do c.advance slot; c.passes slot (evaluate n c.body none) n : EvalM Empty Unit) :=
  fun _ _ hn => EvalM.bind_mono le_rfl fun _ => Job.run_mono (.passes c slot) hn

def Repetition.roundOnce (r : Repetition) (fuel : Nat) : EvalM Empty Unit := do
  let v ← evaluate fuel r.condition none
  if v.isTruthy then
    let _ ← evaluate fuel r.body none
    .whileTruthy (evaluate fuel r.condition none) (evaluate fuel r.body none) fuel
  else
    return ()

theorem Repetition.afterCondition_mono (r : Repetition) (v : Value Empty) : Monotone fun n =>
    (if v.isTruthy then do
      let _ ← evaluate n r.body none
      .whileTruthy (evaluate n r.condition none) (evaluate n r.body none) n
    else return () : EvalM Empty Unit) := by
  intro n n' hn
  dsimp only
  split
  · exact EvalM.bind_mono (evaluate_mono r.body none hn) fun _ => Job.run_mono (.rounds r) hn
  · exact le_rfl

theorem Repetition.ends_rounds {r : Repetition} {o : Outcome Empty Unit}
    (h : EvalM.Ends r.roundOnce m o m') : Activation.Ends ⟨.rounds r, m⟩ o m' := by
  obtain ⟨n, hn⟩ := h
  have hc := evaluate_mono r.condition none (Nat.le_succ n)
  have hb := evaluate_mono r.body none (Nat.le_succ n)
  have hmono : r.roundOnce n ≤ EvalM.whileTruthy (evaluate (n + 1) r.condition none)
      (evaluate (n + 1) r.body none) (n + 1) := by
    refine EvalM.bind_mono hc fun v => ?_
    split
    · exact EvalM.bind_mono hb fun _ => EvalM.whileTruthy_mono hc hb le_rfl
    · exact le_rfl
  exact ⟨n + 1, hmono m _ hn⟩

end Steps

namespace Discipline

variable (D : Discipline)

/-- What a discipline asks of a job when it starts. -/
def Governs (a : Activation) : Prop :=
  a.machine.Holds D.frame ∧
    match a.job with
    | .expr e _ => D.source e
    | .items _ es => ∀ e ∈ es, D.source e
    | .call callee args => D.callee a.machine callee ∧ ∀ v ∈ args, D.data v
    | .body f args => D.source f.body ∧ ∀ v ∈ args, D.data v
    | .passes c _ => D.source c.body
    | .rounds r => D.source r.condition ∧ D.source r.body

/-- What a discipline asks of the value that a job ends with. -/
def Result : (j : Job) → j.Result → Prop
  | .expr .., v | .call .., v => D.data v
  | .items .., vs | .body .., vs => ∀ v ∈ vs, D.data v
  | .passes .., _ | .rounds .., _ => True

/-- A number may be put into any frame. -/
def SetsNumbers : Prop :=
  ∀ m m' i x, D.step m m' → D.step m { m' with stack := m'.stack.set i (.num x) }

/-- Putting a number into a frame changes no name. -/
theorem setsNumbers_of_names (h : ∀ m m', D.step m m' ↔ m.stack.names <+: m'.stack.names) :
    D.SetsNumbers := by
  intro m m' i x hs
  rw [h] at hs ⊢
  rwa [Stack.names_set]

variable {D} in
/-- A discipline that asks nothing of expressions and values governs every job. -/
theorem governs_of_trivial (hframe : ∀ v, D.frame v) (hsource : ∀ e, D.source e)
    (hdata : ∀ v, D.data v) (hcallee : ∀ m v, D.callee m v) (a : Activation) : D.Governs a := by
  refine ⟨fun _ _ => hframe _, ?_⟩
  obtain ⟨job, m⟩ := a
  cases job with
  | expr | passes => exact hsource _
  | items => exact fun _ _ => hsource _
  | call => exact ⟨hcallee _ _, fun _ _ => hdata _⟩
  | body => exact ⟨hsource _, fun _ _ => hdata _⟩
  | rounds => exact ⟨hsource _, hsource _⟩

variable {D} {a b : Activation} {m' : Machine Empty}

theorem Governs.kept (hset : D.SetsNumbers) (hg : D.Governs a) {o : Outcome Empty a.job.Result}
    (he : a.Ends o m') : D.Kept (D.Result a.job) a.machine o m' := by
  obtain ⟨n, hn⟩ := he
  obtain ⟨hev, hcall⟩ := D.respects n
  obtain ⟨job, m⟩ := a
  obtain ⟨hm, hg⟩ := hg
  cases job with
  | expr e line => exact hev hg hm o m' hn
  | items line es => exact ensures_items hev hg line hm o m' hn
  | call callee args => exact hcall hg.1 hg.2 hm o m' hn
  | body f args =>
    have hbody : (f.evaluateBody (evaluate n) args).Ensures m _ := ensures_body hev hg.1 hg.2 hm
    exact ensures_inScope hbody o m' hn
  | passes c slot =>
    exact ensures_passes c (fun _ => hev hg) (fun _ _ => hset m _ slot _) n (D.refl m) hm o m' hn
  | rounds r => exact ensures_whileTruthy (fun _ => hev hg.1) (fun _ => hev hg.2) n hm o m' hn

theorem Governs.of_starts (hset : D.SetsNumbers) (hg : D.Governs a) (h : Activation.Starts a b) :
    D.Governs b := by
  obtain ⟨hm, hg⟩ := hg
  have hends : ∀ {e line m v m'}, D.source e → m.Holds D.frame →
      Activation.Ends ⟨.expr e line, m⟩ (.value v) m' → m'.Holds D.frame ∧ D.data v := by
    intro e line m v m' hs hh he
    have hk : D.Kept _ m _ m' := Governs.kept hset (a := ⟨.expr e line, m⟩) ⟨hh, hs⟩ he
    exact ⟨hk.holds, hk.outcome⟩
  cases h with
  | script => exact ⟨hm, D.items hg⟩
  | item => exact ⟨hm, hg _ (by simp)⟩
  | nextItem he => exact ⟨(hends (hg _ (by simp)) hm he).1, fun e h => hg e (by simp [h])⟩
  | argument => exact ⟨hm, D.argument hg⟩
  | call he hf =>
    obtain ⟨hm₁, hv⟩ := hends (D.argument hg) hm he
    refine ⟨hm₁, D.found hg hm₁ hf, data_arguments hv ?_⟩
    rintro c rfl
    exact D.code hg
  | branch hc =>
    obtain ⟨c, hlast, he⟩ := branch_of_chosenBranch hc
    exact ⟨hm, source_items (source_of_getLast? hg.2 hlast) _ he⟩
  | @count args c m hc =>
    obtain ⟨code, hlast, hbody⟩ := Count.body_of_read hc
    have hsource : D.source c.body := hbody ▸ source_of_getLast? hg.2 hlast
    exact ⟨hm.bind (D.held (D.literal (.num _))) _, hsource⟩
  | pass => exact ⟨hm, hg⟩
  | nextPass _ _ he ha =>
    obtain ⟨x, -, rfl⟩ := Count.advance_eq_value ha
    exact ⟨(hends hg hm he).1.set (D.held (D.literal (.num _))) _, hg⟩
  | loop hc =>
    obtain ⟨c, hlast, hbody, head, hhead, hcondition⟩ := Repetition.parts_of_read hc
    have hitems := source_items (source_of_getLast? hg.2 hlast)
    exact ⟨hm, source_items (hitems head hhead) _ hcondition, hitems _ hbody⟩
  | condition => exact ⟨hm, hg.1⟩
  | round he => exact ⟨(hends hg.1 hm he).1, hg.2⟩
  | nextRound he _ hb => exact ⟨(hends hg.2 (hends hg.1 hm he).1 hb).1, hg⟩
  | enter => exact ⟨hm, D.function hg.1, hg.2⟩
  | body => exact ⟨(bindAll_kept _ hg.2 hm).2, source_items hg.1⟩

theorem Governs.of_underWay (hset : D.SetsNumbers) (hg : D.Governs a) {stack : List Activation}
    (h : Activation.UnderWay a stack) : ∀ b ∈ stack, D.Governs b := by
  induction h with
  | start => simpa using hg
  | next _ hc ih =>
    rw [List.forall_mem_cons] at ih ⊢
    exact ⟨ih.1.of_starts hset hc, List.forall_mem_cons.mpr ih⟩

variable (D) in
/-- Nothing is asked of the number of calls under way. -/
def IgnoresDepth : Prop :=
  ∀ m m' depth, D.step m m' → D.step m { m' with depth }

/-- From the machine on which a job starts to the one on which it starts another. -/
theorem Governs.step_of_starts (hset : D.SetsNumbers) (hdepth : D.IgnoresDepth) (hg : D.Governs a)
    (h : Activation.Starts a b) : D.step a.machine b.machine := by
  obtain ⟨hm, hg⟩ := hg
  have hends : ∀ {e line m v m'}, D.source e → m.Holds D.frame →
      Activation.Ends ⟨.expr e line, m⟩ (.value v) m' → D.step m m' ∧ m'.Holds D.frame := by
    intro e line m v m' hs hh he
    have hk : D.Kept _ m _ m' := Governs.kept hset (a := ⟨.expr e line, m⟩) ⟨hh, hs⟩ he
    exact ⟨hk.step, hk.holds⟩
  cases h with
  | script | item | argument | branch _ | pass _ _ | loop _ | condition => exact D.refl _
  | nextItem he => exact (hends (hg _ (by simp)) hm he).1
  | call he _ => exact (hends (D.argument hg) hm he).1
  | count _ => exact D.bind _ hm (D.held (D.literal (.num _)))
  | nextPass _ _ he ha =>
    obtain ⟨x, -, rfl⟩ := Count.advance_eq_value ha
    exact hset _ _ _ _ (hends hg hm he).1
  | round he _ => exact (hends hg.1 hm he).1
  | nextRound he _ hb =>
    obtain ⟨hcondition, hm₁⟩ := hends hg.1 hm he
    exact D.trans hcondition (hends hg.2 hm₁ hb).1
  | enter _ => exact hdepth _ _ _ (D.refl _)
  | body => exact (bindAll_kept _ hg.2 hm).1

/-- From the machine on which a job starts to those of all jobs that are under way meanwhile. -/
theorem Governs.step_of_underWay (hset : D.SetsNumbers) (hdepth : D.IgnoresDepth) (hg : D.Governs a)
    {rest : List Activation} (h : Activation.UnderWay a (b :: rest)) :
    D.step a.machine b.machine := by
  induction h using Activation.UnderWay.innermost with
  | start => exact D.refl _
  | @next b rest c h hc ih =>
    have hb : D.Governs b := hg.of_underWay hset h b List.mem_cons_self
    exact D.trans ih (hb.step_of_starts hset hdepth hc)

end Discipline

end KeywordScript
