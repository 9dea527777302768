import KeywordScript.Proofs.LoopVariable
import KeywordScript.Proofs.Operation

/-! Counting loops: `FOR` over a script agrees with a `WHILE` that compares and assigns the variable
by name. After each pass the newest frame of that name is the one of `FOR`, whatever the body has
bound or called. -/

namespace KeywordScript

open Activation

/-- On numbers, `<=` agrees with their order. -/
theorem Operator.combine_le {H : Type} (x y : Float) :
    Operator.le.combine (.num x : Value H) (.num y) = .ok (.bool (decide (x ≤ y))) := by
  have hle : (x.toModel.compare y.toModel).any Ordering.isLE = decide (x ≤ y) := by
    rw [Bool.eq_iff_iff, decide_eq_true_iff]
    change _ ↔ Float.le x y = true
    unfold Float.le
    rw [decide_eq_true_iff]
    change _ ↔ Float.Model.le _ _ = true
    unfold Float.Model.le Float.Model.compare Float.Model.UnpackedFloat.le
    cases x.toModel.unpack.compare y.toModel.unpack <;> simp
  change Except.ok (Value.bool _) = _
  rw [hle]

section Scripts

variable {n : Nat} {es : List Expr} {m m₁ : Machine Empty}

theorem evaluate_script_of_items {vs : List (Value Empty)}
    (h : evaluateItems (evaluate n) 1 es m = some (.value vs, m₁))
    (hsize : m₁.stack.size = m.stack.size) (line : Option Nat) :
    evaluate (n + 1) (.script es) line m = some (.value (.list vs), m₁) := by
  rw [evaluate, EvalM.bind_of_value (EvalM.inScope_of_size h hsize)]
  rfl

/-- A script does not ask which line is to blame where it has none. -/
theorem evaluate_script_line (n : Nat) (es : List Expr) (line line' : Option Nat) :
    (evaluate n (.script es) line : EvalM Empty (Value Empty)) = evaluate n (.script es) line' := by
  cases n with
  | zero => rw [evaluate, evaluate]
  | succ n => rw [evaluate, evaluate]

end Scripts

namespace Count

/-- The operator on the variable of `FOR` and a number. -/
def compute (c : Count) (op : Operator) (y : Float) : Expr :=
  .node op.name (.script [.node c.name (.lit .null) none none, .lit (.num y)]) none none

def assignNext (c : Count) : Expr :=
  .node Keyword.assign.name (.script [.lit (.str c.name), c.compute .add c.step]) none none

/-- The `WHILE` that does what `FOR` does, once the variable is bound. -/
def repetition (c : Count) : Repetition where
  condition := c.compute .le c.stop
  body := .script [c.body, c.assignNext]

def loopCode (c : Count) : Expr :=
  .script [.script [c.repetition.condition], c.repetition.body]

/-- At the end of some pass from `m` on, there is no number in the frame at `slot`. -/
inductive LosesNumber (c : Count) (slot : Nat) : Machine Empty → Prop where
  | now {m x v m' f} : c.current slot m = some (.value x, m) → x ≤ c.stop →
    Ends ⟨.expr c.body none, m⟩ (.value v) m' → m'.stack.get? slot = some f →
    f.value.kind ≠ .number → LosesNumber c slot m
  | later {m x v m' m''} : c.current slot m = some (.value x, m) → x ≤ c.stop →
    Ends ⟨.expr c.body none, m⟩ (.value v) m' → c.advance slot m' = some (.value (), m'') →
    LosesNumber c slot m'' → LosesNumber c slot m

/-- The newest frame is the one of `FOR` and holds `x`, and the frames below it have the names
`ns`. -/
def OnTop (c : Count) (ns : List String) (x : Float) (m : Machine Empty) : Prop :=
  ∃ s : Stack Empty, m.stack = s.push c.name (.num x) ∧ s.names = ns

section OnTop

variable {c : Count} {ns : List String} {x : Float} {m : Machine Empty}

theorem OnTop.names (h : c.OnTop ns x m) : m.stack.names = ns ++ [c.name] := by
  obtain ⟨s, hs, rfl⟩ := h
  rw [hs, Stack.names_push]

theorem OnTop.get? (h : c.OnTop ns x m) : m.stack.get? ns.length = some ⟨c.name, .num x⟩ := by
  obtain ⟨s, hs, rfl⟩ := h
  rw [hs, Stack.length_names, Stack.get?_push_size]

theorem OnTop.current (h : c.OnTop ns x m) : c.current ns.length m = some (.value x, m) := by
  rcases current_of_get? (c := c) h.get? with ⟨y, hy, hcurrent⟩ | ⟨hkind, -⟩
  · cases hy
    exact hcurrent
  · exact absurd rfl hkind

theorem OnTop.set (h : c.OnTop ns x m) (y : Float) :
    c.OnTop ns y { m with stack := m.stack.set ns.length (.num y) } := by
  obtain ⟨s, hs, rfl⟩ := h
  refine ⟨s, ?_, rfl⟩
  rw [hs, Stack.length_names, Stack.set_push_size]

theorem onTop_or_of_names (h : m.stack.names = ns ++ [c.name]) :
    (∃ y, c.OnTop ns y m) ∨ ∃ f, m.stack.get? ns.length = some f ∧ f.value.kind ≠ .number := by
  obtain ⟨s, v, hs, rfl⟩ := Stack.eq_push_of_names h
  have hget : m.stack.get? s.names.length = some ⟨c.name, v⟩ := by
    rw [hs, Stack.length_names, Stack.get?_push_size]
  rcases current_of_get? (c := c) hget with ⟨y, rfl, -⟩ | ⟨hkind, -⟩
  · exact .inl ⟨y, s, hs, rfl⟩
  · exact .inr ⟨_, hget, hkind⟩

private theorem onTop_of_current (h : m.stack.names = ns ++ [c.name]) {y : Float}
    (hy : c.current ns.length m = some (.value y, m)) : c.OnTop ns y m := by
  rcases onTop_or_of_names h with ⟨z, hz⟩ | ⟨f, hget, hkind⟩
  · cases hz.current.symm.trans hy
    exact hz
  · rcases current_of_get? (c := c) hget with ⟨z, hz, -⟩ | ⟨-, hf⟩
    · rw [hz] at hkind
      exact absurd rfl hkind
    · cases hf.symm.trans hy

end OnTop

section Expressions

variable {c : Count} {ns : List String} {x : Float} {m : Machine Empty} (h : c.OnTop ns x m)

include h

private theorem evaluate_variable (fuel : Nat) (line : Option Nat) :
    evaluate (fuel + 2) (.node c.name (.lit .null) none none) line m =
      some (.value (.num x), m) := by
  obtain ⟨s, hs, -⟩ := h
  have hfind : m.find? c.name = some (.num x) := by
    rw [Machine.find?, hs, Stack.lookup?_push_self]
    rfl
  rw [evaluate_node, EvalM.bind_of_value (a := Value.null) rfl, dispatch_of_find hfind]
  rfl

theorem evaluate_compute (op : Operator) (hop : op.name ∉ ns ++ [c.name]) (y : Float) (fuel : Nat)
    (line : Option Nat) :
    evaluate (fuel + 4) (c.compute op y) line m =
      (liftM (op.combine (.num x) (.num y)) : EvalM Empty (Value Empty)) m := by
  rw [← h.names] at hop
  have hitems :
    evaluateItems (evaluate (fuel + 2)) 1 [.node c.name (.lit .null) none none, .lit (.num y)] m =
      some (.value [.num x, .num y], m) := by
    rw [evaluateItems, EvalM.bind_of_value (evaluate_variable h fuel (some 1))]
    rfl
  have hscript := evaluate_script_of_items hitems rfl (none <|> line)
  exact Operation.evaluate_operator hop (Nat.succ_pos _) (r := .ok (.list [.num x, .num y])) hscript

private theorem evaluate_assignNext (hadd : Operator.add.name ∉ ns ++ [c.name])
    (hassign : Keyword.assign.name ∉ ns ++ [c.name]) (fuel : Nat) (line : Option Nat) :
    evaluate (fuel + 6) c.assignNext line m =
      some (.value .null, { m with stack := m.stack.set ns.length (.num (x + c.step)) }) := by
  have hsum : evaluate (fuel + 4) (c.compute .add c.step) (some 2) m =
      some (.value (.num (x + c.step)), m) :=
    evaluate_compute h .add hadd c.step fuel (some 2)
  have hitems :
    evaluateItems (evaluate (fuel + 4)) 1 [.lit (.str c.name), c.compute .add c.step] m =
      some (.value [.str c.name, .num (x + c.step)], m) := by
    rw [evaluateItems, EvalM.bind_of_value (a := Value.str c.name) rfl, evaluateItems,
      EvalM.bind_apply, EvalM.bind_of_value hsum]
    rfl
  have hscript := evaluate_script_of_items hitems rfl (none <|> line)
  -- By name and by position, it is the same frame.
  have hput : Binding.assign ⟨c.name, .num (x + c.step)⟩ m =
      { m with stack := m.stack.set ns.length (.num (x + c.step)) } := by
    obtain ⟨s, hs, rfl⟩ := h
    rw [Binding.assign, hs, Stack.assign?_push_self, Stack.length_names, Stack.set_push_size]
  rw [← h.names] at hassign
  rw [assignNext, evaluate_node, EvalM.bind_of_value hscript,
    dispatch_of_find (Machine.find?_keyword hassign), call, ← hput]
  rfl

end Expressions

section Loop

variable {c : Count} {es : List Expr} (hbody : c.body = .script es) {ns : List String}
  (hfree : ∀ name ∈ ["<=", "ADD", "SET"], name ∉ ns ++ [c.name]) {x : Float}
  {m m₁ m₂ : Machine Empty}

include hbody in
theorem size_of_body {line : Option Nat} {o : Outcome Empty (Value Empty)}
    (he : Ends ⟨.expr c.body line, m⟩ o m₁) :
    m₁.stack.size = m.stack.size := by
  rw [← Stack.length_names, names_of_body hbody he, Stack.length_names]

include hbody in
/-- After a body that is a script, the newest frame is still the one of `FOR`. -/
theorem OnTop.of_body (h : c.OnTop ns x m) {o : Outcome Empty (Value Empty)}
    (he : Ends ⟨.expr c.body none, m⟩ o m₁) {y : Float}
    (hy : c.current ns.length m₁ = some (.value y, m₁)) : c.OnTop ns y m₁ :=
  onTop_of_current ((names_of_body hbody he).trans h.names) hy

include hbody in
theorem OnTop.next (h : c.OnTop ns x m) {o : Outcome Empty (Value Empty)}
    (he : Ends ⟨.expr c.body none, m⟩ o m₁)
    (hadvance : c.advance ns.length m₁ = some (.value (), m₂)) : ∃ y, c.OnTop ns y m₂ := by
  obtain ⟨y, hy, rfl⟩ := advance_eq_value hadvance
  exact ⟨y + c.step, (h.of_body hbody he hy).set _⟩

include hbody in
theorem evaluate_body_line {n : Nat} {line : Option Nat}
    {r : Outcome Empty (Value Empty) × Machine Empty} (h : evaluate n c.body line m = some r)
    {k : Nat} (hk : n ≤ k) (line' : Option Nat) :
    evaluate k c.body line' m = some r := by
  rw [hbody] at h ⊢
  rw [evaluate_script_line k es line' line]
  exact evaluate_mono (.script es) line hk m r h

include hbody in
theorem ends_round_of_exit {o : Outcome Empty (Value Empty)} (ho : ∀ v, o ≠ .value v)
    (he : Ends ⟨.expr c.body none, m⟩ o m₁) : Ends ⟨.expr c.repetition.body none, m⟩ o m₁ := by
  have hsize := size_of_body hbody he
  obtain ⟨n, hn⟩ := he
  have hfirst : evaluate n c.body (some 1) m = some (o, m₁) :=
    evaluate_body_line hbody hn (Nat.le_refl n) _
  refine ⟨n + 1, ?_⟩
  change evaluate (n + 1) (.script [c.body, c.assignNext]) none m = _
  rw [evaluate]
  cases o with
  | value v => exact absurd rfl (ho v)
  | returned v =>
    exact EvalM.bind_of_returned (EvalM.inScope_of_size (EvalM.bind_of_returned hfirst _) hsize) _
  | failed f =>
    exact EvalM.bind_of_failed (EvalM.inScope_of_size (EvalM.bind_of_failed hfirst _) hsize) _

include hbody hfree in
/-- A round of `WHILE` in which the body ends with a value does what a pass of `FOR` does. -/
theorem ends_round_of_value (h : c.OnTop ns x m) {v : Value Empty}
    (he : Ends ⟨.expr c.body none, m⟩ (.value v) m₁)
    (hadvance : c.advance ns.length m₁ = some (.value (), m₂)) :
    ∃ w, Ends ⟨.expr c.repetition.body none, m⟩ (.value w) m₂ := by
  obtain ⟨y, hy, rfl⟩ := advance_eq_value hadvance
  have htop : c.OnTop ns y m₁ := h.of_body hbody he hy
  have hsize := size_of_body hbody he
  obtain ⟨n, hn⟩ := he
  have hfirst : evaluate (n + 6) c.body (some 1) m = some (.value v, m₁) :=
    evaluate_body_line hbody hn (Nat.le_add_right n 6) _
  have hsecond :=
    evaluate_assignNext htop (hfree "ADD" (by simp)) (hfree "SET" (by simp)) n (some 2)
  have hitems : evaluateItems (evaluate (n + 6)) 1 [c.body, c.assignNext] m =
      some (.value [v, .null],
        { m₁ with stack := m₁.stack.set ns.length (.num (y + c.step)) }) := by
    rw [evaluateItems, EvalM.bind_of_value hfirst, evaluateItems, EvalM.bind_apply,
      EvalM.bind_of_value hsecond]
    rfl
  exact ⟨_, n + 7, evaluate_script_of_items hitems (by rw [Stack.size_set, hsize]) none⟩

include hfree in
theorem ends_condition (h : c.OnTop ns x m) :
    Ends ⟨.expr c.repetition.condition none, m⟩ (.value (.bool (decide (x ≤ c.stop)))) m := by
  refine ⟨4, (evaluate_compute h .le (hfree "<=" (by simp)) c.stop 0 none).trans ?_⟩
  rw [Operator.combine_le]
  rfl

include hfree in
/-- The `WHILE` goes on as long as `FOR` does. -/
theorem ends_rounds_of_le (h : c.OnTop ns x m) (hle : x ≤ c.stop) {o : Outcome Empty Unit}
    (hround : EvalM.Ends (fun n => do
      let _ ← evaluate n c.repetition.body none
      .whileTruthy (evaluate n c.repetition.condition none)
        (evaluate n c.repetition.body none) n) m o m₁) :
    Ends ⟨.rounds c.repetition, m⟩ o m₁ := by
  refine Repetition.ends_rounds (EvalM.Ends.bind (evaluate_mono _ none)
    c.repetition.afterCondition_mono (ends_condition hfree h) ?_)
  simpa only [decide_eq_true hle, Value.isTruthy, if_true] using hround

include hbody hfree in
/-- The `WHILE` ends as `FOR` does, unless `FOR` comes to find no number. -/
theorem ends_rounds_of_passes (h : c.OnTop ns x m) (hkeeps : ¬c.LosesNumber ns.length m)
    {fuel n : Nat} {o : Outcome Empty Unit} {m' : Machine Empty}
    (hn : c.passes ns.length (evaluate fuel c.body none) n m = some (o, m')) :
    Ends ⟨.rounds c.repetition, m⟩ o m' := by
  induction n generalizing m x with
  | zero => cases hn
  | succ n ih =>
    -- What `FOR` reads before the pass is the number on top.
    have hread : ∀ {y}, c.current ns.length m = some (.value y, m) → y = x := by
      intro y hy
      cases h.current.symm.trans hy
      rfl
    cases turn_of_passes hn with
    | unread hf => cases h.current.symm.trans hf
    | past hx hle =>
      cases hread hx
      refine Repetition.ends_rounds (EvalM.Ends.bind (evaluate_mono _ none)
        c.repetition.afterCondition_mono (ends_condition hfree h) ⟨0, ?_⟩)
      simp only [decide_eq_false hle, Value.isTruthy]
      rfl
    | @left _ v _ hx hle hb =>
      cases hread hx
      have hround := ends_round_of_exit hbody (o := .returned v) nofun ⟨fuel, hb⟩
      exact ends_rounds_of_le hfree h hle (EvalM.Ends.bind_returned hround)
    | @broken _ f _ hx hle hb =>
      cases hread hx
      obtain ⟨k, hk⟩ := ends_round_of_exit hbody (o := .failed f) nofun ⟨fuel, hb⟩
      exact ends_rounds_of_le hfree h hle ⟨k, EvalM.bind_of_failed hk _⟩
    | spoilt hx hle hb hf =>
      rcases onTop_or_of_names ((names_of_body hbody ⟨fuel, hb⟩).trans h.names) with
        ⟨y, hy⟩ | ⟨f, hget, hkind⟩
      · cases hy.current.symm.trans hf
      · exact absurd (.now hx hle ⟨fuel, hb⟩ hget hkind) hkeeps
    | next hx hle hb hadvance hrest =>
      cases hread hx
      obtain ⟨w, hw⟩ := ends_round_of_value hbody hfree h ⟨fuel, hb⟩ hadvance
      obtain ⟨y, htop⟩ := h.next hbody ⟨fuel, hb⟩ hadvance
      have hrounds := ih htop (fun hl => hkeeps (.later hx hle ⟨fuel, hb⟩ hadvance hl)) hrest
      exact ends_rounds_of_le hfree h hle
        (EvalM.Ends.bind (evaluate_mono _ none)
          (fun _ => Job.run_mono (.rounds c.repetition)) hw hrounds)

include hbody hfree in
private theorem terminates_passes_of_rounds (h : c.OnTop ns x m) {fuel n : Nat}
    {r : Outcome Empty Unit × Machine Empty}
    (hn : EvalM.whileTruthy (evaluate fuel c.repetition.condition none)
      (evaluate fuel c.repetition.body none) n m = some r) :
    Activation.Terminates ⟨.passes c ns.length, m⟩ := by
  induction n generalizing m x with
  | zero => cases hn
  | succ n ih =>
    -- What follows on a condition that holds.
    have hround : x ≤ c.stop → (do
        let _ ← evaluate fuel c.repetition.body none
        .whileTruthy (evaluate fuel c.repetition.condition none)
          (evaluate fuel c.repetition.body none) n) m = some r := by
      intro hle
      have hafter := EvalM.Ends.run_of_bind (evaluate_mono _ none) (ends_condition hfree h) hn
      simpa only [decide_eq_true hle, Value.isTruthy, if_true] using hafter
    rw [terminates_iff_starts]
    intro b hb
    cases hb with
    | pass hx hle =>
      cases h.current.symm.trans hx
      obtain ⟨r', hr'⟩ := EvalM.exists_of_bind (hround hle)
      have hfirst : UnderWay ⟨.expr c.repetition.body none, m⟩ (⟨.expr c.body (some 1), m⟩ :: _) :=
        .next (.next .start .script) .item
      obtain ⟨k, r'', hk⟩ := hfirst.terminates ⟨fuel, r', hr'⟩
      exact ⟨k, r'', evaluate_body_line hbody hk (Nat.le_refl k) none⟩
    | nextPass hx hle he hadvance =>
      cases h.current.symm.trans hx
      obtain ⟨w, hw⟩ := ends_round_of_value hbody hfree h he hadvance
      obtain ⟨y, htop⟩ := h.next hbody he hadvance
      exact ih htop (EvalM.Ends.run_of_bind (evaluate_mono _ none) hw (hround hle))

include hbody hfree in
private theorem ends_passes_iff_rounds (h : c.OnTop ns x m) {slot : Nat} (hslot : ns.length = slot)
    (hkeeps : ¬c.LosesNumber slot m) (o : Outcome Empty Unit) (m' : Machine Empty) :
    Ends ⟨.passes c slot, m⟩ o m' ↔ Ends ⟨.rounds c.repetition, m⟩ o m' := by
  subst hslot
  constructor
  · rintro ⟨n, hn⟩
    exact ends_rounds_of_passes hbody hfree h hkeeps hn
  · -- The passes end as well, and rounds end in one way only.
    rintro ⟨n, hn⟩
    obtain ⟨k, ⟨o', m''⟩, hk⟩ := terminates_passes_of_rounds hbody hfree h hn
    have hrounds := ends_rounds_of_passes hbody hfree h hkeeps hk
    cases EvalM.Ends.eq_of_run (Job.run_mono (.rounds c.repetition)) hrounds hn
    exact ⟨k, hk⟩

end Loop

/-- Where it finds no number, `FOR` fails and says so. -/
theorem LosesNumber.ends {c : Count} {slot : Nat} {m : Machine Empty} (h : c.LosesNumber slot m) :
    ∃ kind m', kind ≠ .number ∧
      Ends ⟨.passes c slot, m⟩ (.failed (.argument Keyword.count.name 0 .loopNumber kind)) m' := by
  induction h with
  | @now m x v m' f hx hle he hget hkind =>
    obtain ⟨name, w⟩ := f
    rcases current_of_get? (c := c) hget with ⟨y, rfl, -⟩ | ⟨-, hf⟩
    · exact absurd rfl hkind
    · have hadvance : c.advance slot m' = some (.failed _, m') := EvalM.bind_of_failed hf _
      have hafter : EvalM.Ends
          (fun n => do c.advance slot; c.passes slot (evaluate n c.body none) n) m' _ m' :=
        ⟨0, EvalM.bind_of_failed hadvance _⟩
      have honce :=
        EvalM.Ends.bind (evaluate_mono c.body none) (fun _ => c.afterPass_mono slot) he hafter
      exact ⟨w.kind, m', hkind, ends_passes hx hle honce⟩
  | @later m x v m₁ m₂ hx hle he hadvance _ ih =>
    obtain ⟨kind, m', hkind, hrest⟩ := ih
    have hafter :=
      EvalM.Ends.bind monotone_const (fun _ => Job.run_mono (.passes c slot)) ⟨0, hadvance⟩ hrest
    have honce :=
      EvalM.Ends.bind (evaluate_mono c.body none) (fun _ => c.afterPass_mono slot) he hafter
    exact ⟨kind, m', hkind, ends_passes hx hle honce⟩

/-- A step that is neither zero nor NaN is taken as it is. -/
theorem read_of_step (c : Count) (hzero : (c.step == 0) = false) (hnan : c.step.isNaN = false)
    (site : Site) :
    Count.read [.str c.name, .num c.start, .num c.stop, .num c.step,
      (.code ⟨site, c.body⟩ : Value Empty)] = .ok c := by
  have hstep : readStep (some (.num c.step : Value Empty)) = .ok c.step := by
    rw [readStep, hzero, hnan]
    rfl
  change (do let step ← readStep (some (.num c.step : Value Empty)); return { c with step }) = _
  rw [hstep]
  rfl

end Count

/-- A call after `LET` is one on the machine with the binding. -/
theorem ends_after_binding_iff {name : String} {v callee : Value Empty} {args : List (Value Empty)}
    {m m' : Machine Empty} {o : Outcome Empty (Value Empty)} :
    EvalM.Ends (fun n => do
        let _ ← call n (.builtin .bind) [.str name, v]
        call n callee args) m o m' ↔
      Activation.Ends ⟨.call callee args, m.bind name v⟩ o m' := by
  have hbind :
      ∀ n, call (n + 1) (.builtin .bind) [.str name, v] m = some (.value .null, m.bind name v) := by
    intro n
    rw [call]
    rfl
  constructor
  · rintro ⟨n, hn⟩
    obtain ⟨r, hr⟩ := EvalM.exists_of_bind hn
    obtain ⟨n, rfl⟩ := exists_succ_of_call hr
    exact ⟨n + 1, (EvalM.bind_of_value (hbind n) _).symm.trans hn⟩
  · rintro ⟨n, hn⟩
    obtain ⟨n, rfl⟩ := exists_succ_of_call hn
    exact ⟨n + 1, (EvalM.bind_of_value (hbind n) _).trans hn⟩

/-- Take a machine that has no frames named `<=`, `ADD` and `SET`, and `FOR` by a step that is
neither zero nor NaN, under another name, over a script. If the variable holds no number after some
pass, `FOR` fails for that reason. Otherwise it agrees with `LET` of the variable and a `WHILE` that
compares the variable with the limit by `<=`, evaluates the script, and gives the variable by `SET`
what `ADD` makes of it and the step: one ends when the other does, and then with the same outcome
and on the same machine. -/
theorem count_agrees_with_loop {x : String} {m : Machine Empty}
    (hfree : ∀ name ∈ ["<=", "ADD", "SET"], name ≠ x ∧ name ∉ m.stack.names) (a b : Float)
    {s : Float} (hzero : (s == 0) = false) (hnan : s.isNaN = false) (body : List Expr)
    (site site' : Site) :
    let c : Count := { name := x, start := a, stop := b, step := s, body := .script body }
    let counting (n : Nat) : EvalM Empty (Value Empty) :=
      call n (.builtin .count) [.str x, .num a, .num b, .num s, .code ⟨site, .script body⟩]
    let looping (n : Nat) : EvalM Empty (Value Empty) := do
      let _ ← call n (.builtin .bind) [.str x, .num a]
      call n (.builtin .loop) [.code ⟨site', c.loopCode⟩]
    (c.LosesNumber m.stack.size (m.bind x (.num a)) → ∃ kind m', kind ≠ .number ∧
      EvalM.Ends counting m (.failed (.argument "FOR" 0 .loopNumber kind)) m') ∧
    (¬c.LosesNumber m.stack.size (m.bind x (.num a)) →
      (EvalM.Terminates counting m ↔ EvalM.Terminates looping m) ∧
      ∀ o m', EvalM.Ends counting m o m' ↔ EvalM.Ends looping m o m') := by
  intro c counting looping
  have hread := c.read_of_step hzero hnan site
  refine ⟨fun hloses => ?_, fun hkeeps => ?_⟩
  · obtain ⟨kind, m', hkind, hends⟩ := hloses.ends
    exact ⟨kind, m', hkind, (ends_call_count_iff hread).mpr ⟨_, hends, rfl⟩⟩
  · have hfree' : ∀ name ∈ ["<=", "ADD", "SET"], name ∉ m.stack.names ++ [c.name] := by
      intro name hname
      simpa [c, not_or, and_comm] using hfree name hname
    have htop : c.OnTop m.stack.names a (m.bind x (.num a)) := ⟨m.stack, rfl, rfl⟩
    have hpasses := Count.ends_passes_iff_rounds rfl hfree' htop m.stack.length_names hkeeps
    have hends : ∀ o m', EvalM.Ends counting m o m' ↔ EvalM.Ends looping m o m' := by
      intro o m'
      rw [ends_after_binding_iff, ends_call_loop_iff (r := c.repetition) rfl]
      simp only [← hpasses]
      exact ends_call_count_iff hread
    refine ⟨⟨?_, ?_⟩, hends⟩
    · rintro ⟨n, ⟨o, m'⟩, hn⟩
      exact ((hends o m').mp ⟨n, hn⟩).terminates
    · rintro ⟨n, ⟨o, m'⟩, hn⟩
      exact ((hends o m').mpr ⟨n, hn⟩).terminates

/-- A script that binds the name of the variable anew by `LET`, assigns to it by `SET`, and leaves
by `RETURN` with what it assigned. -/
theorem count_agrees_with_loop_when_shadowed :
    let m : Machine Empty := { stack := ⟨[⟨"x", .null⟩]⟩ }
    let body : List Expr := [.node "LET" (.lit (.str "x")) none none,
      .node "SET" (.script [.lit (.str "x"), .lit (.str "inner")]) none none,
      .node "RETURN" (.node "x" (.lit .null) none none) none none]
    let c : Count := { name := "x", start := 1, stop := 2, step := 1, body := .script body }
    (∀ name ∈ ["<=", "ADD", "SET"], name ≠ "x" ∧ name ∉ m.stack.names) ∧
    ((1 : Float) == 0) = false ∧ (1 : Float).isNaN = false ∧
    ¬c.LosesNumber 1 (m.bind "x" (.num 1)) ∧
    ∃ m', EvalM.Ends (fun n => do
      let _ ← call n (.builtin .bind) [.str "x", .num 1]
      call n (.builtin .loop) [.code ⟨{ document := 1 }, c.loopCode⟩]) m
        (.returned (.str "inner")) m' := by
  intro m body c
  let m₁ : Machine Empty := m.bind "x" (.num 1)
  have hfree : ∀ name ∈ ["<=", "ADD", "SET"], name ≠ "x" ∧ name ∉ m.stack.names := by decide
  have hzero : ((1 : Float) == 0) = false := by decide
  have hnan : (1 : Float).isNaN = false := by decide
  have hbody : ∃ m', evaluate 9 c.body none m₁ = some (.returned (.str "inner"), m') := ⟨_, rfl⟩
  obtain ⟨m', hm'⟩ := hbody
  -- No pass is completed.
  have hvalue : ∀ {v m''}, ¬Ends ⟨.expr c.body none, m₁⟩ (.value v) m'' := by
    intro v m'' he
    cases EvalM.Ends.eq_of_run (evaluate_mono c.body none) he hm'
  have hkeeps : ¬c.LosesNumber 1 m₁ := by
    intro h
    cases h with
    | now _ _ he _ _ => exact hvalue he
    | later _ _ he _ _ => exact hvalue he
  have hx : c.current 1 m₁ = some (.value 1, m₁) := rfl
  have hle : (1 : Float) ≤ 2 := by decide
  have honce : EvalM.Ends (c.passOnce 1) m₁ (.returned (.str "inner")) m' :=
    ⟨9, EvalM.bind_of_returned hm' _⟩
  have hpasses := Count.ends_passes hx hle honce
  have hagree :=
    count_agrees_with_loop hfree 1 2 hzero hnan body { document := 0 } { document := 1 }
  refine ⟨hfree, hzero, hnan, hkeeps, m', ((hagree.2 hkeeps).2 _ m').mp ?_⟩
  exact (ends_call_count_iff (m := m) (c := c) rfl).mpr ⟨_, hpasses, rfl⟩

end KeywordScript
