import KeywordScript.Proofs.Postcondition

/-! Sequences: the items of a script are evaluated one after the other, each on the machine that the
one before it left, and the first that does not end with a value is the last that is evaluated. So a
script whose items are those of two others is run as the first is, and then, in the same scope, as
the second. -/

namespace KeywordScript

variable {H : Type}

instance : LawfulMonad (EvalM H) :=
  LawfulMonad.mk' (EvalM H)
    (fun x => by
      funext m
      change (x >>= pure) m = x m
      rw [EvalM.bind_apply]
      match x m with
      | none => rfl
      | some (.value _, _) => rfl
      | some (.returned _, _) => rfl
      | some (.failed _, _) => rfl)
    (fun _ _ => rfl)
    (fun x f g => by
      funext m
      rw [EvalM.bind_apply, EvalM.bind_apply, EvalM.bind_apply]
      match x m with
      | none => rfl
      | some (.value _, _) => rfl
      | some (.returned _, _) => rfl
      | some (.failed _, _) => rfl)

def Outcome.map {α β : Type} (f : α → β) : Outcome H α → Outcome H β
  | value a => .value (f a)
  | returned v => .returned v
  | failed e => .failed e

theorem EvalM.map_apply {α β : Type} (f : α → β) (x : EvalM H α) (m : Machine H) :
    (do return f (← x) : EvalM H β) m = (x m).map fun (o, m') => (o.map f, m') := by
  rw [EvalM.bind_apply]
  match x m with
  | none => rfl
  | some (.value _, _) => rfl
  | some (.returned _, _) => rfl
  | some (.failed _, _) => rfl

section Items

variable {ev : Expr → Option Nat → EvalM H (Value H)}

/-- The items of `es` give the values `vs` when they are evaluated one after the other, the first
with the line `n`. Before the item at position `k` the machine is `states k`, and after it `states
(k + 1)`. -/
structure InTurn (ev : Expr → Option Nat → EvalM H (Value H)) (n : Nat) (es : List Expr)
    (vs : List (Value H)) (states : Nat → Machine H) : Prop where
  length : vs.length = es.length
  item : ∀ k e, es[k]? = some e →
    ∃ v, vs[k]? = some v ∧ ev e (some (k + n)) (states k) = some (.value v, states (k + 1))

theorem InTurn.cons {n : Nat} {e : Expr} {es : List Expr} {v : Value H} {vs : List (Value H)}
    {states : Nat → Machine H} {m : Machine H} (he : ev e (some n) m = some (.value v, states 0))
    (hes : InTurn ev (n + 1) es vs states) :
    InTurn ev n (e :: es) (v :: vs) fun
      | 0 => m
      | k + 1 => states k where
  length := by simp [hes.length]
  item k e' hk := by
    cases k with
    | zero =>
      cases hk
      rw [Nat.zero_add]
      exact ⟨v, rfl, he⟩
    | succ k =>
      have hline : k + 1 + n = k + (n + 1) := by omega
      rw [hline]
      exact hes.item k e' hk

private theorem InTurn.uncons {n : Nat} {e : Expr} {es : List Expr} {vs : List (Value H)}
    {states : Nat → Machine H} (h : InTurn ev n (e :: es) vs states) :
    ∃ v ws, vs = v :: ws ∧ ev e (some n) (states 0) = some (.value v, states 1) ∧
      InTurn ev (n + 1) es ws fun k => states (k + 1) := by
  obtain ⟨hlength, hitem⟩ := h
  cases vs with
  | nil => cases hlength
  | cons v ws =>
    obtain ⟨v', hv', hev⟩ := hitem 0 e rfl
    cases hv'
    rw [Nat.zero_add] at hev
    refine ⟨v, ws, rfl, hev, by simpa using hlength, fun k e' hk => ?_⟩
    have hline : k + (n + 1) = k + 1 + n := by omega
    rw [hline]
    exact hitem (k + 1) e' hk

theorem evaluateItems_eq_value_iff {n : Nat} {es : List Expr} {vs : List (Value H)}
    {m m' : Machine H} :
    evaluateItems ev n es m = some (.value vs, m') ↔
      ∃ states : Nat → Machine H, states 0 = m ∧ InTurn ev n es vs states ∧
        states es.length = m' := by
  induction es generalizing n m vs with
  | nil =>
    constructor
    · intro h
      cases h
      exact ⟨fun _ => m', rfl, ⟨rfl, nofun⟩, rfl⟩
    · rintro ⟨states, rfl, hturn, rfl⟩
      rw [List.length_eq_zero_iff.mp hturn.length]
      rfl
  | cons e rest ih =>
    rw [evaluateItems]
    constructor
    · intro h
      rcases EvalM.bind_eq_some h with ⟨v, m₁, he, h⟩ | ⟨w, -, ho⟩ | ⟨f, -, ho⟩
      · rcases EvalM.bind_eq_some h with ⟨ws, m₂, hrest, h⟩ | ⟨w, -, ho⟩ | ⟨f, -, ho⟩
        · cases h
          obtain ⟨states, rfl, hturn, hlast⟩ := ih.mp hrest
          exact ⟨_, rfl, hturn.cons he, hlast⟩
        · cases ho
        · cases ho
      · cases ho
      · cases ho
    · rintro ⟨states, rfl, hturn, rfl⟩
      obtain ⟨v, ws, rfl, he, hrest⟩ := hturn.uncons
      have hitems := ih.mpr ⟨_, rfl, hrest, rfl⟩
      rw [EvalM.bind_of_value he, EvalM.bind_of_value hitems]
      rfl

/-- Items one after the other. The lines of the later ones go on where those of the first end. -/
theorem evaluateItems_append (n : Nat) (xs ys : List Expr) :
    evaluateItems ev n (xs ++ ys) = do
      let vs ← evaluateItems ev n xs
      let ws ← evaluateItems ev (n + xs.length) ys
      return vs ++ ws := by
  induction xs generalizing n with
  | nil => simp [evaluateItems]
  | cons e rest ih =>
    have hline : n + 1 + rest.length = n + (rest.length + 1) := by omega
    simp only [List.cons_append, evaluateItems, ih, bind_assoc, pure_bind, List.length_cons, hline]

end Items

namespace Outcome

variable {α : Type} {o : Outcome H α}

theorem toExcept_eq_ok_iff {a : α} : o.toExcept = .ok a ↔ o = .value a := by
  cases o <;> simp [toExcept]

theorem toExcept_eq_returnOutside_iff {v : Value H} :
    o.toExcept = .error (.returnOutside v) ↔ o = .returned v := by
  cases o <;> simp [toExcept]

theorem toExcept_eq_fault_iff {f : Fault} : o.toExcept = .error (.fault f) ↔ o = .failed f := by
  cases o <;> simp [toExcept]

end Outcome

section Scripts

variable [Host H] {fuel : Nat} {init : EvalM H Unit} {m m' : Machine H}

/-- What is done of a script before its scope ends. -/
def evaluateOpen (fuel : Nat) (init : EvalM H Unit) (script : List Expr) :
    EvalM H (List (Value H)) := do
  init
  evaluateItems (evaluate fuel) 1 script

theorem evaluateScript_eq_inScope (script : List Expr) :
    evaluateScript fuel init script = (evaluateOpen fuel init script).inScope := rfl

theorem evaluateOpen_append (xs ys : List Expr) :
    evaluateOpen fuel init (xs ++ ys) = do
      let vs ← evaluateOpen fuel init xs
      let ws ← evaluateItems (evaluate fuel) (xs.length + 1) ys
      return vs ++ ws := by
  unfold evaluateOpen
  rw [evaluateItems_append, Nat.add_comm 1, bind_assoc]

/-- Where the first script has left its values and its scope open, the second goes on. -/
theorem evaluateScript_append_of_value {xs : List Expr} {vs : List (Value H)} {m₁ : Machine H}
    (h : evaluateOpen fuel init xs m = some (.value vs, m₁)) (ys : List Expr) :
    evaluateScript fuel init (xs ++ ys) m =
      (evaluateItems (evaluate fuel) (xs.length + 1) ys m₁).map fun (o, m₂) =>
        (o.map (vs ++ ·), m₂.truncate m.stack.size) := by
  rw [evaluateScript_eq_inScope, evaluateOpen_append, EvalM.inScope, EvalM.bind_of_value h,
    EvalM.map_apply, Option.map_map]
  rfl

theorem exists_open_of_evaluateScript {script : List Expr} {o : Outcome H (List (Value H))}
    (h : evaluateScript fuel init script m = some (o, m')) :
    ∃ m₁, evaluateOpen fuel init script m = some (o, m₁) ∧ m' = m₁.truncate m.stack.size := by
  obtain ⟨⟨o₁, m₁⟩, hopen, he⟩ := Option.map_eq_some_iff.mp h
  cases he
  exact ⟨m₁, hopen, rfl⟩

/-- Where the first script has ended otherwise, nothing of the second is evaluated. -/
theorem evaluateScript_append_of_exit {xs : List Expr} {o : Outcome H (List (Value H))}
    (h : evaluateScript fuel init xs m = some (o, m')) (ho : ∀ vs, o ≠ .value vs) (ys : List Expr) :
    evaluateScript fuel init (xs ++ ys) m = some (o, m') := by
  obtain ⟨m₁, hopen, rfl⟩ := exists_open_of_evaluateScript h
  rw [evaluateScript_eq_inScope, evaluateOpen_append, EvalM.inScope]
  cases o with
  | value vs => exact absurd rfl (ho vs)
  | returned v =>
    rw [EvalM.bind_of_returned hopen]
    rfl
  | failed f =>
    rw [EvalM.bind_of_failed hopen]
    rfl

theorem Machine.runAfter_eq_some_iff {script : List Expr}
    {r : Except (RunError H) (List (Value H))} :
    m.runAfter fuel init script = some (r, m') ↔
      ∃ o : Outcome H _, o.toExcept = r ∧ evaluateScript fuel init script m = some (o, m') := by
  rw [Machine.runAfter, Option.map_eq_some_iff]
  constructor
  · rintro ⟨⟨o, m₁⟩, h, he⟩
    cases he
    exact ⟨o, rfl, h⟩
  · rintro ⟨o, rfl, h⟩
    exact ⟨(o, m'), h, rfl⟩

theorem runAfter_append_of_error {xs : List Expr} {e : RunError H}
    (h : m.runAfter fuel init xs = some (.error e, m')) (ys : List Expr) :
    m.runAfter fuel init (xs ++ ys) = some (.error e, m') := by
  obtain ⟨o, he, hs⟩ := Machine.runAfter_eq_some_iff.mp h
  have ho : ∀ vs, o ≠ .value vs := by
    rintro vs rfl
    cases he
  exact Machine.runAfter_eq_some_iff.mpr ⟨o, he, evaluateScript_append_of_exit hs ho ys⟩

theorem run_eq_ok_iff {script : List Expr} {vs : List (Value H)} :
    m.run fuel script = some (.ok vs, m') ↔
      ∃ m₁, evaluateItems (evaluate fuel) 1 script m = some (.value vs, m₁) ∧
        m' = m₁.truncate m.stack.size := by
  have hscript : m.run fuel script = some (.ok vs, m') ↔
      evaluateScript fuel (pure ()) script m = some (.value vs, m') := by
    simp only [Machine.run, Machine.runAfter_eq_some_iff, Outcome.toExcept_eq_ok_iff,
      exists_eq_left]
  rw [hscript]
  constructor
  · exact exists_open_of_evaluateScript
  · rintro ⟨m₁, hitems, rfl⟩
    have hopen : evaluateOpen fuel (pure ()) script m = some (.value vs, m₁) := hitems
    rw [evaluateScript_eq_inScope, EvalM.inScope, hopen]
    rfl

/-- A script as an expression is evaluated as in a run, and its values are a list. -/
theorem evaluate_script_eq (es : List Expr) (line : Option Nat) :
    evaluate (fuel + 1) (.script es) line m =
      (evaluateScript fuel (pure ()) es m).map fun (o, m') => (o.map .list, m') := by
  rw [evaluate, EvalM.map_apply]
  rfl

theorem length_of_evaluate_script {es : List Expr} {line : Option Nat} {v : Value H}
    (h : evaluate fuel (.script es) line m = some (.value v, m')) :
    ∃ vs, v = .list vs ∧ vs.length = es.length := by
  cases fuel with
  | zero =>
    rw [evaluate] at h
    cases h
  | succ fuel =>
    rw [evaluate_script_eq] at h
    obtain ⟨⟨o, m₁⟩, hs, he⟩ := Option.map_eq_some_iff.mp h
    obtain ⟨m₂, hopen, -⟩ := exists_open_of_evaluateScript hs
    cases o with
    | value vs =>
      cases he
      obtain ⟨states, -, hturn, -⟩ := evaluateItems_eq_value_iff.mp hopen
      exact ⟨vs, rfl, hturn.length⟩
    | returned w => cases he
    | failed f => cases he

end Scripts

/-- A run gives values exactly when its items do, evaluated one after the other in one scope with
their numbers as lines; there is one value for each item, and what the items have bound is dropped
at the end. The value of an array has as many elements as the array. Now take the items of two
scripts as one script. Where the first script ends on the way out or with a fault, the whole ends in
the same way and on the same machine, also for the host that runs it. Where the first has values,
the second is evaluated on the machine that the first has left, before its scope ends, with lines
that go on from those of the first; the whole ends as the second does, and its values are those of
the first and then those of the second. -/
theorem scripts_fail_stop {H : Type} [Host H] (m : Machine H) (fuel : Nat) :
    (∀ script vs m', m.run fuel script = some (.ok vs, m') ↔
      vs.length = script.length ∧ ∃ states : Nat → Machine H, states 0 = m ∧
        (∀ k e, script[k]? = some e →
          ∃ v, vs[k]? = some v ∧ evaluate fuel e (some (k + 1)) (states k) =
            some (.value v, states (k + 1))) ∧
        m' = (states script.length).truncate m.stack.size) ∧
    (∀ es line v m', evaluate fuel (.script es) line m = some (.value v, m') →
      ∃ vs, v = .list vs ∧ vs.length = es.length) ∧
    ∀ init xs ys,
      (∀ o m', evaluateScript fuel init xs m = some (o, m') → (∀ vs, o ≠ .value vs) →
        evaluateScript fuel init (xs ++ ys) m = some (o, m')) ∧
      (∀ e m', m.runAfter fuel init xs = some (.error e, m') →
        m.runAfter fuel init (xs ++ ys) = some (.error e, m')) ∧
      ∀ vs m', evaluateScript fuel init xs m = some (.value vs, m') →
        ∃ m₁, (do init; evaluateItems (evaluate fuel) 1 xs) m = some (.value vs, m₁) ∧
          m' = m₁.truncate m.stack.size ∧
          evaluateScript fuel init (xs ++ ys) m =
            (evaluateItems (evaluate fuel) (xs.length + 1) ys m₁).map fun (o, m₂) =>
              (o.map (vs ++ ·), m₂.truncate m.stack.size) := by
  refine ⟨fun script vs m' => ?_, fun _ _ _ _ => length_of_evaluate_script,
    fun init xs ys => ⟨?_, ?_, ?_⟩⟩
  · rw [run_eq_ok_iff]
    constructor
    · rintro ⟨m₁, hitems, rfl⟩
      obtain ⟨states, hfirst, hturn, rfl⟩ := evaluateItems_eq_value_iff.mp hitems
      exact ⟨hturn.length, states, hfirst, hturn.item, rfl⟩
    · rintro ⟨hlength, states, hfirst, hitem, rfl⟩
      exact ⟨_, evaluateItems_eq_value_iff.mpr ⟨states, hfirst, ⟨hlength, hitem⟩, rfl⟩, rfl⟩
  · exact fun o m' h ho => evaluateScript_append_of_exit h ho ys
  · exact fun e m' h => runAfter_append_of_error h ys
  · intro vs m' h
    obtain ⟨m₁, hopen, hm'⟩ := exists_open_of_evaluateScript h
    exact ⟨m₁, hopen, hm', evaluateScript_append_of_value hopen ys⟩

/-- First `LET` of a name and a look-up of it; two items that go on in the same scope, the first of
them with a name that is bound to nothing on line 3, the second `RETURN`; and one that is not
reached. -/
theorem scripts_fail_stop_on_return :
    let m : Machine Empty := {}
    let call (name : String) : Expr := .node name (.lit .null) none none
    let xs : List Expr :=
      [.node "LET" (.script [.lit (.str "y"), .lit (.str "a")]) none none, call "y"]
    let ys : List Expr := [call "z", .node "RETURN" (call "y") none none]
    let zs : List Expr := [.node "PRINT" (.lit (.str "late")) none none]
    (∃ m', evaluateScript 9 (pure ()) xs m = some (.value [.null, .str "a"], m') ∧
      ∃ m₁, evaluateItems (evaluate 9) 1 xs m = some (.value [.null, .str "a"], m₁) ∧
        evaluateScript 9 (pure ()) (xs ++ ys) m =
          (evaluateItems (evaluate 9) 3 ys m₁).map fun (o, m₂) =>
          (o.map ([.null, .str "a"] ++ ·), m₂.truncate m.stack.size)) ∧
    ∃ m', evaluateScript 9 (pure ()) (xs ++ ys) m = some (.returned (.str "a"), m') ∧
      m'.transcript.diagnostics = #[⟨"z", some 3⟩] ∧
      evaluateScript 9 (pure ()) (xs ++ ys ++ zs) m = some (.returned (.str "a"), m') ∧
      m.run 9 (xs ++ ys ++ zs) = some (.error (.returnOutside (.str "a")), m') := by
  intro m call xs ys zs
  obtain ⟨-, -, hparts⟩ := scripts_fail_stop m 9
  have hfirst : ∃ m', evaluateScript 9 (pure ()) xs m = some (.value [.null, .str "a"], m') :=
    ⟨_, rfl⟩
  have hexit : ∃ m', evaluateScript 9 (pure ()) (xs ++ ys) m = some (.returned (.str "a"), m') ∧
      m'.transcript.diagnostics = #[⟨"z", some 3⟩] ∧
      m.run 9 (xs ++ ys) = some (.error (.returnOutside (.str "a")), m') := ⟨_, rfl, rfl, rfl⟩
  constructor
  · obtain ⟨m', hm'⟩ := hfirst
    obtain ⟨m₁, hopen, -, happend⟩ := (hparts (pure ()) xs ys).2.2 _ m' hm'
    exact ⟨m', hm', m₁, hopen, happend⟩
  · obtain ⟨m', hm', hdiagnostics, hrun⟩ := hexit
    obtain ⟨hstop, hreport, -⟩ := hparts (pure ()) (xs ++ ys) zs
    exact ⟨m', hm', hdiagnostics, hstop _ m' hm' (by simp), hreport _ m' hrun⟩

end KeywordScript
