import KeywordScript.Proofs.Discipline
import KeywordScript.Proofs.Stack

/-! Scopes: an evaluation never removes, renames or reorders a frame that was there before it, and
whatever has a scope of its own leaves exactly the names it found. -/

namespace KeywordScript

theorem Stack.names_truncate_size {H : Type} {s s' : Stack H} (h : s.names <+: s'.names) :
    (s'.truncate s.size).names = s.names := by
  rw [names_truncate, ← length_names]
  exact (List.prefix_iff_eq_take.mp h).symm

/-- Every frame keeps its place and its name. -/
def Discipline.names : Discipline where
  step m m' := m.stack.names <+: m'.stack.names
  refl _ := List.prefix_rfl
  trans h h' := h.trans h'
  bind name _ _ := by simp [Machine.bind]
  assign i _ _ _ := by simp
  advance i x h _ := by simpa using h
  print _ _ := List.prefix_rfl
  report _ _ := List.prefix_rfl
  issue _ := List.prefix_rfl
  scope h := by simp only [Machine.truncate, Stack.names_truncate_size h, List.prefix_rfl]
  call _ h := h

/-- However `init` ends, it has only added frames. -/
def EvalM.OnlyBinds {H α : Type} (init : EvalM H α) : Prop :=
  ∀ m o m', init m = some (o, m') → m.stack.frames <:+ m'.stack.frames

theorem EvalM.onlyBinds_pure {H α : Type} (a : α) : (pure a : EvalM H α).OnlyBinds := by
  intro m o m' h
  cases h
  exact List.suffix_rfl

/-- Nothing is asked of the values that a machine holds. -/
theorem Discipline.names_holds (m : Machine Empty) : m.Holds Discipline.names.frame :=
  fun _ _ => trivial

variable {m m' : Machine Empty} {fuel : Nat}

theorem names_prefix_of_evaluate {e : Expr} {line : Option Nat} {o : Outcome Empty (Value Empty)}
    (h : evaluate fuel e line m = some (o, m')) : m.stack.names <+: m'.stack.names :=
  ((Discipline.names.respects fuel).1 trivial (Discipline.names_holds m) o m' h).step

theorem names_prefix_of_evaluateItems {n : Nat} {es : List Expr}
    {o : Outcome Empty (List (Value Empty))}
    (h : evaluateItems (evaluate fuel) n es m = some (o, m')) : m.stack.names <+: m'.stack.names :=
  (Discipline.ensures_items (Discipline.names.respects fuel).1 (fun _ _ => trivial) n
    (Discipline.names_holds m) o m' h).step

/-- What ends with a cut back to its first size leaves the names as they were. -/
theorem EvalM.names_of_inScope {α : Type} {x : EvalM Empty α} {o : Outcome Empty α}
    (hx : x.Ensures m fun _ m' => m.stack.names <+: m'.stack.names)
    (h : x.inScope m = some (o, m')) :
    m'.stack.names = m.stack.names := by
  have hs : x.inScope.Ensures m fun _ m' => m'.stack.names = m.stack.names := by
    rw [EvalM.ensures_inScope]
    intro o₁ m₁ h₁
    exact Stack.names_truncate_size (hx o₁ m₁ h₁)
  exact hs o m' h

theorem names_of_evaluateScript {init : EvalM Empty Unit} (hinit : init.OnlyBinds)
    {script : List Expr} {o : Outcome Empty (List (Value Empty))}
    (h : evaluateScript fuel init script m = some (o, m')) :
    m'.stack.names = m.stack.names := by
  have hbound : ∀ {o m₁}, init m = some (o, m₁) → m.stack.names <+: m₁.stack.names := by
    intro o m₁ hi
    unfold Stack.names Stack.toList
    exact (List.reverse_prefix.mpr (hinit m o m₁ hi)).map _
  refine EvalM.names_of_inScope ?_ h
  rw [EvalM.ensures_bind]
  intro o₁ m₁ h₁
  cases o₁ with
  | value _ => exact fun o₂ m₂ h₂ => (hbound h₁).trans (names_prefix_of_evaluateItems h₂)
  | returned v => exact hbound h₁
  | failed f => exact hbound h₁

theorem names_of_script {es : List Expr} {line : Option Nat} {o : Outcome Empty (Value Empty)}
    (h : evaluate fuel (.script es) line m = some (o, m')) : m'.stack.names = m.stack.names := by
  cases fuel with
  | zero => rw [evaluate] at h; cases h
  | succ fuel =>
    rw [evaluate] at h
    have hitems : (evaluateItems (evaluate fuel) 1 es).Ensures m
        fun _ m' => m.stack.names <+: m'.stack.names := fun _ _ => names_prefix_of_evaluateItems
    rcases EvalM.bind_eq_some h with ⟨vs, m₁, hs, hp⟩ | ⟨v, hs, -⟩ | ⟨f, hs, -⟩
    · cases hp
      exact EvalM.names_of_inScope hitems hs
    · exact EvalM.names_of_inScope hitems hs
    · exact EvalM.names_of_inScope hitems hs

theorem names_of_function {f : Function} {args : List (Value Empty)}
    {o : Outcome Empty (Value Empty)} (h : call fuel (.func f) args m = some (o, m')) :
    m'.stack.names = m.stack.names := by
  cases fuel with
  | zero => rw [call] at h; cases h
  | succ fuel =>
    rw [call, Function.invoke_eq_asCall] at h
    have hcall : (f.evaluateBody (evaluate fuel) args).asCall.Ensures m
        fun _ m' => m'.stack.names = m.stack.names := by
      refine EvalM.ensures_asCall (fun _ => rfl) fun _ o₁ m₁ h₁ => ?_
      have hbody :
          (f.evaluateBody (evaluate fuel) args).Ensures { m with depth := m.depth + 1 } _ :=
        Discipline.ensures_body (Discipline.names.respects fuel).1 trivial (fun _ _ => trivial)
          (Discipline.names_holds _)
      exact Stack.names_truncate_size (s := m.stack) (hbody o₁ m₁ h₁).step
    exact hcall o m' h

/-- An evaluation ends with every frame it began with in its place and under its name, whether it
ends with a value, on the way out or with a fault. Scripts, runs and function calls leave exactly
the names they found. -/
theorem frames_persist (m : Machine Empty) (fuel : Nat) :
    (∀ e line o m', evaluate fuel e line m = some (o, m') → m.stack.size ≤ m'.stack.size ∧
      ∀ i < m.stack.size, (m'.stack.get? i).map Frame.name = (m.stack.get? i).map Frame.name) ∧
    (∀ es line o m', evaluate fuel (.script es) line m = some (o, m') →
      m'.stack.names = m.stack.names) ∧
    (∀ init : EvalM Empty Unit, init.OnlyBinds → ∀ script,
      (∀ o m', evaluateScript fuel init script m = some (o, m') → m'.stack.names = m.stack.names) ∧
      ∀ r m', m.runAfter fuel init script = some (r, m') → m'.stack.names = m.stack.names) ∧
    (∀ script r m', m.run fuel script = some (r, m') → m'.stack.names = m.stack.names) ∧
    ∀ f args o m', call fuel (.func f) args m = some (o, m') → m'.stack.names = m.stack.names := by
  have hrun : ∀ init : EvalM Empty Unit, init.OnlyBinds → ∀ script r m',
      m.runAfter fuel init script = some (r, m') → m'.stack.names = m.stack.names := by
    intro init hinit script r m' h
    obtain ⟨⟨o, m₁⟩, hs, he⟩ := Option.map_eq_some_iff.mp h
    cases he
    exact names_of_evaluateScript hinit hs
  refine ⟨?_, fun _ _ _ _ => names_of_script, ?_, ?_, fun _ _ _ _ => names_of_function⟩
  · intro e line o m' h
    have hp := names_prefix_of_evaluate h
    refine ⟨by simpa using hp.length_le, fun i hi => ?_⟩
    obtain ⟨t, ht⟩ := hp
    rw [Stack.map_name_get?, Stack.map_name_get?, ← ht,
      List.getElem?_append_left (by simpa using hi)]
  · exact fun init hinit script =>
      ⟨fun _ _ => names_of_evaluateScript hinit, hrun init hinit script⟩
  · exact hrun _ (EvalM.onlyBinds_pure ())

/-- A script of `LET`, `SET` and `RETURN`, and a run whose initializer binds and then fails. -/
theorem frames_persist_on_exits :
    let m : Machine Empty := { stack := ⟨[⟨"x", .null⟩]⟩ }
    let script : List Expr := [.node "LET" (.script [.lit (.str "y"), .lit (.bool true)]) none none,
      .node "SET" (.script [.lit (.str "x"), .node "y" (.lit .null) none none]) none none,
      .node "RETURN" (.node "x" (.lit .null) none none) none none]
    let init : EvalM Empty Unit := do
      .modify fun m => m.bind "z" .null
      .fail (.unbound "w")
    init.OnlyBinds ∧
    (∃ m', evaluate 6 (.script script) none m = some (.returned (.bool true), m') ∧
      m'.stack.names = ["x"]) ∧
    ∃ m', m.runAfter 6 init script = some (.error (.fault (.unbound "w")), m') ∧
      m'.stack.names = ["x"] := by
  intro m script init
  have hinit : init.OnlyBinds := by
    intro m o m' h
    cases h
    exact List.suffix_cons _ _
  have hm := frames_persist m 6
  exact ⟨hinit, ⟨_, rfl, hm.2.1 script none _ _ rfl⟩, _, rfl,
    (hm.2.2.1 init hinit script).2 _ _ rfl⟩

end KeywordScript
