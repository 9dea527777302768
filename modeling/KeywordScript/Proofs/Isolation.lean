import KeywordScript.Proofs.Callable
import KeywordScript.Proofs.Depth
import KeywordScript.Proofs.Lockstep
import KeywordScript.Proofs.Pointwise
import KeywordScript.Proofs.Scope
import KeywordScript.Proofs.Transcript

/-! Isolation: on a machine without bindings a run neither sees what was run or written before, nor
leaves anything behind but what it writes. -/

namespace KeywordScript

namespace Value

/-- The same value, in which no callable occurs. -/
def SameData (v w : Value Empty) : Prop :=
  v = w ∧ v.callableFree = true

/-- The same value, or two functions that differ at most in their numbers. -/
def SameBound (v w : Value Empty) : Prop :=
  v = w ∧ v.unmixed = true ∨ ∃ f id, v = .func f ∧ w = .func { f with id }

theorem sameData_items {vs ws : List (Value Empty)} (h : List.Forall₂ SameData vs ws) :
    vs = ws ∧ ∀ v ∈ vs, v.callableFree = true := by
  induction h with
  | nil => simp
  | cons hvw _ ih =>
    obtain ⟨rfl, hfree⟩ := hvw
    obtain ⟨rfl, hrest⟩ := ih
    exact ⟨rfl, List.forall_mem_cons.mpr ⟨hfree, hrest⟩⟩

theorem SameBound.alike {v w : Value Empty} (h : SameBound v w) : v.Alike Eq SameData w := by
  rcases h with ⟨rfl, hv⟩ | ⟨f, id, rfl, rfl⟩
  · refine alike_self fun vs hvs v hmem => ⟨rfl, ?_⟩
    subst hvs
    exact callableFree_list.mp (callableFree_of_unmixed hv (by simp [kind])) v hmem
  · exact .func rfl rfl

theorem SameBound.data {v w : Value Empty} (h : SameBound v w) (hkind : v.kind ≠ .function) :
    SameData v w := by
  rcases h with ⟨rfl, hv⟩ | ⟨f, id, rfl, rfl⟩
  · exact ⟨rfl, callableFree_of_unmixed hv hkind⟩
  · exact absurd rfl hkind

end Value

/-- Evaluations of one source, the first on a machine that has written `before`. Functions have
other numbers there, but no function is ever compared. -/
def Coupling.isolated (before : Transcript) : Coupling where
  source := Eq
  context := Eq
  data := Value.SameData
  frame := Value.SameBound
  stack := Stack.Pointwise Value.SameBound
  position := Eq
  transcript c c' := c = before ++ c'
  fresh _ _ := True
  expr h := by
    subst h
    exact Expr.alike_self (fun _ => ⟨rfl, rfl⟩) _
  numbering := ⟨fun _ => rfl, rfl, fun _ => trivial⟩
  alike h := h.alike
  held h := .inl ⟨h.1, Value.unmixed_of_callableFree h.2⟩
  plain h hkind := h.data hkind
  keyword _ := .inl ⟨rfl, rfl⟩
  literal l := ⟨rfl, l.callableFree_toValue⟩
  list h :=
    ⟨congrArg _ (Value.sameData_items h).1, Value.callableFree_list.mpr (Value.sameData_items h).2⟩
  text h := by rw [h.1]
  equal h h' := by rw [h.1, h'.1]
  push name h hv := h.push name hv
  lookup name h := h.lookup? name
  assign name h hv := h.assign? name (.inl ⟨hv.1, Value.unmixed_of_callableFree hv.2⟩)
  mark h := h.size_eq
  get h hp := hp ▸ h.get? _
  set x h hp := hp ▸ h.set _ (.inl ⟨rfl, rfl⟩)
  truncate h hp := hp ▸ h.truncate _
  print line h := by rw [h, Transcript.append_print]
  report k h hl := by rw [h, hl, Transcript.append_report]
  defined name params _ hbody := by
    subst hbody
    exact .inr ⟨_, _, rfl, rfl⟩

section Runs

variable {m m' : Machine Empty} {fuel : Nat} {script : List Expr}

/-- A machine on which nothing was run, with the same limit on calls. -/
def Machine.unused (m : Machine Empty) : Machine Empty :=
  { maxDepth := m.maxDepth }

theorem Coupling.isolated_coupled (hstack : m.stack.frames = []) (hdepth : m.depth = 0) :
    (Coupling.isolated m.transcript).Coupled m m.unused := by
  refine ⟨?_, hdepth, rfl, (Transcript.append_empty _).symm, trivial⟩
  change List.Forall₂ _ m.stack.frames []
  rw [hstack]
  exact .nil

def Machine.observe (m : Machine Empty) (fuel : Nat) (script : List Expr) :
    Option (Except (RunError Empty) (List (Value Empty)) × Transcript) :=
  (m.run fuel script).map fun (r, m') => (r, m'.transcript)

theorem Machine.observe_eq_unused (hstack : m.stack.frames = []) (hdepth : m.depth = 0) (fuel : Nat)
    (script : List Expr) :
    m.observe fuel script = (m.unused.observe fuel script).map fun (r, c) =>
      (r, m.transcript ++ c) := by
  let C := Coupling.isolated m.transcript
  have hinit : C.InStep (fun _ _ => True) (pure ()) (pure ()) := Coupling.inStep_pure trivial
  have hscript : List.Forall₂ C.source script script := List.forall₂_same.mpr fun _ _ => rfl
  have hwritten : ∀ {m₁ n₁}, C.Coupled m₁ n₁ → m₁.transcript = m.transcript ++ n₁.transcript :=
    fun h => h.transcript
  have hresults :=
    Coupling.inStep_script fuel hinit hscript (Coupling.isolated_coupled hstack hdepth)
  unfold Machine.observe Machine.run Machine.runAfter
  generalize evaluateScript fuel (pure ()) script m = r at hresults ⊢
  generalize evaluateScript fuel (pure ()) script m.unused = r' at hresults ⊢
  cases hresults with
  | exhausted => rfl
  | value hvs hm =>
    obtain ⟨rfl, -⟩ := Value.sameData_items hvs
    simp only [Option.map_some, hwritten hm]
  | returned hv hm =>
    obtain ⟨rfl, -⟩ := hv
    simp only [Option.map_some, hwritten hm]
  | failed f hm => simp only [Option.map_some, hwritten hm]

/-- A run on a machine without bindings leaves none. -/
theorem frames_of_run (hstack : m.stack.frames = [])
    {r : Except (RunError Empty) (List (Value Empty))} (h : m.run fuel script = some (r, m')) :
    m'.stack.frames = [] := by
  obtain ⟨⟨o, m₁⟩, hs, he⟩ := Option.map_eq_some_iff.mp h
  cases he
  have hnames := names_of_evaluateScript (EvalM.onlyBinds_pure ()) hs
  have hsize := congrArg List.length hnames
  rw [Stack.length_names, Stack.length_names, Stack.size, Stack.size, hstack] at hsize
  exact List.length_eq_zero_iff.mp hsize

end Runs

/-- Take a run that ended, on a machine with no bindings and no call under way. It leaves the
machine so, and every run after it goes as on a machine on which nothing was run: it ends if that
one does, reports the same and adds the same to what was written. In particular the same script
reports and writes the same again. -/
theorem runs_isolated {m m' : Machine Empty} (hstack : m.stack.frames = []) (hdepth : m.depth = 0)
    {script : List Expr} {fuel : Nat} {r : Except (RunError Empty) (List (Value Empty))}
    (h : m.run fuel script = some (r, m')) :
    (m'.stack.frames = [] ∧ m'.depth = 0 ∧ m'.maxDepth = m.maxDepth) ∧
    (∀ next fuel', m'.observe fuel' next =
      (m.unused.observe fuel' next).map fun (s, written) => (s, m'.transcript ++ written)) ∧
    ∃ written, m'.transcript = m.transcript ++ written ∧
      m'.observe fuel script = some (r, m'.transcript ++ written) := by
  have hstack' := frames_of_run hstack h
  obtain ⟨hdepth', hlimit⟩ := (Session.run h).depth
  rw [hdepth] at hdepth'
  have hunused : m'.unused = m.unused := by rw [Machine.unused, Machine.unused, hlimit]
  have hnext : ∀ next fuel', m'.observe fuel' next =
      (m.unused.observe fuel' next).map fun (s, written) => (s, m'.transcript ++ written) := by
    intro next fuel'
    rw [← hunused]
    exact Machine.observe_eq_unused hstack' hdepth' fuel' next
  have hfirst : m.observe fuel script = some (r, m'.transcript) := by
    rw [Machine.observe, h]
    rfl
  rw [Machine.observe_eq_unused hstack hdepth] at hfirst
  obtain ⟨⟨s, written⟩, hwritten, heq⟩ := Option.map_eq_some_iff.mp hfirst
  obtain ⟨hs, hadded⟩ := Prod.mk.inj heq
  refine ⟨⟨hstack', hdepth', hlimit⟩, hnext, written, hadded.symm, ?_⟩
  rw [hnext, hwritten, Option.map_some, hs]

/-- A script that makes a function by `FUNCTION`, gives what it returns to `PRINT` and calls an
unknown keyword: on a machine that has written something before and given numbers to functions, it
runs and runs again as on an unused one. -/
theorem runs_isolated_after_writing :
    let m : Machine Empty := { maxDepth := 3, transcript := { lines := #["earlier"] }, fresh := 7 }
    let f : Expr := .node "f" (.lit .null) none none
    let script : List Expr :=
      [.node "FUNCTION" (.lit (.str "f"))
        (some ⟨{ document := 0 }, .node "RETURN" (.lit (.str "x")) none none⟩) none,
        .node "PRINT" f none none, .node "missing" (.lit .null) none none]
    m.stack.frames = [] ∧ m.depth = 0 ∧
    ∃ r m', m.run 9 script = some (r, m') ∧ r = .ok [.null, .null, .str "missing"] ∧
      m'.transcript.lines = #["earlier", "x"] ∧ m'.transcript.diagnostics = #[⟨"missing", some 3⟩] ∧
      (∀ next fuel', m'.observe fuel' next =
        (m.unused.observe fuel' next).map fun (s, written) => (s, m'.transcript ++ written)) ∧
      ∃ written, m'.transcript = m.transcript ++ written ∧
        m'.observe 9 script = some (r, m'.transcript ++ written) := by
  intro m f script
  have hrun : ∃ m', m.run 9 script = some (.ok [.null, .null, .str "missing"], m') ∧
      m'.transcript.lines = #["earlier", "x"] ∧
        m'.transcript.diagnostics = #[⟨"missing", some 3⟩] :=
    ⟨_, rfl, rfl, rfl⟩
  obtain ⟨m', hm', hlines, hdiagnostics⟩ := hrun
  obtain ⟨-, hnext, hagain⟩ := runs_isolated (m := m) rfl rfl hm'
  exact ⟨rfl, rfl, _, m', hm', rfl, hlines, hdiagnostics, hnext, hagain⟩

end KeywordScript
