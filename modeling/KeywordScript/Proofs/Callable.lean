import KeywordScript.Proofs.Job

/-! Callables: keywords, natives and functions are bound to names and called, but no evaluation ever
has one in its hands as a value. -/

namespace KeywordScript

section Values

variable {H : Type}

mutual

/-- Whether no callable occurs in a value, at any depth of lists. -/
def Value.callableFree : Value H → Bool
  | .list vs => callableFreeItems vs
  | .builtin _ | .native _ | .func _ => false
  | .null | .bool _ | .num _ | .str _ | .code _ => true

def callableFreeItems : List (Value H) → Bool
  | [] => true
  | v :: rest => v.callableFree && callableFreeItems rest

end

/-- Whether a value is itself a callable or one in which no callable occurs. -/
def Value.unmixed (v : Value H) : Bool :=
  v.kind == .function || v.callableFree

theorem callableFreeItems_iff {vs : List (Value H)} :
    callableFreeItems vs = true ↔ ∀ v ∈ vs, v.callableFree = true := by
  induction vs with
  | nil => simp [callableFreeItems]
  | cons v rest ih => simp [callableFreeItems, ih]

theorem Value.callableFree_list {vs : List (Value H)} :
    (Value.list vs).callableFree = true ↔ ∀ v ∈ vs, v.callableFree = true := by
  rw [Value.callableFree, callableFreeItems_iff]

theorem Literal.callableFree_toValue (l : Literal) : (l.toValue : Value H).callableFree = true := by
  cases l <;> rfl

theorem Value.unmixed_of_callableFree {v : Value H} (h : v.callableFree = true) :
    v.unmixed = true := by
  simp [Value.unmixed, h]

theorem Value.callableFree_of_unmixed {v : Value H} (h : v.unmixed = true)
    (hkind : v.kind ≠ .function) :
    v.callableFree = true := by
  simpa [Value.unmixed, hkind] using h

end Values

/-- Values, arguments and what is returned hold no callable; frames hold callables only as they
are. -/
def Discipline.callables : Discipline where
  data v := v.callableFree = true
  returned _ v := v.callableFree = true
  frame v := v.unmixed = true
  callee _ v := v.unmixed = true
  code _ := rfl
  literal l := l.callableFree_toValue
  list h := Value.callableFree_list.mpr h
  elements h := Value.callableFree_list.mp h
  held h := Value.unmixed_of_callableFree h
  defined _ := rfl
  found _ hm h := by
    rcases hm.find?_cases h with hv | ⟨k, -, rfl⟩
    · exact hv
    · rfl
  plain h hkind := Value.callableFree_of_unmixed h hkind
  leave _ h := h
  passed _ h := h
  caught h := h

theorem Discipline.callables_setsNumbers : Discipline.callables.SetsNumbers :=
  fun _ _ _ _ _ => trivial

def Outcome.callableFree {H α : Type} (p : α → Bool) : Outcome H α → Bool
  | value a => p a
  | returned v => v.callableFree
  | failed _ => true

/-- No callable occurs in what a run gives its host, be it the values or the value of a return that
met no call. -/
def callableFreeReport {H : Type} : Except (RunError H) (List (Value H)) → Bool
  | .ok vs => callableFreeItems vs
  | .error (.returnOutside v) => v.callableFree
  | .error (.fault _) => true

theorem callableFreeReport_toExcept {H : Type} (o : Outcome H (List (Value H))) :
    callableFreeReport o.toExcept = o.callableFree callableFreeItems := by
  cases o <;> rfl

namespace Activation

/-- Whatever is called among the jobs has arguments in which no callable occurs. -/
def CallableFreeCalls (stack : List Activation) : Prop :=
  ∀ callee args m, ⟨.call callee args, m⟩ ∈ stack → callableFreeItems args = true

theorem UnderWay.callableFreeCalls {a : Activation} (ha : Discipline.callables.Governs a)
    {stack : List Activation} (h : UnderWay a stack) : CallableFreeCalls stack := by
  intro callee args m hc
  obtain ⟨-, -, hargs⟩ := ha.of_underWay Discipline.callables_setsNumbers h _ hc
  exact callableFreeItems_iff.mpr hargs

end Activation

section Evaluations

variable {m m' : Machine Empty} {fuel : Nat}

private theorem callableFree_of_evaluate (hm : m.Holds (·.unmixed = true)) {e : Expr}
    {line : Option Nat} {o : Outcome Empty (Value Empty)}
    (h : evaluate fuel e line m = some (o, m')) :
    o.callableFree Value.callableFree = true ∧ m'.Holds (·.unmixed = true) := by
  obtain ⟨-, hholds, hout⟩ := (Discipline.callables.respects fuel).1 trivial hm o m' h
  refine ⟨?_, hholds⟩
  cases o with
  | value v => exact hout
  | returned v => exact hout
  | failed f => rfl

private theorem callableFree_of_evaluateItems (hm : m.Holds (·.unmixed = true)) {n : Nat}
    {es : List Expr} {o : Outcome Empty (List (Value Empty))}
    (h : evaluateItems (evaluate fuel) n es m = some (o, m')) :
    o.callableFree callableFreeItems = true ∧ m'.Holds (·.unmixed = true) := by
  obtain ⟨-, hholds, hout⟩ := Discipline.ensures_items (Discipline.callables.respects fuel).1
    (fun _ _ => trivial) n hm o m' h
  refine ⟨?_, hholds⟩
  cases o with
  | value vs => exact callableFreeItems_iff.mpr hout
  | returned v => exact hout
  | failed f => rfl

theorem callableFree_of_runAfter {init : EvalM Empty Unit}
    (hinit : ∀ o m₁, init m = some (o, m₁) → m₁.Holds (·.unmixed = true) ∧ ∀ v, o ≠ .returned v)
    {script : List Expr} {r : Except (RunError Empty) (List (Value Empty))}
    (h : m.runAfter fuel init script = some (r, m')) :
    callableFreeReport r = true ∧ m'.Holds (·.unmixed = true) := by
  have hscript : (evaluateScript fuel init script).Ensures m fun o m' =>
      o.callableFree callableFreeItems = true ∧ m'.Holds (·.unmixed = true) := by
    rw [evaluateScript, EvalM.ensures_inScope, EvalM.ensures_bind]
    intro o₁ m₁ h₁
    obtain ⟨hholds, hnot⟩ := hinit o₁ m₁ h₁
    cases o₁ with
    | value _ =>
      intro o₂ m₂ h₂
      obtain ⟨hout, hholds₂⟩ := callableFree_of_evaluateItems hholds h₂
      exact ⟨hout, hholds₂.truncate _⟩
    | returned v => exact absurd rfl (hnot v)
    | failed f => exact ⟨rfl, hholds.truncate _⟩
  obtain ⟨⟨o, m₁⟩, hs, he⟩ := Option.map_eq_some_iff.mp h
  cases he
  rw [callableFreeReport_toExcept]
  exact hscript o _ hs

end Evaluations

open Activation

/-- Take a machine whose frames hold callables only as they are. However an evaluation or a run
ends, no callable occurs in a value that it gives or that is on the way out, and the frames are
again like that. Nor does one occur among the arguments of any call under way meanwhile, so that no
script can pass a callable, put it into a list, return it or compare it. -/
theorem callables_never_escape {m : Machine Empty} (hm : m.Holds (·.unmixed = true)) :
    (∀ e line fuel o m', evaluate fuel e line m = some (o, m') →
      o.callableFree Value.callableFree = true ∧ m'.Holds (·.unmixed = true)) ∧
    (∀ script fuel r m', m.run fuel script = some (r, m') →
      callableFreeReport r = true ∧ m'.Holds (·.unmixed = true)) ∧
    (∀ init : EvalM Empty Unit,
      (∀ o m₁, init m = some (o, m₁) → m₁.Holds (·.unmixed = true) ∧ ∀ v, o ≠ .returned v) →
      ∀ script fuel r m', m.runAfter fuel init script = some (r, m') →
        callableFreeReport r = true ∧ m'.Holds (·.unmixed = true)) ∧
    (∀ e line stack, UnderWay ⟨.expr e line, m⟩ stack → CallableFreeCalls stack) ∧
    ∀ n script stack, UnderWay ⟨.items n script, m⟩ stack → CallableFreeCalls stack := by
  refine ⟨fun _ _ _ _ _ => callableFree_of_evaluate hm, ?_, ?_, ?_, ?_⟩
  · intro script fuel r m' h
    refine callableFree_of_runAfter (fun o m₁ hi => ?_) h
    cases hi
    exact ⟨hm, nofun⟩
  · exact fun _ hinit _ _ _ _ => callableFree_of_runAfter hinit
  · intro e line stack h
    exact h.callableFreeCalls (a := ⟨.expr e line, m⟩) ⟨hm, trivial⟩
  · intro n script stack h
    exact h.callableFreeCalls (a := ⟨.items n script, m⟩) ⟨hm, fun _ _ => trivial⟩

/-- A function compared with itself by `==`: what is compared are the values of two calls. A
function put into a list: what the list holds is the value of a call. -/
theorem callables_never_escape_beside_natives :
    let abs : Native Empty := { id := 0, name := "ABS", action := .math .abs }
    let m : Machine Empty :=
      { stack := ⟨[⟨"ABS", .native abs⟩, ⟨"WRITE", .builtin .print⟩]⟩, fresh := 1 }
    let f : Expr := .node "f" (.lit (.str "x")) none none
    let define : Expr := .node "FUNCTION" (.script [.lit (.str "f"), .lit (.str "p")])
      (some ⟨{ document := 0 },
        .script [.node "RETURN" (.node "p" (.lit .null) none none) none none]⟩) none
    let comparing : List Expr := [define, .node "==" (.script [f, f]) none none]
    let listing : List Expr := [define, .node "RETURN" (.script [.script [f]]) none none]
    m.Holds (·.unmixed = true) ∧
    (∃ m' r, m.run 9 listing = some (r, m') ∧ r = .error (.returnOutside (.list [.str "x"])) ∧
      callableFreeReport r = true ∧ m'.Holds (·.unmixed = true)) ∧
    ∃ m₁ rest, UnderWay ⟨.items 1 comparing, m⟩
        (⟨.call (.builtin (.operator .eq)) [.str "x", .str "x"], m₁⟩ :: rest) ∧
      callableFreeItems ([.str "x", .str "x"] : List (Value Empty)) = true := by
  intro abs m f define comparing listing
  have hm : ∀ frame ∈ m.stack.frames, frame.value.unmixed = true := by decide
  obtain ⟨-, hrun, -, -, hcalls⟩ := callables_never_escape hm
  have hlisted : ∃ m', m.run 9 listing = some (.error (.returnOutside (.list [.str "x"])), m') :=
    ⟨_, rfl⟩
  have hcompared : ∃ m₁ rest, UnderWay ⟨.items 1 comparing, m⟩
      (⟨.call (.builtin (.operator .eq)) [.str "x", .str "x"], m₁⟩ :: rest) :=
    ⟨_, _, ((UnderWay.start.next (.nextItem ⟨6, rfl⟩)).next .item).next
      (.call (v := .list [.str "x", .str "x"]) ⟨7, rfl⟩ rfl)⟩
  obtain ⟨m', hm'⟩ := hlisted
  obtain ⟨m₁, rest, hcall⟩ := hcompared
  exact ⟨hm, ⟨m', _, hm', rfl, hrun listing 9 _ _ hm'⟩, m₁, rest, hcall,
    hcalls 1 comparing _ hcall _ _ _ List.mem_cons_self⟩

end KeywordScript
