import KeywordScript.Proofs.Callable
import KeywordScript.Proofs.Scope

/-! Blocking: binding the name of a keyword takes the keyword away from scripts for good. A keyword
is found only under its own name and only where no frame has that name; frames that were there
before keep their names; and no script ever has a keyword in its hands to bind it elsewhere. -/

namespace KeywordScript

section Values

variable {H : Type} {v : Value H} {m : Machine H}

/-- Whether a value is a native, a function or one in which no callable occurs. -/
def Value.ordinary : Value H → Bool
  | .native _ | .func _ => true
  | v => v.callableFree

theorem Value.ordinary_of_callableFree (h : v.callableFree = true) : v.ordinary = true := by
  cases v with
  | native n => rfl
  | func f => rfl
  | _ => exact h

private theorem Value.callableFree_of_ordinary (h : v.ordinary = true)
    (hkind : v.kind ≠ .function) :
    v.callableFree = true := by
  cases v with
  | native n => exact absurd rfl hkind
  | func f => exact absurd rfl hkind
  | _ => exact h

/-- The value is no keyword, or one whose name no frame has. -/
def Machine.Unblocked (m : Machine H) (v : Value H) : Prop :=
  v.ordinary = true ∨ ∃ k : Keyword, v = .builtin k ∧ k.name ∉ m.stack.names

theorem Machine.Unblocked.name_notMem {k : Keyword} (h : m.Unblocked (.builtin k)) :
    k.name ∉ m.stack.names := by
  rcases h with h | ⟨k', hk, hname⟩
  · cases h
  · cases hk
    exact hname

/-- Where frames hold no keyword, a keyword is found under its own name, and no frame has that
name. -/
theorem Machine.Holds.unblocked (hm : m.Holds (·.ordinary = true)) {name : String}
    (h : m.find? name = some v) :
    m.Unblocked v := by
  cases hs : m.stack.lookup? name with
  | some w =>
    rw [Machine.find?, hs] at h
    cases h
    exact .inl (hm.lookup? hs)
  | none =>
    rcases hm.find?_cases h with hv | ⟨k, hk, rfl⟩
    · exact .inl hv
    · have hname : k.name = name := Keyword.name_of_ofName? hk
      rw [Stack.lookup?_eq_none_iff, ← hname] at hs
      exact .inr ⟨k, rfl, hs⟩

end Values

/-- A keyword is called only where no frame has its name, and frames keep their places and names. -/
def Discipline.blocking : Discipline where
  data v := v.callableFree = true
  returned m v := v.callableFree = true ∧ Keyword.leave.name ∉ m.stack.names
  frame v := v.ordinary = true
  callee := Machine.Unblocked
  step m m' := m.stack.names <+: m'.stack.names
  code := Discipline.callables.code
  literal := Discipline.callables.literal
  list := Discipline.callables.list
  elements := Discipline.callables.elements
  held h := Value.ordinary_of_callableFree h
  defined _ := rfl
  found _ hm h := hm.unblocked h
  plain h hkind := by
    rcases h with h | ⟨k, rfl, -⟩
    · exact Value.callableFree_of_ordinary h hkind
    · exact absurd rfl hkind
  leave h hv := ⟨hv, h.name_notMem⟩
  passed h h' := ⟨h'.1, fun hmem => h'.2 (h.subset hmem)⟩
  caught h := h.1
  refl := Discipline.names.refl
  trans := Discipline.names.trans
  bind name _ _ := by simp [Machine.bind]
  assign i _ _ _ := by simp
  advance := Discipline.names.advance
  print _ _ := List.prefix_rfl
  report := Discipline.names.report
  issue := Discipline.names.issue
  scope := Discipline.names.scope
  call := Discipline.names.call

/-- Up to `m'`, no line was written where `m` has a frame named `PRINT`, and the frames of `m` hold
what they held where it has frames named `SET` and `INC`. -/
structure Machine.Spares (m m' : Machine Empty) : Prop where
  names : m.stack.names <+: m'.stack.names
  lines : Keyword.print.name ∈ m.stack.names → m'.transcript.lines = m.transcript.lines
  frames : Keyword.assign.name ∈ m.stack.names → Keyword.increment.name ∈ m.stack.names →
    m.stack.toList <+: m'.stack.toList

theorem Machine.Spares.trans {a b c : Machine Empty} (h : a.Spares b) (h' : b.Spares c) :
    a.Spares c where
  names := h.names.trans h'.names
  lines hp := (h'.lines (h.names.subset hp)).trans (h.lines hp)
  frames hs hi := (h.frames hs hi).trans (h'.frames (h.names.subset hs) (h.names.subset hi))

/-- The same keywords are blocked, and so is what they would do. -/
def Discipline.sparing : Discipline :=
  { Discipline.blocking with
    step := Machine.Spares
    passed := fun h => Discipline.blocking.passed h.names
    refl := fun _ => ⟨List.prefix_rfl, fun _ => rfl, fun _ _ => List.prefix_rfl⟩
    trans := Machine.Spares.trans
    bind := fun _ _ _ => ⟨by simp [Machine.bind], fun _ => rfl, fun _ _ => by simp [Machine.bind]⟩
    assign := fun i _ hcallee _ => by
      refine ⟨by simp, fun _ => rfl, fun hassign hincrement => ?_⟩
      rcases hcallee with h | h
      · exact absurd hassign h.name_notMem
      · exact absurd hincrement h.name_notMem
    advance := fun i x h hi =>
      ⟨by simpa using h.names, h.lines, fun hs hc => Stack.prefix_set (h.frames hs hc) hi _⟩
    print :=
      fun _ h => ⟨List.prefix_rfl, fun hp => absurd hp h.name_notMem, fun _ _ => List.prefix_rfl⟩
    report := fun _ _ => ⟨List.prefix_rfl, fun _ => rfl, fun _ _ => List.prefix_rfl⟩
    issue := fun _ => ⟨List.prefix_rfl, fun _ => rfl, fun _ _ => List.prefix_rfl⟩
    scope := fun h => ⟨Discipline.names.scope h.names, h.lines, fun hs hi => by
      simp only [Machine.truncate, Stack.toList_truncate_size (h.frames hs hi), List.prefix_rfl]⟩
    call := fun _ h => ⟨h.names, h.lines, h.frames⟩ }

open Activation

section Runs

variable {m m' : Machine Empty} (hm : m.Holds (·.ordinary = true)) {e : Expr} {line : Option Nat}

include hm

/-- No call of a keyword is under way at any time if a frame has its name. -/
theorem not_underWay_of_bound {k : Keyword} (hk : k.name ∈ m.stack.names)
    (args : List (Value Empty)) (b : Machine Empty) (rest : List Activation) :
    ¬UnderWay ⟨.expr e line, m⟩ (⟨.call (.builtin k) args, b⟩ :: rest) := by
  intro h
  have hset := Discipline.blocking.setsNumbers_of_names fun _ _ => Iff.rfl
  have hdepth : Discipline.blocking.IgnoresDepth := fun _ _ _ hs => hs
  have hgoverns : Discipline.blocking.Governs ⟨.expr e line, m⟩ := ⟨hm, trivial⟩
  have hnames : m.stack.names <+: b.stack.names := hgoverns.step_of_underWay hset hdepth h
  have hcall : Discipline.blocking.Governs ⟨.call (.builtin k) args, b⟩ :=
    hgoverns.of_underWay hset h _ List.mem_cons_self
  have hfree : k.name ∉ b.stack.names := hcall.2.1.name_notMem
  exact hfree (hnames.subset hk)

private theorem spares_of_evaluate {fuel : Nat} {o : Outcome Empty (Value Empty)}
    (h : evaluate fuel e line m = some (o, m')) :
    m.Spares m' ∧ ∀ v, o = .returned v → Keyword.leave.name ∉ m.stack.names := by
  obtain ⟨hspares, -, hout⟩ := (Discipline.sparing.respects fuel).1 trivial hm o m' h
  refine ⟨hspares, fun v ho => ?_⟩
  subst ho
  exact hout.2

end Runs

/-- Take a machine whose frames hold natives, functions and values in which no callable occurs. A
keyword whose name a frame has is never called, whatever is evaluated. So no line is written if a
frame is named `PRINT`; no evaluation ends on the way out if one is named `RETURN`; and all frames
stay, with their names and values, if there are frames named `SET` and `INC`. -/
theorem bound_keyword_disabled {m : Machine Empty} (hm : m.Holds (·.ordinary = true)) (e : Expr)
    (line : Option Nat) :
    (∀ k : Keyword, k.name ∈ m.stack.names → ∀ args b rest,
      ¬UnderWay ⟨.expr e line, m⟩ (⟨.call (.builtin k) args, b⟩ :: rest)) ∧
    ∀ fuel o m', evaluate fuel e line m = some (o, m') →
      ("PRINT" ∈ m.stack.names → m'.transcript.lines = m.transcript.lines) ∧
      ("RETURN" ∈ m.stack.names → ∀ v, o ≠ .returned v) ∧
      ("SET" ∈ m.stack.names → "INC" ∈ m.stack.names → m.stack.toList <+: m'.stack.toList) := by
  refine ⟨fun k hk => not_underWay_of_bound hm hk, fun fuel o m' h => ?_⟩
  obtain ⟨hspares, hreturned⟩ := spares_of_evaluate hm h
  exact ⟨hspares.lines, fun hbound v ho => hreturned v ho hbound, hspares.frames⟩

/-- A script with a function of its own named `PRINT`, which tries `RETURN`, and with `SET` after
it, on a machine that has frames for all of them: nothing is written, returned or assigned. -/
theorem bound_keyword_disabled_when_redefined :
    let m : Machine Empty :=
      { stack := ⟨[⟨"PRINT", .null⟩, ⟨"RETURN", .str "no"⟩, ⟨"INC", .null⟩, ⟨"SET", .null⟩,
      ⟨"x", .str "kept"⟩]⟩ }
    let define : Expr := .node "FUNCTION" (.lit (.str "PRINT"))
      (some ⟨{ document := 0 }, .node "RETURN" (.lit (.str "left")) none none⟩) none
    let e : Expr := .script [define, .node "PRINT" (.lit (.str "line")) none none,
      .node "SET" (.script [.lit (.str "x"), .lit (.str "lost")]) none none]
    m.Holds (·.ordinary = true) ∧
    ∃ m', evaluate 9 e none m = some (.value (.list [.null, .null, .null]), m') ∧
      m'.transcript.lines = m.transcript.lines ∧ m.stack.toList <+: m'.stack.toList := by
  intro m define e
  have hm : ∀ frame ∈ m.stack.frames, frame.value.ordinary = true := by decide
  have hends : ∃ m', evaluate 9 e none m = some (.value (.list [.null, .null, .null]), m') :=
    ⟨_, rfl⟩
  obtain ⟨m', hm'⟩ := hends
  obtain ⟨hlines, -, hframes⟩ := (bound_keyword_disabled hm e none).2 9 _ m' hm'
  exact ⟨hm, m', hm', hlines (by decide), hframes (by decide) (by decide)⟩

end KeywordScript
