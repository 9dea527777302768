import KeywordScript.Proofs.Lockstep
import KeywordScript.Proofs.Pointwise

/-! Lines: what stands in the line fields of nodes shows in diagnostics and nowhere else. Two things
agree but for their lines when they are the same once the lines are removed. -/

namespace KeywordScript

section Removal

mutual

/-- The expression without the lines of its nodes, in scripts, in arguments and in code alike. -/
def Expr.unlined : Expr → Expr
  | .lit l => .lit l
  | .script es => .script (unlinedItems es)
  | .node k arg none _ => .node k arg.unlined none none
  | .node k arg (some code) _ => .node k arg.unlined (some ⟨code.site, code.body.unlined⟩) none

def unlinedItems : List Expr → List Expr
  | [] => []
  | e :: rest => e.unlined :: unlinedItems rest

end

/-- Code keeps its place. -/
def Code.unlined (c : Code) : Code :=
  { c with body := c.body.unlined }

def Function.unlined (f : Function) : Function :=
  { f with body := f.body.unlined }

variable {H : Type}

mutual

/-- The value without the lines in its code, at any depth of lists. -/
def Value.unlined : Value H → Value H
  | .list vs => .list (unlinedValues vs)
  | .code c => .code (Code.unlined c)
  | .func f => .func f.unlined
  | .null => .null
  | .bool b => .bool b
  | .num x => .num x
  | .str s => .str s
  | .builtin k => .builtin k
  | .native n => .native n

def unlinedValues : List (Value H) → List (Value H)
  | [] => []
  | v :: rest => v.unlined :: unlinedValues rest

end

def Stack.unlined (s : Stack H) : Stack H :=
  ⟨s.frames.map fun f => { f with value := f.value.unlined }⟩

def Outcome.unlined : Outcome H (Value H) → Outcome H (Value H)
  | value v => .value v.unlined
  | returned v => .returned v.unlined
  | failed f => .failed f

theorem unlinedItems_eq_map (es : List Expr) : unlinedItems es = es.map Expr.unlined := by
  induction es with
  | nil => rfl
  | cons e rest ih => rw [unlinedItems, ih, List.map_cons]

theorem unlinedValues_eq_map (vs : List (Value H)) : unlinedValues vs = vs.map Value.unlined := by
  induction vs with
  | nil => rfl
  | cons v rest ih => rw [unlinedValues, ih, List.map_cons]

theorem Expr.unlined_node (k : String) (arg : Expr) (code : Option Code) (line : Option Nat) :
    (Expr.node k arg code line).unlined = .node k arg.unlined (code.map Code.unlined) none := by
  cases code <;> rfl

end Removal

section Observations

variable {H : Type}

mutual

theorem Value.text_unlined : (v : Value H) → v.unlined.text = v.text
  | .list vs => by rw [Value.unlined, Value.text, Value.text, itemTexts_unlined vs]
  | .null | .bool _ | .num _ | .str _ | .code _ | .builtin _ | .native _ | .func _ => rfl

theorem itemTexts_unlined :
    (vs : List (Value H)) → Value.itemTexts (unlinedValues vs) = Value.itemTexts vs
  | [] => rfl
  | v :: rest => by
    have hv := Value.text_unlined v
    have hrest := itemTexts_unlined rest
    cases v with
    | null => simp only [unlinedValues, Value.unlined, Value.itemTexts, hrest]
    | _ =>
      simp only [Value.unlined] at hv
      simp only [unlinedValues, Value.unlined, Value.itemTexts, hv, hrest]

end

mutual

/-- Code and functions are compared by their identities, which they keep. -/
theorem Value.equal_unlined : (v w : Value H) → v.unlined.equal w.unlined = v.equal w
  | .list vs, w => by
    cases w with
    | list ws => exact equalItems_unlined vs ws
    | _ => rfl
  | .null, w | .bool _, w | .num _, w | .str _, w | .code _, w | .builtin _, w
  | .native _, w | .func _, w => by cases w <;> rfl

theorem equalItems_unlined : (vs ws : List (Value H)) →
    Value.equalItems (unlinedValues vs) (unlinedValues ws) = Value.equalItems vs ws
  | [], ws => by cases ws <;> rfl
  | v :: rest, ws => by
    cases ws with
    | nil => rfl
    | cons w ws =>
      rw [unlinedValues, unlinedValues, Value.equalItems, Value.equalItems, Value.equal_unlined v w,
        equalItems_unlined rest ws]

end

end Observations

section Agreement

theorem map_eq_map_iff_forall₂ {α β : Type} {f : α → β} {as bs : List α} :
    as.map f = bs.map f ↔ List.Forall₂ (fun a b => f a = f b) as bs := by
  rw [← List.forall₂_map_right_iff (R := fun a b => f a = b), ← List.forall₂_map_left_iff,
    List.forall₂_eq_eq_eq]

theorem Stack.unlined_eq_iff {H : Type} {s t : Stack H} :
    s.unlined = t.unlined ↔ Stack.Pointwise (fun v w => v.unlined = w.unlined) s t := by
  unfold Stack.unlined Stack.Pointwise
  rw [Stack.mk.injEq, map_eq_map_iff_forall₂]
  simp only [Frame.mk.injEq]
  rfl

theorem Expr.alike_of_unlined {e e' : Expr} (h : e.unlined = e'.unlined) :
    e.Alike (fun a b => a.unlined = b.unlined) (fun v w => v.unlined = w.unlined)
      (fun _ _ => True) e' := by
  cases e <;> cases e' <;> simp only [Expr.unlined, Expr.unlined_node, reduceCtorEq] at h
  case lit.lit l l' =>
    cases h
    exact .lit l
  case script.script es es' =>
    rw [Expr.script.injEq, unlinedItems_eq_map, unlinedItems_eq_map, map_eq_map_iff_forall₂] at h
    exact .script h
  case node.node k arg code line k' arg' code' line' =>
    obtain ⟨rfl, harg, hcode, -⟩ := Expr.node.inj h
    refine .node harg ?_ fun _ _ _ => trivial
    cases code with
    | none =>
      cases code' with
      | none => exact .none
      | some c' => cases hcode
    | some c =>
      cases code' with
      | none => cases hcode
      | some c' => exact .some (congrArg Value.code (Option.some.inj hcode))

theorem Value.alike_of_unlined {v w : Value Empty} (h : v.unlined = w.unlined) :
    v.Alike (fun a b => a.unlined = b.unlined) (fun v w => v.unlined = w.unlined) w := by
  cases v <;> cases w <;> simp only [Value.unlined, reduceCtorEq] at h
  case null.null => exact .null
  case bool.bool b b' =>
    cases h
    exact .bool b
  case num.num x x' =>
    cases h
    exact .num x
  case str.str s s' =>
    cases h
    exact .str s
  case list.list vs ws =>
    rw [Value.list.injEq, unlinedValues_eq_map, unlinedValues_eq_map, map_eq_map_iff_forall₂] at h
    exact .list h
  case code.code c c' => exact .code (congrArg Sited.body (Value.code.inj h))
  case builtin.builtin k k' =>
    cases h
    exact .builtin k
  case native.native n n' =>
    cases h
    exact .native n
  case func.func f g =>
    have hfg : f.unlined = g.unlined := Value.func.inj h
    have hparams : f.unlined.params = g.unlined.params := congrArg _ hfg
    have hbody : f.unlined.body = g.unlined.body := congrArg _ hfg
    exact .func hparams hbody

/-- Evaluations that agree but for lines, whatever lines they are to blame. -/
def Coupling.unlined : Coupling where
  source e e' := e.unlined = e'.unlined
  context _ _ := True
  data v w := v.unlined = w.unlined
  frame v w := v.unlined = w.unlined
  stack := Stack.Pointwise fun v w => v.unlined = w.unlined
  position := Eq
  transcript c c' :=
    c.lines = c'.lines ∧ c.diagnostics.map (·.keyword) = c'.diagnostics.map (·.keyword)
  fresh := Eq
  expr h := Expr.alike_of_unlined h
  numbering := ⟨fun _ => trivial, trivial, congrArg (· + 1)⟩
  alike h := Value.alike_of_unlined h
  held h := h
  plain h _ := h
  keyword _ := rfl
  literal _ := rfl
  list h := by
    rw [Value.unlined, Value.unlined, unlinedValues_eq_map, unlinedValues_eq_map,
      map_eq_map_iff_forall₂.mpr h]
  text {v w} h := by rw [← v.text_unlined, ← w.text_unlined, h]
  equal {v w v' w'} h h' := by rw [← v.equal_unlined, ← w.equal_unlined, h, h']
  push name h hv := h.push name hv
  lookup name h := h.lookup? name
  assign name h hv := h.assign? name hv
  mark h := h.size_eq
  get h hp := hp ▸ h.get? _
  set x h hp := hp ▸ h.set _ rfl
  truncate h hp := hp ▸ h.truncate _
  print line h := ⟨congrArg (·.push line) h.1, h.2⟩
  report k h _ := ⟨h.1, by simp [Transcript.report, h.2]⟩
  defined name params h hbody := by
    rw [Value.unlined, Value.unlined, Function.unlined, Function.unlined, h, hbody]

end Agreement

/-- The machines are the same but for the lines inside what their frames hold and in their
diagnostics. -/
structure Machine.AgreeButLines (m n : Machine Empty) : Prop where
  stack : m.stack.unlined = n.stack.unlined
  depth : m.depth = n.depth
  maxDepth : m.maxDepth = n.maxDepth
  fresh : m.fresh = n.fresh
  lines : m.transcript.lines = n.transcript.lines
  keywords : m.transcript.diagnostics.map (·.keyword) = n.transcript.diagnostics.map (·.keyword)

theorem Coupling.unlined_coupled_iff {m n : Machine Empty} :
    Coupling.unlined.Coupled m n ↔ m.AgreeButLines n := by
  constructor
  · intro h
    exact ⟨Stack.unlined_eq_iff.mpr h.stack, h.depth, h.maxDepth, h.fresh, h.transcript.1,
      h.transcript.2⟩
  · intro h
    exact ⟨Stack.unlined_eq_iff.mp h.stack, h.depth, h.maxDepth, ⟨h.lines, h.keywords⟩, h.fresh⟩

theorem Coupling.Results.unlined_eq {o o' : Outcome Empty (Value Empty)} {m n : Machine Empty}
    (h : Coupling.unlined.Results Coupling.unlined.data (some (o, m)) (some (o', n))) :
    o.unlined = o'.unlined ∧ m.AgreeButLines n := by
  cases h with
  | value hv hm => exact ⟨congrArg Outcome.value hv, Coupling.unlined_coupled_iff.mp hm⟩
  | returned hv hm => exact ⟨congrArg Outcome.returned hv, Coupling.unlined_coupled_iff.mp hm⟩
  | failed f hm => exact ⟨rfl, Coupling.unlined_coupled_iff.mp hm⟩

open EvalM

/-- Expressions that are the same but for the lines of their nodes, evaluated on machines that are
the same but for lines, whatever lines they are to blame: either both evaluations end or none, and
they end in the same way but for lines inside code. The printed lines are the same, and so are the
keywords of the diagnostics, in order. -/
theorem lines_only_in_diagnostics {e e' : Expr} (he : e.unlined = e'.unlined) {m n : Machine Empty}
    (hm : m.AgreeButLines n) (line line' : Option Nat) :
    (Terminates (fun k => evaluate k e line) m ↔ Terminates (fun k => evaluate k e' line') n) ∧
    ∀ o m' o' n', Ends (fun k => evaluate k e line) m o m' →
      Ends (fun k => evaluate k e' line') n o' n' →
      o.unlined = o'.unlined ∧ m'.AgreeButLines n' := by
  let C := Coupling.unlined
  have hstep : ∀ fuel, C.InStep C.data (evaluate fuel e line) (evaluate fuel e' line') :=
    fun fuel => (C.inStep fuel).1 he trivial
  have hcoupled : C.Coupled m n := Coupling.unlined_coupled_iff.mpr hm
  obtain ⟨hends, halike⟩ :=
    Coupling.ends_alike (evaluate_mono e line) (evaluate_mono e' line') hstep hcoupled
  exact ⟨hends, fun o m' o' n' h h' => (halike o m' o' n' h h').unlined_eq⟩

/-- Code with other lines in a frame, an unknown keyword in it, and another line to blame. -/
theorem lines_only_in_diagnostics_of_bound_code :
    let bound (line : Option Nat) : Machine Empty :=
      { stack :=
        ⟨[⟨"c", .code ⟨{ document := 0 }, .script [.node "missing" (.lit .null) none line]⟩⟩]⟩ }
    let e (line : Option Nat) : Expr :=
      .node "IF" (.script [.lit (.bool true), .node "c" (.lit .null) none line]) none none
    (e (some 4)).unlined = (e none).unlined ∧ (bound (some 2)).AgreeButLines (bound none) ∧
    ∃ m' n', Ends (fun k => evaluate k (e (some 4)) (some 9)) (bound (some 2)) (.value .null) m' ∧
      Ends (fun k => evaluate k (e none) none) (bound none) (.value .null) n' ∧
      m'.transcript.diagnostics = #[⟨"missing", some 2⟩] ∧
      n'.transcript.diagnostics = #[⟨"missing", none⟩] ∧ m'.AgreeButLines n' := by
  intro bound e
  have he : (e (some 4)).unlined = (e none).unlined := rfl
  have hm : (bound (some 2)).AgreeButLines (bound none) := ⟨rfl, rfl, rfl, rfl, rfl, rfl⟩
  have hfirst :
    ∃ m', Ends (fun k => evaluate k (e (some 4)) (some 9)) (bound (some 2)) (.value .null) m' ∧
      m'.transcript.diagnostics = #[⟨"missing", some 2⟩] := ⟨_, ⟨8, rfl⟩, rfl⟩
  have hsecond : ∃ n', Ends (fun k => evaluate k (e none) none) (bound none) (.value .null) n' ∧
      n'.transcript.diagnostics = #[⟨"missing", none⟩] := ⟨_, ⟨8, rfl⟩, rfl⟩
  obtain ⟨m', hm', hd⟩ := hfirst
  obtain ⟨n', hn', hd'⟩ := hsecond
  have hagree := ((lines_only_in_diagnostics he hm (some 9) none).2 _ m' _ n' hm' hn').2
  exact ⟨he, hm, m', n', hm', hn', hd, hd', hagree⟩

end KeywordScript
