import KeywordScript.Proofs.CoupledReader
import KeywordScript.Proofs.Job

/-! Coupled evaluations stay in step: loops, calls and scopes, then every evaluation by induction on
the fuel. -/

namespace KeywordScript

namespace Coupling

variable {C : Coupling} {α β : Type} {p : α → β → Prop}

section Loops

variable {body body' : EvalM Empty (Value Empty)} (hb : C.InStep C.data body body')

include hb in
private theorem inStep_whileTruthy {condition condition' : EvalM Empty (Value Empty)}
    (hc : C.InStep C.data condition condition') (n : Nat) :
    C.InStep (fun _ _ => True) (.whileTruthy condition body n)
      (.whileTruthy condition' body' n) := by
  induction n with
  | zero => exact inStep_exhausted
  | succ n ih =>
    refine inStep_bind hc fun v w hvw => ?_
    rw [(C.alike (C.held hvw)).isTruthy]
    split
    · exact inStep_bind hb fun _ _ _ => ih
    · exact inStep_pure trivial

variable {slot slot' : Nat} (hslot : C.position slot slot') (c : Count) (e : Expr)

include hslot

theorem inStep_current :
    C.InStep Eq (c.current slot) (Count.current { c with body := e } slot') := by
  refine inStep_bind (inStep_gets fun m n hm => C.get hm.stack hslot) fun f g hfg => ?_
  cases hfg with
  | none => exact inStep_fail _
  | @some f g hfg =>
    obtain ⟨name, v⟩ := f
    obtain ⟨name', w⟩ := g
    cases C.alike hfg with
    | num x => exact inStep_pure rfl
    | _ => exact inStep_fail _

private theorem inStep_advance :
    C.InStep (fun _ _ => True) (c.advance slot) (Count.advance { c with body := e } slot') := by
  refine inStep_bind (inStep_current hslot c e) fun x y hxy => ?_
  subst hxy
  exact inStep_modify fun m n hm => { hm with stack := C.set _ hm.stack hslot }

include hb in
private theorem inStep_passes (n : Nat) :
    C.InStep (fun _ _ => True) (c.passes slot body n)
      (Count.passes { c with body := e } slot' body' n) := by
  induction n with
  | zero => exact inStep_exhausted
  | succ n ih =>
    refine inStep_bind (inStep_current hslot c e) fun x y hxy => ?_
    subst hxy
    split
    · exact inStep_bind hb fun _ _ _ => inStep_bind (inStep_advance hslot c e) fun _ _ _ => ih
    · exact inStep_pure trivial

include hb in
omit hslot in
private theorem inStep_count (fuel : Nat) :
    C.InStep (fun _ _ => True) (c.run body fuel) (Count.run { c with body := e } body' fuel) := by
  refine inStep_bind (inStep_gets fun m n hm => C.mark hm.stack) fun slot slot' hslot => ?_
  refine inStep_bind (inStep_modify fun m n hm => ?_) fun _ _ _ => inStep_passes hb hslot c e fuel
  exact hm.bind c.name (C.held (C.literal (.num _)))

end Loops

/-- Two ways to evaluate expressions that stay in step. -/
def Evaluators (C : Coupling) (ev ev' : Expr → Option Nat → EvalM Empty (Value Empty)) : Prop :=
  ∀ ⦃e e' l l'⦄, C.source e e' → C.context l l' → C.InStep C.data (ev e l) (ev' e' l')

section Calls

variable {ev ev' : Expr → Option Nat → EvalM Empty (Value Empty)} (hev : C.Evaluators ev ev')

include hev

theorem inStep_items {es es' : List Expr} (hes : List.Forall₂ C.source es es') (n : Nat) :
    C.InStep (List.Forall₂ C.data) (evaluateItems ev n es) (evaluateItems ev' n es') := by
  induction hes generalizing n with
  | nil => exact inStep_pure .nil
  | cons he _ ih =>
    refine inStep_bind (hev he (C.numbering.item n)) fun v w hvw => ?_
    exact inStep_bind (ih (n + 1)) fun vs ws hvs => inStep_pure (.cons hvw hvs)

private theorem inStep_function {f g : Function} (hparams : f.params = g.params)
    (hbody : C.source f.body g.body) {args args' : List (Value Empty)}
    (ha : List.Forall₂ C.data args args') :
    C.InStep C.data (f.invoke ev args) (g.invoke ev' args') := by
  rw [Function.invoke_eq_asCall, Function.invoke_eq_asCall]
  refine inStep_asCall (p := List.Forall₂ C.data)
    (inStep_bind (inStep_modify fun m n hm => ?_) fun _ _ _ => ?_)
  · rw [hparams]
    exact hm.bindAll g.params ha
  · exact inStep_items hev (items_alike hbody) 1

omit hev in
theorem inStep_null {x y : EvalM Empty Unit} (h : C.InStep (fun _ _ => True) x y) :
    C.InStep C.data (do x; return .null) (do y; return .null) :=
  inStep_bind h fun _ _ _ => inStep_pure (C.literal .null)

omit hev in
private theorem inStep_increment (name : String) :
    C.InStep (fun _ _ => True) (increment name) (increment name) := by
  refine inStep_bind (inStep_gets fun m n hm => C.lookup name hm.stack) fun v w hvw => ?_
  cases hvw with
  | none => exact inStep_fail _
  | some hvw =>
    cases C.alike hvw with
    | num x => exact inStep_modify fun m n hm => hm.assign name (C.literal (.num _))
    | _ => exact inStep_fail _

private theorem inStep_keyword (fuel : Nat) (k : Keyword) {args args' : List (Value Empty)}
    (ha : List.Forall₂ C.data args args') :
    C.InStep C.data (k.invoke fuel ev args) (k.invoke fuel ev' args') := by
  unfold Keyword.invoke
  cases k with
  | operator op => exact inStep_lift (apply_alike ha op)
  | bind =>
    refine inStep_bind (inStep_lift (binding_alike ha _)) fun b b' ⟨hname, hvalue⟩ => ?_
    rw [← hname]
    exact inStep_null (inStep_modify fun m n hm => hm.bind b.name (C.held hvalue))
  | assign =>
    refine inStep_bind (inStep_lift (binding_alike ha _)) fun b b' ⟨hname, hvalue⟩ => ?_
    obtain ⟨name, v⟩ := b
    obtain ⟨name', w⟩ := b'
    cases hname
    exact inStep_null (inStep_modify fun m n hm => hm.assign name hvalue)
  | increment =>
    rw [name_eq ha]
    refine inStep_bind (p := Eq) (inStep_lift ?_) fun name name' hname => ?_
    · cases Argument.name Keyword.increment.name args' 0 with
      | ok name => exact .ok rfl
      | error f => exact .error f
    · subst hname
      exact inStep_null (inStep_increment name)
  | define =>
    refine inStep_bind (inStep_lift (definition_alike ha)) fun d d' ⟨hd, hbody⟩ => ?_
    exact inStep_null (inStep_modify fun m n hm => hm.define hd hbody)
  | leave =>
    cases ha with
    | nil => exact inStep_leave (C.literal .null)
    | cons hvw _ => exact inStep_leave hvw
  | print =>
    rw [line_eq ha]
    exact inStep_null (inStep_modify fun m n hm =>
      { hm with transcript := C.print _ hm.transcript })
  | choose =>
    refine inStep_bind (inStep_lift (chosenBranch_alike ha)) fun branch branch' hbranch => ?_
    cases hbranch with
    | none => exact inStep_pure (C.literal .null)
    | some he => exact inStep_bind (hev he C.numbering.unblamed) fun _ _ _ =>
      inStep_pure (C.literal .null)
  | count =>
    refine inStep_bind (inStep_lift (count_alike ha)) fun c c' ⟨hc, hbody⟩ => ?_
    -- The two loops have the same bounds and name; only their bodies differ.
    have hcount := inStep_count (hev hbody C.numbering.unblamed) c c'.body fuel
    rw [← hc] at hcount
    exact inStep_null hcount
  | loop =>
    refine inStep_bind (inStep_lift (repetition_alike ha)) fun r r' ⟨hcondition, hbody⟩ => ?_
    exact inStep_null (inStep_whileTruthy (hev hbody C.numbering.unblamed)
      (hev hcondition C.numbering.unblamed) fuel)

end Calls

private theorem arguments_alike {v w : Value Empty} (h : C.data v w) {code code' : Option Code}
    (hcode : Option.Rel (fun c c' => C.data (.code c) (.code c')) code code') :
    List.Forall₂ C.data (v.arguments ++ (code.map Value.code).toList)
      (w.arguments ++ (code'.map Value.code).toList) := by
  refine List.rel_append ?_ ?_
  · cases C.alike (C.held h) with
    | list hvs => exact hvs
    | _ => exact .cons h .nil
  · cases hcode with
    | none => exact .nil
    | some hc => exact .cons hc .nil

/-- Evaluations of related expressions, and calls of related values on related arguments, stay in
step. -/
theorem inStep (C : Coupling) (fuel : Nat) :
    C.Evaluators (evaluate fuel) (evaluate fuel) ∧ ∀ ⦃v w args args'⦄, C.frame v w →
      List.Forall₂ C.data args args' → C.InStep C.data (call fuel v args) (call fuel w args') := by
  -- Evaluations and calls use each other with less fuel, so one induction carries both.
  induction fuel with
  | zero =>
    constructor
    · intro e e' l l' _ _
      rw [evaluate, evaluate]
      exact inStep_exhausted
    · intro v w args args' _ _
      rw [call, call]
      exact inStep_exhausted
  | succ fuel ih =>
    obtain ⟨hev, hcall⟩ := ih
    constructor
    · intro e e' l l' he hl
      cases C.expr he with
      | lit lit =>
        rw [evaluate, evaluate]
        exact inStep_pure (C.literal lit)
      | script hes =>
        rw [evaluate, evaluate]
        refine inStep_bind (inStep_inScope (inStep_items hev hes 1)) fun vs ws hvs => ?_
        exact inStep_pure (C.list hvs)
      | @node k arg arg' code code' line line' harg hcode hline =>
        rw [evaluate, evaluate]
        refine inStep_bind (hev harg (hline l l' hl)) fun v w hvw => ?_
        refine inStep_bind (inStep_gets fun m n hm => hm.find? k) fun callee callee' hfound => ?_
        cases hfound with
        | some hc => exact hcall hc (arguments_alike hvw hcode)
        | none =>
          refine inStep_bind (inStep_modify fun m n hm => ?_) fun _ _ _ =>
            inStep_pure (C.literal (.str k))
          exact { hm with transcript := C.report k hm.transcript (hline l l' hl) }
    · intro v w args args' hc ha
      have hplain := C.plain hc
      cases C.alike hc with
      | builtin k =>
        rw [call, call]
        exact inStep_keyword hev fuel k ha
      | native n =>
        rw [call, call]
        cases n.action with
        | math op => exact inStep_lift (math_alike ha op)
        | host h => exact h.elim
      | func hparams hbody =>
        rw [call, call]
        exact inStep_function hev hparams hbody ha
      | _ =>
        rw [call, call]
        · exact inStep_pure (hplain (by simp [Value.kind]))
        all_goals simp

/-- The same for scripts, each after an initializer. -/
theorem inStep_script (fuel : Nat) {init init' : EvalM Empty Unit}
    (hinit : C.InStep (fun _ _ => True) init init') {script script' : List Expr}
    (hs : List.Forall₂ C.source script script') :
    C.InStep (List.Forall₂ C.data) (evaluateScript fuel init script)
      (evaluateScript fuel init' script') :=
  inStep_inScope (inStep_bind hinit fun _ _ _ => inStep_items (C.inStep fuel).1 hs 1)

/-- Evaluations that are in step whatever the fuel end on the same machines, and in related ways. -/
theorem ends_alike {x : Nat → EvalM Empty α} {y : Nat → EvalM Empty β} (hx : Monotone x)
    (hy : Monotone y) (h : ∀ k, C.InStep p (x k) (y k)) {m n : Machine Empty} (hm : C.Coupled m n) :
    (EvalM.Terminates x m ↔ EvalM.Terminates y n) ∧
      ∀ o m' o' n', EvalM.Ends x m o m' → EvalM.Ends y n o' n' →
      C.Results p (some (o, m')) (some (o', n')) := by
  refine ⟨exists_congr fun k => ?_, ?_⟩
  · have hk := h k hm
    generalize x k m = r at hk ⊢
    generalize y k n = r' at hk ⊢
    cases hk <;> simp
  · rintro o m' o' n' ⟨k, hk⟩ ⟨k', hk'⟩
    -- The two may have ended with different fuel; with more of it the results stay.
    have hboth := h (max k k') hm
    rwa [hx (Nat.le_max_left k k') m _ hk, hy (Nat.le_max_right k k') n _ hk'] at hboth

end Coupling

end KeywordScript
