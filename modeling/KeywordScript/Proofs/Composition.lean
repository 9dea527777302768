import KeywordScript.Proofs.Postcondition

/-! Composition: a property that single actions have, and that passes from parts to what is put
together of them, is one of every evaluation. The natives are those on numbers only. -/

namespace KeywordScript

/-- Laws by which a property of actions on a machine passes from parts to the whole. An evaluation
looks at the stack and at nothing else of the machine, except where it begins a function call. -/
structure Compositional (P : ∀ ⦃α : Type⦄, EvalM Empty α → Prop) : Prop where
  value {α : Type} (a : α) : P (pure a : EvalM Empty α)
  exhausted {α : Type} : P (.exhausted : EvalM Empty α)
  fail {α : Type} (f : Fault) : P (.fail f : EvalM Empty α)
  leave {α : Type} (v : Value Empty) : P (.leave v : EvalM Empty α)
  look {α : Type} (f : Stack Empty → α) : P (.gets fun m => f m.stack)
  stack (f : Stack Empty → Stack Empty) : P (.modify fun m => { m with stack := f m.stack })
  define (d : Definition) : P (.modify d.bind)
  print (line : String) : P (.modify fun m => m.print line)
  report (d : Diagnostic) : P (.modify fun m => m.report d)
  next {α β : Type} {x : EvalM Empty α} {f : α → EvalM Empty β} : P x → (∀ a, P (f a)) → P (x >>= f)
  scope {α : Type} {x : EvalM Empty α} : P x → P x.inScope
  call {α : Type} {x : EvalM Empty α} : P x → P x.asCall

namespace Compositional

variable {P : ∀ ⦃α : Type⦄, EvalM Empty α → Prop} (hP : Compositional P)

include hP

theorem read {α : Type} (r : Except Fault α) : P (liftM r : EvalM Empty α) := by
  cases r with
  | ok a => exact hP.value a
  | error f => exact hP.fail f

theorem null {x : EvalM Empty Unit} (hx : P x) :
    P (do x; return .null : EvalM Empty (Value Empty)) :=
  hP.next hx fun _ => hP.value _

section Loops

variable {body : EvalM Empty (Value Empty)} (hb : P body)

include hb in
theorem whileTruthy {condition : EvalM Empty (Value Empty)} (hc : P condition) (n : Nat) :
    P (EvalM.whileTruthy condition body n) := by
  induction n with
  | zero => exact hP.exhausted
  | succ n ih =>
    apply hP.next hc
    intro v
    split
    · exact hP.next hb fun _ => ih
    · exact hP.value _

theorem current (c : Count) (slot : Nat) : P (c.current slot : EvalM Empty Float) := by
  apply hP.next (hP.look fun s => s.get? slot)
  intro f
  split
  · exact hP.value _
  · exact hP.fail _
  · exact hP.fail _

theorem advance (c : Count) (slot : Nat) : P (c.advance slot : EvalM Empty Unit) :=
  hP.next (hP.current c slot) fun x => hP.stack fun s => s.set slot (.num (x + c.step))

include hb in
theorem passes (c : Count) (slot n : Nat) : P (c.passes slot body n) := by
  induction n with
  | zero => exact hP.exhausted
  | succ n ih =>
    apply hP.next (hP.current c slot)
    intro x
    split
    · exact hP.next hb fun _ => hP.next (hP.advance c slot) fun _ => ih
    · exact hP.value _

include hb in
theorem count (c : Count) (fuel : Nat) : P (c.run body fuel) := by
  apply hP.next (hP.look fun s => s.size)
  intro slot
  exact hP.next (hP.stack fun s => s.push c.name (.num c.start)) fun _ => hP.passes hb c slot fuel

end Loops

theorem bindAll (ps : List String) (args : List (Value Empty)) :
    P (.modify fun m => m.bindAll ps args) := by
  induction ps generalizing args with
  | nil => exact hP.stack fun s => s
  | cons p ps ih =>
    -- One parameter is bound after the other.
    have hfirst : P (.modify fun m => m.bind p (args.headD .null)) :=
      hP.stack fun s => s.push p (args.headD .null)
    exact hP.next hfirst fun _ => ih args.tail

theorem assign (b : Binding Empty) : P (.modify b.assign) := by
  have hstack : b.assign = fun m =>
      { m with stack := (m.stack.assign? b.name b.value).getD (m.stack.push b.name b.value) } := by
    funext m
    unfold Binding.assign
    cases m.stack.assign? b.name b.value with
    | none => rfl
    | some s => rfl
  rw [hstack]
  exact hP.stack fun s => (s.assign? b.name b.value).getD (s.push b.name b.value)

theorem increment (name : String) : P (KeywordScript.increment name : EvalM Empty Unit) := by
  apply hP.next (hP.look fun s => s.lookup? name)
  intro found
  split
  · exact hP.assign _
  · exact hP.fail _
  · exact hP.fail _

section Calls

variable {ev : Expr → Option Nat → EvalM Empty (Value Empty)} (hev : ∀ e line, P (ev e line))

include hev

theorem items (n : Nat) (es : List Expr) : P (evaluateItems ev n es) := by
  induction es generalizing n with
  | nil => exact hP.value _
  | cons e rest ih =>
    apply hP.next (hev e (some n))
    intro v
    exact hP.next (ih (n + 1)) fun vs => hP.value _

theorem function (f : Function) (args : List (Value Empty)) : P (f.invoke ev args) :=
  hP.call (hP.next (hP.bindAll f.params args) fun _ => hP.items hev 1 f.body.items)

theorem keyword (fuel : Nat) (k : Keyword) (args : List (Value Empty)) :
    P (k.invoke fuel ev args) := by
  unfold Keyword.invoke
  cases k with
  | operator op => exact hP.read _
  | bind =>
    apply hP.next (hP.read _)
    intro b
    exact hP.null (hP.stack fun s => s.push b.name b.value)
  | assign => exact hP.next (hP.read _) fun b => hP.null (hP.assign b)
  | increment => exact hP.next (hP.read _) fun name => hP.null (hP.increment name)
  | define => exact hP.next (hP.read _) fun d => hP.null (hP.define d)
  | leave => exact hP.leave _
  | print => exact hP.null (hP.print _)
  | choose =>
    apply hP.next (hP.read _)
    intro branch
    cases branch with
    | none => exact hP.value _
    | some e => exact hP.next (hev e none) fun _ => hP.value _
  | count => exact hP.next (hP.read _) fun c => hP.null (hP.count (hev c.body none) c fuel)
  | loop =>
    apply hP.next (hP.read _)
    intro r
    exact hP.null (hP.whileTruthy (hev r.body none) (hev r.condition none) fuel)

end Calls

/-- Every evaluation and every call has the property. -/
theorem all (fuel : Nat) :
    (∀ e line, P (evaluate fuel e line : EvalM Empty (Value Empty))) ∧
      ∀ callee args, P (KeywordScript.call fuel callee args : EvalM Empty (Value Empty)) := by
  -- Evaluations and calls use each other with less fuel.
  induction fuel with
  | zero =>
    constructor
    · intro e line
      rw [evaluate]
      exact hP.exhausted
    · intro callee args
      rw [KeywordScript.call]
      exact hP.exhausted
  | succ fuel ih =>
    obtain ⟨hev, hcall⟩ := ih
    constructor
    · intro e line
      cases e with
      | lit l =>
        rw [evaluate]
        exact hP.value _
      | script es =>
        rw [evaluate]
        exact hP.next (hP.scope (hP.items hev 1 es)) fun vs => hP.value _
      | node k arg code ownLine =>
        rw [evaluate]
        have hfind : P (.gets fun m : Machine Empty => m.find? k) :=
          hP.look fun s => s.lookup? k <|> (Keyword.ofName? k).map Value.builtin
        apply hP.next (hev arg _)
        intro v
        apply hP.next hfind
        intro found
        cases found with
        | some callee => exact hcall callee _
        | none => exact hP.next (hP.report _) fun _ => hP.value _
    · intro callee args
      cases callee with
      | builtin k =>
        rw [KeywordScript.call]
        exact hP.keyword hev fuel k args
      | native n =>
        rw [KeywordScript.call]
        cases n.action with
        | math op => exact hP.read _
        | host h => exact h.elim
      | func f =>
        rw [KeywordScript.call]
        exact hP.function hev f args
      | _ =>
        rw [KeywordScript.call]
        · exact hP.value _
        all_goals simp

end Compositional

end KeywordScript
