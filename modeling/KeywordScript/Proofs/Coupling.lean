import KeywordScript.Proofs.Postcondition
import Mathlib.Data.List.Forall2

/-! Couplings: relations between what two evaluations handle, with laws that keep the two in step.
Such evaluations run out of fuel together or end together, in related ways. The natives are those on
numbers only. -/

namespace KeywordScript

section Alike

variable (source : Expr → Expr → Prop) (data : Value Empty → Value Empty → Prop)

/-- Expressions of one form, with related parts. -/
inductive Expr.Alike (context : Option Nat → Option Nat → Prop) : Expr → Expr → Prop where
  | lit (l : Literal) : Alike context (.lit l) (.lit l)
  | script {es es' : List Expr} :
    List.Forall₂ source es es' → Alike context (.script es) (.script es')
  | node {k : String} {arg arg' : Expr} {code code' : Option Code} {line line' : Option Nat} :
    source arg arg' → Option.Rel (fun c c' => data (.code c) (.code c')) code code' →
    (∀ l l', context l l' → context (line <|> l) (line' <|> l')) →
    Alike context (.node k arg code line) (.node k arg' code' line')

/-- Values of one form, with related parts. -/
inductive Value.Alike : Value Empty → Value Empty → Prop where
  | null : Alike .null .null
  | bool (b : Bool) : Alike (.bool b) (.bool b)
  | num (x : Float) : Alike (.num x) (.num x)
  | str (s : String) : Alike (.str s) (.str s)
  | list {vs ws : List (Value Empty)} : List.Forall₂ data vs ws → Alike (.list vs) (.list ws)
  | code {c c' : Code} : source c.body c'.body → Alike (.code c) (.code c')
  | builtin (k : Keyword) : Alike (.builtin k) (.builtin k)
  | native (n : Native Empty) : Alike (.native n) (.native n)
  | func {f g : Function} : f.params = g.params → source f.body g.body → Alike (.func f) (.func g)

end Alike

theorem optionRel_self {α : Type} {R : α → α → Prop} (hR : ∀ a, R a a) (o : Option α) :
    Option.Rel R o o := by
  cases o with
  | none => exact .none
  | some a => exact .some (hR a)

theorem Expr.alike_self {data : Value Empty → Value Empty → Prop}
    (hcode : ∀ c, data (.code c) (.code c)) (e : Expr) : e.Alike Eq data Eq e := by
  cases e with
  | lit l => exact .lit l
  | script es => exact .script (List.forall₂_refl es)
  | node k arg code line => exact .node rfl (optionRel_self hcode code) fun l l' h => by rw [h]

theorem Value.alike_self {data : Value Empty → Value Empty → Prop} {v : Value Empty}
    (hlist : ∀ vs, v = .list vs → ∀ w ∈ vs, data w w) : v.Alike Eq data v := by
  cases v with
  | null => exact .null
  | bool b => exact .bool b
  | num x => exact .num x
  | str s => exact .str s
  | list vs => exact .list (List.forall₂_same.mpr (hlist vs rfl))
  | code c => exact .code rfl
  | builtin k => exact .builtin k
  | native n => exact .native n
  | func f => exact .func rfl rfl

/-- Laws for the numbers that evaluations pass on: of lines to blame and of the next function. -/
structure Numbering (context : Option Nat → Option Nat → Prop) (fresh : Nat → Nat → Prop) :
    Prop where
  item (n : Nat) : context (some n) (some n)
  unblamed : context none none
  issue {i j : Nat} : fresh i j → fresh (i + 1) (j + 1)

/-- Relations between what two evaluations handle, with the laws that keep the two in step. -/
structure Coupling where
  /-- Expressions that are evaluated. -/
  source : Expr → Expr → Prop
  /-- Lines to blame. -/
  context : Option Nat → Option Nat → Prop
  /-- Values of expressions, and arguments. -/
  data : Value Empty → Value Empty → Prop
  /-- Values that frames hold. -/
  frame : Value Empty → Value Empty → Prop
  stack : Stack Empty → Stack Empty → Prop
  /-- Positions at which a scope or `FOR` began. -/
  position : Nat → Nat → Prop
  transcript : Transcript → Transcript → Prop
  /-- Numbers for the next function. -/
  fresh : Nat → Nat → Prop
  expr {e e' : Expr} : source e e' → e.Alike source data context e'
  numbering : Numbering context fresh
  alike {v w : Value Empty} : frame v w → v.Alike source data w
  held {v w : Value Empty} : data v w → frame v w
  plain {v w : Value Empty} : frame v w → v.kind ≠ .function → data v w
  keyword (k : Keyword) : frame (.builtin k) (.builtin k)
  literal (l : Literal) : data l.toValue l.toValue
  list {vs ws : List (Value Empty)} : List.Forall₂ data vs ws → data (.list vs) (.list ws)
  text {v w : Value Empty} : data v w → v.text = w.text
  equal {v w v' w' : Value Empty} : data v w → data v' w' → v.equal v' = w.equal w'
  push {s t : Stack Empty} {v w : Value Empty} (name : String) : stack s t → frame v w →
    stack (s.push name v) (t.push name w)
  lookup {s t : Stack Empty} (name : String) :
    stack s t → Option.Rel frame (s.lookup? name) (t.lookup? name)
  assign {s t : Stack Empty} {v w : Value Empty} (name : String) : stack s t → data v w →
    Option.Rel stack (s.assign? name v) (t.assign? name w)
  mark {s t : Stack Empty} : stack s t → position s.size t.size
  get {s t : Stack Empty} {i j : Nat} : stack s t → position i j →
    Option.Rel (fun f g => frame f.value g.value) (s.get? i) (t.get? j)
  set {s t : Stack Empty} {i j : Nat} (x : Float) : stack s t → position i j →
    stack (s.set i (.num x)) (t.set j (.num x))
  truncate {s t : Stack Empty} {i j : Nat} :
    stack s t → position i j → stack (s.truncate i) (t.truncate j)
  print {c c' : Transcript} (line : String) :
    transcript c c' → transcript (c.print line) (c'.print line)
  report {c c' : Transcript} {l l' : Option Nat} (k : String) : transcript c c' → context l l' →
    transcript (c.report ⟨k, l⟩) (c'.report ⟨k, l'⟩)
  defined {i j : Nat} {body body' : Expr} (name : String) (params : List String) : fresh i j →
    source body body' → frame (.func ⟨i, name, params, body⟩) (.func ⟨j, name, params, body'⟩)

section Lists

variable {α β : Type} {R : α → β → Prop} {as : List α} {bs : List β}

theorem forall₂_getElem? (h : List.Forall₂ R as bs) (i : Nat) : Option.Rel R as[i]? bs[i]? := by
  induction h generalizing i with
  | nil => exact .none
  | cons hab _ ih =>
    cases i with
    | zero => exact .some hab
    | succ i => simpa using ih i

theorem forall₂_getLast? (h : List.Forall₂ R as bs) : Option.Rel R as.getLast? bs.getLast? := by
  rw [List.getLast?_eq_getElem?, List.getLast?_eq_getElem?, h.length_eq]
  exact forall₂_getElem? h _

theorem forall₂_dropLast (h : List.Forall₂ R as bs) : List.Forall₂ R as.dropLast bs.dropLast := by
  rw [List.dropLast_eq_take, List.dropLast_eq_take, h.length_eq]
  exact List.forall₂_take _ h

end Lists

/-- Readings that fail alike, or give related things. -/
inductive ReadAlike {α β : Type} (p : α → β → Prop) : Except Fault α → Except Fault β → Prop where
  | ok {a : α} {b : β} : p a b → ReadAlike p (.ok a) (.ok b)
  | error (f : Fault) : ReadAlike p (.error f) (.error f)

namespace ReadAlike

variable {α β γ δ : Type} {p : α → β → Prop} {q : γ → δ → Prop}

theorem bind {x : Except Fault α} {y : Except Fault β} {f : α → Except Fault γ}
    {g : β → Except Fault δ} (hx : ReadAlike p x y) (hf : ∀ a b, p a b → ReadAlike q (f a) (g b)) :
    ReadAlike q (x >>= f) (y >>= g) := by
  cases hx with
  | ok hab => exact hf _ _ hab
  | error e => exact .error e

theorem bind_eq {x y : Except Fault α} {f : α → Except Fault γ} {g : α → Except Fault δ}
    (hx : x = y) (hf : ∀ a, ReadAlike q (f a) (g a)) : ReadAlike q (x >>= f) (y >>= g) := by
  subst hx
  cases x with
  | ok a => exact hf a
  | error e => exact .error e

end ReadAlike

namespace Value.Alike

variable {source : Expr → Expr → Prop} {data : Value Empty → Value Empty → Prop}
  {v w v' w' : Value Empty}

theorem kind (h : v.Alike source data w) : v.kind = w.kind := by
  cases h <;> rfl

theorem isTruthy (h : v.Alike source data w) : v.isTruthy = w.isTruthy := by
  cases h <;> rfl

theorem str? (h : v.Alike source data w) : v.str? = w.str? := by
  cases h <;> rfl

theorem num? (h : v.Alike source data w) : v.num? = w.num? := by
  cases h <;> rfl

theorem compare? (h : v.Alike source data w) (h' : v'.Alike source data w') :
    v.compare? v' = w.compare? w' := by
  cases h <;> cases h' <;> rfl

end Value.Alike

namespace Coupling

variable (C : Coupling)

/-- Machines that differ at most as a coupling allows. -/
structure Coupled (m n : Machine Empty) : Prop where
  stack : C.stack m.stack n.stack
  depth : m.depth = n.depth
  maxDepth : m.maxDepth = n.maxDepth
  transcript : C.transcript m.transcript n.transcript
  fresh : C.fresh m.fresh n.fresh

/-- Both evaluations ran out of fuel, or both ended in related ways. -/
inductive Results {α β : Type} (p : α → β → Prop) :
    Option (Outcome Empty α × Machine Empty) → Option (Outcome Empty β × Machine Empty) → Prop where
  | exhausted : Results p none none
  | value {a b m n} : p a b → C.Coupled m n → Results p (some (.value a, m)) (some (.value b, n))
  | returned {v w m n} :
    C.data v w → C.Coupled m n → Results p (some (.returned v, m)) (some (.returned w, n))
  | failed {m n} (f : Fault) : C.Coupled m n → Results p (some (.failed f, m)) (some (.failed f, n))

/-- On coupled machines the two evaluations have related results. -/
def InStep {α β : Type} (p : α → β → Prop) (x : EvalM Empty α) (y : EvalM Empty β) : Prop :=
  ∀ ⦃m n⦄, C.Coupled m n → C.Results p (x m) (y n)

variable {C} {α β γ δ : Type} {p : α → β → Prop} {q : γ → δ → Prop}

section Rules

theorem inStep_pure {a : α} {b : β} (h : p a b) : C.InStep p (pure a) (pure b) :=
  fun _ _ hm => .value h hm

theorem inStep_exhausted : C.InStep p .exhausted .exhausted :=
  fun _ _ _ => .exhausted

theorem inStep_fail (f : Fault) : C.InStep p (.fail f) (.fail f) :=
  fun _ _ hm => .failed f hm

theorem inStep_leave {v w : Value Empty} (h : C.data v w) : C.InStep p (.leave v) (.leave w) :=
  fun _ _ hm => .returned h hm

theorem inStep_gets {f : Machine Empty → α} {g : Machine Empty → β}
    (h : ∀ m n, C.Coupled m n → p (f m) (g n)) : C.InStep p (.gets f) (.gets g) :=
  fun m n hm => .value (h m n hm) hm

theorem inStep_modify {f g : Machine Empty → Machine Empty}
    (h : ∀ m n, C.Coupled m n → C.Coupled (f m) (g n)) :
    C.InStep (fun _ _ => True) (.modify f) (.modify g) :=
  fun m n hm => .value trivial (h m n hm)

theorem inStep_lift {r : Except Fault α} {r' : Except Fault β} (h : ReadAlike p r r') :
    C.InStep p (liftM r) (liftM r') := by
  intro m n hm
  cases h with
  | ok hab => exact .value hab hm
  | error f => exact .failed f hm

theorem inStep_bind {x : EvalM Empty α} {y : EvalM Empty β} {f : α → EvalM Empty γ}
    {g : β → EvalM Empty δ} (hx : C.InStep p x y) (hf : ∀ a b, p a b → C.InStep q (f a) (g b)) :
    C.InStep q (x >>= f) (y >>= g) := by
  intro m n hm
  rw [EvalM.bind_apply, EvalM.bind_apply]
  have hr := hx hm
  generalize x m = r at hr ⊢
  generalize y n = r' at hr ⊢
  cases hr with
  | exhausted => exact .exhausted
  | value hab hm' => exact hf _ _ hab hm'
  | returned hv hm' => exact .returned hv hm'
  | failed e hm' => exact .failed e hm'

/-- The end of a scope: both stacks are cut back to where they were when it began. -/
theorem Results.truncate {m n : Machine Empty} (hm : C.Coupled m n)
    {r : Option (Outcome Empty α × Machine Empty)} {r' : Option (Outcome Empty β × Machine Empty)}
    (h : C.Results p r r') :
    C.Results p (r.map fun (o, m') => (o, m'.truncate m.stack.size))
      (r'.map fun (o, n') => (o, n'.truncate n.stack.size)) := by
  have hcut : ∀ {m' n' : Machine Empty}, C.Coupled m' n' →
      C.Coupled (m'.truncate m.stack.size) (n'.truncate n.stack.size) :=
    fun h' => { h' with stack := C.truncate h'.stack (C.mark hm.stack) }
  cases h with
  | exhausted => exact .exhausted
  | value hab h' => exact .value hab (hcut h')
  | returned hv h' => exact .returned hv (hcut h')
  | failed f h' => exact .failed f (hcut h')

theorem inStep_inScope {x : EvalM Empty α} {y : EvalM Empty β} (h : C.InStep p x y) :
    C.InStep p x.inScope y.inScope :=
  fun _ _ hm => (h hm).truncate hm

theorem inStep_asCall {x : EvalM Empty α} {y : EvalM Empty β} (h : C.InStep p x y) :
    C.InStep C.data x.asCall y.asCall := by
  intro m n hm
  by_cases hlimit : m.maxDepth ≤ m.depth
  · have hlimit' : n.maxDepth ≤ n.depth := by rwa [← hm.maxDepth, ← hm.depth]
    rw [EvalM.asCall_of_le x hlimit, EvalM.asCall_of_le y hlimit', hm.maxDepth]
    exact .failed _ hm
  · have hlimit' : ¬n.maxDepth ≤ n.depth := by rwa [← hm.maxDepth, ← hm.depth]
    rw [EvalM.asCall_of_lt x (Nat.lt_of_not_le hlimit),
      EvalM.asCall_of_lt y (Nat.lt_of_not_le hlimit')]
    have hdeeper : C.Coupled { m with depth := m.depth + 1 } { n with depth := n.depth + 1 } :=
      { hm with depth := congrArg (· + 1) hm.depth }
    have hback : ∀ {m' n' : Machine Empty}, C.Coupled m' n' →
        C.Coupled { m' with depth := m'.depth - 1 } { n' with depth := n'.depth - 1 } :=
      fun h' => { h' with depth := congrArg (· - 1) h'.depth }
    have hr := inStep_inScope h hdeeper
    generalize x.inScope _ = r at hr ⊢
    generalize y.inScope _ = r' at hr ⊢
    cases hr with
    | exhausted => exact .exhausted
    | value _ h' => exact .value (C.literal .null) (hback h')
    | returned hv h' => exact .value hv (hback h')
    | failed f h' => exact .failed f (hback h')

end Rules

section Machines

variable {m n : Machine Empty} (hm : C.Coupled m n)

include hm

theorem Coupled.bind {v w : Value Empty} (name : String) (h : C.frame v w) :
    C.Coupled (m.bind name v) (n.bind name w) :=
  { hm with stack := C.push name hm.stack h }

theorem Coupled.bindAll (ps : List String) {args args' : List (Value Empty)}
    (ha : List.Forall₂ C.data args args') : C.Coupled (m.bindAll ps args) (n.bindAll ps args') := by
  induction ps generalizing m n args args' with
  | nil => exact hm
  | cons p ps ih =>
    cases ha with
    | nil => exact ih (hm.bind p (C.held (C.literal .null))) .nil
    | cons hvw hrest => exact ih (hm.bind p (C.held hvw)) hrest

theorem Coupled.assign (name : String) {v w : Value Empty} (h : C.data v w) :
    C.Coupled (Binding.assign ⟨name, v⟩ m) (Binding.assign ⟨name, w⟩ n) := by
  have hs := C.assign name hm.stack h
  unfold Binding.assign
  generalize m.stack.assign? name v = s at hs ⊢
  generalize n.stack.assign? name w = t at hs ⊢
  cases hs with
  | none => exact hm.bind name (C.held h)
  | some hst => exact { hm with stack := hst }

theorem Coupled.define {d d' : Definition} (hd : d' = { d with body := d'.body })
    (hbody : C.source d.body d'.body) : C.Coupled (d.bind m) (d'.bind n) := by
  rw [hd]
  have hf := C.defined d.name d.params hm.fresh hbody
  exact { hm with stack := C.push d.name hm.stack hf, fresh := C.numbering.issue hm.fresh }

theorem Coupled.find? (name : String) : Option.Rel C.frame (m.find? name) (n.find? name) := by
  have hs := C.lookup name hm.stack
  unfold Machine.find?
  generalize m.stack.lookup? name = v at hs ⊢
  generalize n.stack.lookup? name = w at hs ⊢
  cases hs with
  | some hvw => exact .some hvw
  | none =>
    cases Keyword.ofName? name with
    | none => exact .none
    | some k => exact .some (C.keyword k)

end Machines

end Coupling

end KeywordScript
