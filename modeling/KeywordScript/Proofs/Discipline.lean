import KeywordScript.Proofs.Postcondition
import KeywordScript.Proofs.Reader
import KeywordScript.Proofs.Stack

/-! Disciplines: what every evaluation keeps to once each single effect does. The natives are those
on numbers only. -/

namespace KeywordScript

/-- Every frame holds a value that satisfies `p`. -/
def Machine.Holds {H : Type} (p : Value H → Prop) (m : Machine H) : Prop :=
  ∀ f ∈ m.stack.frames, p f.value

/-- Predicates on what an evaluation handles, and a relation between the machines before and after,
with the laws that make them hold along every evaluation. What is left out holds of everything. -/
structure Discipline where
  /-- Expressions that are evaluated. -/
  source : Expr → Prop := fun _ => True
  /-- Values of expressions, and arguments. -/
  data : Value Empty → Prop := fun _ => True
  /-- Values on the way out to a function call, in what began on a machine. -/
  returned : Machine Empty → Value Empty → Prop := fun _ _ => True
  /-- Values that frames hold. -/
  frame : Value Empty → Prop := fun _ => True
  /-- Values that are called on a machine. -/
  callee : Machine Empty → Value Empty → Prop := fun _ _ => True
  /-- The machines before and after. -/
  step : Machine Empty → Machine Empty → Prop := fun _ _ => True
  items {es : List Expr} : source (.script es) → ∀ e ∈ es, source e := by intros; trivial
  argument {k arg code line} : source (.node k arg code line) → source arg := by intros; trivial
  code {k arg c line} : source (.node k arg (some c) line) → data (.code c) := by intros; trivial
  body {c : Code} : data (.code c) → source c.body := by intros; trivial
  literal (l : Literal) : data l.toValue := by intros; trivial
  list {vs : List (Value Empty)} : (∀ v ∈ vs, data v) → data (.list vs) := by intros; trivial
  elements {vs : List (Value Empty)} : data (.list vs) → ∀ v ∈ vs, data v := by intros; trivial
  held {v : Value Empty} : data v → frame v := by intros; trivial
  defined {f : Function} : source f.body → frame (.func f) := by intros; trivial
  found {m : Machine Empty} {k arg code line v} : source (.node k arg code line) → m.Holds frame →
    m.find? k = some v → callee m v := by intros; trivial
  plain {m : Machine Empty} {v : Value Empty} : callee m v → v.kind ≠ .function → data v := by
    intros; trivial
  function {m : Machine Empty} {f : Function} : callee m (.func f) → source f.body := by
    intros; trivial
  leave {m : Machine Empty} {v : Value Empty} :
    callee m (.builtin .leave) → data v → returned m v := by
    intros; trivial
  passed {m m' : Machine Empty} {v : Value Empty} : step m m' → returned m' v → returned m v := by
    intros; trivial
  caught {m : Machine Empty} {v : Value Empty} : returned m v → data v := by intros; trivial
  refl (m : Machine Empty) : step m m := by intros; trivial
  trans {a b c : Machine Empty} : step a b → step b c → step a c := by intros; trivial
  bind {m : Machine Empty} {v : Value Empty} (name : String) : m.Holds frame → frame v →
    step m (m.bind name v) := by intros; trivial
  assign {m : Machine Empty} {v : Value Empty} (i : Nat) : m.Holds frame →
    callee m (.builtin .assign) ∨ callee m (.builtin .increment) → data v →
    step m { m with stack := m.stack.set i v } := by intros; trivial
  /-- A `FOR` gives another number to a frame above those that were there before it. -/
  advance {m m' : Machine Empty} (i : Nat) (x : Float) : step m m' → m.stack.size ≤ i →
    step m { m' with stack := m'.stack.set i (.num x) } := by intros; trivial
  print {m : Machine Empty} (line : String) :
    callee m (.builtin .print) → step m (m.print line) := by
    intros; trivial
  report {m : Machine Empty} (d : Diagnostic) : m.find? d.keyword = none → step m (m.report d) := by
    intros; trivial
  issue (m : Machine Empty) : step m m.issue.2 := by intros; trivial
  scope {m m' : Machine Empty} : step m m' → step m (m'.truncate m.stack.size) := by intros; trivial
  call {m m' : Machine Empty} : m.depth < m.maxDepth → step { m with depth := m.depth + 1 } m' →
    step m { m' with depth := m'.depth - 1 } := by intros; trivial

namespace Machine.Holds

variable {H : Type} {p : Value H → Prop} {m : Machine H}

theorem bind (hm : m.Holds p) {v : Value H} (hv : p v) (name : String) :
    (m.bind name v).Holds p := by
  intro f hf
  rcases List.mem_cons.mp hf with rfl | hf
  · exact hv
  · exact hm f hf

theorem truncate (hm : m.Holds p) (n : Nat) : (m.truncate n).Holds p :=
  fun f hf => hm f (List.mem_of_mem_drop hf)

theorem set (hm : m.Holds p) {v : Value H} (hv : p v) (i : Nat) :
    Machine.Holds p { m with stack := m.stack.set i v } := by
  intro f hf
  change f ∈ (m.stack.set i v).frames at hf
  unfold Stack.set at hf
  split at hf
  · obtain ⟨j, hj⟩ := List.mem_iff_getElem?.mp hf
    rw [List.getElem?_modify, Option.map_eq_map, Option.map_eq_some_iff] at hj
    obtain ⟨g, hg, rfl⟩ := hj
    split
    · exact hv
    · exact hm g (List.mem_of_getElem? hg)
  · exact hm f hf

theorem lookup? (hm : m.Holds p) {name : String} {v : Value H} (h : m.stack.lookup? name = some v) :
    p v := by
  obtain ⟨f, hf, rfl⟩ := Option.map_eq_some_iff.mp h
  exact hm f (List.mem_of_find?_eq_some hf)

/-- A name is bound to what a frame holds, or else to the keyword of that name. -/
theorem find?_cases (hm : m.Holds p) {name : String} {v : Value H} (h : m.find? name = some v) :
    p v ∨ ∃ k, Keyword.ofName? name = some k ∧ v = .builtin k := by
  unfold Machine.find? at h
  cases hs : m.stack.lookup? name with
  | some w =>
    rw [hs] at h
    cases h
    exact .inl (hm.lookup? hs)
  | none =>
    rw [hs] at h
    obtain ⟨k, hk, rfl⟩ := Option.map_eq_some_iff.mp h
    exact .inr ⟨k, hk, rfl⟩

end Machine.Holds

/-- An operator makes a scalar or picks one of its arguments. -/
theorem Operator.combine_eq_ok {H : Type} {op : Operator} {a b v : Value H}
    (h : op.combine a b = .ok v) :
    (∃ l : Literal, v = l.toValue) ∨ v = a ∨ v = b := by
  have hnumeric : ∀ f, numeric op f a b = .ok v → ∃ l : Literal, v = l.toValue := by
    intro f hf
    unfold numeric at hf
    split at hf
    · cases hf
      exact ⟨.num _, rfl⟩
    · cases hf
  have hordered : ∀ accept, ordered op accept a b = .ok v → ∃ l : Literal, v = l.toValue := by
    intro accept ho
    unfold ordered at ho
    split at ho
    · cases ho
      exact ⟨.bool _, rfl⟩
    · cases ho
  cases op with
  | add =>
    change sum a b = .ok v at h
    unfold sum at h
    split at h
    · cases h
      exact .inl ⟨.num _, rfl⟩
    · cases h
      exact .inl ⟨.str _, rfl⟩
    · cases h
      exact .inl ⟨.str _, rfl⟩
    · cases h
  | sub | mul | div | mod => exact .inl (hnumeric _ h)
  | eq | ne =>
    cases h
    exact .inl ⟨.bool _, rfl⟩
  | gt | lt | ge | le => exact .inl (hordered _ h)
  | and | or =>
    have hv := Except.ok.inj h
    split at hv
    · exact .inr (by simp [hv])
    · exact .inr (by simp [hv])

namespace Discipline

variable {α β : Type} (D : Discipline)

/-- How the outcome of what began on `m` keeps to a discipline when a value has to satisfy `p`. -/
def Admits (p : α → Prop) (m : Machine Empty) : Outcome Empty α → Prop
  | .value a => p a
  | .returned v => D.returned m v
  | .failed _ => True

/-- What holds when an evaluation that began on `m` has ended. -/
structure Kept (p : α → Prop) (m : Machine Empty) (o : Outcome Empty α) (m' : Machine Empty) :
    Prop where
  step : D.step m m'
  holds : m'.Holds D.frame
  outcome : D.Admits p m o

variable {D} {m m₀ m₁ : Machine Empty} {p : α → Prop} {q : β → Prop}

private theorem Kept.since {o : Outcome Empty α} (h : D.Kept p m o m₁) (hm : D.step m₀ m) :
    D.Kept p m₀ o m₁ := by
  obtain ⟨hstep, hholds, hout⟩ := h
  refine ⟨D.trans hm hstep, hholds, ?_⟩
  cases o with
  | value a => exact hout
  | returned v => exact D.passed hm hout
  | failed e => trivial

theorem ensures_since {x : EvalM Empty α} (hx : x.Ensures m (D.Kept p m)) (hm : D.step m₀ m) :
    x.Ensures m (D.Kept p m₀) :=
  fun o m' h => (hx o m' h).since hm

theorem ensures_bind {x : EvalM Empty α} {f : α → EvalM Empty β} (hx : x.Ensures m (D.Kept p m₀))
    (hf : ∀ a m', D.step m₀ m' → m'.Holds D.frame → p a → (f a).Ensures m' (D.Kept q m₀)) :
    (x >>= f).Ensures m (D.Kept q m₀) := by
  rw [EvalM.ensures_bind]
  intro o m' h
  obtain ⟨hstep, hholds, hout⟩ := hx o m' h
  cases o with
  | value a => exact hf a m' hstep hholds hout
  | returned v => exact ⟨hstep, hholds, hout⟩
  | failed e => exact ⟨hstep, hholds, trivial⟩

theorem ensures_read {r : Except Fault α} {f : α → EvalM Empty β} (hm : m.Holds D.frame)
    (hf : ∀ a, r = .ok a → (f a).Ensures m (D.Kept q m)) :
    (liftM r >>= f : EvalM Empty β).Ensures m (D.Kept q m) := by
  rw [EvalM.ensures_bind]
  exact EvalM.ensures_lift hf fun _ _ => ⟨D.refl m, hm, trivial⟩

theorem ensures_modify_null {f : Machine Empty → Machine Empty}
    (h : D.step m (f m) ∧ (f m).Holds D.frame) :
    (do .modify f; return .null : EvalM Empty (Value Empty)).Ensures m (D.Kept D.data m) := by
  rw [EvalM.ensures_bind, EvalM.ensures_modify]
  exact EvalM.ensures_pure.mpr ⟨h.1, h.2, D.literal .null⟩

theorem ensures_inScope {x : EvalM Empty α} (hx : x.Ensures m (D.Kept p m)) :
    x.inScope.Ensures m (D.Kept p m) := by
  rw [EvalM.ensures_inScope]
  intro o m' h
  obtain ⟨hstep, hholds, hout⟩ := hx o m' h
  exact ⟨D.scope hstep, hholds.truncate _, hout⟩

theorem data_getD {args : List (Value Empty)} (ha : ∀ a ∈ args, D.data a) (i : Nat) :
    D.data (args[i]?.getD .null) := by
  cases h : args[i]? with
  | none => exact D.literal .null
  | some v => exact ha v (List.mem_of_getElem? h)

theorem source_items {e : Expr} (he : D.source e) : ∀ e' ∈ e.items, D.source e' := by
  cases e with
  | script es => exact D.items he
  | lit l => simpa [Expr.items] using he
  | node k arg code line => simpa [Expr.items] using he

theorem source_of_getLast? {args : List (Value Empty)} {c : Code} (ha : ∀ a ∈ args, D.data a)
    (hc : args.getLast? = some (.code c)) : D.source c.body :=
  D.body (ha _ (List.mem_of_getLast? hc))

private theorem data_of_apply {op : Operator} {args : List (Value Empty)} {v : Value Empty}
    (ha : ∀ a ∈ args, D.data a) (h : op.apply args = .ok v) : D.data v := by
  unfold Operator.apply at h
  split at h
  · rename_i a b
    rcases Operator.combine_eq_ok h with ⟨l, rfl⟩ | rfl | rfl
    · exact D.literal l
    · exact ha _ (by simp)
    · exact ha _ (by simp)
  · cases h

variable (D) in
/-- A way to evaluate expressions that keeps to the discipline. -/
def Respects (evaluate : Expr → Option Nat → EvalM Empty (Value Empty)) : Prop :=
  ∀ ⦃e line m⦄, D.source e → m.Holds D.frame → (evaluate e line).Ensures m (D.Kept D.data m)

theorem ensures_items {ev : Expr → Option Nat → EvalM Empty (Value Empty)} (hev : D.Respects ev)
    {es : List Expr} (hes : ∀ e ∈ es, D.source e) (n : Nat) (hm : m.Holds D.frame) :
    (evaluateItems ev n es).Ensures m (D.Kept (fun vs => ∀ v ∈ vs, D.data v) m) := by
  induction es generalizing n m with
  | nil => exact EvalM.ensures_pure.mpr ⟨D.refl m, hm, List.forall_mem_nil _⟩
  | cons e rest ih =>
    refine ensures_bind (hev (hes e (by simp)) hm) fun v m₁ h₁ hm₁ hv => ?_
    have hrest := ih (fun e' he' => hes e' (by simp [he'])) (n + 1) hm₁
    refine ensures_bind (ensures_since hrest h₁) fun vs m₂ h₂ hm₂ hvs => ?_
    exact EvalM.ensures_pure.mpr ⟨h₂, hm₂, List.forall_mem_cons.mpr ⟨hv, hvs⟩⟩

theorem ensures_whileTruthy {condition body : EvalM Empty (Value Empty)}
    (hc : ∀ m : Machine Empty, m.Holds D.frame → condition.Ensures m (D.Kept D.data m))
    (hb : ∀ m : Machine Empty, m.Holds D.frame → body.Ensures m (D.Kept D.data m))
    (n : Nat) (hm : m.Holds D.frame) :
    (EvalM.whileTruthy condition body n).Ensures m (D.Kept (fun _ => True) m) := by
  induction n generalizing m with
  | zero => exact EvalM.ensures_exhausted
  | succ n ih =>
    refine ensures_bind (hc m hm) fun v m₁ h₁ hm₁ _ => ?_
    split
    · refine ensures_bind (ensures_since (hb m₁ hm₁) h₁) fun _ m₂ h₂ hm₂ _ => ?_
      exact ensures_since (ih hm₂) h₂
    · exact EvalM.ensures_pure.mpr ⟨h₁, hm₁, trivial⟩

theorem ensures_current (c : Count) (slot : Nat) (hstep : D.step m₀ m) (hm : m.Holds D.frame) :
    (c.current slot : EvalM Empty Float).Ensures m (D.Kept (fun _ => True) m₀) := by
  rw [Count.current, EvalM.ensures_bind, EvalM.ensures_gets]
  dsimp only
  split
  · exact EvalM.ensures_pure.mpr ⟨hstep, hm, trivial⟩
  · exact EvalM.ensures_fail.mpr ⟨hstep, hm, trivial⟩
  · exact EvalM.ensures_fail.mpr ⟨hstep, hm, trivial⟩

theorem ensures_passes (c : Count) {slot : Nat} {body : EvalM Empty (Value Empty)}
    (hb : ∀ m : Machine Empty, m.Holds D.frame → body.Ensures m (D.Kept D.data m))
    (hslot : ∀ m' x, D.step m₀ m' → D.step m₀ { m' with stack := m'.stack.set slot (.num x) })
    (n : Nat) (hstep : D.step m₀ m) (hm : m.Holds D.frame) :
    (c.passes slot body n).Ensures m (D.Kept (fun _ => True) m₀) := by
  induction n generalizing m with
  | zero => exact EvalM.ensures_exhausted
  | succ n ih =>
    refine ensures_bind (ensures_current c slot hstep hm) fun x m₁ h₁ hm₁ _ => ?_
    split
    · refine ensures_bind (ensures_since (hb m₁ hm₁) h₁) fun _ m₂ h₂ hm₂ _ => ?_
      refine ensures_bind (p := fun _ => True) ?_ fun _ m₃ h₃ hm₃ _ => ih h₃ hm₃
      refine ensures_bind (ensures_current c slot h₂ hm₂) fun y m₃ h₃ hm₃ _ => ?_
      exact EvalM.ensures_modify.mpr
        ⟨hslot m₃ _ h₃, hm₃.set (D.held (D.literal (.num _))) slot, trivial⟩
    · exact EvalM.ensures_pure.mpr ⟨h₁, hm₁, trivial⟩

private theorem ensures_count (c : Count) {body : EvalM Empty (Value Empty)}
    (hb : ∀ m : Machine Empty, m.Holds D.frame → body.Ensures m (D.Kept D.data m)) (fuel : Nat)
    (hm : m.Holds D.frame) : (c.run body fuel).Ensures m (D.Kept (fun _ => True) m) := by
  rw [Count.run, EvalM.ensures_bind, EvalM.ensures_gets]
  dsimp only
  rw [EvalM.ensures_bind, EvalM.ensures_modify]
  have hnum : D.frame (.num c.start) := D.held (D.literal (.num _))
  have hslot :
      ∀ m' x, D.step m m' → D.step m { m' with stack := m'.stack.set m.stack.size (.num x) } :=
    fun _ x h => D.advance m.stack.size x h (Nat.le_refl _)
  exact ensures_passes c hb hslot fuel (D.bind c.name hm hnum) (hm.bind hnum c.name)

theorem bindAll_kept (ps : List String) {args : List (Value Empty)} (ha : ∀ a ∈ args, D.data a)
    (hm : m.Holds D.frame) : D.step m (m.bindAll ps args) ∧ (m.bindAll ps args).Holds D.frame := by
  induction ps generalizing m args with
  | nil => exact ⟨D.refl m, hm⟩
  | cons p ps ih =>
    have hhead : D.frame (args.headD .null) := by
      cases args with
      | nil => exact D.held (D.literal .null)
      | cons a rest => exact D.held (ha a (by simp))
    obtain ⟨hs, hh⟩ := ih (fun a h => ha a (List.mem_of_mem_tail h)) (hm.bind hhead p)
    exact ⟨D.trans (D.bind p hm hhead) hs, hh⟩

theorem ensures_body {ev : Expr → Option Nat → EvalM Empty (Value Empty)} (hev : D.Respects ev)
    {f : Function} (hf : D.source f.body) {args : List (Value Empty)} (ha : ∀ a ∈ args, D.data a)
    (hm : m.Holds D.frame) :
    (f.evaluateBody ev args).Ensures m (D.Kept (fun vs => ∀ v ∈ vs, D.data v) m) := by
  rw [Function.evaluateBody, EvalM.ensures_bind, EvalM.ensures_modify]
  obtain ⟨hb, hh⟩ := bindAll_kept f.params ha hm
  exact ensures_since (ensures_items hev (source_items hf) 1 hh) hb

private theorem ensures_function {ev : Expr → Option Nat → EvalM Empty (Value Empty)}
    (hev : D.Respects ev) {f : Function} (hf : D.source f.body) {args : List (Value Empty)}
    (ha : ∀ a ∈ args, D.data a) (hm : m.Holds D.frame) :
    (f.invoke ev args).Ensures m (D.Kept D.data m) := by
  rw [Function.invoke_eq_asCall]
  refine EvalM.ensures_asCall (fun _ => ⟨D.refl m, hm, trivial⟩) fun hlt => ?_
  intro o m' h
  have hdeeper : Machine.Holds D.frame { m with depth := m.depth + 1 } := hm
  obtain ⟨hstep, hholds, hout⟩ := ensures_body hev hf ha hdeeper o m' h
  refine ⟨D.call hlt (D.scope hstep), hholds.truncate _, ?_⟩
  cases o with
  | value vs => exact D.literal .null
  | returned v => exact D.caught hout
  | failed e => trivial

theorem assign_kept (b : Binding Empty) (hb : D.data b.value) (hm : m.Holds D.frame)
    (hk : D.callee m (.builtin .assign) ∨ D.callee m (.builtin .increment)) :
    D.step m (b.assign m) ∧ (b.assign m).Holds D.frame := by
  rw [Binding.assign, Stack.assign?_eq_set]
  cases hp : m.stack.position? b.name with
  | none => exact ⟨D.bind _ hm (D.held hb), hm.bind (D.held hb) _⟩
  | some i => exact ⟨D.assign i hm hk hb, hm.set (D.held hb) i⟩

private theorem ensures_increment (name : String) (hm : m.Holds D.frame)
    (hk : D.callee m (.builtin .increment)) :
    (increment name).Ensures m (D.Kept (fun _ => True) m) := by
  rw [increment, EvalM.ensures_bind, EvalM.ensures_gets]
  dsimp only
  split
  · obtain ⟨hs, hh⟩ := assign_kept { name, value := .num _ } (D.literal (.num _)) hm (.inr hk)
    exact EvalM.ensures_modify.mpr ⟨hs, hh, trivial⟩
  · exact EvalM.ensures_fail.mpr ⟨D.refl m, hm, trivial⟩
  · exact EvalM.ensures_fail.mpr ⟨D.refl m, hm, trivial⟩

private theorem define_kept {d : Definition} (hd : D.source d.body) (hm : m.Holds D.frame) :
    D.step m (d.bind m) ∧ (d.bind m).Holds D.frame := by
  have hi : m.issue.2.Holds D.frame := hm
  have hf : D.frame (.func { id := m.fresh, name := d.name, params := d.params, body := d.body }) :=
    D.defined hd
  exact ⟨D.trans (D.issue m) (D.bind d.name hi hf), hi.bind hf d.name⟩

private theorem ensures_keyword {ev : Expr → Option Nat → EvalM Empty (Value Empty)}
    (hev : D.Respects ev) (fuel : Nat) {k : Keyword} (hk : D.callee m (.builtin k))
    {args : List (Value Empty)} (ha : ∀ a ∈ args, D.data a) (hm : m.Holds D.frame) :
    (k.invoke fuel ev args).Ensures m (D.Kept D.data m) := by
  have hnull : ∀ {m₁}, D.step m m₁ → m₁.Holds D.frame →
      (pure .null : EvalM Empty (Value Empty)).Ensures m₁ (D.Kept D.data m) := fun hs hh =>
    EvalM.ensures_pure.mpr ⟨hs, hh, D.literal .null⟩
  unfold Keyword.invoke
  cases k with
  | operator op =>
    exact EvalM.ensures_lift (fun v hv => ⟨D.refl m, hm, data_of_apply ha hv⟩)
      fun _ _ => ⟨D.refl m, hm, trivial⟩
  | bind =>
    refine ensures_read hm fun b hb => ensures_modify_null ?_
    have hv : D.frame b.value := D.held (Binding.value_of_read hb ▸ data_getD ha 1)
    exact ⟨D.bind b.name hm hv, hm.bind hv b.name⟩
  | assign =>
    refine ensures_read hm fun b hb => ensures_modify_null ?_
    exact assign_kept b (Binding.value_of_read hb ▸ data_getD ha 1) hm (.inl hk)
  | increment =>
    refine ensures_read hm fun name _ => ?_
    exact ensures_bind (ensures_increment name hm hk) fun _ _ hs hh _ => hnull hs hh
  | define =>
    refine ensures_read hm fun d hd => ensures_modify_null ?_
    obtain ⟨c, hc, hb⟩ := Definition.body_of_read hd
    exact define_kept (hb ▸ source_of_getLast? ha hc) hm
  | leave =>
    refine EvalM.ensures_leave.mpr ⟨D.refl m, hm, D.leave hk ?_⟩
    cases args with
    | nil => exact D.literal .null
    | cons a rest => exact ha a (by simp)
  | print => exact ensures_modify_null ⟨D.print _ hk, hm⟩
  | choose =>
    refine ensures_read hm fun branch hbranch => ?_
    cases branch with
    | none => exact hnull (D.refl m) hm
    | some e =>
      obtain ⟨c, hc, he⟩ := branch_of_chosenBranch hbranch
      have hsource : D.source e := source_items (source_of_getLast? ha hc) e he
      exact ensures_bind (hev hsource hm) fun _ _ hs hh _ => hnull hs hh
  | count =>
    refine ensures_read hm fun c hc => ?_
    obtain ⟨code, hcode, hb⟩ := Count.body_of_read hc
    have hsource : D.source c.body := hb ▸ source_of_getLast? ha hcode
    exact ensures_bind (ensures_count c (fun _ => hev hsource) fuel hm) fun _ _ hs hh _ =>
      hnull hs hh
  | loop =>
    refine ensures_read hm fun r hr => ?_
    obtain ⟨c, hc, hbody, head, hhead, hcondition⟩ := Repetition.parts_of_read hr
    have hitems := source_items (source_of_getLast? ha hc)
    refine ensures_bind (ensures_whileTruthy ?_ ?_ fuel hm) fun _ _ hs hh _ => hnull hs hh
    · exact fun _ => hev (source_items (hitems head hhead) _ hcondition)
    · exact fun _ => hev (hitems _ hbody)

private theorem data_of_math {op : MathOp} {args : List (Value Empty)} {v : Value Empty}
    (h : op.invoke args = .ok v) : D.data v := by
  unfold MathOp.invoke at h
  dsimp only at h
  split at h
  · cases h
  · obtain ⟨x, -, hx⟩ := bind_eq_ok h
    cases hx
    exact D.literal (.num _)

theorem data_arguments {v : Value Empty} (hv : D.data v) {code : Option Code}
    (hc : ∀ c, code = some c → D.data (.code c)) :
    ∀ a ∈ v.arguments ++ (code.map Value.code).toList, D.data a := by
  intro a ha
  rcases List.mem_append.mp ha with ha | ha
  · cases v with
    | list vs => exact D.elements hv a ha
    | _ =>
      rw [List.mem_singleton.mp ha]
      exact hv
  · cases code with
    | none => cases ha
    | some c =>
      rw [List.mem_singleton.mp ha]
      exact hc c rfl

/-- Every evaluation and every call keeps to the discipline. -/
theorem respects (D : Discipline) (fuel : Nat) :
    D.Respects (evaluate fuel) ∧ ∀ ⦃callee args m⦄, D.callee m callee → (∀ a ∈ args, D.data a) →
      m.Holds D.frame → (KeywordScript.call fuel callee args).Ensures m (D.Kept D.data m) := by
  -- Evaluations and calls use each other with less fuel.
  induction fuel with
  | zero =>
    constructor
    · intro e line m _ _
      rw [evaluate]
      exact EvalM.ensures_exhausted
    · intro callee args m _ _ _
      rw [KeywordScript.call]
      exact EvalM.ensures_exhausted
  | succ fuel ih =>
    obtain ⟨hev, hcall⟩ := ih
    constructor
    · intro e line m he hm
      cases e with
      | lit l =>
        rw [evaluate]
        exact EvalM.ensures_pure.mpr ⟨D.refl m, hm, D.literal l⟩
      | script es =>
        rw [evaluate]
        refine ensures_bind (ensures_inScope (ensures_items hev (D.items he) 1 hm)) ?_
        exact fun vs m₁ hs hh hvs => EvalM.ensures_pure.mpr ⟨hs, hh, D.list hvs⟩
      | node k arg code ownLine =>
        rw [evaluate]
        refine ensures_bind (hev (D.argument he) hm) fun v m₁ h₁ hm₁ hv => ?_
        have hargs : ∀ a ∈ v.arguments ++ (code.map Value.code).toList, D.data a :=
          data_arguments hv (by rintro c rfl; exact D.code he)
        rw [EvalM.ensures_bind, EvalM.ensures_gets]
        dsimp only
        cases hf : m₁.find? k with
        | none =>
          rw [EvalM.ensures_bind, EvalM.ensures_modify]
          exact EvalM.ensures_pure.mpr
            ⟨D.trans h₁ (D.report _ hf), hm₁, D.literal (.str k)⟩
        | some callee => exact ensures_since (hcall (D.found he hm₁ hf) hargs hm₁) h₁
    · intro callee args m hc ha hm
      cases callee with
      | builtin k =>
        rw [KeywordScript.call]
        exact ensures_keyword hev fuel hc ha hm
      | native n =>
        rw [KeywordScript.call]
        cases n.action with
        | math op =>
          refine EvalM.ensures_lift (fun v hv => ⟨D.refl m, hm, ?_⟩) fun _ _ =>
            ⟨D.refl m, hm, trivial⟩
          exact data_of_math hv
        | host h => exact h.elim
      | func f =>
        rw [KeywordScript.call]
        exact ensures_function hev (D.function hc) ha hm
      | _ =>
        rw [KeywordScript.call]
        · exact EvalM.ensures_pure.mpr ⟨D.refl m, hm, D.plain hc (by simp [Value.kind])⟩
        all_goals simp

end Discipline

end KeywordScript
