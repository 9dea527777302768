import KeywordScript.Proofs.Progress
import KeywordScript.Proofs.Writing

/-! The loop variable: `FOR` keeps its number in a frame of its own, which it finds by position.
Whatever its body does, the frame is there under its name whenever `FOR` looks for it, and only
`SET` or `INC` in the body, where it reaches this very frame, can put something else into it. -/

namespace KeywordScript

open Activation

namespace Activation

variable {a b : Activation} {m m' : Machine Empty}

theorem Ends.names_prefix {e : Expr} {line : Option Nat} {o : Outcome Empty (Value Empty)}
    (h : Ends ⟨.expr e line, m⟩ o m') : m.stack.names <+: m'.stack.names := by
  obtain ⟨n, hn⟩ := h
  exact names_prefix_of_evaluate hn

/-- Frames that are there when a job starts keep their places and names through all that is under
way in it. -/
theorem UnderWay.names_prefix {rest : List Activation} (h : UnderWay a (b :: rest)) :
    a.machine.stack.names <+: b.machine.stack.names := by
  have hset := Discipline.names.setsNumbers_of_names fun _ _ => Iff.rfl
  have hgoverns : Discipline.names.Governs a :=
    Discipline.governs_of_trivial (fun _ => trivial) (fun _ => trivial) (fun _ => trivial)
      (fun _ _ => trivial) a
  exact hgoverns.step_of_underWay hset (fun _ _ _ hs => hs) h

theorem UnderWay.size_le {rest : List Activation} (h : UnderWay a (b :: rest)) :
    a.machine.stack.size ≤ b.machine.stack.size := by
  simpa using h.names_prefix.length_le

theorem UnderWay.outer {c : Activation} {rest : List Activation} (h : UnderWay a (c :: b :: rest)) :
    UnderWay a (b :: rest) := by
  cases h with
  | next h _ => exact h

/-- A `FOR` under way in a job has its number in a frame that was not there when the job started. -/
theorem UnderWay.loopVariable (ha : ∀ c slot, a.job ≠ .passes c slot) {c : Count} {slot : Nat}
    {rest : List Activation} (h : UnderWay a (⟨.passes c slot, m⟩ :: rest)) :
    a.machine.stack.size ≤ slot ∧ ∃ x, m.stack.get? slot = some ⟨c.name, .num x⟩ := by
  generalize hb : (⟨.passes c slot, m⟩ : Activation) = b at h
  induction h using UnderWay.innermost generalizing c slot m with
  | start => exact absurd (congrArg Activation.job hb).symm (ha c slot)
  | next h hs ih =>
    subst hb
    cases hs with
    | count hread => exact ⟨h.size_le, c.start, Stack.get?_push_size _ _ _⟩
    | nextPass hx hle he hadvance =>
      obtain ⟨hsize, y, hy⟩ := ih rfl
      obtain ⟨x, -, rfl⟩ := Count.advance_eq_value hadvance
      obtain ⟨v, hv⟩ := Stack.get?_of_prefix he.names_prefix hy
      refine ⟨hsize, x + c.step, ?_⟩
      rw [Stack.get?_set_self, hv]
      rfl

/-- From `m` to `m'`, the job binds names, or is a `FOR` that adds its step to its number. -/
inductive Binds : Activation → Machine Empty → Machine Empty → Prop where
  | bind {args b m} : Binding.read Keyword.bind.name args = .ok b →
    Binds ⟨.call (.builtin .bind) args, m⟩ m (m.bind b.name b.value)
  | define {args d m} : Definition.read args = .ok d →
    Binds ⟨.call (.builtin .define) args, m⟩ m (d.bind m)
  | parameters {f args m} : Binds ⟨.body f args, m⟩ m (m.bindAll f.params args)
  | count {args c m} : Count.read args = .ok c →
    Binds ⟨.call (.builtin .count) args, m⟩ m (m.bind c.name (.num c.start))
  | advance {c slot m v m' m''} : Ends ⟨.expr c.body none, m⟩ (.value v) m' →
    c.advance slot m' = some (.value (), m'') → Binds ⟨.passes c slot, m⟩ m' m''

/-- No binding made meanwhile touches a frame that was there when a job started. -/
theorem UnderWay.get?_of_binds (ha : ∀ c slot, a.job ≠ .passes c slot) {rest : List Activation}
    (h : UnderWay a (b :: rest)) (hb : Binds b m m') {i : Nat} (hi : i < a.machine.stack.size) :
    m'.stack.get? i = m.stack.get? i := by
  have hbound : i < b.machine.stack.size := Nat.lt_of_lt_of_le hi h.size_le
  cases hb with
  | bind _ => exact Stack.get?_push_of_lt hbound _ _
  | define _ => exact Stack.get?_push_of_lt hbound _ _
  | parameters => exact Machine.get?_bindAll hbound _ _
  | count _ => exact Stack.get?_push_of_lt hbound _ _
  | advance _ hadvance =>
    obtain ⟨x, -, rfl⟩ := Count.advance_eq_value hadvance
    obtain ⟨hslot, -⟩ := h.loopVariable ha
    exact Stack.get?_set_of_ne _ (by omega) _

end Activation

namespace Count

/-- While `a` is under way, `FOR` looks for its number on this machine: before a pass, or after the
body of one. -/
inductive Consults (c : Count) (slot : Nat) (a : Activation) : Machine Empty → Prop where
  | before {m rest} : UnderWay a (⟨.passes c slot, m⟩ :: rest) → Consults c slot a m
  | after {m rest v m'} : UnderWay a (⟨.expr c.body none, m⟩ :: ⟨.passes c slot, m⟩ :: rest) →
    Ends ⟨.expr c.body none, m⟩ (.value v) m' → Consults c slot a m'

variable {c : Count} {slot : Nat} {a : Activation} {m m' : Machine Empty}

theorem current_of_get? {name : String} {v : Value Empty} (h : m.stack.get? slot = some ⟨name, v⟩) :
    (∃ x, v = .num x ∧ c.current slot m = some (.value x, m)) ∨
      v.kind ≠ .number ∧
        c.current slot m = some (.failed (.argument Keyword.count.name 0 .loopNumber v.kind),
          m) := by
  rw [current, EvalM.bind_of_value (a := m.stack.get? slot) rfl, h]
  cases v with
  | num x => exact .inl ⟨x, rfl, rfl⟩
  | _ => exact .inr ⟨by simp [Value.kind], rfl⟩

theorem exists_get?_of_consults (ha : ∀ c slot, a.job ≠ .passes c slot) (h : c.Consults slot a m) :
    ∃ v, m.stack.get? slot = some ⟨c.name, v⟩ := by
  cases h with
  | before h =>
    obtain ⟨-, x, hx⟩ := h.loopVariable ha
    exact ⟨_, hx⟩
  | after h he =>
    obtain ⟨-, x, hx⟩ := h.outer.loopVariable ha
    exact Stack.get?_of_prefix he.names_prefix hx

/-- In a body that starts on `m`, `SET` gives `v` to the name of the variable, and the newest frame
of that name is the one at `slot`. -/
def Stores (c : Count) (slot : Nat) (m : Machine Empty) (v : Value Empty) : Prop :=
  ∃ args m₁ rest, UnderWay ⟨.expr c.body none, m⟩ (⟨.call (.builtin .assign) args, m₁⟩ :: rest) ∧
    Binding.read Keyword.assign.name args = .ok ⟨c.name, v⟩ ∧ m₁.stack.position? c.name = some slot

/-- What a body leaves in the frame of its `FOR`, if it is no number, was stored there by `SET`. -/
theorem stores_of_ends {x : Float} (hx : m.stack.get? slot = some ⟨c.name, .num x⟩)
    {o : Outcome Empty (Value Empty)} (he : Ends ⟨.expr c.body none, m⟩ o m') {name : String}
    {v : Value Empty} (hv : m'.stack.get? slot = some ⟨name, v⟩) (hkind : v.kind ≠ .number) :
    c.Stores slot m v := by
  obtain ⟨n, hn⟩ := he
  rcases (accounts slot n).1 (Stack.lt_size_of_get? hx) o m' hn with h | ⟨b, rest, w, hb, hw, h⟩
  · cases hv.symm.trans (h.trans hx)
    exact absurd rfl hkind
  · have hget : m'.stack.get? slot = some ⟨c.name, w⟩ := by rw [h, hx, Option.map_some]
    cases hv.symm.trans hget
    cases hw with
    | @assign args b m₁ hread hposition =>
      -- The newest frame of the name assigned to is the one of `FOR`, which has kept its name.
      obtain ⟨u, hu⟩ := Stack.get?_of_prefix hb.names_prefix hx
      obtain ⟨u', hu'⟩ := Stack.get?_of_position? hposition
      have hname : c.name = b.name := congrArg Frame.name (Option.some.inj (hu.symm.trans hu'))
      obtain ⟨name, value⟩ := b
      subst hname
      exact ⟨args, m₁, rest, hb, hread, hposition⟩
    | increment _ _ _ => exact absurd rfl hkind

/-- Where `FOR` finds no number, the frame is there, and the body of the last pass has stored what
it holds. -/
theorem stores_of_unread (ha : ∀ c slot, a.job ≠ .passes c slot) (h : c.Consults slot a m)
    {f : Fault} (hf : c.current slot m = some (.failed f, m')) :
    ∃ v, m.stack.get? slot = some ⟨c.name, v⟩ ∧ v.kind ≠ .number ∧
      f = .argument Keyword.count.name 0 .loopNumber v.kind ∧
      ∃ m₁ rest w, UnderWay a (⟨.expr c.body none, m₁⟩ :: ⟨.passes c slot, m₁⟩ :: rest) ∧
        Ends ⟨.expr c.body none, m₁⟩ (.value w) m ∧ c.Stores slot m₁ v := by
  obtain ⟨v, hv⟩ := exists_get?_of_consults ha h
  rcases current_of_get? (c := c) hv with ⟨x, -, hx⟩ | ⟨hkind, hfault⟩
  · cases hf.symm.trans hx
  · cases hf.symm.trans hfault
    cases h with
    | before h =>
      obtain ⟨-, x, hx⟩ := h.loopVariable ha
      cases hv.symm.trans hx
      exact absurd rfl hkind
    | @after m₁ rest w _ h he =>
      obtain ⟨-, x, hx⟩ := h.outer.loopVariable ha
      exact ⟨v, hv, hkind, rfl, m₁, rest, w, h, he, stores_of_ends hx he hv hkind⟩

/-- A `FOR` that fails has been failed by the body of a pass, or has found no number. -/
theorem fault_of_passes {fuel n : Nat} {rest : List Activation}
    (h : UnderWay a (⟨.passes c slot, m⟩ :: rest)) {f : Fault}
    (hn : c.passes slot (evaluate fuel c.body none) n m = some (.failed f, m')) :
    (∃ m₁ rest, UnderWay a (⟨.expr c.body none, m₁⟩ :: ⟨.passes c slot, m₁⟩ :: rest) ∧
      Ends ⟨.expr c.body none, m₁⟩ (.failed f) m') ∨
    c.Consults slot a m' ∧ c.current slot m' = some (.failed f, m') := by
  induction n generalizing m rest with
  | zero => cases hn
  | succ n ih =>
    cases turn_of_passes hn with
    | unread hf => exact .inr ⟨.before h, hf⟩
    | broken hx hle hbody => exact .inl ⟨m, rest, h.next (.pass hx hle), fuel, hbody⟩
    | spoilt hx hle hbody hf => exact .inr ⟨.after (h.next (.pass hx hle)) ⟨fuel, hbody⟩, hf⟩
    | next hx hle hbody hadvance hrest =>
      exact ih (h.next (.nextPass hx hle ⟨fuel, hbody⟩ hadvance)) hrest

theorem names_of_body {es : List Expr} (hbody : c.body = .script es) {line : Option Nat}
    {o : Outcome Empty (Value Empty)} (he : Ends ⟨.expr c.body line, m⟩ o m') :
    m'.stack.names = m.stack.names := by
  obtain ⟨n, hn⟩ := he
  change evaluate n c.body line m = _ at hn
  rw [hbody] at hn
  exact names_of_script hn

/-- Passes whose body has a scope of its own leave the names as they were. -/
theorem names_of_passes {es : List Expr} (hbody : c.body = .script es) {fuel n : Nat}
    {o : Outcome Empty Unit} (hn : c.passes slot (evaluate fuel c.body none) n m = some (o, m')) :
    m'.stack.names = m.stack.names := by
  induction n generalizing m with
  | zero => cases hn
  | succ n ih =>
    cases turn_of_passes hn with
    | unread _ | past _ _ => rfl
    | left _ _ hb | broken _ _ hb | spoilt _ _ hb _ => exact names_of_body hbody ⟨fuel, hb⟩
    | next _ _ hb hadvance hrest =>
      obtain ⟨y, -, rfl⟩ := Count.advance_eq_value hadvance
      rw [ih hrest, Stack.names_set]
      exact names_of_body hbody ⟨fuel, hb⟩

end Count

/-- A `FOR` whose arguments can be read binds its name in a new frame on top of the stack and keeps
its number there. Whenever it looks for the number, before a pass or after one, the frame is in its
place and has its name. It fails only with a body, or because it finds no number; then `SET` in the
body of the last pass was given the value that is in the frame, while this frame was the newest of
its name. Nothing that a body binds touches the frame, even under the same name, and what the frame
holds after a body is what it held before or what some `SET` or `INC` in the body has put there. A
body that is a script leaves one name more than there were before. -/
theorem count_keeps_variable {args : List (Value Empty)} {c : Count}
    (hread : Count.read args = .ok c) (m : Machine Empty) :
    let slot := m.stack.size
    let a : Activation := ⟨.call (.builtin .count) args, m⟩
    (∀ m₁, c.Consults slot a m₁ → ∃ v, m₁.stack.get? slot = some ⟨c.name, v⟩) ∧
    (∀ m₁ f m₂, c.Consults slot a m₁ → c.current slot m₁ = some (.failed f, m₂) →
      ∃ v, m₁.stack.get? slot = some ⟨c.name, v⟩ ∧ v.kind ≠ .number ∧
        f = .argument "FOR" 0 .loopNumber v.kind ∧
        ∃ m₀ rest w, UnderWay a (⟨.expr c.body none, m₀⟩ :: ⟨.passes c slot, m₀⟩ :: rest) ∧
          Ends ⟨.expr c.body none, m₀⟩ (.value w) m₁ ∧ c.Stores slot m₀ v) ∧
    (∀ f m', a.Ends (.failed f) m' →
      (∃ m₁ rest, UnderWay a (⟨.expr c.body none, m₁⟩ :: ⟨.passes c slot, m₁⟩ :: rest) ∧
        Ends ⟨.expr c.body none, m₁⟩ (.failed f) m') ∨
      c.Consults slot a m' ∧ c.current slot m' = some (.failed f, m')) ∧
    (∀ m₁ rest, UnderWay a (⟨.expr c.body none, m₁⟩ :: ⟨.passes c slot, m₁⟩ :: rest) →
      (∀ b rest m₂ m₃, UnderWay ⟨.expr c.body none, m₁⟩ (b :: rest) → Binds b m₂ m₃ →
        m₃.stack.get? slot = m₂.stack.get? slot) ∧
      ∀ o m₂, Ends ⟨.expr c.body none, m₁⟩ o m₂ → Accounts slot ⟨.expr c.body none, m₁⟩ m₂) ∧
    ∀ es, c.body = .script es → ∀ o m', a.Ends o m' →
      m'.stack.names = m.stack.names ++ [c.name] := by
  intro slot a
  have ha : ∀ c slot, a.job ≠ .passes c slot := nofun
  have hfirst : UnderWay a [⟨.passes c slot, m.bind c.name (.num c.start)⟩, a] :=
    .next .start (.count hread)
  refine ⟨fun m₁ => Count.exists_get?_of_consults ha,
    fun m₁ f m₂ h hf => Count.stores_of_unread ha h hf, ?_, ?_, ?_⟩
  · intro f m' h
    obtain ⟨o, ⟨n, hn⟩, ho⟩ := (ends_call_count_iff hread).mp h
    cases o with
    | value _ | returned _ => cases ho
    | failed _ =>
      cases ho
      exact Count.fault_of_passes hfirst hn
  · intro m₁ rest h
    obtain ⟨-, x, hx⟩ := h.outer.loopVariable ha
    have hslot : slot < m₁.stack.size := Stack.lt_size_of_get? hx
    have hbody : ∀ c' slot, (⟨.expr c.body none, m₁⟩ : Activation).job ≠ .passes c' slot := nofun
    refine ⟨fun b rest m₂ m₃ hb hbinds => hb.get?_of_binds hbody hbinds hslot, ?_⟩
    rintro o m₂ ⟨n, hn⟩
    exact (accounts slot n).1 hslot o m₂ hn
  · intro es hbody o m' h
    obtain ⟨o', ⟨n, hn⟩, -⟩ := (ends_call_count_iff hread).mp h
    rw [Count.names_of_passes hbody hn, Machine.bind, Stack.names_push]

/-- A body that binds the name anew by `LET`, assigns to it by `SET` and leaves by `RETURN` with
what it assigned; and one that assigns a text to the variable itself. -/
theorem count_keeps_variable_when_assigned :
    let m : Machine Empty := { stack := ⟨[⟨"x", .null⟩]⟩ }
    let assign : Expr := .node "SET" (.script [.lit (.str "x"), .lit (.str "text")]) none none
    let shadow : Expr := .script [.node "LET" (.lit (.str "x")) none none, assign,
      .node "RETURN" (.node "x" (.lit .null) none none) none none]
    let args (body : Expr) : List (Value Empty) :=
      [.str "x", .num 1, .num 2, .code ⟨{ document := 0 }, body⟩]
    let count (body : Expr) : Count := { name := "x", start := 1, stop := 2, step := 1, body }
    (∀ body, Count.read (args body) = .ok (count body)) ∧
    (∃ m', Ends ⟨.call (.builtin .count) (args shadow), m⟩ (.returned (.str "text")) m' ∧
      m'.stack.names = ["x", "x"]) ∧
    ∃ m₀ m' v, (count assign).Consults 1 ⟨.call (.builtin .count) (args assign), m⟩ m' ∧
      (count assign).current 1 m' = some (.failed (.argument "FOR" 0 .loopNumber .string), m') ∧
      m'.stack.get? 1 = some ⟨"x", v⟩ ∧ v.kind ≠ .number ∧ (count assign).Stores 1 m₀ v := by
  intro m assign shadow args count
  let m₁ : Machine Empty := m.bind "x" (.num 1)
  have hread : ∀ body, Count.read (args body) = .ok (count body) := fun _ => rfl
  have hx : ∀ body, (count body).current 1 m₁ = some (.value 1, m₁) := fun _ => rfl
  have hle : (1 : Float) ≤ 2 := by decide
  refine ⟨hread, ?_, ?_⟩
  · have hbody : ∃ m', evaluate 9 shadow none m₁ = some (.returned (.str "text"), m') := ⟨_, rfl⟩
    obtain ⟨m', hm'⟩ := hbody
    have honce : EvalM.Ends ((count shadow).passOnce 1) m₁ (.returned (.str "text")) m' :=
      ⟨9, EvalM.bind_of_returned hm' _⟩
    have hpasses := Count.ends_passes (hx shadow) hle honce
    have hends := (ends_call_count_iff (m := m) (hread shadow)).mpr ⟨_, hpasses, rfl⟩
    exact ⟨m', hends, (count_keeps_variable (hread shadow) m).2.2.2.2 _ rfl _ m' hends⟩
  · have hbody : ∃ m', evaluate 9 assign none m₁ = some (.value .null, m') ∧
        (count assign).current 1 m' = some (.failed (.argument "FOR" 0 .loopNumber .string), m') :=
          ⟨_, rfl, rfl⟩
    obtain ⟨m', hm', hf⟩ := hbody
    have hpass : UnderWay ⟨.call (.builtin .count) (args assign), m⟩ _ :=
      .next (.next .start (.count (hread assign))) (.pass (hx assign) hle)
    have hafter := Count.Consults.after hpass ⟨9, hm'⟩
    obtain ⟨v, hv, hkind, -, m₀, -, -, -, -, hstores⟩ :=
      (count_keeps_variable (hread assign) m).2.1 m' _ m' hafter hf
    exact ⟨m₀, m', v, hafter, hf, hv, hkind, hstores⟩

end KeywordScript
