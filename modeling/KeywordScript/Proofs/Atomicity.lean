import KeywordScript.Proofs.Postcondition
import KeywordScript.Proofs.Reader
import KeywordScript.Proofs.Stack

/-! Atomicity: a keyword or a native on numbers that fails has done nothing. `IF`, `FOR` and `WHILE`
have done nothing either if they fail before they evaluate any code, and they do that exactly when
their arguments are not of the form that they ask for. -/

namespace KeywordScript

variable {H : Type}

namespace EvalM

variable {α β : Type}

/-- Where `x` fails, the machine is as it was before. -/
def Atomic (x : EvalM H α) : Prop :=
  ∀ m, x.Ensures m fun o m' => ∀ f, o = .failed f → m' = m

theorem atomic_lift (r : Except Fault α) : Atomic (liftM r : EvalM H α) := by
  intro m
  exact ensures_lift (fun _ _ _ _ => rfl) fun _ _ _ _ => rfl

/-- Reading leaves the machine as it is, so what comes after it begins on the machine from
before. -/
theorem atomic_read {r : Except Fault α} {f : α → EvalM H β} (hf : ∀ a, r = .ok a → Atomic (f a)) :
    Atomic (liftM r >>= f) := by
  intro m
  rw [ensures_bind]
  exact ensures_lift (fun a ha => hf a ha m) fun _ _ _ _ => rfl

theorem ensures_modify_null (f : Machine H → Machine H) (m : Machine H) :
    (do .modify f; return .null : EvalM H (Value H)).Ensures m fun o _ => ∀ e, o ≠ .failed e := by
  rw [ensures_bind, ensures_modify]
  exact ensures_pure.mpr fun e he => by cases he

theorem atomic_modify_null (f : Machine H → Machine H) :
    Atomic (do .modify f; return .null : EvalM H (Value H)) :=
  fun m o m' h e he => absurd he (ensures_modify_null f m o m' h e)

private theorem atomic_increment (name : String) :
    Atomic (do increment name; return .null : EvalM H (Value H)) := by
  intro m
  rw [ensures_bind, increment, ensures_bind, ensures_gets]
  dsimp only
  split
  · exact ensures_modify.mpr (ensures_pure.mpr fun f hf => by cases hf)
  · exact ensures_fail.mpr fun _ _ => rfl
  · exact ensures_fail.mpr fun _ _ => rfl

theorem read_of_error {r : Except Fault α} {e : Fault} (h : r = .error e) (f : α → EvalM H β)
    (m : Machine H) :
    (liftM r >>= f) m = some (.failed e, m) := by
  rw [h]
  rfl

theorem read_of_ok {r : Except Fault α} {a : α} (h : r = .ok a) (f : α → EvalM H β)
    (m : Machine H) :
    (liftM r >>= f) m = f a m := by
  rw [h]
  rfl

/-- A read that is followed by something that cannot fail fails where the reader does. -/
theorem error_of_read {r : Except Fault α} {f : α → EvalM H β} {m m' : Machine H} {e : Fault}
    (hf : ∀ a, (f a).Ensures m fun o _ => ∀ e, o ≠ .failed e)
    (h : (liftM r >>= f) m = some (.failed e, m')) : r = .error e ∧ m' = m := by
  cases hr : r with
  | error e' =>
    rw [read_of_error hr] at h
    cases h
    exact ⟨rfl, rfl⟩
  | ok a =>
    rw [read_of_ok hr] at h
    exact absurd rfl (hf a _ _ h e)

theorem exists_failed_read_iff {r : Except Fault α} {f : Nat → α → EvalM H β} {m m' : Machine H}
    {e : Fault} (hf : ∀ fuel a, (f fuel a).Ensures m fun o _ => ∀ e, o ≠ .failed e) :
    (∃ fuel, (liftM r >>= f fuel) m = some (.failed e, m')) ↔ r = .error e ∧ m' = m := by
  constructor
  · rintro ⟨fuel, h⟩
    exact error_of_read (hf fuel) h
  · rintro ⟨h, rfl⟩
    exact ⟨0, read_of_error h _ _⟩

end EvalM

namespace Keyword

variable {ev : Expr → Option Nat → EvalM H (Value H)} {k : Keyword}

theorem atomic_invoke (hchoose : k ≠ .choose) (hcount : k ≠ .count) (hloop : k ≠ .loop) (fuel : Nat)
    (args : List (Value H)) : EvalM.Atomic (k.invoke fuel ev args) := by
  unfold Keyword.invoke
  cases k with
  | operator op => exact EvalM.atomic_lift _
  | bind | assign | define => exact EvalM.atomic_read fun _ _ => EvalM.atomic_modify_null _
  | increment => exact EvalM.atomic_read fun name _ => EvalM.atomic_increment name
  | leave => exact fun m => EvalM.ensures_leave.mpr fun f hf => by cases hf
  | print => exact EvalM.atomic_modify_null _
  | choose => exact absurd rfl hchoose
  | count => exact absurd rfl hcount
  | loop => exact absurd rfl hloop

/-- Keywords other than `IF`, `FOR` and `WHILE` evaluate nothing. -/
theorem invoke_eq_invoke (hchoose : k ≠ .choose) (hcount : k ≠ .count) (hloop : k ≠ .loop)
    (fuel fuel' : Nat) (ev ev' : Expr → Option Nat → EvalM H (Value H)) (args : List (Value H)) :
    k.invoke fuel ev args = k.invoke fuel' ev' args := by
  cases k with
  | choose => exact absurd rfl hchoose
  | count => exact absurd rfl hcount
  | loop => exact absurd rfl hloop
  | _ => rfl

/-- The keyword fails before it evaluates anything: it fails even where no evaluation ends. -/
def FailsAtOnce (k : Keyword) (args : List (Value H)) (m : Machine H) (f : Fault) (m' : Machine H) :
    Prop :=
  ∃ fuel, k.invoke fuel (fun _ _ => .exhausted) args m = some (.failed f, m')

/-- The form that the arguments of `IF`, `FOR` and `WHILE` have to have. The code comes last. Before
it, `IF` has a condition; `FOR` has a name, two numbers and, if there is more, a step that is null
or a number. `WHILE` has a condition inside the first item of its code and a body in the second. -/
inductive Fits : Keyword → List (Value H) → Prop where
  | choose (condition : Value H) (more : List (Value H)) (c : Code) :
    Fits .choose (condition :: (more ++ [.code c]))
  | count (name : String) (start stop : Float) {more : List (Value H)} (c : Code) :
    (∀ v, more.head? = some v → v.kind = .null ∨ v.kind = .number) →
    Fits .count (.str name :: .num start :: .num stop :: (more ++ [.code c]))
  | loop (rest : List (Value H)) {c : Code} {head body : Expr} {more : List Expr} :
    c.body.items = head :: body :: more → head.items ≠ [] → Fits .loop (rest ++ [.code c])

end Keyword

section Readers

theorem exists_error_iff {ε α : Type} {r : Except ε α} : (∃ e, r = .error e) ↔ ¬∃ a, r = .ok a := by
  cases r <;> simp

variable {args : List (Value H)}

theorem Argument.splitCode_concat (caller : String) (rest : List (Value H)) (c : Code) :
    splitCode caller (rest ++ [.code c]) = .ok (c.body, rest) := by
  simp [splitCode]

theorem Argument.eq_concat_of_splitCode {caller : String} {p : Expr × List (Value H)}
    (h : splitCode caller args = .ok p) : ∃ c, args = p.2 ++ [.code c] ∧ p.1 = c.body := by
  unfold splitCode at h
  split at h
  · rename_i c hc
    cases h
    obtain ⟨rest, rfl⟩ := List.getLast?_eq_some_iff.mp hc
    exact ⟨c, by simp, rfl⟩
  · cases h
  · cases h

theorem Argument.read_eq_ok_iff {α : Type} {take? : Value H → Option α} {shape : Shape}
    {role : Role} {caller : String} {index : Nat} {a : α} :
    Argument.read take? shape role caller args index = .ok a ↔
      ∃ v, args[index]? = some v ∧ take? v = some a := by
  unfold Argument.read
  cases args[index]? with
  | none => simp
  | some v => cases htake : take? v <;> simp [htake]

theorem Argument.name_eq_ok_iff {caller : String} {index : Nat} {s : String} :
    Argument.name caller args index = .ok s ↔ args[index]? = some (.str s) := by
  have htake (v : Value H) : v.str? = some s ↔ v = .str s := by cases v <;> simp [Value.str?]
  simp [Argument.name, Argument.read_eq_ok_iff, htake]

theorem Argument.number_eq_ok_iff {caller : String} {index : Nat} {x : Float} :
    Argument.number caller args index = .ok x ↔ args[index]? = some (.num x) := by
  have htake (v : Value H) : v.num? = some x ↔ v = .num x := by cases v <;> simp [Value.num?]
  simp [Argument.number, Argument.read_eq_ok_iff, htake]

theorem chosenBranch_ok_iff :
    (∃ branch, chosenBranch args = .ok branch) ↔ Keyword.choose.Fits args := by
  constructor
  · rintro ⟨branch, h⟩
    obtain ⟨⟨body, rest⟩, hp, h⟩ := bind_eq_ok h
    obtain ⟨c, rfl, -⟩ := Argument.eq_concat_of_splitCode hp
    cases rest with
    | nil => cases h
    | cons condition more => exact .choose condition more c
  · rintro ⟨condition, more, c⟩
    have hsplit := Argument.splitCode_concat Keyword.choose.name (condition :: more) c
    rw [List.cons_append] at hsplit
    rw [chosenBranch, hsplit]
    exact ⟨_, rfl⟩

theorem Count.readStep_ok_iff {step : Option (Value H)} :
    (∃ x, Count.readStep step = .ok x) ↔
      ∀ v, step = some v → v.kind = .null ∨ v.kind = .number := by
  cases step with
  | none => simp [Count.readStep]
  | some v => cases v <;> simp [Count.readStep, Value.kind]

theorem Count.read_ok_iff : (∃ c, Count.read args = .ok c) ↔ Keyword.count.Fits args := by
  constructor
  · rintro ⟨c, hc⟩
    obtain ⟨⟨body, rest⟩, hp, h⟩ := bind_eq_ok hc
    obtain ⟨code, rfl, -⟩ := Argument.eq_concat_of_splitCode hp
    dsimp only at h
    split at h
    · cases h
    · obtain ⟨name, hname, h⟩ := bind_eq_ok h
      obtain ⟨start, hstart, h⟩ := bind_eq_ok h
      obtain ⟨stop, hstop, h⟩ := bind_eq_ok h
      obtain ⟨step, hstep, -⟩ := bind_eq_ok h
      have hname := Argument.name_eq_ok_iff.mp hname
      have hstart := Argument.number_eq_ok_iff.mp hstart
      have hstop := Argument.number_eq_ok_iff.mp hstop
      rcases rest with _ | ⟨v₀, _ | ⟨v₁, _ | ⟨v₂, more⟩⟩⟩
      · cases hname
      · cases hstart
      · cases hstop
      cases hname
      cases hstart
      cases hstop
      have hhead : ∀ v, more.head? = some v → v.kind = .null ∨ v.kind = .number := by
        rw [List.head?_eq_getElem?]
        exact Count.readStep_ok_iff.mp ⟨step, hstep⟩
      exact Keyword.Fits.count name start stop code hhead
  · intro h
    cases h with
    | @count name start stop more c hstep =>
      have hsplit :=
        Argument.splitCode_concat Keyword.count.name
          (.str name :: .num start :: .num stop :: more) c
      obtain ⟨step, hread⟩ := Count.readStep_ok_iff.mpr hstep
      rw [List.head?_eq_getElem?] at hread
      simp only [List.cons_append] at hsplit
      rw [Count.read, hsplit]
      exact ⟨⟨name, start, stop, step, c.body⟩, by
        simp [bind, Except.bind, Argument.name, Argument.number, Argument.read,
          Value.str?, Value.num?, hread, pure, Except.pure]⟩

theorem Repetition.read_ok_iff : (∃ r, Repetition.read args = .ok r) ↔ Keyword.loop.Fits args := by
  constructor
  · rintro ⟨r, hr⟩
    obtain ⟨⟨code, rest⟩, hp, h⟩ := bind_eq_ok hr
    obtain ⟨c, rfl, hbody⟩ := Argument.eq_concat_of_splitCode hp
    dsimp only at h hbody
    split at h
    · rename_i head body more hitems
      split at h
      · rename_i condition others hhead
        exact .loop rest (hbody ▸ hitems) (by simp [hhead])
      · cases h
    · cases h
  · intro h
    cases h with
    | @loop rest c head body more hitems hhead =>
      obtain ⟨condition, others, hcondition⟩ := List.exists_cons_of_ne_nil hhead
      rw [Repetition.read, Argument.splitCode_concat]
      exact ⟨⟨condition, body⟩, by simp [bind, Except.bind, hitems, hcondition, pure, Except.pure]⟩

/-- The parameter that is blamed is the first that is no text. -/
theorem Definition.params?_eq_error (caller : String) {params : List (Value H)}
    (h : ∃ p ∈ params, p.kind ≠ .string) (index : Nat) :
    ∃ (i : Nat) (v : Value H), params[i]? = some v ∧ v.kind ≠ .string ∧
      Definition.params? caller index params =
        .error (.argument caller (index + i) .parameter v.kind) := by
  induction params generalizing index with
  | nil => simp at h
  | cons p rest ih =>
    cases p with
    | str s =>
      have hrest : ∃ p ∈ rest, p.kind ≠ .string := by simpa [Value.kind] using h
      obtain ⟨i, v, hv, hkind, herror⟩ := ih hrest (index + 1)
      refine ⟨i + 1, v, by simpa using hv, hkind, ?_⟩
      rw [Definition.params?, herror, show index + 1 + i = index + (i + 1) by omega]
      rfl
    | _ => exact ⟨0, _, rfl, by simp [Value.kind], rfl⟩

theorem Definition.read_eq_error (name : String) {params : List (Value H)} (c : Code)
    (h : ∃ p ∈ params, p.kind ≠ .string) :
    ∃ (i : Nat) (v : Value H), params[i]? = some v ∧ v.kind ≠ .string ∧
      Definition.read (.str name :: (params ++ [.code c])) =
        .error (.argument Keyword.define.name (i + 1) .parameter v.kind) := by
  obtain ⟨i, v, hv, hkind, herror⟩ := Definition.params?_eq_error Keyword.define.name h 1
  have hsplit := Argument.splitCode_concat Keyword.define.name (.str name :: params) c
  simp only [List.cons_append] at hsplit
  refine ⟨i, v, hv, hkind, ?_⟩
  rw [Nat.add_comm i, ← show _ = Except.error _ from congrArg (Except.map _) herror,
    Definition.read, hsplit]
  rfl

end Readers

/-- Where nothing can be evaluated, `FOR` does not fail: it finds its number in the frame that it
has just bound. -/
theorem Count.ensures_run_exhausted (c : Count) (fuel : Nat) (m : Machine H) :
    (c.run .exhausted fuel).Ensures m fun o _ => o = .value () := by
  have hcurrent : c.current m.stack.size (m.bind c.name (.num c.start)) =
      some (.value c.start, m.bind c.name (.num c.start)) := by
    simp [Count.current, EvalM.bind_apply, EvalM.gets, Machine.bind, Stack.get?_push_size,
      EvalM.pure_apply]
  rw [Count.run, EvalM.ensures_bind, EvalM.ensures_gets]
  refine EvalM.ensures_bind.mpr (EvalM.ensures_modify.mpr ?_)
  cases fuel with
  | zero => exact EvalM.ensures_exhausted
  | succ n =>
    rw [Count.passes]
    refine EvalM.ensures_bind.mpr fun o m' h => ?_
    rw [hcurrent] at h
    cases h
    dsimp only
    split
    · exact EvalM.ensures_bind.mpr EvalM.ensures_exhausted
    · exact EvalM.ensures_pure.mpr rfl

namespace Keyword

variable {args : List (Value H)} {m m' : Machine H} {f : Fault}

theorem failsAtOnce_choose_iff :
    choose.FailsAtOnce args m f m' ↔ chosenBranch args = .error f ∧ m' = m := by
  refine EvalM.exists_failed_read_iff fun fuel branch => ?_
  cases branch with
  | none => exact EvalM.ensures_pure.mpr fun e he => by cases he
  | some e => exact EvalM.ensures_bind.mpr EvalM.ensures_exhausted

theorem failsAtOnce_count_iff :
    count.FailsAtOnce args m f m' ↔ Count.read args = .error f ∧ m' = m := by
  refine EvalM.exists_failed_read_iff fun fuel c => EvalM.ensures_bind.mpr ?_
  intro o m₁ hrun
  rw [Count.ensures_run_exhausted c fuel m o m₁ hrun]
  exact EvalM.ensures_pure.mpr fun e he => by cases he

theorem failsAtOnce_loop_iff :
    loop.FailsAtOnce args m f m' ↔ Repetition.read args = .error f ∧ m' = m := by
  refine EvalM.exists_failed_read_iff fun fuel r => EvalM.ensures_bind.mpr ?_
  cases fuel with
  | zero => exact EvalM.ensures_exhausted
  | succ n => exact EvalM.ensures_bind.mpr EvalM.ensures_exhausted

/-- What fails before it evaluates anything fails so for every fuel and in every way to evaluate. -/
theorem FailsAtOnce.invoke_eq {k : Keyword} (h : k.FailsAtOnce args m f m') (fuel : Nat)
    (ev : Expr → Option Nat → EvalM H (Value H)) :
    m' = m ∧ k.invoke fuel ev args m = some (.failed f, m) := by
  by_cases hchoose : k = .choose
  · subst hchoose
    obtain ⟨hread, hm⟩ := failsAtOnce_choose_iff.mp h
    exact ⟨hm, EvalM.read_of_error hread _ m⟩
  by_cases hcount : k = .count
  · subst hcount
    obtain ⟨hread, hm⟩ := failsAtOnce_count_iff.mp h
    exact ⟨hm, EvalM.read_of_error hread _ m⟩
  by_cases hloop : k = .loop
  · subst hloop
    obtain ⟨hread, hm⟩ := failsAtOnce_loop_iff.mp h
    exact ⟨hm, EvalM.read_of_error hread _ m⟩
  obtain ⟨n, hn⟩ := h
  have hm : m' = m := atomic_invoke hchoose hcount hloop n args m _ _ hn f rfl
  rw [invoke_eq_invoke hchoose hcount hloop fuel n ev fun _ _ => .exhausted, hn, hm]
  exact ⟨rfl, rfl⟩

private theorem exists_failsAtOnce_iff {k : Keyword} (hk : k ∈ [Keyword.choose, .count, .loop]) :
    (∃ f m', k.FailsAtOnce args m f m') ↔ ¬k.Fits args := by
  simp only [List.mem_cons, List.not_mem_nil, or_false] at hk
  rcases hk with rfl | rfl | rfl
  · simp only [failsAtOnce_choose_iff, exists_and_left, exists_eq, and_true, ← chosenBranch_ok_iff,
      exists_error_iff]
  · simp only [failsAtOnce_count_iff, exists_and_left, exists_eq, and_true, ← Count.read_ok_iff,
      exists_error_iff]
  · simp only [failsAtOnce_loop_iff, exists_and_left, exists_eq, and_true, ← Repetition.read_ok_iff,
      exists_error_iff]

end Keyword

variable [Host H]

/-- Failures are atomic. A keyword other than `IF`, `FOR` and `WHILE`, or a native on numbers,
leaves the whole machine as it was when it fails. These three do the same when they fail before they
evaluate anything, whatever the fuel, and they fail so exactly when their arguments do not have the
form that they ask for. `FUNCTION` with a parameter that is no text is one of the failures: it
blames the parameter and binds nothing. -/
theorem failures_are_atomic (m : Machine H) :
    (∀ k : Keyword, k ≠ .choose → k ≠ .count → k ≠ .loop → ∀ args fuel f m',
      call fuel (.builtin k) args m = some (.failed f, m') → m' = m) ∧
    (∀ (n : Native H) (op : MathOp), n.action = .math op → ∀ args fuel f m',
      call fuel (.native n) args m = some (.failed f, m') → m' = m) ∧
    (∀ (k : Keyword) args f m', k.FailsAtOnce args m f m' →
      m' = m ∧ ∀ fuel, call (fuel + 1) (.builtin k) args m = some (.failed f, m)) ∧
    (∀ k ∈ [Keyword.choose, .count, .loop], ∀ args,
      (∃ f m', k.FailsAtOnce args m f m') ↔ ¬k.Fits args) ∧
    ∀ name (params : List (Value H)) c, (∃ p ∈ params, p.kind ≠ .string) →
      ∃ (i : Nat) (v : Value H), params[i]? = some v ∧ v.kind ≠ .string ∧ ∀ fuel,
        call (fuel + 1) (.builtin .define) (.str name :: (params ++ [.code c])) m =
          some (.failed (.argument Keyword.define.name (i + 1) .parameter v.kind), m) := by
  refine ⟨?_, ?_, ?_, ?_, ?_⟩
  · intro k hchoose hcount hloop args fuel f m' h
    cases fuel with
    | zero => cases h
    | succ fuel =>
      rw [call] at h
      exact Keyword.atomic_invoke hchoose hcount hloop fuel args m _ _ h f rfl
  · intro n op hop args fuel f m' h
    cases fuel with
    | zero => cases h
    | succ fuel =>
      rw [call, hop] at h
      exact EvalM.atomic_lift (op.invoke args) m _ _ h f rfl
  · intro k args f m' h
    refine ⟨(h.invoke_eq 0 fun _ _ => .exhausted).1, fun fuel => ?_⟩
    rw [call]
    exact (h.invoke_eq fuel (evaluate fuel)).2
  · exact fun k hk args => Keyword.exists_failsAtOnce_iff hk
  · intro name params c h
    obtain ⟨i, v, hv, hkind, herror⟩ := Definition.read_eq_error name c h
    refine ⟨i, v, hv, hkind, fun fuel => ?_⟩
    rw [call]
    exact EvalM.read_of_error herror _ m

/-- On a machine where `t` is a text: `INC` of `t`, a floor of two numbers, `FOR` with a text as its
step, and `FUNCTION` with a number as its second parameter. -/
theorem failures_are_atomic_on_text :
    let m : Machine Empty := ({} : Machine Empty).bind "t" (.str "x")
    let c : Code := { site := { document := 0 }, body := .script [] }
    let floor : Native Empty := { id := 0, name := "floor", action := .math .floor }
    (∃ f m', call 1 (.builtin .increment) [.str "t"] m = some (.failed f, m') ∧ m' = m) ∧
    (∃ f m', call 1 (.native floor) [.num 1, .num 2] m = some (.failed f, m') ∧ m' = m) ∧
    (∃ f m', Keyword.count.FailsAtOnce [.str "i", .num 1, .num 3, .str "x", .code c] m f m' ∧
      m' = m) ∧
    ¬Keyword.count.Fits (H := Empty) [.str "i", .num 1, .num 3, .str "x", .code c] ∧
    ∃ f, call 1 (.builtin .define) [.str "f", .str "a", .num 2, .str "b", .code c] m =
      some (.failed f, m) := by
  intro m c floor
  obtain ⟨hkeyword, hnative, hearly, hform, hdefine⟩ := failures_are_atomic m
  have hcount : Keyword.count.FailsAtOnce [.str "i", .num 1, .num 3, .str "x", .code c] m
      (.argument Keyword.count.name 3 .number .string) m := ⟨0, rfl⟩
  refine ⟨⟨_, _, rfl, hkeyword .increment (by decide) (by decide) (by decide) [.str "t"] 1 _ _ rfl⟩,
    ⟨_, _, rfl, hnative floor .floor rfl [.num 1, .num 2] 1 _ _ rfl⟩,
    ⟨_, _, hcount, (hearly _ _ _ _ hcount).1⟩, (hform .count (by decide) _).mp ⟨_, _, hcount⟩, ?_⟩
  obtain ⟨i, v, -, -, h⟩ := hdefine "f" [.str "a", .num 2, .str "b"] c ⟨.num 2, by simp, by decide⟩
  exact ⟨_, h 0⟩

end KeywordScript
