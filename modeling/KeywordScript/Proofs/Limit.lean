import KeywordScript.Proofs.Composition
import KeywordScript.Proofs.Job
import KeywordScript.Proofs.Transcript

/-! Limits on the depth of calls: an evaluation that stays within its limit goes the same way under
a larger one, and one that does not has written the beginning of what it writes there. -/

namespace KeywordScript

def Machine.withLimit {H : Type} (m : Machine H) (limit : Nat) : Machine H :=
  { m with maxDepth := limit }

section Raising

variable {α β : Type}

/-- What an action gives under some limit, and what it gives under the larger `limit`. -/
inductive Raised (limit : Nat) :
    Option (Outcome Empty α × Machine Empty) → Option (Outcome Empty α × Machine Empty) → Prop where
  | exhausted {r} : Raised limit none r
  | same {o m} : m.maxDepth ≤ limit → Raised limit (some (o, m)) (some (o, m.withLimit limit))
  /-- The first fails at its limit. The second goes on, and may never end. -/
  | parted {l m r} : (∀ o n, r = some (o, n) → m.transcript ≤ n.transcript) →
    Raised limit (some (.failed (.depthExceeded l), m)) r

/-- What is done at the end of a scope or of a call is done under any limit alike. -/
theorem Raised.map {limit : Nat} {r r' : Option (Outcome Empty α × Machine Empty)}
    (h : Raised limit r r') {f : Outcome Empty α → Outcome Empty β}
    {g : Machine Empty → Machine Empty}
    (hf : ∀ l, f (.failed (.depthExceeded l)) = .failed (.depthExceeded l))
    (hlimit : ∀ m, (g m).maxDepth = m.maxDepth) (hwritten : ∀ m, (g m).transcript = m.transcript)
    (hg : ∀ m, g (m.withLimit limit) = (g m).withLimit limit) :
    Raised limit (r.map fun (o, m) => (f o, g m)) (r'.map fun (o, m) => (f o, g m)) := by
  cases h with
  | exhausted => exact .exhausted
  | @same o m hle =>
    change Raised limit (some (f o, g m)) (some (f o, g (m.withLimit limit)))
    rw [hg]
    exact .same (by rwa [hlimit])
  | @parted l m r' hlater =>
    change Raised limit (some (f (.failed (.depthExceeded l)), g m)) _
    rw [hf]
    apply Raised.parted
    intro o n hn
    obtain ⟨⟨o', n'⟩, hr, he⟩ := Option.map_eq_some_iff.mp hn
    cases he
    rw [hwritten, hwritten]
    exact hlater o' n' hr

/-- The action only adds to what was written, and a larger limit makes no difference to it except
where it fails at its limit. -/
structure LimitBlind (x : EvalM Empty α) : Prop where
  writes {m o m'} : x m = some (o, m') → m.transcript ≤ m'.transcript
  raised (m limit) : m.maxDepth ≤ limit → Raised limit (x m) (x (m.withLimit limit))

namespace LimitBlind

theorem const (o : Outcome Empty α) : LimitBlind fun m => some (o, m) where
  writes h := by
    cases h
    exact le_rfl
  raised _ _ hle := .same hle

theorem modify {f : Machine Empty → Machine Empty} (hlimit : ∀ m, (f m).maxDepth = m.maxDepth)
    (hwrites : ∀ m, m.transcript ≤ (f m).transcript)
    (hf : ∀ m limit, f (m.withLimit limit) = (f m).withLimit limit) : LimitBlind (.modify f) where
  writes h := by
    cases h
    exact hwrites _
  raised m limit hle := by
    have hsame : EvalM.modify f (m.withLimit limit) = some (.value (), (f m).withLimit limit) := by
      rw [EvalM.modify, hf]
    rw [hsame]
    exact .same (by rwa [hlimit])

theorem writes_of_bind {x : EvalM Empty α} {f : α → EvalM Empty β} (hf : ∀ a, LimitBlind (f a))
    {m m' : Machine Empty} {o : Outcome Empty β} (h : (x >>= f) m = some (o, m')) :
    ∃ o₁ m₁, x m = some (o₁, m₁) ∧ m₁.transcript ≤ m'.transcript := by
  rcases EvalM.bind_eq_some h with ⟨a, m₁, hxa, hfa⟩ | ⟨v, hxv, -⟩ | ⟨e, hxe, -⟩
  · exact ⟨_, m₁, hxa, (hf a).writes hfa⟩
  · exact ⟨_, m', hxv, le_rfl⟩
  · exact ⟨_, m', hxe, le_rfl⟩

theorem bind {x : EvalM Empty α} {f : α → EvalM Empty β} (hx : LimitBlind x)
    (hf : ∀ a, LimitBlind (f a)) :
    LimitBlind (x >>= f) where
  writes h := by
    obtain ⟨o₁, m₁, hx₁, hle⟩ := writes_of_bind hf h
    exact (hx.writes hx₁).trans hle
  raised m limit hle := by
    have hr := hx.raised m limit hle
    generalize hm : x m = r at hr
    generalize hn : x (m.withLimit limit) = r' at hr
    cases hr with
    | exhausted =>
      rw [EvalM.bind_apply, hm]
      exact .exhausted
    | @same o m₁ hle₁ =>
      cases o with
      | value a =>
        rw [EvalM.bind_of_value hm, EvalM.bind_of_value hn]
        exact (hf a).raised m₁ limit hle₁
      | returned v =>
        rw [EvalM.bind_of_returned hm, EvalM.bind_of_returned hn]
        exact .same hle₁
      | failed e =>
        rw [EvalM.bind_of_failed hm, EvalM.bind_of_failed hn]
        exact .same hle₁
    | @parted l m₁ _ hlater =>
      rw [EvalM.bind_of_failed hm]
      apply Raised.parted
      intro o n' h
      -- Whatever follows only adds to what the second had written by then.
      obtain ⟨o₁, n₁, hn₁, hle₁⟩ := writes_of_bind hf h
      exact (hlater o₁ n₁ (hn.symm.trans hn₁)).trans hle₁

theorem inScope {x : EvalM Empty α} (hx : LimitBlind x) : LimitBlind x.inScope where
  writes {m o m'} h := by
    obtain ⟨⟨o₁, m₁⟩, hx₁, he⟩ := Option.map_eq_some_iff.mp h
    have hle : m.transcript ≤ m₁.transcript := hx.writes hx₁
    cases he
    exact hle
  raised m limit hle :=
    (hx.raised m limit hle).map (f := id) (g := fun m' => m'.truncate m.stack.size)
      (fun _ => rfl) (fun _ => rfl) (fun _ => rfl) fun _ => rfl

theorem asCall_writes {x : EvalM Empty α} (hx : LimitBlind x) {m m' : Machine Empty}
    {o : Outcome Empty (Value Empty)} (h : x.asCall m = some (o, m')) :
    m.transcript ≤ m'.transcript := by
  by_cases hfull : m.maxDepth ≤ m.depth
  · rw [EvalM.asCall_of_le x hfull] at h
    cases h
    exact le_rfl
  · rw [EvalM.asCall_of_lt x (Nat.lt_of_not_le hfull)] at h
    obtain ⟨⟨o₁, m₁⟩, hx₁, he⟩ := Option.map_eq_some_iff.mp h
    have hle : ({ m with depth := m.depth + 1 } : Machine Empty).transcript ≤ m₁.transcript :=
      hx.inScope.writes hx₁
    cases he
    exact hle

theorem asCall {x : EvalM Empty α} (hx : LimitBlind x) : LimitBlind x.asCall where
  writes h := asCall_writes hx h
  raised m limit hle := by
    by_cases hfull : m.maxDepth ≤ m.depth
    · -- Here the two part, if there is room for one more call under the larger limit.
      rw [EvalM.asCall_of_le x hfull]
      apply Raised.parted
      intro o n h
      have hwritten : (m.withLimit limit).transcript ≤ n.transcript := asCall_writes hx h
      exact hwritten
    · have hlt : m.depth < m.maxDepth := Nat.lt_of_not_le hfull
      have hlt' : (m.withLimit limit).depth < (m.withLimit limit).maxDepth :=
        Nat.lt_of_lt_of_le hlt hle
      rw [EvalM.asCall_of_lt x hlt, EvalM.asCall_of_lt x hlt']
      have hbody := hx.inScope.raised { m with depth := m.depth + 1 } limit hle
      exact hbody.map (f := Outcome.ofBody)
        (g := fun m' => { m' with depth := m'.depth - 1 }) (fun _ => rfl)
        (fun _ => rfl) (fun _ => rfl) fun _ => rfl

theorem compositional : Compositional @LimitBlind where
  value a := const (.value a)
  exhausted := ⟨nofun, fun _ _ _ => .exhausted⟩
  fail f := const (.failed f)
  leave v := const (.returned v)
  look f := by
    refine ⟨fun h => ?_, fun _ _ hle => .same hle⟩
    cases h
    exact le_rfl
  stack f := modify (fun _ => rfl) (fun _ => le_rfl) fun _ _ => rfl
  define d := modify (fun _ => rfl) (fun _ => le_rfl) fun _ _ => rfl
  print line :=
    modify (fun _ => rfl) (fun m => ⟨_, m.transcript.print_eq_append line⟩) fun _ _ => rfl
  report d := modify (fun _ => rfl) (fun m => ⟨_, m.transcript.report_eq_append d⟩) fun _ _ => rfl
  next := bind
  scope := inScope
  call := asCall

end LimitBlind

end Raising

open EvalM

/-- Under a larger limit on the depth of calls an evaluation that does not fail at its limit ends
with the same outcome, and leaves the same machine but for the limit. An evaluation that does fail
at its limit has by then written the beginning of what it has written under the larger limit when it
ends there. -/
theorem larger_limit_unseen (m : Machine Empty) (e : Expr) (line : Option Nat) {limit limit' : Nat}
    (hle : limit ≤ limit') :
    (∀ o m', Ends (fun k => evaluate k e line) (m.withLimit limit) o m' →
      (∀ l, o ≠ .failed (.depthExceeded l)) →
      Ends (fun k => evaluate k e line) (m.withLimit limit') o (m'.withLimit limit')) ∧
    ∀ l m' o' n', Ends (fun k => evaluate k e line) (m.withLimit limit)
      (.failed (.depthExceeded l)) m' →
      Ends (fun k => evaluate k e line) (m.withLimit limit') o' n' →
      ∃ written, n'.transcript = m'.transcript ++ written := by
  have hraised :
      ∀ k, Raised limit' (evaluate k e line (m.withLimit limit))
        (evaluate k e line (m.withLimit limit')) :=
    fun k => ((LimitBlind.compositional.all k).1 e line).raised (m.withLimit limit) limit' hle
  constructor
  · rintro o m' ⟨k, hk⟩ hwithin
    have hk' := hraised k
    generalize hn : evaluate k e line (m.withLimit limit') = r at hk'
    dsimp only at hk
    rw [hk] at hk'
    cases hk' with
    | same _ => exact ⟨k, hn⟩
    | parted _ => exact absurd rfl (hwithin _)
  · rintro l m' o' n' ⟨k, hk⟩ ⟨k', hk'⟩
    -- The two may have ended with different fuel; with more of it the results stay.
    have hfirst :
        evaluate (max k k') e line (m.withLimit limit) = some (.failed (.depthExceeded l), m') :=
      evaluate_mono e line (Nat.le_max_left k k') _ _ hk
    have hsecond : evaluate (max k k') e line (m.withLimit limit') = some (o', n') :=
      evaluate_mono e line (Nat.le_max_right k k') _ _ hk'
    have hboth := hraised (max k k')
    rw [hfirst, hsecond] at hboth
    have hwritten : m'.transcript ≤ n'.transcript := by
      cases hboth with
      | same _ => exact le_rfl
      | parted hlater => exact hlater o' n' rfl
    exact hwritten

/-- A function that writes a line by `PRINT` and calls another that does so too. One call is not
enough, two are, and a third that may be made is not missed. -/
theorem larger_limit_unseen_by_nested_calls :
    let m : Machine Empty := {}
    let write (s : String) : Expr := .node "PRINT" (.lit (.str s)) none none
    let call (name : String) : Expr := .node name (.lit .null) none none
    let define (name : String) (body : Expr) : Expr :=
      .node "FUNCTION" (.lit (.str name)) (some ⟨{ document := 0 }, body⟩) none
    let e : Expr :=
      .script [define "f" (.script [write "x", call "g"]), define "g" (write "y"), call "f"]
    let done : Outcome Empty (Value Empty) := .value (.list [.null, .null, .null])
    ∃ m₁ m₂, Ends (fun k => evaluate k e none) (m.withLimit 1) (.failed (.depthExceeded 1)) m₁ ∧
      m₁.transcript.lines = #["x"] ∧
      Ends (fun k => evaluate k e none) (m.withLimit 2) done m₂ ∧
      m₂.transcript.lines = #["x", "y"] ∧
      (∃ written, m₂.transcript = m₁.transcript ++ written) ∧
      Ends (fun k => evaluate k e none) (m.withLimit 3) done (m₂.withLimit 3) := by
  intro m write call define e done
  have hone :
    ∃ m₁, Ends (fun k => evaluate k e none) (m.withLimit 1) (.failed (.depthExceeded 1)) m₁ ∧
      m₁.transcript.lines = #["x"] := ⟨_, ⟨9, rfl⟩, rfl⟩
  have htwo : ∃ m₂, Ends (fun k => evaluate k e none) (m.withLimit 2) done m₂ ∧
      m₂.transcript.lines = #["x", "y"] := ⟨_, ⟨9, rfl⟩, rfl⟩
  obtain ⟨m₁, hm₁, hlines₁⟩ := hone
  obtain ⟨m₂, hm₂, hlines₂⟩ := htwo
  have hle : 1 ≤ 2 := by decide
  have hle' : 2 ≤ 3 := by decide
  have hwritten := (larger_limit_unseen m e none hle).2 1 m₁ done m₂ hm₁ hm₂
  have hthree := (larger_limit_unseen m e none hle').1 done m₂ hm₂ nofun
  exact ⟨m₁, m₂, hm₁, hlines₁, hm₂, hlines₂, hwritten, hthree⟩

end KeywordScript
