import KeywordScript.Proofs.Unwinding
import KeywordScript.Plugin.Basic

/-! Call depth: the counter is the number of function bodies under way, never exceeds the limit and
is restored however an evaluation ends. -/

namespace KeywordScript

def Discipline.depth : Discipline where
  step m m' := m'.depth = m.depth ∧ m'.maxDepth = m.maxDepth
  refl _ := ⟨rfl, rfl⟩
  trans h h' := ⟨h'.1.trans h.1, h'.2.trans h.2⟩
  bind _ _ _ := ⟨rfl, rfl⟩
  assign _ _ _ _ := ⟨rfl, rfl⟩
  advance _ _ h _ := h
  print _ _ := ⟨rfl, rfl⟩
  report _ _ := ⟨rfl, rfl⟩
  issue _ := ⟨rfl, rfl⟩
  scope h := h
  call _ h := ⟨by rw [h.1]; rfl, h.2⟩

theorem Discipline.depth_governs (a : Activation) : Discipline.depth.Governs a :=
  governs_of_trivial (fun _ => trivial) (fun _ => trivial) (fun _ => trivial) (fun _ _ => trivial) a

namespace Activation

variable {a b : Activation} {m' : Machine Empty}

/-- Every job ends at the depth it started at, under the same limit. -/
theorem Ends.depth {o : Outcome Empty a.job.Result} (h : a.Ends o m') :
    m'.depth = a.machine.depth ∧ m'.maxDepth = a.machine.maxDepth :=
  (Discipline.Governs.kept (fun _ _ _ _ hs => hs) (Discipline.depth_governs a) h).step

/-- Only the body of a function starts at another depth, and only below the limit. -/
theorem Starts.depth (h : Starts a b) :
    b.machine.depth = a.machine.depth + (if b.isBody then 1 else 0) ∧
      b.machine.maxDepth = a.machine.maxDepth ∧
      (b.isBody = true → a.machine.depth < a.machine.maxDepth) := by
  have hsame : ∀ {m m₁ : Machine Empty}, m₁.depth = m.depth ∧ m₁.maxDepth = m.maxDepth →
      m₁.depth = m.depth + 0 ∧ m₁.maxDepth = m.maxDepth ∧ (false = true → m.depth < m.maxDepth) :=
    fun h => ⟨h.1, h.2, nofun⟩
  cases h with
  | script => exact hsame ⟨rfl, rfl⟩
  | item => exact hsame ⟨rfl, rfl⟩
  | nextItem he => exact hsame he.depth
  | argument => exact hsame ⟨rfl, rfl⟩
  | call he _ => exact hsame he.depth
  | branch _ => exact hsame ⟨rfl, rfl⟩
  | count _ => exact hsame ⟨rfl, rfl⟩
  | pass _ _ => exact hsame ⟨rfl, rfl⟩
  | nextPass _ _ he ha =>
    obtain ⟨x, -, rfl⟩ := Count.advance_eq_value ha
    exact hsame he.depth
  | loop _ => exact hsame ⟨rfl, rfl⟩
  | condition => exact hsame ⟨rfl, rfl⟩
  | round he _ => exact hsame he.depth
  | nextRound he _ hb => exact hsame ⟨hb.depth.1.trans he.depth.1, hb.depth.2.trans he.depth.2⟩
  | enter hlt => exact ⟨rfl, rfl, fun _ => hlt⟩
  | @body f args m =>
    obtain ⟨hm, -, ha⟩ := Discipline.depth_governs ⟨.body f args, m⟩
    exact hsame (Discipline.bindAll_kept f.params ha hm).1

/-- At every time the counter has grown by the number of bodies that were entered and not yet
left. -/
theorem UnderWay.depth {rest : List Activation} (h : UnderWay a (b :: rest)) :
    b.machine.depth + bodies [a] = a.machine.depth + bodies (b :: rest) ∧
      b.machine.maxDepth = a.machine.maxDepth ∧
      (a.machine.depth ≤ a.machine.maxDepth → b.machine.depth ≤ b.machine.maxDepth) := by
  induction h using UnderWay.innermost with
  | start => exact ⟨rfl, rfl, id⟩
  | @next b rest c h hc ih =>
    obtain ⟨hd, hl, hle⟩ := ih
    obtain ⟨hd', hl', hlt⟩ := hc.depth
    refine ⟨?_, hl'.trans hl, fun h₀ => ?_⟩
    · rw [bodies_cons c]
      omega
    · have hle₁ := hle h₀
      split at hd'
      · have hlt₁ := hlt ‹_›
        omega
      · omega

end Activation

theorem Machine.importPlugin_depth (m : Machine Empty) (p : Plugin Empty) :
    (m.importPlugin p).depth = m.depth ∧ (m.importPlugin p).maxDepth = m.maxDepth := by
  unfold Machine.importPlugin
  induction p.entries generalizing m with
  | nil => exact ⟨rfl, rfl⟩
  | cons entry rest ih =>
    obtain ⟨name, e⟩ := entry
    rw [List.foldl_cons]
    cases e with
    | value v => exact ih _
    | native action => exact ih _

/-- What a host can do to a machine, one operation after the other. It may put any stack in place of
the one that is there, and what it does before a run is again a session. -/
inductive Session : Machine Empty → Machine Empty → Prop where
  | refl (m) : Session m m
  | trans {m m₁ m'} : Session m m₁ → Session m₁ m' → Session m m'
  | evaluate {fuel e line m o m'} : evaluate fuel e line m = some (o, m') → Session m m'
  | call {fuel callee args m o m'} : call fuel callee args m = some (o, m') → Session m m'
  | run {fuel script m r m'} : m.run fuel script = some (r, m') → Session m m'
  | runAfter {fuel init script m r m'} : (∀ o m₁, init m = some (o, m₁) → Session m m₁) →
    m.runAfter fuel init script = some (r, m') → Session m m'
  | importPlugin (m p) : Session m (m.importPlugin p)
  | print (m line) : Session m (m.print line)
  | stack (m s) : Session m { m with stack := s }

theorem depth_of_runAfter {fuel : Nat} {init : EvalM Empty Unit} {script : List Expr}
    {m m' : Machine Empty} {r : Except (RunError Empty) (List (Value Empty))}
    (hinit : ∀ o m₁, init m = some (o, m₁) → m₁.depth = m.depth ∧ m₁.maxDepth = m.maxDepth)
    (h : m.runAfter fuel init script = some (r, m')) :
    m'.depth = m.depth ∧ m'.maxDepth = m.maxDepth := by
  obtain ⟨⟨o, m₁⟩, hs, he⟩ := Option.map_eq_some_iff.mp h
  cases he
  have hscript : (evaluateScript fuel init script).Ensures m
      fun _ m' => m'.depth = m.depth ∧ m'.maxDepth = m.maxDepth := by
    rw [evaluateScript, EvalM.ensures_inScope, EvalM.ensures_bind]
    intro o₁ m₁ h₁
    have hi := hinit o₁ m₁ h₁
    cases o₁ with
    | value _ =>
      intro o₂ m₂ h₂
      have hitems := Activation.Ends.depth (a := ⟨.items 1 script, m₁⟩) ⟨fuel, h₂⟩
      exact ⟨hitems.1.trans hi.1, hitems.2.trans hi.2⟩
    | returned v => exact hi
    | failed f => exact hi
  exact hscript o _ hs

theorem Session.depth {m m' : Machine Empty} (h : Session m m') :
    m'.depth = m.depth ∧ m'.maxDepth = m.maxDepth := by
  induction h with
  | refl m => exact ⟨rfl, rfl⟩
  | trans _ _ ih ih' => exact ⟨ih'.1.trans ih.1, ih'.2.trans ih.2⟩
  | @evaluate fuel e line m o m' h => exact Activation.Ends.depth (a := ⟨.expr e line, m⟩) ⟨fuel, h⟩
  | @call fuel callee args m o m' h =>
    exact Activation.Ends.depth (a := ⟨.call callee args, m⟩) ⟨fuel, h⟩
  | @run fuel script m r m' h =>
    refine depth_of_runAfter (fun o m₁ hi => ?_) h
    cases hi
    exact ⟨rfl, rfl⟩
  | runAfter _ h ih => exact depth_of_runAfter ih h
  | importPlugin m p => exact m.importPlugin_depth p
  | print m line => exact ⟨rfl, rfl⟩
  | stack m s => exact ⟨rfl, rfl⟩

namespace Activation

variable {a b : Activation}

theorem UnderWay.depth_eq {rest : List Activation} (h : UnderWay a (b :: rest))
    (ha : a.isBody = false) :
    b.machine.depth = a.machine.depth + bodies (b :: rest) := by
  have hdepth := h.depth.1
  rwa [bodies_cons a, ha, bodies_nil] at hdepth

/-- A body ends as its items do, with the parameters bound before and all dropped after. -/
private theorem ends_body_iff {f : Function} {args : List (Value Empty)} {m m' : Machine Empty}
    {o : Outcome Empty (List (Value Empty))} :
    Ends ⟨.body f args, m⟩ o m' ↔
      ∃ m₁, Ends ⟨.items 1 f.body.items, m.bindAll f.params args⟩ o m₁ ∧
        m' = m₁.truncate m.stack.size := by
  constructor
  · rintro ⟨n, hn⟩
    obtain ⟨⟨o₁, m₁⟩, hitems, he⟩ := Option.map_eq_some_iff.mp hn
    cases he
    exact ⟨m₁, ⟨n, hitems⟩, rfl⟩
  · rintro ⟨m₁, ⟨n, hitems⟩, rfl⟩
    exact ⟨n, Option.map_eq_some_iff.mpr ⟨(o, m₁), hitems, rfl⟩⟩

/-- Below the limit a call of a function ends as its body does one level deeper. What the body
returns is the value of the call, and the level is counted back. -/
theorem ends_call_function_iff {f : Function} {args : List (Value Empty)} {m m' : Machine Empty}
    {o : Outcome Empty (Value Empty)} (hlt : m.depth < m.maxDepth) :
    Ends ⟨.call (.func f) args, m⟩ o m' ↔
      ∃ o' m₁, Ends ⟨.items 1 f.body.items,
          Machine.bindAll { m with depth := m.depth + 1 } f.params args⟩ o' m₁ ∧
        o = o'.ofBody ∧ m' = { m₁.truncate m.stack.size with depth := m.depth } := by
  have hdepth {o' : Outcome Empty (List (Value Empty))} {m₁ : Machine Empty}
      (h : Ends ⟨.body f args, { m with depth := m.depth + 1 }⟩ o' m₁) :
        m₁.depth - 1 = m.depth := by
    rw [h.depth.1]
    rfl
  constructor
  · rintro ⟨n, hn⟩
    change KeywordScript.call n (.func f) args m = _ at hn
    cases n with
    | zero => cases hn
    | succ n =>
      rw [KeywordScript.call, Function.invoke_eq_asCall, EvalM.asCall_of_lt _ hlt] at hn
      obtain ⟨⟨o', m₁⟩, hbody, he⟩ := Option.map_eq_some_iff.mp hn
      cases he
      have hends : Ends ⟨.body f args, { m with depth := m.depth + 1 }⟩ o' m₁ := ⟨n, hbody⟩
      rw [hdepth hends]
      obtain ⟨m₂, hitems, rfl⟩ := ends_body_iff.mp hends
      exact ⟨o', m₂, hitems, rfl, rfl⟩
  · rintro ⟨o', m₁, hitems, rfl, rfl⟩
    have hbody := ends_body_iff.mpr ⟨m₁, hitems, rfl⟩
    have hcall := ends_call_function hlt hbody
    rw [hdepth hbody] at hcall
    exact hcall

theorem call_function_of_le (fuel : Nat) (f : Function) (args : List (Value Empty))
    {m : Machine Empty} (hle : m.maxDepth ≤ m.depth) :
    KeywordScript.call (fuel + 1) (.func f) args m =
      some (.failed (.depthExceeded m.maxDepth), m) := by
  rw [KeywordScript.call, Function.invoke_eq_asCall, EvalM.asCall_of_le _ hle]

/-- Below the limit a call does not fail before its body has been started: the least fuel is enough
to find the limit reached and not enough to evaluate anything. -/
private theorem call_one_ne_failed {f : Function} {args : List (Value Empty)} {m m' : Machine Empty}
    (hlt : m.depth < m.maxDepth) (e : Fault) :
    KeywordScript.call 1 (.func f) args m ≠ some (.failed e, m') := by
  intro h
  rw [KeywordScript.call, Function.invoke_eq_asCall, EvalM.asCall_of_lt _ hlt] at h
  obtain ⟨⟨o, m₁⟩, hbody, he⟩ := Option.map_eq_some_iff.mp h
  obtain ⟨⟨o', m₂⟩, hitems, hscope⟩ := Option.map_eq_some_iff.mp hbody
  cases hscope
  change evaluateItems (evaluate 0) 1 f.body.items _ = _ at hitems
  generalize f.body.items = items at hitems
  cases items with
  | nil =>
    cases hitems
    cases he
  | cons item rest => cases hitems

/-- A call of a function fails at once, on the machine as it is and with no body started, exactly
when the bodies under way have reached the limit. -/
theorem UnderWay.fails_iff {f : Function} {args : List (Value Empty)} {m : Machine Empty}
    {rest : List Activation} (h : UnderWay a (⟨.call (.func f) args, m⟩ :: rest))
    (ha : a.isBody = false) :
    (Ends ⟨.call (.func f) args, m⟩ (.failed (.depthExceeded a.machine.maxDepth)) m ∧
      ∀ b, ¬Starts ⟨.call (.func f) args, m⟩ b) ↔
        a.machine.maxDepth ≤ a.machine.depth + bodies rest := by
  have hdepth : m.depth = a.machine.depth + bodies rest := by simpa using h.depth_eq ha
  have hlimit : m.maxDepth = a.machine.maxDepth := h.depth.2.1
  rw [← hlimit]
  constructor
  · rintro ⟨-, hnone⟩
    by_contra hlt
    exact hnone _ (.enter (by omega))
  · intro hle
    have hfull : m.maxDepth ≤ m.depth := by omega
    refine ⟨⟨1, call_function_of_le 0 f args hfull⟩, ?_⟩
    intro b hb
    cases hb with
    | enter hlt => omega

/-- Along every session the counter of calls and its limit stay, so a machine that was never used
counts none. At any time during an evaluation, a call or a run the counter has grown by the number
of function bodies under way; it stays within the limit, and a job ends at the depth it started at,
so that there is a call to count off when a body ends. A call of a function fails at once exactly
when as many bodies are under way as there may be. Otherwise it ends if and only if its body does,
one level deeper, and the level is counted back. -/
theorem call_depth_exact :
    (∀ m m', Session m m' → m'.depth = m.depth ∧ m'.maxDepth = m.maxDepth) ∧
    (∀ limit m', Session { maxDepth := limit } m' → m'.depth = 0) ∧
    (∀ (a b : Activation) (rest : List Activation), a.isBody = false → UnderWay a (b :: rest) →
      b.machine.depth = a.machine.depth + bodies (b :: rest) ∧
      b.machine.maxDepth = a.machine.maxDepth ∧
      (a.machine.depth ≤ a.machine.maxDepth → b.machine.depth ≤ a.machine.maxDepth) ∧
      ∀ o m', b.Ends o m' → m'.depth = b.machine.depth ∧ m'.maxDepth = a.machine.maxDepth ∧
        (b.isBody = true → 0 < m'.depth)) ∧
    ∀ (a : Activation) (f : Function) (args : List (Value Empty)) (m : Machine Empty)
      (rest : List Activation), a.isBody = false → UnderWay a (⟨.call (.func f) args, m⟩ :: rest) →
      a.machine.depth ≤ a.machine.maxDepth →
      ((Ends ⟨.call (.func f) args, m⟩ (.failed (.depthExceeded a.machine.maxDepth)) m ∧
          ∀ b, ¬Starts ⟨.call (.func f) args, m⟩ b) ↔
        a.machine.depth + bodies rest = a.machine.maxDepth) ∧
      ((∀ fuel, KeywordScript.call (fuel + 1) (.func f) args m =
          some (.failed (.depthExceeded a.machine.maxDepth), m)) ↔
        a.machine.depth + bodies rest = a.machine.maxDepth) ∧
      (a.machine.depth + bodies rest < a.machine.maxDepth →
        ∀ o m', Ends ⟨.call (.func f) args, m⟩ o m' ↔
          ∃ o' m₁, Ends ⟨.items 1 f.body.items,
              Machine.bindAll { m with depth := m.depth + 1 } f.params args⟩ o' m₁ ∧
            o = o'.ofBody ∧ m' = { m₁.truncate m.stack.size with depth := m.depth }) := by
  refine ⟨fun _ _ h => h.depth, fun _ _ h => h.depth.1, ?_, ?_⟩
  · intro a b rest ha h
    obtain ⟨-, hl, hle⟩ := h.depth
    have hd := h.depth_eq ha
    refine ⟨hd, hl, fun h₀ => hl ▸ hle h₀, fun o m' he => ⟨he.depth.1, he.depth.2.trans hl, ?_⟩⟩
    intro hb
    rw [he.depth.1, hd, bodies_cons, if_pos hb]
    omega
  · intro a f args m rest ha h h₀
    have hdepth : m.depth = a.machine.depth + bodies rest := by simpa using h.depth_eq ha
    have hbound : m.depth ≤ m.maxDepth := h.depth.2.2 h₀
    have hlimit : m.maxDepth = a.machine.maxDepth := h.depth.2.1
    refine ⟨?_, ⟨fun hfails => ?_, fun hfull fuel => ?_⟩, fun hlt o m' => ?_⟩
    · rw [h.fails_iff ha]
      omega
    · by_contra hne
      exact call_one_ne_failed (by omega) _ (hfails 0)
    · rw [← hlimit]
      exact call_function_of_le fuel f args (by omega)
    · exact ends_call_function_iff (by omega)

/-- A function that calls itself where one call may be under way: the first ends as its body does,
the second fails at once, and a run that fails so leaves none under way. -/
theorem call_depth_exact_when_recursing :
    let again : Expr := .node "f" (.lit .null) none none
    let script : List Expr :=
      [.node "FUNCTION" (.lit (.str "f")) (some ⟨{ document := 0 }, .script [again]⟩) none, again]
    ∃ (f : Function) (m₀ m : Machine Empty) (rest₀ rest : List Activation),
      UnderWay ⟨.items 1 script, { maxDepth := 1 }⟩ (⟨.call (.func f) [.null], m₀⟩ :: rest₀) ∧
      bodies rest₀ = 0 ∧
      Ends ⟨.call (.func f) [.null], m₀⟩ (.failed (.depthExceeded 1)) m₀ ∧
      UnderWay ⟨.items 1 script, { maxDepth := 1 }⟩ (⟨.call (.func f) [.null], m⟩ :: rest) ∧
      bodies rest = 1 ∧ m.depth = 1 ∧
      (∀ fuel, KeywordScript.call (fuel + 1) (.func f) [.null] m =
        some (.failed (.depthExceeded 1), m)) ∧
      ∃ fuel m', Machine.run ({ maxDepth := 1 } : Machine Empty) fuel script =
        some (.error (.fault (.depthExceeded 1)), m') ∧ m'.depth = 0 := by
  intro again script
  have hdefined :=
    UnderWay.start.next (a := ⟨.items 1 script, { maxDepth := 1 }⟩) (.nextItem ⟨4, rfl⟩)
  have hcall := (hdefined.next .item).next (.call ⟨1, rfl⟩ rfl)
  have hbody := (hcall.next (.enter Nat.one_pos)).next .body
  have hagain := (hbody.next .item).next (.call ⟨1, rfl⟩ rfl)
  obtain ⟨-, hfresh, hmoment, hlimit⟩ := call_depth_exact
  obtain ⟨-, -, hbelow⟩ := hlimit _ _ _ _ _ rfl hcall (Nat.zero_le 1)
  obtain ⟨-, hfull, -⟩ := hlimit _ _ _ _ _ rfl hagain (Nat.zero_le 1)
  have hends := (hbelow Nat.one_pos (.failed (.depthExceeded 1)) _).mpr
    ⟨.failed (.depthExceeded 1), _, ⟨4, rfl⟩, rfl, rfl⟩
  have hrun : Machine.run ({ maxDepth := 1 } : Machine Empty) 8 script = some _ := rfl
  exact ⟨_, _, _, _, _, hcall, rfl, hends, hagain, rfl,
    (hmoment _ _ _ rfl hagain).1, hfull.mpr rfl, 8, _, rfl, hfresh 1 _ (.run hrun)⟩

end Activation

end KeywordScript
