import KeywordScript.Proofs.Descent
import KeywordScript.Proofs.Diagnostics
import KeywordScript.Proofs.Sequence
import KeywordScript.Proofs.Writing

/-! Printing: what has been printed when a job ends are the lines of the calls of `PRINT`, in the
order of the calls. None is lost, however the job ends, and none comes from anywhere else. -/

namespace KeywordScript

theorem Activation.Ends.unique {a : Activation} {o o' : Outcome Empty a.job.Result}
    {m₁ m₂ : Machine Empty} (h : a.Ends o m₁) (h' : a.Ends o' m₂) : o' = o ∧ m₂ = m₁ := by
  obtain ⟨n, hn⟩ := h'
  have heq := EvalM.Ends.eq_of_run (Job.run_mono a.job) h hn
  exact Prod.mk.inj heq

def Machine.printed {H : Type} (m : Machine H) : List String :=
  m.transcript.lines.toList

theorem Machine.printed_print {H : Type} (m : Machine H) (line : String) :
    (m.print line).printed = m.printed ++ [line] := by
  simp [printed, print, Transcript.print]

theorem Machine.printed_bindAll {H : Type} (m : Machine H) (ps : List String)
    (args : List (Value H)) :
    (m.bindAll ps args).printed = m.printed := by
  induction ps generalizing m args with
  | nil => rfl
  | cons p ps ih => exact ih (m.bind p (args.headD .null)) args.tail

theorem Machine.ReportsSince.printed {m m' : Machine Empty} (h : m.ReportsSince m') :
    m.printed <+: m'.printed := by
  obtain ⟨written, hwritten, -⟩ := h
  refine ⟨written.lines.toList, ?_⟩
  unfold Machine.printed
  rw [hwritten, ← Array.toList_append]
  rfl

/-- The line that the job itself prints, if it is a call of `PRINT`. -/
def Job.ownLines : Job → List String
  | call (.builtin .print) args => [Value.line args]
  | _ => []

theorem Job.ownLines_cases (j : Job) : j.ownLines = [] ∨ ∃ line, j.ownLines = [line] := by
  unfold ownLines
  split
  · exact .inr ⟨_, rfl⟩
  · exact .inl rfl

namespace Activation

variable {a b : Activation} {m m' : Machine Empty}

theorem reports_governs (a : Activation) : Discipline.reports.Governs a :=
  Discipline.governs_of_trivial (fun _ => trivial) (fun _ => trivial) (fun _ => trivial)
    (fun _ _ => trivial) a

theorem Ends.printed {o : Outcome Empty a.job.Result} (h : a.Ends o m') :
    a.machine.printed <+: m'.printed :=
  ((reports_governs a).kept Discipline.reports_setsNumbers h).step.2.printed

theorem UnderWay.printed {rest : List Activation} (h : UnderWay a (b :: rest)) :
    a.machine.printed <+: b.machine.printed :=
  ((reports_governs a).step_of_underWay Discipline.reports_setsNumbers
    Discipline.reports_ignoresDepth h).2.printed

/-- While `a` is under way, a call of `PRINT` writes `line` when `i` lines have been printed. -/
def PrintsAt (a : Activation) (i : Nat) (line : String) : Prop :=
  ∃ args m rest, UnderWay a (⟨.call (.builtin .print) args, m⟩ :: rest) ∧ m.printed.length = i ∧
    line = Value.line args

theorem PrintsAt.le {i : Nat} {line : String} (h : PrintsAt a i line) :
    a.machine.printed.length ≤ i := by
  obtain ⟨args, m, rest, hu, rfl, -⟩ := h
  exact hu.printed.length_le

/-- A call of `PRINT` is the job itself or comes in one that it starts. -/
theorem printsAt_iff {i : Nat} {line : String} :
    PrintsAt a i line ↔
      (a.job.ownLines = [line] ∧ a.machine.printed.length = i) ∨ ∃ b, Starts a b ∧
        PrintsAt b i line := by
  constructor
  · rintro ⟨args, m, rest, hu, hi, rfl⟩
    rcases hu.eq_or_starts with ⟨rfl, -⟩ | ⟨b, rest', hs, hb, -⟩
    · exact .inl ⟨rfl, hi⟩
    · exact .inr ⟨b, hs, args, m, rest', hb, hi, rfl⟩
  · rintro (⟨hown, hi⟩ | ⟨b, hs, args, m, rest, hu, hi, hline⟩)
    · obtain ⟨job, m⟩ := a
      unfold Job.ownLines at hown
      split at hown
      · rename_i args hjob
        cases hjob
        obtain ⟨rfl, -⟩ := List.cons.inj hown
        exact ⟨args, m, [], .start, hi, rfl⟩
      · cases hown
    · exact ⟨args, m, rest ++ [a], .of_starts hs hu, hi, hline⟩

/-- Jobs that `a` starts one after the other lead from some lines to others, and no line is printed
between them. -/
inductive Relay (a : Activation) : List String → List Activation → List String → Prop where
  | done {lines} : Relay a lines [] lines
  | next {b o m' bs lines lines'} : Starts a b → b.machine.printed = lines → b.Ends o m' →
    Relay a m'.printed bs lines' → Relay a lines (b :: bs) lines'

/-- A job that ends prints its own line and leaves the rest to the jobs that it starts. -/
def Delegates (a : Activation) (m' : Machine Empty) : Prop :=
  ∃ bs, (∀ b, Starts a b → b ∈ bs) ∧ Relay a (a.machine.printed ++ a.job.ownLines) bs m'.printed

section Delegates

theorem delegates_none (hstarts : ∀ b, ¬Starts a b)
    (hown : m'.printed = a.machine.printed ++ a.job.ownLines) :
    Delegates a m' :=
  ⟨[], fun b hb => (hstarts b hb).elim, hown ▸ .done⟩

theorem delegates_idle (hown : a.job.ownLines = []) (hstarts : ∀ b, ¬Starts a b) :
    Delegates a a.machine := by
  refine delegates_none hstarts ?_
  rw [hown, List.append_nil]

theorem delegates_of_relay (hown : a.job.ownLines = []) {bs : List Activation}
    (hstarts : ∀ b, Starts a b → b ∈ bs) (hrelay : Relay a a.machine.printed bs m'.printed) :
    Delegates a m' := by
  refine ⟨bs, hstarts, ?_⟩
  rwa [hown, List.append_nil]

theorem delegates_one {o : Outcome Empty b.job.Result} (hown : a.job.ownLines = [])
    (hs : Starts a b) (hfirst : b.machine.printed = a.machine.printed) (hb : b.Ends o m)
    (hlast : m'.printed = m.printed) (hstarts : ∀ c, Starts a c → c = b) : Delegates a m' := by
  refine delegates_of_relay hown (fun c hc => List.mem_singleton.mpr (hstarts c hc)) ?_
  rw [hlast]
  exact .next hs hfirst hb .done

private theorem delegates_node {k : String} {arg : Expr} {code : Option Code}
    {line context : Option Nat} {o : Outcome Empty (Value Empty)}
    (h : Ends ⟨.expr (.node k arg code line) context, m⟩ o m') :
    Delegates ⟨.expr (.node k arg code line) context, m⟩ m' := by
  obtain ⟨n, hn⟩ := h
  change evaluate n (.node k arg code line) context m = _ at hn
  obtain ⟨n, rfl⟩ := exists_succ_of_evaluate hn
  rw [evaluate_node] at hn
  rcases EvalM.bind_eq_some hn with ⟨v, m₁, harg, hdispatch⟩ | ⟨v, harg, rfl⟩ | ⟨f, harg, rfl⟩
  · have he : Ends ⟨.expr arg (line <|> context), m⟩ (.value v) m₁ := ⟨n, harg⟩
    cases hf : m₁.find? k with
    | none =>
      rw [dispatch_of_not_find hf] at hdispatch
      cases hdispatch
      refine delegates_one rfl .argument rfl he rfl fun c hc => ?_
      cases hc with
      | argument => rfl
      | call he' hf' =>
        obtain ⟨-, rfl⟩ := he.unique he'
        rw [hf] at hf'
        cases hf'
    | some callee =>
      rw [dispatch_of_find hf] at hdispatch
      let args := v.arguments ++ (code.map Value.code).toList
      have hcall : Ends ⟨.call callee args, m₁⟩ o m' := ⟨n, hdispatch⟩
      refine delegates_of_relay rfl (fun c hc => ?_)
        (.next .argument rfl he (.next (.call he hf) rfl hcall .done))
      cases hc with
      | argument => exact List.mem_cons_self
      | call he' hf' =>
        obtain ⟨ho, rfl⟩ := he.unique he'
        cases ho
        rw [hf] at hf'
        cases hf'
        exact List.mem_cons_of_mem _ List.mem_cons_self
  all_goals
    have he : Ends ⟨.expr arg (line <|> context), m⟩ _ m' := ⟨n, harg⟩
    refine delegates_one rfl .argument rfl he rfl fun c hc => ?_
    cases hc with
    | argument => rfl
    | call he' hf' =>
      obtain ⟨ho, -⟩ := he.unique he'
      cases ho

private theorem delegates_items {line : Nat} {es : List Expr}
    {o : Outcome Empty (List (Value Empty))} (h : Ends ⟨.items line es, m⟩ o m') :
    Delegates ⟨.items line es, m⟩ m' := by
  obtain ⟨n, hn⟩ := h
  change evaluateItems (evaluate n) line es m = _ at hn
  cases es with
  | nil =>
    cases hn
    refine delegates_idle rfl fun b hb => ?_
    cases hb
  | cons e rest =>
    rcases EvalM.bind_eq_some hn with ⟨v, m₁, hitem, hnext⟩ | ⟨v, hitem, rfl⟩ | ⟨f, hitem, rfl⟩
    · have he : Ends ⟨.expr e (some line), m⟩ (.value v) m₁ := ⟨n, hitem⟩
      have hrest : ∃ o', Ends ⟨.items (line + 1) rest, m₁⟩ o' m' := by
        rcases EvalM.bind_eq_some hnext with ⟨vs, m₂, hvs, hpure⟩ | ⟨w, hvs, -⟩ | ⟨f, hvs, -⟩
        · cases hpure
          exact ⟨_, n, hvs⟩
        · exact ⟨_, n, hvs⟩
        · exact ⟨_, n, hvs⟩
      obtain ⟨o', hrest⟩ := hrest
      refine delegates_of_relay rfl (fun c hc => ?_)
        (.next .item rfl he (.next (.nextItem he) rfl hrest .done))
      cases hc with
      | item => exact List.mem_cons_self
      | nextItem he' =>
        obtain ⟨-, rfl⟩ := he.unique he'
        exact List.mem_cons_of_mem _ List.mem_cons_self
    all_goals
      have he : Ends ⟨.expr e (some line), m⟩ _ m' := ⟨n, hitem⟩
      refine delegates_one rfl .item rfl he rfl fun c hc => ?_
      cases hc with
      | item => rfl
      | nextItem he' =>
        obtain ⟨ho, -⟩ := he.unique he'
        cases ho

private theorem delegates_passes {c : Count} {slot : Nat} {o : Outcome Empty Unit}
    (h : Ends ⟨.passes c slot, m⟩ o m') :
    Delegates ⟨.passes c slot, m⟩ m' := by
  obtain ⟨n, hn⟩ := h
  change c.passes slot (evaluate n c.body none) n m = _ at hn
  cases n with
  | zero => cases hn
  | succ n =>
    cases Count.turn_of_passes hn with
    | unread hf =>
      refine delegates_idle rfl fun b hb => ?_
      cases hb with
      | pass hx _ => cases hf.symm.trans hx
      | nextPass hx _ _ _ => cases hf.symm.trans hx
    | past hx hle =>
      refine delegates_idle rfl fun b hb => ?_
      cases hb with
      | pass hx' hle' =>
        cases hx.symm.trans hx'
        exact hle hle'
      | nextPass hx' hle' _ _ =>
        cases hx.symm.trans hx'
        exact hle hle'
    | left hx hle hbody | broken hx hle hbody =>
      have he : Ends ⟨.expr c.body none, m⟩ _ m' := ⟨n + 1, hbody⟩
      refine delegates_one rfl (.pass hx hle) rfl he rfl fun b hb => ?_
      cases hb with
      | pass _ _ => rfl
      | nextPass _ _ he' _ => cases (he.unique he').1
    | @spoilt x v f m₁ hx hle hbody hf =>
      have he : Ends ⟨.expr c.body none, m⟩ (.value v) m' := ⟨n + 1, hbody⟩
      refine delegates_one rfl (.pass hx hle) rfl he rfl fun b hb => ?_
      cases hb with
      | pass _ _ => rfl
      | nextPass _ _ he' ha =>
        obtain ⟨-, rfl⟩ := he.unique he'
        obtain ⟨y, hy, -⟩ := Count.advance_eq_value ha
        cases hf.symm.trans hy
    | @next x v m₁ m₂ _ _ hx hle hbody hadvance hrest =>
      have he : Ends ⟨.expr c.body none, m⟩ (.value v) m₁ := ⟨n + 1, hbody⟩
      have hnext : Ends ⟨.passes c slot, m₂⟩ o m' :=
        ⟨n + 1, c.passes_mono slot le_rfl (Nat.le_succ n) m₂ _ hrest⟩
      have hsame : m₂.printed = m₁.printed := by
        obtain ⟨y, -, rfl⟩ := Count.advance_eq_value hadvance
        rfl
      have hrelay := Relay.next (.nextPass hx hle he hadvance) hsame hnext .done
      refine delegates_of_relay rfl (fun b hb => ?_) (.next (.pass hx hle) rfl he hrelay)
      cases hb with
      | pass _ _ => exact List.mem_cons_self
      | nextPass _ _ he' ha =>
        obtain ⟨-, rfl⟩ := he.unique he'
        cases hadvance.symm.trans ha
        exact List.mem_cons_of_mem _ List.mem_cons_self

private theorem delegates_rounds {l : Repetition} {o : Outcome Empty Unit}
    (h : Ends ⟨.rounds l, m⟩ o m') :
    Delegates ⟨.rounds l, m⟩ m' := by
  obtain ⟨n, hn⟩ := h
  change EvalM.whileTruthy (evaluate n l.condition none) (evaluate n l.body none) n m = _ at hn
  cases n with
  | zero => cases hn
  | succ n =>
    rcases EvalM.bind_eq_some hn with
      ⟨v, m₁, hcondition, hafter⟩ | ⟨v, hcondition, rfl⟩ | ⟨f, hcondition, rfl⟩
    · have he : Ends ⟨.expr l.condition none, m⟩ (.value v) m₁ := ⟨n + 1, hcondition⟩
      split at hafter
      · rename_i hv
        rcases EvalM.bind_eq_some hafter with
          ⟨w, m₂, hbody, hrest⟩ | ⟨w, hbody, rfl⟩ | ⟨f, hbody, rfl⟩
        · have hb : Ends ⟨.expr l.body none, m₁⟩ (.value w) m₂ := ⟨n + 1, hbody⟩
          have hnext : Ends ⟨.rounds l, m₂⟩ o m' :=
            ⟨n + 1, EvalM.whileTruthy_mono le_rfl le_rfl (Nat.le_succ n) m₂ _ hrest⟩
          have hlast := Relay.next (.nextRound he hv hb) rfl hnext .done
          refine delegates_of_relay rfl (fun c hc => ?_)
            (.next .condition rfl he (.next (.round he hv) rfl hb hlast))
          cases hc with
          | condition => simp
          | round he' _ =>
            obtain ⟨-, rfl⟩ := he.unique he'
            simp
          | nextRound he' _ hb' =>
            obtain ⟨-, rfl⟩ := he.unique he'
            obtain ⟨-, rfl⟩ := hb.unique hb'
            simp
        all_goals
          have hb : Ends ⟨.expr l.body none, m₁⟩ _ m' := ⟨n + 1, hbody⟩
          refine delegates_of_relay rfl (fun c hc => ?_)
            (.next .condition rfl he (.next (.round he hv) rfl hb .done))
          cases hc with
          | condition => simp
          | round he' _ =>
            obtain ⟨-, rfl⟩ := he.unique he'
            simp
          | nextRound he' _ hb' =>
            obtain ⟨-, rfl⟩ := he.unique he'
            cases (hb.unique hb').1
      · rename_i hv
        cases hafter
        refine delegates_one rfl .condition rfl he rfl fun c hc => ?_
        cases hc with
        | condition => rfl
        | round he' hv' | nextRound he' hv' _ =>
          cases (he.unique he').1
          exact absurd hv' hv
    all_goals
      have he : Ends ⟨.expr l.condition none, m⟩ _ m' := ⟨n + 1, hcondition⟩
      refine delegates_one rfl .condition rfl he rfl fun c hc => ?_
      cases hc with
      | condition => rfl
      | round he' _ | nextRound he' _ _ => cases (he.unique he').1

/-- A keyword other than `IF`, `FOR` and `WHILE` prints its own line and nothing else. -/
theorem printed_invoke {k : Keyword} (hchoose : k ≠ .choose) (hcount : k ≠ .count)
    (hloop : k ≠ .loop) (n : Nat) (ev : Expr → Option Nat → EvalM Empty (Value Empty))
    (args : List (Value Empty)) (m : Machine Empty) :
    (k.invoke n ev args).Ensures m fun _ m' =>
      m'.printed = m.printed ++ Job.ownLines (.call (.builtin k) args) := by
  have hsame : m.printed = m.printed ++ [] := (List.append_nil _).symm
  have hassign (b : Binding Empty) : (b.assign m).printed = m.printed ++ [] := by
    unfold Binding.assign
    split
    · exact hsame
    · exact hsame
  have hnull {f : Machine Empty → Machine Empty} {lines : List String}
      (hf : (f m).printed = m.printed ++ lines) :
      (do .modify f; return .null : EvalM Empty (Value Empty)).Ensures m fun _ m' =>
        m'.printed = m.printed ++ lines := by
    rw [EvalM.ensures_bind, EvalM.ensures_modify]
    exact EvalM.ensures_pure.mpr hf
  unfold Keyword.invoke
  cases k with
  | operator op => exact EvalM.ensures_lift (fun _ _ => hsame) fun _ _ => hsame
  | bind => exact EvalM.ensures_read hsame fun b _ => hnull hsame
  | assign => exact EvalM.ensures_read hsame fun b _ => hnull (hassign b)
  | increment =>
    refine EvalM.ensures_read hsame fun name _ => EvalM.ensures_next ?_ fun _ m₁ _ h₁ =>
      EvalM.ensures_pure.mpr h₁
    rw [increment, EvalM.ensures_bind, EvalM.ensures_gets]
    dsimp only
    split
    · exact EvalM.ensures_modify.mpr (hassign _)
    · exact EvalM.ensures_fail.mpr hsame
    · exact EvalM.ensures_fail.mpr hsame
  | define => exact EvalM.ensures_read hsame fun d _ => hnull hsame
  | leave => exact EvalM.ensures_leave.mpr hsame
  | print => exact hnull (m.printed_print _)
  | choose => exact absurd rfl hchoose
  | count => exact absurd rfl hcount
  | loop => exact absurd rfl hloop

private theorem delegates_choose {n : Nat} {args : List (Value Empty)}
    {o : Outcome Empty (Value Empty)}
    (h : KeywordScript.call (n + 1) (.builtin .choose) args m = some (o, m')) :
    Delegates ⟨.call (.builtin .choose) args, m⟩ m' := by
  rw [call_choose] at h
  split at h
  · rename_i hread
    cases h
    refine delegates_idle rfl fun b hb => ?_
    cases hb with
    | branch hc => cases hread.symm.trans hc
  · rename_i hread
    cases h
    refine delegates_idle rfl fun b hb => ?_
    cases hb with
    | branch hc => cases hread.symm.trans hc
  · rename_i e hread
    rw [EvalM.bind_null] at h
    obtain ⟨⟨o', m₁⟩, he, ho⟩ := Option.map_eq_some_iff.mp h
    cases ho
    have hends : Ends ⟨.expr e none, m⟩ o' m' := ⟨n, he⟩
    refine delegates_one rfl (.branch hread) rfl hends rfl fun b hb => ?_
    cases hb with
    | branch hc =>
      cases hread.symm.trans hc
      rfl

private theorem delegates_count {n : Nat} {args : List (Value Empty)}
    {o : Outcome Empty (Value Empty)}
    (h : KeywordScript.call (n + 1) (.builtin .count) args m = some (o, m')) :
    Delegates ⟨.call (.builtin .count) args, m⟩ m' := by
  cases hread : Count.read args with
  | error f =>
    rw [call_count, hread] at h
    cases h
    refine delegates_idle rfl fun b hb => ?_
    cases hb with
    | count hc => cases hread.symm.trans hc
  | ok c =>
    obtain ⟨o', hends, -⟩ := (ends_call_count_iff hread).mp ⟨n + 1, h⟩
    refine delegates_one rfl (.count hread) rfl hends rfl fun b hb => ?_
    cases hb with
    | count hc =>
      cases hread.symm.trans hc
      rfl

private theorem delegates_loop {n : Nat} {args : List (Value Empty)}
    {o : Outcome Empty (Value Empty)}
    (h : KeywordScript.call (n + 1) (.builtin .loop) args m = some (o, m')) :
    Delegates ⟨.call (.builtin .loop) args, m⟩ m' := by
  cases hread : Repetition.read args with
  | error f =>
    rw [call_loop, hread] at h
    cases h
    refine delegates_idle rfl fun b hb => ?_
    cases hb with
    | loop hc => cases hread.symm.trans hc
  | ok l =>
    obtain ⟨o', hends, -⟩ := (ends_call_loop_iff hread).mp ⟨n + 1, h⟩
    refine delegates_one rfl (.loop hread) rfl hends rfl fun b hb => ?_
    cases hb with
    | loop hc =>
      cases hread.symm.trans hc
      rfl

private theorem delegates_keyword {k : Keyword} {args : List (Value Empty)}
    {o : Outcome Empty (Value Empty)} (h : Ends ⟨.call (.builtin k) args, m⟩ o m') :
    Delegates ⟨.call (.builtin k) args, m⟩ m' := by
  obtain ⟨n, hn⟩ := h
  change KeywordScript.call n (.builtin k) args m = _ at hn
  obtain ⟨n, rfl⟩ := exists_succ_of_call hn
  by_cases hchoose : k = .choose
  · subst hchoose
    exact delegates_choose hn
  by_cases hcount : k = .count
  · subst hcount
    exact delegates_count hn
  by_cases hloop : k = .loop
  · subst hloop
    exact delegates_loop hn
  -- No other keyword starts a job.
  rw [KeywordScript.call] at hn
  refine delegates_none (fun b hb => ?_) (printed_invoke hchoose hcount hloop n _ args m o m' hn)
  cases hb with
  | branch _ => exact hchoose rfl
  | count _ => exact hcount rfl
  | loop _ => exact hloop rfl

private theorem delegates_call {callee : Value Empty} {args : List (Value Empty)}
    {o : Outcome Empty (Value Empty)} (h : Ends ⟨.call callee args, m⟩ o m') :
    Delegates ⟨.call callee args, m⟩ m' := by
  cases callee with
  | builtin k => exact delegates_keyword h
  | native g =>
    obtain ⟨n, hn⟩ := h
    change KeywordScript.call n (.native g) args m = _ at hn
    obtain ⟨n, rfl⟩ := exists_succ_of_call hn
    rw [KeywordScript.call] at hn
    cases haction : g.action with
    | math op =>
      rw [haction] at hn
      have hlift :
          (liftM (op.invoke args) : EvalM Empty (Value Empty)).Ensures m fun _ m' => m' = m :=
        EvalM.ensures_lift (fun _ _ => rfl) fun _ _ => rfl
      obtain rfl := hlift o m' hn
      refine delegates_idle rfl fun b hb => ?_
      cases hb
    | host e => exact e.elim
  | func g =>
    obtain ⟨n, hn⟩ := h
    change KeywordScript.call n (.func g) args m = _ at hn
    obtain ⟨n, rfl⟩ := exists_succ_of_call hn
    rw [KeywordScript.call, Function.invoke_eq_asCall] at hn
    by_cases hlt : m.depth < m.maxDepth
    · rw [EvalM.asCall_of_lt _ hlt] at hn
      obtain ⟨⟨o', m₁⟩, hbody, ho⟩ := Option.map_eq_some_iff.mp hn
      cases ho
      have hends : Ends ⟨.body g args, { m with depth := m.depth + 1 }⟩ o' m₁ := ⟨n, hbody⟩
      refine delegates_one rfl (.enter hlt) rfl hends rfl fun b hb => ?_
      cases hb with
      | enter _ => rfl
    · rw [EvalM.asCall_of_le _ (Nat.le_of_not_lt hlt)] at hn
      cases hn
      refine delegates_idle rfl fun b hb => ?_
      cases hb with
      | enter hlt' => exact hlt hlt'
  | _ =>
    obtain ⟨n, hn⟩ := h
    cases n with
    | zero => cases hn
    | succ n =>
      cases hn
      refine delegates_idle rfl fun b hb => ?_
      cases hb

/-- Every job that ends delegates what it does not print itself. -/
theorem Ends.delegates {o : Outcome Empty a.job.Result} (h : a.Ends o m') : Delegates a m' := by
  obtain ⟨job, m⟩ := a
  cases job with
  | expr e line =>
    cases e with
    | lit l =>
      obtain ⟨n, hn⟩ := h
      obtain ⟨n, rfl⟩ := exists_succ_of_evaluate hn
      cases hn
      refine delegates_idle rfl fun b hb => ?_
      cases hb
    | script es =>
      obtain ⟨n, hn⟩ := h
      obtain ⟨n, rfl⟩ := exists_succ_of_evaluate hn
      change evaluate (n + 1) (.script es) line m = _ at hn
      rw [evaluate_script_eq] at hn
      obtain ⟨⟨o', m₁⟩, hs, ho⟩ := Option.map_eq_some_iff.mp hn
      obtain ⟨m₂, hitems, rfl⟩ := exists_open_of_evaluateScript hs
      cases ho
      have hends : Ends ⟨.items 1 es, m⟩ o' m₂ := ⟨n, hitems⟩
      refine delegates_one rfl .script rfl hends rfl fun b hb => ?_
      cases hb with
      | script => rfl
    | node k arg code ownLine => exact delegates_node h
  | items line es => exact delegates_items h
  | call callee args => exact delegates_call h
  | body f args =>
    obtain ⟨n, hn⟩ := h
    obtain ⟨⟨o', m₁⟩, hitems, ho⟩ := Option.map_eq_some_iff.mp hn
    cases ho
    have hends : Ends ⟨.items 1 f.body.items, m.bindAll f.params args⟩ o m₁ := ⟨n, hitems⟩
    refine delegates_one rfl .body (m.printed_bindAll f.params args) hends rfl fun b hb => ?_
    cases hb with
    | body => rfl
  | passes c slot => exact delegates_passes h
  | rounds l => exact delegates_rounds h

end Delegates

/-- The lines from number `n` on are those that calls of `PRINT` write while `a` is under way. -/
def PrintsFrom (a : Activation) (n : Nat) (lines : List String) : Prop :=
  ∀ i line, n ≤ i → (lines[i]? = some line ↔ PrintsAt a i line)

private theorem Relay.le_of_mem {bs : List Activation} {lines lines' : List String}
    (h : Relay a lines bs lines') :
    ∀ b ∈ bs, lines.length ≤ b.machine.printed.length := by
  induction h with
  | done => simp
  | next _ hfirst hb _ ih =>
    refine List.forall_mem_cons.mpr ⟨Nat.le_of_eq (congrArg _ hfirst.symm), fun c hc => ?_⟩
    exact Nat.le_trans (hfirst ▸ hb.printed.length_le) (ih c hc)

private theorem Relay.starts_of_mem {bs : List Activation} {lines lines' : List String}
    (h : Relay a lines bs lines') :
    ∀ b ∈ bs, Starts a b := by
  induction h with
  | done => simp
  | next hs _ _ _ ih => exact List.forall_mem_cons.mpr ⟨hs, ih⟩

theorem Relay.isPrefix {bs : List Activation} {lines lines' : List String}
    (h : Relay a lines bs lines') :
    lines <+: lines' := by
  induction h with
  | done => exact List.prefix_rfl
  | next _ hfirst hb _ ih => exact (hfirst ▸ hb.printed).trans ih

/-- The lines that are there before a relay are not printed in it. -/
theorem Relay.not_printsAt {bs : List Activation} {lines lines' : List String}
    (h : Relay a lines bs lines') {i : Nat} (hi : i < lines.length) (line : String) :
    ¬∃ b ∈ bs, PrintsAt b i line := by
  rintro ⟨b, hb, hprints⟩
  exact absurd (Nat.le_trans (h.le_of_mem b hb) hprints.le) (Nat.not_le_of_lt hi)

/-- Each line that the jobs of a relay add is printed in one of them. -/
theorem Relay.getElem?_iff {bs : List Activation} {lines lines' : List String}
    (h : Relay a lines bs lines')
    (hall : ∀ b, Starts a b → ∀ o m', b.Ends o m' →
      b.PrintsFrom b.machine.printed.length m'.printed)
    {i : Nat} (hi : lines.length ≤ i) {line : String} :
    lines'[i]? = some line ↔ ∃ b ∈ bs, PrintsAt b i line := by
  induction h with
  | done => simp [List.getElem?_eq_none hi]
  | @next b o m' bs lines lines' hs hfirst hb hrest ih =>
    have hown := hall b hs o m' hb i line (hfirst ▸ hi)
    simp only [List.mem_cons, exists_eq_or_imp, ← hown]
    by_cases hlt : i < m'.printed.length
    · -- The line belongs to the first job; those after it start with more lines than `i`.
      have hlater := hrest.not_printsAt hlt line
      obtain ⟨added, rfl⟩ := hrest.isPrefix
      rw [List.getElem?_append_left hlt, or_iff_left hlater]
    · have hge := Nat.le_of_not_lt hlt
      rw [ih hge, List.getElem?_eq_none hge]
      simp

/-- However a job ends, the lines that it adds are those of the calls of `PRINT` meanwhile, in their
order. -/
theorem Ends.printsFrom {o : Outcome Empty a.job.Result} (h : a.Ends o m') :
    a.PrintsFrom a.machine.printed.length m'.printed := by
  have hground : a.Grounded := Terminates.grounded (EvalM.Ends.terminates h)
  induction hground generalizing m' with
  | intro a _ ih =>
    intro i line hi
    obtain ⟨bs, hstarts, hrelay⟩ := h.delegates
    have hjobs : (∃ b, Starts a b ∧ PrintsAt b i line) ↔ ∃ b ∈ bs, PrintsAt b i line :=
      exists_congr fun b => and_congr_left fun _ => ⟨hstarts b, hrelay.starts_of_mem b⟩
    rw [printsAt_iff, hjobs]
    by_cases hlt : i < (a.machine.printed ++ a.job.ownLines).length
    · -- The line is the job's own, which comes before those of all jobs that it starts.
      have hlater := hrelay.not_printsAt hlt line
      obtain ⟨added, hadded⟩ := hrelay.isPrefix
      rw [or_iff_left hlater, ← hadded, List.getElem?_append_left hlt,
        List.getElem?_append_right hi]
      rcases a.job.ownLines_cases with hown | ⟨own, hown⟩
      · rw [hown, List.append_nil] at hlt
        omega
      · rw [hown, List.length_append, List.length_singleton] at hlt
        have hlast : a.machine.printed.length = i := by omega
        simp [hown, hlast]
    · have hge := Nat.le_of_not_lt hlt
      rw [hrelay.getElem?_iff (fun b hs o m' hb => ih b hs hb) hge]
      refine (or_iff_right ?_).symm
      rintro ⟨hown, hlast⟩
      rw [hown, List.length_append, List.length_singleton] at hge
      omega

end Activation

end KeywordScript
