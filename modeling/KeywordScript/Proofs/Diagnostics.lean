import KeywordScript.Proofs.Job
import KeywordScript.Proofs.Scope
import KeywordScript.Proofs.Transcript

/-! Diagnostics: what was written stays written, and a keyword is reported only if it is no keyword
of the language and no frame that was there from the start has its name. -/

namespace KeywordScript

namespace Machine

/-- Lines and diagnostics were only added since `m`, and no diagnostic among them names what `m`
could resolve. -/
def ReportsSince (m m' : Machine Empty) : Prop :=
  ∃ written : Transcript, m'.transcript = m.transcript ++ written ∧
    ∀ d ∈ written.diagnostics, d.keyword ∉ Keyword.names ∧ d.keyword ∉ m.stack.names

theorem reportsSince_of_eq {m m' : Machine Empty} (h : m'.transcript = m.transcript) :
    m.ReportsSince m' := by
  refine ⟨{}, ?_, by simp⟩
  rw [h, Transcript.append_empty]

theorem reportsSince_print (m : Machine Empty) (line : String) : m.ReportsSince (m.print line) :=
  ⟨Transcript.print {} line, Transcript.print_eq_append _ _, by simp [Transcript.print]⟩

theorem reportsSince_report {m : Machine Empty} {d : Diagnostic} (h : m.find? d.keyword = none) :
    m.ReportsSince (m.report d) := by
  refine ⟨Transcript.report {} d, Transcript.report_eq_append _ _, fun d' hd' => ?_⟩
  have hd : d' = d := by simpa [Transcript.report] using hd'
  rw [hd]
  exact find?_eq_none_iff.mp h

/-- A name that no frame has later no frame had before: frames keep their names. -/
theorem ReportsSince.trans {a b c : Machine Empty} (hnames : a.stack.names <+: b.stack.names)
    (h : a.ReportsSince b) (h' : b.ReportsSince c) : a.ReportsSince c := by
  obtain ⟨written, hb, hfirst⟩ := h
  obtain ⟨written', hc, hlater⟩ := h'
  refine ⟨written ++ written', ?_, fun d hd => ?_⟩
  · rw [hc, hb, Transcript.append_assoc]
  · rcases Transcript.mem_diagnostics_append.mp hd with hd | hd
    · exact hfirst d hd
    · obtain ⟨hkeyword, hframe⟩ := hlater d hd
      exact ⟨hkeyword, fun hmem => hframe (hnames.subset hmem)⟩

end Machine

/-- Frames keep their places and names, and what is reported could not be resolved. -/
def Discipline.reports : Discipline where
  step m m' := m.stack.names <+: m'.stack.names ∧ m.ReportsSince m'
  refl _ := ⟨List.prefix_rfl, Machine.reportsSince_of_eq rfl⟩
  trans h h' := ⟨h.1.trans h'.1, h.2.trans h.1 h'.2⟩
  bind name _ _ := ⟨by simp [Machine.bind], Machine.reportsSince_of_eq rfl⟩
  assign i _ _ _ := ⟨by simp, Machine.reportsSince_of_eq rfl⟩
  advance i x h _ := ⟨by simpa using h.1, h.2⟩
  print line _ := ⟨List.prefix_rfl, Machine.reportsSince_print _ line⟩
  report _ h := ⟨List.prefix_rfl, Machine.reportsSince_report h⟩
  issue _ := ⟨List.prefix_rfl, Machine.reportsSince_of_eq rfl⟩
  scope h := ⟨by simp only [Machine.truncate, Stack.names_truncate_size h.1, List.prefix_rfl], h.2⟩
  call _ h := h

theorem Discipline.reports_setsNumbers : Discipline.reports.SetsNumbers :=
  fun _ _ _ _ h => ⟨by simpa using h.1, h.2⟩

theorem Discipline.reports_ignoresDepth : Discipline.reports.IgnoresDepth :=
  fun _ _ _ h => h

theorem Discipline.reports_governs (e : Expr) (line : Option Nat) (m : Machine Empty) :
    Discipline.reports.Governs ⟨.expr e line, m⟩ :=
  ⟨fun _ _ => trivial, trivial⟩

open Activation

/-- However an evaluation ends, the lines and the diagnostics from before it begin those after it,
and each diagnostic that was added names a keyword that is none of the language's and the name of no
frame that was there before. The same holds of what was written by the time at which any job is
started meanwhile, also where the evaluation never ends. -/
theorem reports_only_unresolvable (m : Machine Empty) (e : Expr) (line : Option Nat) :
    (∀ fuel o m', evaluate fuel e line m = some (o, m') → m.ReportsSince m') ∧
    ∀ b rest, UnderWay ⟨.expr e line, m⟩ (b :: rest) → m.ReportsSince b.machine := by
  have hgoverns := Discipline.reports_governs e line m
  constructor
  · intro fuel o m' h
    have hkept := hgoverns.kept Discipline.reports_setsNumbers (o := o) ⟨fuel, h⟩
    exact hkept.step.2
  · intro b rest h
    have hstep :=
      hgoverns.step_of_underWay Discipline.reports_setsNumbers Discipline.reports_ignoresDepth h
    exact hstep.2

/-- A name that is found in an inner scope and reported once that scope has ended, after `PRINT`. -/
theorem reports_only_unresolvable_after_scope :
    let m : Machine Empty := { stack := ⟨[⟨"x", .null⟩]⟩, transcript := { lines := #["earlier"] } }
    let call (name : String) : Expr := .node name (.lit .null) none none
    let inner : Expr :=
      .script [.node "LET" (.script [.lit (.str "y"), .lit .null]) none none, call "x", call "y"]
    let e : Expr := .script [inner, .node "PRINT" (call "y") none none, call "y"]
    ∃ m', evaluate 9 e none m =
      some (.value (.list [.list [.null, .null, .null], .null, .str "y"]), m') ∧
      m'.transcript.lines = #["earlier", "y"] ∧
      m'.transcript.diagnostics = #[⟨"y", some 2⟩, ⟨"y", some 3⟩] ∧ m.ReportsSince m' := by
  intro m call inner e
  have hends : ∃ m', evaluate 9 e none m =
    some (.value (.list [.list [.null, .null, .null], .null, .str "y"]), m') ∧
      m'.transcript.lines = #["earlier", "y"] ∧
      m'.transcript.diagnostics = #[⟨"y", some 2⟩, ⟨"y", some 3⟩] := ⟨_, rfl, rfl, rfl⟩
  obtain ⟨m', hm', hlines, hdiagnostics⟩ := hends
  exact ⟨m', hm', hlines, hdiagnostics, (reports_only_unresolvable m e none).1 9 _ m' hm'⟩

end KeywordScript
