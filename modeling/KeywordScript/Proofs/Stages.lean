import KeywordScript.Command.Basic
import KeywordScript.Proofs.Canonical
import KeywordScript.Proofs.Importing
import KeywordScript.Proofs.Printing

/-! Stages of a command: the configuration, the file, its document, its script, the plugins and the
run. The first stage that fails is the one that is reported, nothing of the later ones happens, and
what a run has printed by the time it fails stays printed. -/

namespace KeywordScript

/-- How many items a document has for a script: those of an array, and otherwise one. -/
def Json.itemCount : Json → Nat
  | arr items => items.length
  | _ => 1

namespace Expr

private theorem exists_node_of_load {site : Site} {members : List (String × Json)} {e : Expr}
    (h : load site (.obj members) = .ok e) : ∃ k arg code line, e = .node k arg code line := by
  rw [load, assemble] at h
  obtain ⟨line, -, h⟩ := bind_eq_ok h
  obtain ⟨code, -, h⟩ := bind_eq_ok h
  split at h
  · cases h
  · obtain ⟨arg, -, h⟩ := bind_eq_ok h
    cases h
    exact ⟨_, _, _, _, rfl⟩
  · cases h

theorem length_of_loadTop {document : Nat} {v : Json} {script : List Expr}
    (h : loadTop document v = .ok script) :
    script.length = v.itemCount := by
  unfold loadTop at h
  cases hload : load { document } v with
  | error f =>
    rw [hload] at h
    cases h
  | ok e =>
    rw [hload] at h
    cases h
    cases v with
    | null | bool _ | num _ | str _ =>
      cases hload
      rfl
    | arr items =>
      obtain ⟨es, rfl, hes⟩ := load_arr_eq_ok hload
      exact hes.length_eq.symm
    | obj members =>
      obtain ⟨k, arg, code, line, rfl⟩ := exists_node_of_load hload
      rfl

theorem scriptOfSource_eq (parse : String → Option Json) (document : Nat) (source : String) :
    scriptOfSource parse document source =
      match parse source with
      | none => .error .notJson
      | some v => (loadTop document v).mapError .load := by
  unfold scriptOfSource parsed
  cases parse source <;> rfl

end Expr

namespace Surroundings

theorem readScript_eq (s : Surroundings) (file : String) :
    s.readScript file =
      match s.files file with
      | .error e => .error (.read file e)
      | .ok source =>
        match s.parse source with
        | none => .error (.notJson file)
        | some document => (Expr.loadTop 0 document).mapError (.load file) := by
  unfold readScript
  cases s.files file with
  | error e => rfl
  | ok source =>
    dsimp only
    rw [Expr.scriptOfSource_eq]
    cases s.parse source with
    | none => rfl
    | some document => cases hload : Expr.loadTop 0 document <;> simp [Except.mapError, hload]

end Surroundings

/-- What both tasks need: a configuration, and a file with a document that writes a script. -/
structure Prepared (s : Surroundings) (path : Option String) (file : String) (config : Config)
    (document : Json) (script : List Expr) : Prop where
  configured : s.configure path = .ok config
  read : ∃ source, s.files file = .ok source ∧ s.parse source = some document
  loaded : Expr.loadTop 0 document = .ok script

def Config.machine (config : Config) (ps : List (Plugin Empty)) : Machine Empty :=
  Machine.withEntries { maxDepth := config.maxCallDepth } (ps.flatMap Plugin.entries)

section Runs

variable {m m' : Machine Empty} {script : List Expr} {n n' fuel : Nat}

theorem Machine.run_mono (hn : n ≤ n')
    {r : Except (RunError Empty) (List (Value Empty)) × Machine Empty}
    (h : m.run n script = some r) : m.run n' script = some r := by
  have hitems := evaluateItems_mono (fun e line => evaluate_mono e line hn) 1 script
  have hscript : evaluateScript n (pure ()) script ≤ evaluateScript n' (pure ()) script :=
    EvalM.inScope_mono (EvalM.bind_mono le_rfl fun _ => hitems)
  obtain ⟨p, hp, rfl⟩ := Option.map_eq_some_iff.mp h
  exact Option.map_eq_some_iff.mpr ⟨p, hscript m p hp, rfl⟩

theorem Machine.run_unique {r r' : Except (RunError Empty) (List (Value Empty)) × Machine Empty}
    (h : m.run n script = some r) (h' : m.run n' script = some r') : r = r' := by
  have hmax := Machine.run_mono (Nat.le_max_left n n') h
  have hmax' := Machine.run_mono (Nat.le_max_right n n') h'
  exact Option.some.inj (hmax.symm.trans hmax')

/-- The lines that a run adds to none are those of the calls of `PRINT`, however it ends. -/
theorem Machine.printsFrom_of_run {r : Except (RunError Empty) (List (Value Empty))}
    (hm : m.printed = []) (h : m.run fuel script = some (r, m')) :
    Activation.PrintsFrom ⟨.items 1 script, m⟩ 0 m'.printed := by
  obtain ⟨o, -, hscript⟩ := Machine.runAfter_eq_some_iff.mp h
  obtain ⟨m₁, hitems, rfl⟩ := exists_open_of_evaluateScript hscript
  have hends : Activation.Ends ⟨.items 1 script, m⟩ o m₁ := ⟨fuel, hitems⟩
  have hprints := hends.printsFrom
  rw [hm] at hprints
  exact hprints

private theorem runReport_of_ok {vs : List (Value Empty)}
    (h : m.run fuel script = some (.ok vs, m')) (file : String) (printResults : Bool) :
    ∃ report, runReport fuel file printResults script m = some report ∧ report.failure = none ∧
      report.output = m'.printed ++ if printResults then vs.map Value.text else [] := by
  unfold runReport
  rw [h]
  exact ⟨_, rfl, rfl, rfl⟩

private theorem runReport_of_error {e : RunError Empty}
    (h : m.run fuel script = some (.error e, m')) (file : String) (printResults : Bool) :
    ∃ report, runReport fuel file printResults script m = some report ∧
      report.failure = some (.run file e) ∧ report.output = m'.printed := by
  unfold runReport
  rw [h]
  exact ⟨_, rfl, rfl, rfl⟩

end Runs

section Tasks

variable {config : Config} {plugins : List String} {ps : List (Plugin Empty)}

theorem Task.perform_of_named (h : Plugin.Named Plugin.standard? (config.plugins ++ plugins) ps)
    (fuel : Nat) (script : List Expr) (file : String) (printResults : Bool) :
    Task.perform fuel config script (.run file plugins printResults) =
      runReport fuel file printResults script (config.machine ps) := by
  have himport :
    Machine.importNamed Plugin.standard? { maxDepth := config.maxCallDepth }
      (config.plugins ++ plugins) =
      .ok (config.machine ps) := Machine.importNamed_eq_ok_iff.mpr ⟨ps, h, rfl⟩
  unfold Task.perform
  dsimp only
  rw [himport]

theorem Task.perform_of_unknown {name : String}
    (h : Plugin.FirstUnknown (H := Empty) Plugin.standard? (config.plugins ++ plugins) name)
    (fuel : Nat) (script : List Expr) (file : String) (printResults : Bool) :
    Task.perform fuel config script (.run file plugins printResults) =
      some (.ofFailure (.unknownPlugin name)) := by
  unfold Task.perform
  dsimp only
  rw [Machine.importNamed_eq_error_iff.mpr h]

end Tasks

def Failure.stage : Failure → Nat
  | config _ => 0
  | read _ _ => 1
  | notJson _ => 2
  | load _ _ => 3
  | unknownPlugin _ => 4
  | run _ _ => 5

namespace Request

variable {s : Surroundings} {r : Request}

/-- What is wrong with a request at each stage taken by itself, whatever is wrong at the others. A
plugin may be unknown although there is no script to run. -/
inductive Meets (s : Surroundings) (r : Request) : Failure → Prop where
  | config {e} : s.configure r.config = .error e → Meets s r (.config e)
  | read {e} : s.files r.task.file = .error e → Meets s r (.read r.task.file e)
  | notJson {source} : s.files r.task.file = .ok source → s.parse source = none →
    Meets s r (.notJson r.task.file)
  | load {source document e} : s.files r.task.file = .ok source → s.parse source = some document →
    Expr.loadTop 0 document = .error e → Meets s r (.load r.task.file e)
  | unknownPlugin {config file plugins printResults name} : s.configure r.config = .ok config →
    r.task = .run file plugins printResults →
    Plugin.FirstUnknown (H := Empty) Plugin.standard? (config.plugins ++ plugins) name →
    Meets s r (.unknownPlugin name)
  | run {config document script file plugins printResults ps fuel e m'} :
    Prepared s r.config r.task.file config document script →
      r.task = .run file plugins printResults →
    Plugin.Named Plugin.standard? (config.plugins ++ plugins) ps →
    (config.machine ps).run fuel script = some (.error e, m') → Meets s r (.run file e)

/-- The failure is met, and none at an earlier stage. -/
def MeetsFirst (s : Surroundings) (r : Request) (f : Failure) : Prop :=
  r.Meets s f ∧ ∀ g, r.Meets s g → f.stage ≤ g.stage

/-- With enough fuel, the request ends with the report. -/
def Reports (s : Surroundings) (r : Request) (report : Report) : Prop :=
  ∃ fuel, r.perform fuel s = some report

section Stages

variable {config : Config} {document : Json} {script : List Expr} {f g : Failure}

def prepare (s : Surroundings) (path : Option String) (file : String) :
    Except Failure (Config × List Expr) :=
  match s.configure path with
  | .error e => .error (.config e)
  | .ok config => (s.readScript file).map fun script => (config, script)

theorem perform_eq (fuel : Nat) :
    r.perform fuel s =
      match prepare s r.config r.task.file with
      | .error f => some (.ofFailure f)
      | .ok (config, script) => r.task.perform fuel config script := by
  unfold Request.perform prepare
  cases s.configure r.config with
  | error e => rfl
  | ok config => cases s.readScript r.task.file <;> rfl

theorem prepare_of_prepared {path : Option String} {file : String}
    (h : Prepared s path file config document script) :
    prepare s path file = .ok (config, script) := by
  obtain ⟨hconfig, ⟨source, hread, hparse⟩, hload⟩ := h
  simp [prepare, Surroundings.readScript_eq, hconfig, hread, hparse, hload, Except.mapError,
    Except.map]

theorem perform_of_prepared (h : Prepared s r.config r.task.file config document script)
    (fuel : Nat) :
    r.perform fuel s = r.task.perform fuel config script := by
  rw [perform_eq, prepare_of_prepared h]

theorem perform_of_error (h : prepare s r.config r.task.file = .error f) (fuel : Nat) :
    r.perform fuel s = some (.ofFailure f) := by
  rw [perform_eq, h]

/-- Either all that a script needs is there, or the first thing that is missing is the failure. -/
theorem prepare_cases (r : Request) :
    (∃ config document script, Prepared s r.config r.task.file config document script) ∨
      ∃ f, prepare s r.config r.task.file = .error f ∧ r.MeetsFirst s f := by
  unfold prepare
  rw [Surroundings.readScript_eq]
  -- At each stage the failures of the earlier ones are refuted by what has been had from them.
  cases hconfig : s.configure r.config with
  | error e => exact .inr ⟨_, rfl, .config hconfig, fun _ _ => Nat.zero_le _⟩
  | ok config =>
    dsimp only
    cases hread : s.files r.task.file with
    | error e =>
      refine .inr ⟨_, rfl, .read hread, fun g hg => ?_⟩
      cases hg with
      | config h => cases hconfig.symm.trans h
      | _ => simp [Failure.stage]
    | ok source =>
      dsimp only
      cases hparse : s.parse source with
      | none =>
        refine .inr ⟨_, rfl, .notJson hread hparse, fun g hg => ?_⟩
        cases hg with
        | config h => cases hconfig.symm.trans h
        | read h => cases hread.symm.trans h
        | _ => simp [Failure.stage]
      | some document =>
        dsimp only
        cases hload : Expr.loadTop 0 document with
        | error e =>
          refine .inr ⟨_, rfl, .load hread hparse hload, fun g hg => ?_⟩
          cases hg with
          | config h => cases hconfig.symm.trans h
          | read h => cases hread.symm.trans h
          | notJson h h' =>
            cases hread.symm.trans h
            cases hparse.symm.trans h'
          | _ => simp [Failure.stage]
        | ok script =>
          exact .inl ⟨config, document, script, hconfig, ⟨source, hread, hparse⟩, hload⟩

private theorem prepared_unique {path : Option String} {file : String} {config' : Config}
    {document' : Json} {script' : List Expr} (h : Prepared s path file config document script)
    (h' : Prepared s path file config' document' script') :
    config = config' ∧ script = script' := by
  have hok := prepare_of_prepared h
  cases hok.symm.trans (prepare_of_prepared h')
  exact ⟨rfl, rfl⟩

/-- With all that a script needs, only plugins and the run may fail. -/
theorem Meets.exists_run (hg : r.Meets s g)
    (h : Prepared s r.config r.task.file config document script) :
    4 ≤ g.stage ∧ ∃ file plugins printResults, r.task = .run file plugins printResults := by
  obtain ⟨hconfig, ⟨source, hread, hparse⟩, hload⟩ := h
  cases hg with
  | config h => cases hconfig.symm.trans h
  | read h => cases hread.symm.trans h
  | notJson h h' =>
    cases hread.symm.trans h
    cases hparse.symm.trans h'
  | load h h' h'' =>
    cases hread.symm.trans h
    cases hparse.symm.trans h'
    cases hload.symm.trans h''
  | unknownPlugin _ htask _ => exact ⟨Nat.le_refl 4, _, _, _, htask⟩
  | run _ htask _ _ => exact ⟨Nat.le_succ 4, _, _, _, htask⟩

/-- With all that a script needs and all plugins, only the run may fail. -/
theorem Meets.eq_run {file : String} {plugins : List String} {printResults : Bool}
    {ps : List (Plugin Empty)} (hg : r.Meets s g)
    (h : Prepared s r.config r.task.file config document script)
    (htask : r.task = .run file plugins printResults)
    (hps : Plugin.Named Plugin.standard? (config.plugins ++ plugins) ps) :
    ∃ fuel e m', (config.machine ps).run fuel script = some (.error e, m') ∧ g = .run file e := by
  obtain ⟨hstage, -⟩ := hg.exists_run h
  cases hg with
  | config | read | notJson | load => simp [Failure.stage] at hstage
  | unknownPlugin hconfig htask' hname =>
    cases h.configured.symm.trans hconfig
    cases htask.symm.trans htask'
    exact absurd hname (hps.not_firstUnknown _)
  | run h' htask' hps' hrun =>
    obtain ⟨rfl, rfl⟩ := prepared_unique h h'
    cases htask.symm.trans htask'
    obtain rfl := hps.unique hps'
    exact ⟨_, _, _, hrun, rfl⟩

/-- At one stage a request meets one failure at most. -/
theorem Meets.unique (hf : r.Meets s f) (hg : r.Meets s g) (hstage : f.stage = g.stage) :
    f = g := by
  cases hf with
  | config h =>
    cases hg with
    | config h' =>
      cases h.symm.trans h'
      rfl
    | _ => simp [Failure.stage] at hstage
  | read h =>
    cases hg with
    | read h' =>
      cases h.symm.trans h'
      rfl
    | _ => simp [Failure.stage] at hstage
  | notJson h hparse =>
    cases hg with
    | notJson h' hparse' => rfl
    | _ => simp [Failure.stage] at hstage
  | load h hparse hload =>
    cases hg with
    | load h' hparse' hload' =>
      cases h.symm.trans h'
      cases hparse.symm.trans hparse'
      cases hload.symm.trans hload'
      rfl
    | _ => simp [Failure.stage] at hstage
  | unknownPlugin h htask hname =>
    cases hg with
    | unknownPlugin h' htask' hname' =>
      cases h.symm.trans h'
      cases htask.symm.trans htask'
      rw [hname.unique hname']
    | _ => simp [Failure.stage] at hstage
  | run h htask hps hrun =>
    obtain ⟨fuel, e, m', hrun', rfl⟩ := hg.eq_run h htask hps
    cases Machine.run_unique hrun hrun'
    rfl

end Stages

section Tasks

variable {path : Option String} {file : String} {plugins : List String} {printResults : Bool}
  {config : Config} {document : Json} {script : List Expr} {ps : List (Plugin Empty)} {fuel : Nat}
  {m' : Machine Empty}

theorem perform_check (h : Prepared s path file config document script) (fuel : Nat) :
    perform fuel s ⟨path, .check file⟩ =
      some { output := [file ++ ": " ++ document.itemCount.repr ++
        " top-level expression(s)"] } := by
  rw [perform_of_prepared h, ← Expr.length_of_loadTop h.loaded]
  rfl

theorem perform_run_of_named (h : Prepared s path file config document script)
    (hps : Plugin.Named Plugin.standard? (config.plugins ++ plugins) ps) (fuel : Nat) :
    perform fuel s ⟨path, .run file plugins printResults⟩ =
      runReport fuel file printResults script (config.machine ps) := by
  rw [perform_of_prepared h]
  exact Task.perform_of_named hps fuel script file printResults

private theorem perform_run_of_unknown {name : String}
    (h : Prepared s path file config document script)
    (hname : Plugin.FirstUnknown (H := Empty) Plugin.standard? (config.plugins ++ plugins) name)
    (fuel : Nat) :
    perform fuel s ⟨path, .run file plugins printResults⟩ =
      some (.ofFailure (.unknownPlugin name)) := by
  rw [perform_of_prepared h]
  exact Task.perform_of_unknown hname fuel script file printResults

/-- A check takes no fuel, and when it fails, all runs of the file fail in the same way. -/
theorem check_cases (s : Surroundings) (path : Option String) (file : String) :
    (∃ config document script, Prepared s path file config document script) ∨
      (¬∃ config document script, Prepared s path file config document script) ∧
        ∃ f, MeetsFirst s ⟨path, .check file⟩ f ∧
          (∀ fuel, perform fuel s ⟨path, .check file⟩ = some (.ofFailure f)) ∧
          ∀ plugins printResults fuel,
            perform fuel s ⟨path, .run file plugins printResults⟩ = some (.ofFailure f) := by
  rcases prepare_cases ⟨path, .check file⟩ with hprepared | ⟨f, hf, hfirst⟩
  · exact .inl hprepared
  · refine .inr ⟨?_, f, hfirst, perform_of_error hf,
      fun plugins printResults => perform_of_error hf⟩
    rintro ⟨config, document, script, hprepared⟩
    cases hf.symm.trans (prepare_of_prepared hprepared)

/-- A run either has all that it needs, plugins included, or fails before it takes any fuel. -/
theorem run_cases (s : Surroundings) (path : Option String) (file : String) (plugins : List String)
    (printResults : Bool) :
    (∃ config document script ps, Prepared s path file config document script ∧
        Plugin.Named (H := Empty) Plugin.standard? (config.plugins ++ plugins) ps) ∨
      ∃ f, MeetsFirst s ⟨path, .run file plugins printResults⟩ f ∧
        ∀ fuel, perform fuel s ⟨path, .run file plugins printResults⟩ = some (.ofFailure f) := by
  rcases prepare_cases ⟨path, .run file plugins printResults⟩ with
    ⟨config, document, script, hprepared⟩ | ⟨f, hf, hfirst⟩
  · rcases Plugin.named_or_firstUnknown Plugin.standard? (config.plugins ++ plugins) with
      ⟨ps, hps⟩ | ⟨name, hname⟩
    · exact .inl ⟨config, document, script, ps, hprepared, hps⟩
    · have hmeets : Meets s ⟨path, .run file plugins printResults⟩ (.unknownPlugin name) :=
        .unknownPlugin hprepared.configured rfl hname
      exact .inr ⟨_, ⟨hmeets, fun g hg => (hg.exists_run hprepared).1⟩,
        perform_run_of_unknown hprepared hname⟩
  · exact .inr ⟨f, hfirst, perform_of_error hf⟩

/-- An unknown plugin stops a run before it takes any fuel. -/
theorem exists_failure_of_unknown {name : String} (hconfig : s.configure path = .ok config)
    (hmem : name ∈ config.plugins ++ plugins) (hname : Plugin.standard? (H := Empty) name = none) :
    ∃ f, ∀ fuel, perform fuel s ⟨path, .run file plugins printResults⟩ = some (.ofFailure f) := by
  rcases run_cases s path file plugins printResults with
    ⟨config', document, script, ps, hprepared, hps⟩ | ⟨f, -, hf⟩
  · cases hconfig.symm.trans hprepared.configured
    exact absurd hname (hps.ne_none_of_mem hmem)
  · exact ⟨f, hf⟩

theorem exists_report_of_error {e : RunError Empty}
    (h : Prepared s path file config document script)
    (hps : Plugin.Named Plugin.standard? (config.plugins ++ plugins) ps)
    (hrun : (config.machine ps).run fuel script = some (.error e, m')) :
    ∃ report, perform fuel s ⟨path, .run file plugins printResults⟩ = some report ∧
      report.failure = some (.run file e) ∧
      Activation.PrintsFrom ⟨.items 1 script, config.machine ps⟩ 0 report.output := by
  rw [perform_run_of_named h hps]
  obtain ⟨report, hreport, hfailure, houtput⟩ := runReport_of_error hrun file printResults
  refine ⟨report, hreport, hfailure, ?_⟩
  rw [houtput]
  exact Machine.printsFrom_of_run rfl hrun

theorem exists_report_of_ok {vs : List (Value Empty)}
    (h : Prepared s path file config document script)
    (hps : Plugin.Named Plugin.standard? (config.plugins ++ plugins) ps)
    (hrun : (config.machine ps).run fuel script = some (.ok vs, m')) :
    ∃ report lines states, perform fuel s ⟨path, .run file plugins printResults⟩ = some report ∧
      report.failure = none ∧
      report.output = lines ++ (if printResults then vs.map Value.text else []) ∧
      Activation.PrintsFrom ⟨.items 1 script, config.machine ps⟩ 0 lines ∧
      vs.length = document.itemCount ∧
      states 0 = config.machine ps ∧ InTurn (evaluate fuel) 1 script vs states := by
  rw [perform_run_of_named h hps]
  obtain ⟨report, hreport, hfailure, houtput⟩ := runReport_of_ok hrun file printResults
  obtain ⟨m₁, hitems, -⟩ := run_eq_ok_iff.mp hrun
  obtain ⟨states, hstart, hturn, -⟩ := evaluateItems_eq_value_iff.mp hitems
  have hlength := hturn.length.trans (Expr.length_of_loadTop h.loaded)
  exact ⟨report, _, states, hreport, hfailure, houtput, Machine.printsFrom_of_run rfl hrun, hlength,
    hstart, hturn⟩

/-- A report of a run that has all that it needs is about how the script ended. -/
theorem exists_run_of_perform {report : Report}
    (hreport : perform fuel s ⟨path, .run file plugins printResults⟩ = some report)
    (h : Prepared s path file config document script)
    (hps : Plugin.Named Plugin.standard? (config.plugins ++ plugins) ps) :
    (∃ vs m', (config.machine ps).run fuel script = some (.ok vs, m') ∧ report.failure = none) ∨
      ∃ e m', (config.machine ps).run fuel script = some (.error e, m') ∧
        report.failure = some (.run file e) := by
  rw [perform_run_of_named h hps] at hreport
  obtain ⟨⟨values, m'⟩, hrun, rfl⟩ := Option.map_eq_some_iff.mp hreport
  cases values with
  | ok vs => exact .inl ⟨vs, m', hrun, rfl⟩
  | error e => exact .inr ⟨e, m', hrun, rfl⟩

/-- A run succeeds if and only if all that its script needs is there, all plugins are and the script
ends well. -/
theorem exists_success_iff :
    (∃ report, Reports s ⟨path, .run file plugins printResults⟩ report ∧ report.failure = none) ↔
      ∃ config document script ps, Prepared s path file config document script ∧
        Plugin.Named Plugin.standard? (config.plugins ++ plugins) ps ∧
        ∃ fuel vs m', (config.machine ps).run fuel script = some (.ok vs, m') := by
  constructor
  · rintro ⟨report, ⟨fuel, hreport⟩, hnone⟩
    rcases run_cases s path file plugins printResults with
      ⟨config, document, script, ps, hprepared, hps⟩ | ⟨f, -, hf⟩
    · rcases exists_run_of_perform hreport hprepared hps with ⟨vs, m', hrun, -⟩ | ⟨e, m', -, hsome⟩
      · exact ⟨config, document, script, ps, hprepared, hps, fuel, vs, m', hrun⟩
      · cases hnone.symm.trans hsome
    · cases (hf fuel).symm.trans hreport
      cases hnone
  · rintro ⟨config, document, script, ps, hprepared, hps, fuel, vs, m', hrun⟩
    obtain ⟨report, -, -, hreport, hnone, -⟩ := exists_report_of_ok hprepared hps hrun
    exact ⟨report, ⟨fuel, hreport⟩, hnone⟩

end Tasks

section Order

variable {f : Failure} {fuel : Nat} {report : Report}

private theorem report_cases (h : r.perform fuel s = some report) :
    (report.failure = none ∧ ∀ f, ¬r.Meets s f) ∨
      ∃ f, report.failure = some f ∧ r.MeetsFirst s f := by
  obtain ⟨path, task⟩ := r
  cases task with
  | check file =>
    rcases check_cases s path file with
      ⟨config, document, script, hprepared⟩ | ⟨-, f, hfirst, hf, -⟩
    · cases (perform_check hprepared fuel).symm.trans h
      refine .inl ⟨rfl, fun f hf => ?_⟩
      obtain ⟨-, file', plugins, printResults, htask⟩ := hf.exists_run hprepared
      cases htask
    · cases (hf fuel).symm.trans h
      exact .inr ⟨f, rfl, hfirst⟩
  | run file plugins printResults =>
    rcases run_cases s path file plugins printResults with
      ⟨config, document, script, ps, hprepared, hps⟩ | ⟨f, hfirst, hf⟩
    · rcases exists_run_of_perform h hprepared hps with ⟨vs, m', hrun, hnone⟩ | ⟨e, m', hrun, hsome⟩
      · refine .inl ⟨hnone, fun f hf => ?_⟩
        obtain ⟨fuel', e, m₁, hrun', rfl⟩ := hf.eq_run hprepared rfl hps
        cases Machine.run_unique hrun hrun'
      · refine .inr ⟨_, hsome, .run hprepared rfl hps hrun, fun g hg => ?_⟩
        obtain ⟨fuel', e', m₁, -, rfl⟩ := hg.eq_run hprepared rfl hps
        exact Nat.le_refl 5
    · cases (hf fuel).symm.trans h
      exact .inr ⟨f, rfl, hfirst⟩

/-- The failure of a report is the one that the request meets at the earliest stage. -/
theorem failure_eq_some_iff (h : r.perform fuel s = some report) :
    report.failure = some f ↔ r.MeetsFirst s f := by
  rcases report_cases h with ⟨hnone, hclear⟩ | ⟨g, hsome, hfirst⟩
  · rw [hnone]
    exact ⟨nofun, fun hf => absurd hf.1 (hclear f)⟩
  · rw [hsome]
    constructor
    · rintro ⟨⟩
      exact hfirst
    · intro hf
      have hstage := Nat.le_antisymm (hfirst.2 f hf.1) (hf.2 g hfirst.1)
      rw [hfirst.1.unique hf.1 hstage]

theorem perform_mono {fuel' : Nat} (hle : fuel ≤ fuel') (h : r.perform fuel s = some report) :
    r.perform fuel' s = some report := by
  obtain ⟨path, task⟩ := r
  cases task with
  | check file => exact h
  | run file plugins printResults =>
    rcases run_cases s path file plugins printResults with
      ⟨config, document, script, ps, hprepared, hps⟩ | ⟨f, -, hf⟩
    · rw [perform_run_of_named hprepared hps] at h ⊢
      obtain ⟨result, hrun, rfl⟩ := Option.map_eq_some_iff.mp h
      exact Option.map_eq_some_iff.mpr ⟨result, Machine.run_mono hle hrun, rfl⟩
    · rw [hf fuel', ← hf fuel]
      exact h

theorem Reports.unique {report' : Report} (h : r.Reports s report) (h' : r.Reports s report') :
    report' = report := by
  obtain ⟨n, hn⟩ := h
  obtain ⟨n', hn'⟩ := h'
  have hmax := perform_mono (Nat.le_max_left n n') hn
  have hmax' := perform_mono (Nat.le_max_right n n') hn'
  exact Option.some.inj (hmax'.symm.trans hmax)

end Order

end Request

theorem Report.exitCode_eq_zero_iff {report : Report} :
    report.exitCode = 0 ↔ report.failure = none := by
  simp [exitCode]

/-- Whatever loads the configuration, reads files and parses documents: a check reports how many
items the script has, and succeeds if and only if the configuration, the file, its document and its
script can be had; otherwise all runs of the file have the same report. A run needs the plugins as
well, and a script that ends well on the machine with their entries. Of all that is wrong with a
request, the report names what comes first. Without one of the plugins a run takes no fuel and
prints nothing. A run that fails prints the lines of the calls of `PRINT`, and one that ends well
prints the results after them, one for each item. -/
theorem run_and_check_agree (s : Surroundings) :
    (∀ (r : Request) (report : Report), r.Reports s report →
      (∀ report', r.Reports s report' → report' = report) ∧
      ∀ f, report.failure = some f ↔ r.MeetsFirst s f) ∧
    ∀ (path : Option String) (file : String),
      (∃ report, (∀ fuel, Request.perform fuel s ⟨path, .check file⟩ = some report) ∧
        (report.exitCode = 0 ↔
          ∃ config document script, Prepared s path file config document script) ∧
        (∀ config document script, Prepared s path file config document script →
          report.output = [file ++ ": " ++ document.itemCount.repr ++ " top-level expression(s)"]) ∧
        (report.exitCode ≠ 0 → report.output = [] ∧ ∀ plugins printResults fuel,
          Request.perform fuel s ⟨path, .run file plugins printResults⟩ = some report)) ∧
      ∀ (plugins : List String) (printResults : Bool),
        let run : Request := ⟨path, .run file plugins printResults⟩
        ((∃ report, run.Reports s report ∧ report.exitCode = 0) ↔
          ∃ config document script ps, Prepared s path file config document script ∧
            Plugin.Named Plugin.standard? (config.plugins ++ plugins) ps ∧
            ∃ fuel vs m', (config.machine ps).run fuel script = some (.ok vs, m')) ∧
        (∀ config name, s.configure path = .ok config → name ∈ config.plugins ++ plugins →
          Plugin.standard? (H := Empty) name = none →
          ∃ f, ∀ fuel, run.perform fuel s = some (.ofFailure f)) ∧
        ∀ config document script ps fuel, Prepared s path file config document script →
          Plugin.Named Plugin.standard? (config.plugins ++ plugins) ps →
          let start : Activation := ⟨.items 1 script, config.machine ps⟩
          (∀ e m', (config.machine ps).run fuel script = some (.error e, m') →
            ∃ report, run.perform fuel s = some report ∧ report.failure = some (.run file e) ∧
              start.PrintsFrom 0 report.output) ∧
          ∀ vs m', (config.machine ps).run fuel script = some (.ok vs, m') →
            ∃ report lines states, run.perform fuel s = some report ∧ report.failure = none ∧
              report.output = lines ++ (if printResults then vs.map Value.text else []) ∧
              start.PrintsFrom 0 lines ∧
              vs.length = document.itemCount ∧ states 0 = config.machine ps ∧
              InTurn (evaluate fuel) 1 script vs states := by
  refine ⟨fun r report hreport => ?_,
    fun path file => ⟨?_, fun plugins printResults => ⟨?_, ?_, ?_⟩⟩⟩
  · obtain ⟨fuel, hfuel⟩ := hreport
    exact ⟨fun report' => Request.Reports.unique ⟨fuel, hfuel⟩,
      fun f => Request.failure_eq_some_iff hfuel⟩
  · rcases Request.check_cases s path file with
      ⟨config, document, script, hprepared⟩ | ⟨hnot, f, -, hf, hruns⟩
    · refine ⟨_, Request.perform_check hprepared,
        iff_of_true rfl ⟨config, document, script, hprepared⟩, ?_, nofun⟩
      intro config' document' script' hprepared'
      have hsame :=
        (Request.perform_check hprepared 0).symm.trans (Request.perform_check hprepared' 0)
      exact congrArg Report.output (Option.some.inj hsame)
    · refine ⟨_, hf, iff_of_false nofun hnot, fun config document script hprepared => ?_,
        fun _ => ⟨rfl, hruns⟩⟩
      exact absurd ⟨config, document, script, hprepared⟩ hnot
  · simp only [Report.exitCode_eq_zero_iff]
    exact Request.exists_success_iff
  · exact fun config name => Request.exists_failure_of_unknown
  · intro config document script ps fuel hprepared hps
    exact ⟨fun e m' => Request.exists_report_of_error hprepared hps,
      fun vs m' => Request.exists_report_of_ok hprepared hps⟩

/-- A script with `PRINT` that ends well, one with `PRINT` and then `RETURN` outside of a function,
a plugin that is not known after one that is, and such a plugin for a file that is not there either.
One plugin is configured. -/
theorem run_and_check_agree_when_printing :
    let config : Config := { plugins := ["math"] }
    let s : Surroundings :=
      { configure := fun _ => .ok config
        files := fun file => if file = "none" then .error .notFound else .ok file
        parse := fun source =>
          if source = "good" then some (.arr [.obj [("PRINT", .str "x")], .bool true])
          else some (.arr [.obj [("PRINT", .str "x")], .obj [("RETURN", .str "y")]]) }
    let print : Expr := .node "PRINT" (.lit (.str "x")) none none
    let good : List Expr := [print, .lit (.bool true)]
    let bad : List Expr := [print, .node "RETURN" (.lit (.str "y")) none none]
    (∃ report, (∀ fuel, Request.perform fuel s ⟨none, .check "good"⟩ = some report) ∧
      report.exitCode = 0 ∧ report.output = ["good: 2 top-level expression(s)"]) ∧
    (∃ report, Request.perform 20 s ⟨none, .run "good" ["math"] true⟩ = some report ∧
      report.output = ["x", "null", "true"] ∧
      Activation.PrintsFrom ⟨.items 1 good, config.machine [.math, .math]⟩ 0 ["x"]) ∧
    (∃ report, Request.perform 20 s ⟨none, .run "bad" [] true⟩ = some report ∧
      report.failure = some (.run "bad" (.returnOutside (.str "y"))) ∧ report.output = ["x"] ∧
      Activation.PrintsFrom ⟨.items 1 bad, config.machine [.math]⟩ 0 ["x"]) ∧
    (∃ f, ∀ fuel, Request.perform fuel s ⟨none, .run "good" ["none"] true⟩ = some (.ofFailure f)) ∧
    ∀ report, Request.Reports s ⟨none, .run "none" ["none"] true⟩ report →
      report.failure = some (.read "none" .notFound) := by
  intro config s print good bad
  obtain ⟨hfirst, htasks⟩ := run_and_check_agree s
  have hgood : Prepared s none "good" config (.arr [.obj [("PRINT", .str "x")], .bool true]) good :=
    ⟨rfl, ⟨"good", rfl, rfl⟩, rfl⟩
  have hbad : Prepared s none "bad" config
      (.arr [.obj [("PRINT", .str "x")], .obj [("RETURN", .str "y")]]) bad :=
    ⟨rfl, ⟨"bad", rfl, rfl⟩, rfl⟩
  have hmath : Plugin.standard? (H := Empty) "math" = some .math := rfl
  refine ⟨?_, ?_, ?_, ?_, fun report hreport => ?_⟩
  · obtain ⟨report, hreport, hexit, houtput, -⟩ := (htasks none "good").1
    exact ⟨report, hreport, hexit.mpr ⟨_, _, _, hgood⟩, houtput _ _ _ hgood⟩
  · obtain ⟨-, -, hends⟩ := (htasks none "good").2 ["math"] true
    obtain ⟨-, hok⟩ := hends _ _ _ _ 20 hgood (.cons hmath (.cons hmath .nil))
    obtain ⟨report, lines, -, hreport, -, houtput, hlines, -⟩ := hok _ _ rfl
    have hx : report.output = ["x"] ++ ["null", "true"] := by
      rw [Request.perform_run_of_named hgood (.cons hmath (.cons hmath .nil))] at hreport
      cases hreport
      rfl
    obtain rfl := List.append_cancel_right (houtput.symm.trans hx)
    exact ⟨report, hreport, hx, hlines⟩
  · obtain ⟨-, -, hends⟩ := (htasks none "bad").2 [] true
    obtain ⟨report, hreport, hfailure, hlines⟩ :=
      (hends _ _ _ _ 20 hbad (.cons hmath .nil)).1 _ _ rfl
    have hx : report.output = ["x"] := by
      rw [Request.perform_run_of_named hbad (.cons hmath .nil)] at hreport
      cases hreport
      rfl
    exact ⟨report, hreport, hfailure, hx, hx ▸ hlines⟩
  · obtain ⟨-, hunknown, -⟩ := (htasks none "good").2 ["none"] true
    exact hunknown config "none" rfl (by decide) rfl
  · refine ((hfirst _ report hreport).2 _).mpr ⟨.read rfl, fun g hg => ?_⟩
    cases hg with
    | config h => cases h
    | _ => simp [Failure.stage]

end KeywordScript
