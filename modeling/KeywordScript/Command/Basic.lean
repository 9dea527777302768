import KeywordScript.Command.Request
import KeywordScript.Config.Basic
import KeywordScript.Eval.Run
import KeywordScript.Expr.Load
import KeywordScript.Plugin.Basic

/-!
Commands: a request carried out in surroundings that are given. The configuration comes first, then
the file, then the plugins, and the script runs last.
-/

namespace KeywordScript

inductive Failure where
  | config (e : ConfigError)
  | read (file : String) (e : ReadError)
  | notJson (file : String)
  | load (file : String) (e : LoadError)
  | unknownPlugin (name : String)
  | run (file : String) (e : RunError Empty)

def Failure.message : Failure → String
  | config e => e.message
  | read file e => "Failed to read " ++ file ++ ": " ++ e.message
  | notJson file => file ++ " is not valid JSON"
  | load file e => "Failed to load script " ++ file ++ ": " ++ e.message
  | unknownPlugin name => "Unknown plugin: " ++ name
  | run file e => "Failed to run " ++ file ++ ": " ++ e.message

/-- What a command writes, line by line, and what stopped it. -/
structure Report where
  output : List String := []
  diagnostics : List String := []
  failure : Option Failure := none

namespace Report

def ofFailure (f : Failure) : Report :=
  { failure := some f }

private def unlines (ls : List String) : String :=
  String.join (ls.map fun l => l ++ "\n")

def exitCode (r : Report) : Nat :=
  if r.failure.isSome then 1 else 0

def stdout (r : Report) : String :=
  unlines r.output

def stderr (r : Report) : String :=
  unlines (r.diagnostics ++ (r.failure.map fun f => "Error: " ++ f.message).toList)

end Report

/-- What a command takes from outside: how a configuration is loaded, from the file that is named
or from where the program looks otherwise, what is in files, and how the text of a document is
parsed. -/
structure Surroundings where
  configure : Option String → Except ConfigError Config
  files : Files
  parse : String → Option Json

def Surroundings.readScript (s : Surroundings) (file : String) : Except Failure (List Expr) :=
  match s.files file with
  | .error e => .error (.read file e)
  | .ok source =>
    match Expr.scriptOfSource s.parse 0 source with
    | .ok script => .ok script
    | .error .notJson => .error (.notJson file)
    | .error (.load e) => .error (.load file e)

private def written (m : Machine Empty) : Report where
  output := m.transcript.lines.toList
  diagnostics := m.transcript.diagnostics.toList.map Diagnostic.text

def runReport (fuel : Nat) (file : String) (printResults : Bool) (script : List Expr)
    (m : Machine Empty) : Option Report :=
  (m.run fuel script).map fun
    | (.ok values, m) =>
      let results := if printResults then values.map Value.text else []
      { written m with output := m.transcript.lines.toList ++ results }
    | (.error e, m) => { written m with failure := some (.run file e) }

def Task.perform (fuel : Nat) (config : Config) (script : List Expr) : Task → Option Report
  | check file =>
    some { output := [file ++ ": " ++ script.length.repr ++ " top-level expression(s)"] }
  | run file plugins printResults =>
    let m : Machine Empty := { maxDepth := config.maxCallDepth }
    match m.importNamed Plugin.standard? (config.plugins ++ plugins) with
    | .ok m => runReport fuel file printResults script m
    | .error name => some (.ofFailure (.unknownPlugin name))

/-- Carries out a request. There is no report when the fuel does not suffice. -/
def Request.perform (fuel : Nat) (s : Surroundings) (r : Request) : Option Report :=
  match s.configure r.config with
  | .error e => some (.ofFailure (.config e))
  | .ok config =>
    match s.readScript r.task.file with
    | .error f => some (.ofFailure f)
    | .ok script => r.task.perform fuel config script

end KeywordScript
