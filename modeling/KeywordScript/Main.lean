import KeywordScript.Command.Basic
import KeywordScript.Config.Resolve
import KeywordScript.Json.Parser

/-!
The command: reads what a request needs, carries it out and writes the report. Configurations are
loaded and documents are parsed by this library's own readers.
-/

namespace KeywordScript

def usage : String :=
  "Usage: keyscript [--config PATH] run FILE [-p NAME]... [--print-results]\n" ++
  "       keyscript [--config PATH] check FILE\n"

/-- More than any script uses that ends in a lifetime. -/
def plentyOfFuel : Nat :=
  1 <<< 62

def knownVariables : List String :=
  [Config.pathVariable, "KEYSCRIPT_LOG_LEVEL", "KEYSCRIPT_PLUGINS", "KEYSCRIPT_MAX_CALL_DEPTH"]

def readEnvironment : IO Environment := do
  let found ← knownVariables.mapM fun name => do
    return (← IO.getEnv name).map fun value => (name, value)
  return found.filterMap id

def readText (file : String) : IO (Except ReadError String) := do
  try
    let bytes ← IO.FS.readBinFile file
    match String.fromUTF8? bytes with
    | some text => return .ok text
    | none => return .error .notText
  catch
    | .noFileOrDirectory .. => return .error .notFound
    | .inappropriateType .. => return .error .isDirectory
    | e => return .error (.other (toString e))

def readFiles (names : List String) : IO Files := do
  let texts ← names.mapM fun name => do return (name, ← readText name)
  return fun name => (texts.lookup name).getD (.error .notFound)

/-- The files that a request may read, once the environment is complete. -/
def Request.filesWanted (env : Environment) (r : Request) : List String :=
  let path := (r.config <|> env.lookup Config.pathVariable).getD Config.defaultFile
  [".env", path, path ++ ".toml", r.task.file]

def perform (r : Request) : IO UInt32 := do
  let env ← readEnvironment
  let full := Config.fullEnvironment (← readFiles [".env"]) env
  let files ← readFiles (r.filesWanted full)
  let surroundings := { configure := Config.resolve files env, files, parse := Json.parse? }
  match r.perform plentyOfFuel surroundings with
  | some report =>
    IO.print report.stdout
    IO.eprint report.stderr
    return report.exitCode.toUInt32
  | none => return 1

end KeywordScript

open KeywordScript in
def main (args : List String) : IO UInt32 := do
  match Request.parse args with
  | .ok r => perform r
  | .error .help =>
    IO.print usage
    return 0
  | .error .wrong =>
    IO.eprint usage
    return 2
