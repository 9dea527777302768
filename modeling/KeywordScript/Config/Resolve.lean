import KeywordScript.Config.Basic
import KeywordScript.Config.Environment
import KeywordScript.Config.Toml

/-!
One way to load a configuration: built-in values, which a file overrides, which the environment
overrides. The file is a TOML file, and variables may also stand in the file `.env`.
-/

namespace KeywordScript

namespace Config

/-- Names of settings are taken in lower case. -/
private def lowered (s : String) : String :=
  String.ofList (s.toList.map Char.toLower)

/-- Variables of this program start with these characters, in either case. -/
def variableStart : String :=
  "keyscript_"

def pathVariable : String :=
  "KEYSCRIPT_CONFIG_PATH"

def defaultFile : String :=
  "keyscript"

/-- The setting that may hold several names, with commas between them. -/
private def ofVariable (key value : String) : Setting :=
  match Setting.ofText value with
  | .text s => if key = "plugins" then .list ((s.splitOn ",").map .text) else .text s
  | other => other

def ofEnvironment (env : Environment) : List (String × Setting) :=
  env.filterMap fun (name, value) =>
    (variableStart.toList.isPrefixOf? (lowered name).toList).map fun rest =>
      let key := String.ofList rest
      (key, ofVariable key value)

/-- What follows the last point of a file's name, unless nothing stands before that point. -/
def extension (path : String) : Option String :=
  let name := (path.toList.reverse.takeWhile (· != '/')).reverse
  let after := (name.reverse.takeWhile (· != '.')).reverse
  if after.length + 1 < name.length then some (String.ofList after) else none

/-- The text of a file of settings. The name may leave out the extension. -/
def fileText? (files : Files) (path : String) : Option String :=
  match files path with
  | .ok text => if extension path = some "toml" then some text else none
  | .error .notText => none
  | .error _ => (files (path ++ ".toml")).toOption

/-- The settings of a file that must be there. -/
def namedFile (files : Files) (path : String) : Except ConfigError (List (String × Setting)) :=
  match (fileText? files path).bind Toml.parse? with
  | some settings => .ok settings
  | none => .error (.unreadable path)

/-- The settings of the file that may be there. -/
def unnamedFile (files : Files) : Except ConfigError (List (String × Setting)) :=
  match (fileText? files defaultFile).map Toml.parse? with
  | some (some settings) => .ok settings
  | some none => .error .unreadableDefault
  | none => .ok []

private def orDefault {α : Type} (default : α) (read : Setting → Option α) :
    Option Setting → Except ConfigError α
  | none => .ok default
  | some v =>
    match read v with
    | some a => .ok a
    | none => .error .invalid

/-- The configuration that settings give; of two for one name the later counts. -/
def ofSettings (settings : List (String × Setting)) : Except ConfigError Config := do
  let built : Config := {}
  let latest := settings.reverse
  let logLevel ← orDefault built.logLevel Setting.text? (latest.lookup "log_level")
  let plugins ← orDefault built.plugins Setting.texts? (latest.lookup "plugins")
  let maxCallDepth ← orDefault built.maxCallDepth Setting.count? (latest.lookup "max_call_depth")
  return { logLevel, plugins, maxCallDepth }

/-- The configuration from a file, named or not, and the environment as it is. -/
def resolveFrom (files : Files) (env : Environment) (path : Option String) :
    Except ConfigError Config := do
  let settings ← match path with
    | some path => namedFile files path
    | none => unnamedFile files
  ofSettings ((settings.map fun (key, v) => (lowered key, v)) ++ ofEnvironment env)

/-- The environment together with the variables of the file for it. -/
def fullEnvironment (files : Files) (env : Environment) : Environment :=
  match files ".env" with
  | .ok text => env.extend (Environment.ofFile text)
  | .error _ => env

/-- The configuration from all sources. A path that is given counts more than one in the
environment. -/
def resolve (files : Files) (env : Environment) (path : Option String) :
    Except ConfigError Config :=
  let env := fullEnvironment files env
  resolveFrom files env (path <|> env.lookup pathVariable)

end Config

end KeywordScript
