import KeywordScript.Machine

/-!
Files and configurations as a command sees them.
-/

namespace KeywordScript

inductive ReadError where
  | notFound
  | notDirectory
  | isDirectory
  | notText
  | other (message : String)

def ReadError.message : ReadError → String
  | notFound => "No such file or directory (os error 2)"
  | notDirectory => "Not a directory (os error 20)"
  | isDirectory => "Is a directory (os error 21)"
  | notText => "stream did not contain valid UTF-8"
  | other message => message

/-- The text of each file that can be read. -/
abbrev Files :=
  String → Except ReadError String

namespace Files

def steps (path : String) : List String :=
  path.splitOn "/"

/-- Follows steps among files that are given by their own steps, from the place reached so far. -/
def follow (files : List (List String × String)) (place : List String) :
    List String → Except ReadError String
  | [] =>
    match files.lookup place with
    | some text => .ok text
    | none =>
      if files.any fun (name, _) => place.isPrefixOf name then .error .isDirectory
      else .error .notFound
  | step :: rest =>
    if (files.lookup place).isSome then .error .notDirectory
    else if step = "" || step = "." then follow files place rest
    else if step = ".." then
      if place.isEmpty then .error .notFound else follow files place.dropLast rest
    else if files.any fun (name, _) => (place ++ [step]).isPrefixOf name then
      follow files (place ++ [step]) rest
    else .error .notFound

/-- The files of one directory, by name. Nothing outside it can be read. -/
def ofDirectory (files : List (String × String)) : Files := fun path =>
  if path.isEmpty || path.startsWith "/" then .error .notFound
  else follow (files.map fun (name, text) => (steps name, text)) [] (steps path)

end Files

structure Config where
  logLevel : String := "warn"
  /-- Plugins imported before a script runs. -/
  plugins : List String := []
  maxCallDepth : Nat := defaultMaxDepth
deriving DecidableEq

/-- Why there is no configuration. -/
inductive ConfigError where
  | unreadable (path : String)
  | unreadableDefault
  | invalid

def ConfigError.message : ConfigError → String
  | unreadable path => "Failed to read config file " ++ path
  | unreadableDefault => "Failed to read configuration"
  | invalid => "Invalid configuration"

end KeywordScript
