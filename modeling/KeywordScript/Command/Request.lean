/-!
Requests: what the arguments of a command ask for.
-/

namespace KeywordScript

inductive Task where
  | run (file : String) (plugins : List String) (printResults : Bool)
  | check (file : String)
deriving DecidableEq

def Task.file : Task → String
  | run file _ _ => file
  | check file => file

structure Request where
  /-- The configuration file, if one is named. -/
  config : Option String
  task : Task
deriving DecidableEq

inductive Usage where
  | help
  | wrong
deriving DecidableEq

namespace Request

/-- What the arguments after `run` or `check` have given so far. -/
structure Draft where
  config : Option String := none
  file : Option String := none
  plugins : List String := []
  printResults : Bool := false

/-- An argument that cannot be the value of an option. -/
def isOption (arg : String) : Bool :=
  match arg.toList with
  | '-' :: _ :: _ => true
  | _ => false

private def after? (start arg : String) : Option String :=
  (start.toList.isPrefixOf? arg.toList).map String.ofList

private def asksHelp (arg : String) : Bool :=
  arg == "--help" || (after? "-h" arg).isSome

/-- The value written in one argument with a short option. -/
private def attached? (start arg : String) : Option String :=
  (after? (start ++ "=") arg <|> after? start arg).filter fun _ => arg != start

/-- One more file; there may be only one, and it has a name. -/
def Draft.withFile (d : Draft) (file : String) : Except Usage Draft :=
  if d.file.isSome || file.isEmpty then .error .wrong else .ok { d with file := some file }

def Draft.withConfig (d : Draft) (path : String) : Except Usage Draft :=
  if d.config.isSome then .error .wrong else .ok { d with config := some path }

def Draft.withPlugin (d : Draft) (name : String) : Draft :=
  { d with plugins := d.plugins ++ [name] }

def Draft.withResults (d : Draft) : Except Usage Draft :=
  if d.printResults then .error .wrong else .ok { d with printResults := true }

/-- Arguments of which none is an option any more. -/
def filesOnly (d : Draft) (args : List String) : Except Usage Draft :=
  args.foldlM Draft.withFile d

/-- The arguments after `run` (where plugins may be named) or `check`. -/
def options (running : Bool) (d : Draft) : List String → Except Usage Draft
  | [] => .ok d
  | "--" :: rest => filesOnly d rest
  | "--config" :: value :: rest =>
    if isOption value then .error .wrong
    else do options running (← d.withConfig value) rest
  | arg :: value :: rest =>
    if running && (arg == "--plugin" || arg == "-p") then
      if isOption value then .error .wrong else options running (d.withPlugin value) rest
    else do options running (← single d arg) (value :: rest)
  | [arg] => single d arg
where
  single (d : Draft) (arg : String) : Except Usage Draft :=
    if asksHelp arg then .error .help
    else match after? "--config=" arg with
      | some path => d.withConfig path
      | none =>
        if running && arg == "--print-results" then d.withResults
        else match (after? "--plugin=" arg <|> attached? "-p" arg).filter fun _ => running with
          | some name => .ok (d.withPlugin name)
          | none => if isOption arg then .error .wrong else d.withFile arg

/-- The arguments after the name of a task. A configuration named there counts more than
`config`. -/
def ofOptions (running : Bool) (config : Option String) (args : List String) :
    Except Usage Request := do
  let d ← options running {} args
  match d.file with
  | none => .error .wrong
  | some file =>
    let task := if running then Task.run file d.plugins d.printResults else Task.check file
    return { config := d.config <|> config, task }

/-- The arguments of a command, after the configuration named so far. -/
def parseFrom (config : Option String) : List String → Except Usage Request
  | [] => .error .wrong
  | "run" :: rest => ofOptions true config rest
  | "check" :: rest => ofOptions false config rest
  | ["help"] | ["help", "run"] | ["help", "check"] | ["help", "help"] => .error .help
  | "--config" :: value :: rest =>
    if config.isSome || isOption value then .error .wrong else parseFrom (some value) rest
  | arg :: rest =>
    if asksHelp arg then .error .help
    else match after? "--config=" arg with
      | some path => if config.isSome then .error .wrong else parseFrom (some path) rest
      | none => .error .wrong

def parse (args : List String) : Except Usage Request :=
  parseFrom none args

end Request

end KeywordScript
