import KeywordScript.Eval.Basic
import KeywordScript.Plugin.Basic

/-!
Natives with which a script reaches the machine it runs on.
-/

namespace KeywordScript

inductive Reflection where
  | apply
  | loadMath
  | truncate
  | exec
  | args
  | stackSize

namespace Reflection

def name : Reflection → String
  | apply => "APPLY"
  | loadMath => "LOAD_MATH"
  | truncate => "TRUNCATE"
  | exec => "EXEC"
  | args => "ARGS"
  | stackSize => "STACKLEN"

def all : List Reflection :=
  [apply, loadMath, truncate, exec, args, stackSize]

def ofName? (s : String) : Option Reflection :=
  all.find? fun r => r.name == s

/-- The size that a number asks for: its whole part, and none below zero. -/
def wholePart (x : Float) : Nat :=
  x.toUInt64.toNat

/-- Arguments that do not fit make no fault: the answer is null. -/
def invoke (reentry : Reentry Reflection) (r : Reflection) (arguments : List (Value Reflection)) :
    EvalM Reflection (Value Reflection) := do
  match r with
  | apply =>
    match arguments with
    | .str name :: rest =>
      match ← EvalM.gets fun m => m.find? name with
      | some callee => reentry.call callee rest
      | none => return .null
    | _ => return .null
  | loadMath =>
    .modify fun m => m.importPlugin Plugin.math
    return .null
  | truncate =>
    match arguments with
    | .num x :: _ => .modify fun m => m.truncate (wholePart x)
    | _ => pure ()
    return .null
  | exec =>
    match arguments.getLast? with
    | some (.code c) => reentry.evaluate c.body none
    | _ => return .null
  | args => return .list arguments
  | stackSize => return .num (← EvalM.gets fun m => Float.ofNat m.stack.size)

instance : Host Reflection where
  invoke := invoke

def plugin : Plugin Reflection where
  name := "host"
  entries := all.map fun r => (r.name, .native (.host r))

/-- The plugin of a name, for a host that offers reflection. -/
def plugin? (name : String) : Option (Plugin Reflection) :=
  if name = plugin.name then some plugin else Plugin.standard? name

end Reflection

end KeywordScript
