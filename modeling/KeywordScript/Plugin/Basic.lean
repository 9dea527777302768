import KeywordScript.Machine

/-!
Plugins: named values and natives that a host puts on the stack of a machine.
-/

namespace KeywordScript

/-- What a plugin has under a name. A native becomes a value each time the plugin is imported, so
that natives of two imports differ even when the plugin is the same. -/
inductive Entry (H : Type) where
  | value (v : Value H)
  | native (action : Action H)

/-- Entries stand in the order in which they are bound. -/
structure Plugin (H : Type) where
  name : String
  entries : List (String × Entry H)

namespace Plugin

variable {H : Type}

def size (p : Plugin H) : Nat :=
  p.entries.length

def isEmpty (p : Plugin H) : Bool :=
  p.entries.isEmpty

/-- Natives that round, and the circle number. -/
def math : Plugin H where
  name := "math"
  entries :=
    [MathOp.floor, .ceil, .abs, .round].map (fun op => (op.name, .native (.math op))) ++
      [("PI", .value (.num 3.141592653589793))]

def standard? (name : String) : Option (Plugin H) :=
  if name = "math" then some math else none

end Plugin

/-- A native differs from all that were made before. -/
def Entry.make {H : Type} (name : String) (e : Entry H) (m : Machine H) : Value H × Machine H :=
  match e with
  | value v => (v, m)
  | native action =>
    let (id, m) := m.issue
    (.native { id, name, action }, m)

/-- Binds every entry of a plugin, in order. -/
def Machine.importPlugin {H : Type} (m : Machine H) (p : Plugin H) : Machine H :=
  p.entries.foldl (fun m (name, e) => let (v, m) := e.make name m; m.bind name v) m

/-- Binds the entries of the named plugins, in order. The first name that is not known stops it. -/
def Machine.importNamed {H : Type} (known? : String → Option (Plugin H)) (m : Machine H) :
    List String → Except String (Machine H)
  | [] => .ok m
  | name :: rest =>
    match known? name with
    | some p => (m.importPlugin p).importNamed known? rest
    | none => .error name

end KeywordScript
