import KeywordScript.Stack

/-!
The machine on which scripts run: bindings, call depth and what was written so far.
-/

namespace KeywordScript

/-- A keyword that is bound to nothing, and the line it was met on. -/
structure Diagnostic where
  keyword : String
  line : Option Nat
deriving DecidableEq

def Diagnostic.text (d : Diagnostic) : String :=
  "KEY NOT FOUND: '" ++ d.keyword ++ "'" ++
    match d.line with
    | some n => " on line: " ++ n.repr
    | none => ""

/-- What was written: lines by scripts, diagnostics by the machine. -/
structure Transcript where
  lines : Array String := #[]
  diagnostics : Array Diagnostic := #[]

def Transcript.print (c : Transcript) (line : String) : Transcript :=
  { c with lines := c.lines.push line }

def Transcript.report (c : Transcript) (d : Diagnostic) : Transcript :=
  { c with diagnostics := c.diagnostics.push d }

/-- How many calls of functions may be under way unless a host says otherwise. -/
def defaultMaxDepth : Nat :=
  64

structure Machine (H : Type) where
  stack : Stack H := {}
  /-- How many calls of functions are under way. -/
  depth : Nat := 0
  /-- How many calls of functions may be under way. -/
  maxDepth : Nat := defaultMaxDepth
  transcript : Transcript := {}
  /-- The next number for something that must differ from all before it. -/
  fresh : Nat := 0

namespace Machine

variable {H : Type}

/-- What a name is bound to: its newest frame, else the keyword of that name. -/
def find? (m : Machine H) (name : String) : Option (Value H) :=
  m.stack.lookup? name <|> (Keyword.ofName? name).map .builtin

def bind (m : Machine H) (name : String) (value : Value H) : Machine H :=
  { m with stack := m.stack.push name value }

/-- Binds parameters to arguments in order. A missing argument counts as null. -/
def bindAll (m : Machine H) : List String → List (Value H) → Machine H
  | [], _ => m
  | p :: ps, args => (m.bind p (args.headD .null)).bindAll ps args.tail

def print (m : Machine H) (line : String) : Machine H :=
  { m with transcript := m.transcript.print line }

def report (m : Machine H) (d : Diagnostic) : Machine H :=
  { m with transcript := m.transcript.report d }

def truncate (m : Machine H) (n : Nat) : Machine H :=
  { m with stack := m.stack.truncate n }

/-- A number that no earlier call gave. -/
def issue (m : Machine H) : Nat × Machine H :=
  (m.fresh, { m with fresh := m.fresh + 1 })

end Machine

end KeywordScript
