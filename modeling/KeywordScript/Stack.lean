import KeywordScript.Value.Basic

/-!
The stack of bindings. Each frame binds one name, the newest frame of a name is the one that counts,
and a scope is a saved size.
-/

namespace KeywordScript

structure Frame (H : Type) where
  name : String
  value : Value H

/-- The frames, newest first. Positions are counted from the oldest. -/
structure Stack (H : Type) where
  frames : List (Frame H) := []

namespace Stack

variable {H : Type}

def size (s : Stack H) : Nat :=
  s.frames.length

/-- The frames, oldest first. -/
def toList (s : Stack H) : List (Frame H) :=
  s.frames.reverse

def push (s : Stack H) (name : String) (value : Value H) : Stack H :=
  ⟨{ name, value } :: s.frames⟩

/-- Drops the frames at position `n` and above. -/
def truncate (s : Stack H) (n : Nat) : Stack H :=
  ⟨s.frames.drop (s.size - n)⟩

def find? (s : Stack H) (name : String) : Option (Frame H) :=
  s.frames.find? fun f => f.name == name

def lookup? (s : Stack H) (name : String) : Option (Value H) :=
  (s.find? name).map Frame.value

def position? (s : Stack H) (name : String) : Option Nat :=
  (s.frames.findIdx? fun f => f.name == name).map fun i => s.size - 1 - i

def get? (s : Stack H) (i : Nat) : Option (Frame H) :=
  if i < s.size then s.frames[s.size - 1 - i]? else none

def set (s : Stack H) (i : Nat) (value : Value H) : Stack H :=
  if i < s.size then ⟨s.frames.modify (s.size - 1 - i) fun f => { f with value }⟩ else s

/-- Gives the newest frame of a name another value, if there is one. -/
def assign? (s : Stack H) (name : String) (value : Value H) : Option (Stack H) :=
  match s.frames.span fun f => f.name != name with
  | (newer, f :: older) => some ⟨newer ++ { f with value } :: older⟩
  | (_, []) => none

end Stack

end KeywordScript
