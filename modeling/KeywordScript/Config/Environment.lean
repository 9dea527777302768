/-!
Environment variables, and the files that add to them: lines `NAME=value`. A value is taken as it
stands; names of other variables in it are not replaced.
-/

namespace KeywordScript

abbrev Environment :=
  List (String × String)

namespace Environment

/-- Adds the variables that are not set yet. -/
def extend (env : Environment) (more : List (String × String)) : Environment :=
  more.foldl (fun env (name, value) =>
    if env.any fun (other, _) => other == name then env else env ++ [(name, value)]) env

private def isBlank (c : Char) : Bool :=
  c == ' ' || c == '\t' || c == '\r' || c == '\x0c' || c == '\x0b'

private def dropBlanks (cs : List Char) : List Char :=
  cs.dropWhile isBlank

def name? (cs : List Char) : Option (String × List Char) :=
  match cs with
  | c :: _ =>
    if c.isAlpha || c == '_' then
      let isPart := fun (c : Char) => c.isAlphanum || c == '_' || c == '.'
      some (String.ofList (cs.takeWhile isPart), cs.dropWhile isPart)
    else none
  | [] => none

inductive Quote where
  | plain
  | plainEscape
  | single
  | double
  | doubleEscape
  | ended
  | comment

private def escapeOf? : Char → Option Char
  | 'n' => some '\n'
  | '\\' => some '\\'
  | '\'' => some '\''
  | '"' => some '"'
  | '$' => some '$'
  | ' ' => some ' '
  | _ => none

/-- One more character of a value; those so far are kept newest first. -/
def valueStep? : List Char × Quote → Char → Option (List Char × Quote)
  | (seen, .comment), _ => some (seen, .comment)
  | (seen, .ended), c =>
    if c == ' ' || c == '\t' then some (seen, .ended)
    else if c == '#' then some (seen, .comment)
    else none
  | (seen, .plainEscape), c => (escapeOf? c).map fun x => (x :: seen, .plain)
  | (seen, .doubleEscape), c => (escapeOf? c).map fun x => (x :: seen, .double)
  | (seen, .single), c =>
    if c == '\'' then some (seen, .plain) else some (c :: seen, .single)
  | (seen, .double), c =>
    if c == '"' then some (seen, .plain)
    else if c == '\\' then some (seen, .doubleEscape)
    else some (c :: seen, .double)
  | (seen, .plain), c =>
    if c == '\'' then some (seen, .single)
    else if c == '"' then some (seen, .double)
    else if c == '\\' then some (seen, .plainEscape)
    else if c == ' ' || c == '\t' then some (seen, .ended)
    else some (c :: seen, .plain)

/-- A value. Quotes must be closed, and only a comment may follow a blank outside them. -/
def value? (cs : List Char) : Option String :=
  match cs with
  | [] | '#' :: _ => some ""
  | cs => do
    match ← cs.foldlM valueStep? ([], .plain) with
    | (_, .single) | (_, .double) | (_, .doubleEscape) => none
    | (seen, _) => some (String.ofList seen.reverse)

private def assigned? (cs : List Char) : Option (List Char) :=
  match dropBlanks cs with
  | '=' :: rest => some (dropBlanks rest)
  | _ => none

/-- The variable that a line sets, if it sets one. A line that is wrong gives nothing at all. -/
def line? (cs : List Char) : Option (Option (String × String)) :=
  match dropBlanks cs with
  | [] | '#' :: _ => some none
  | cs => do
    let (name, rest) ← name? cs
    match assigned? rest with
    | some value => return some (name, ← value? value)
    | none =>
      if name = "export" then
        let (name, rest) ← name? (dropBlanks rest)
        return some (name, ← value? (← assigned? rest))
      else none

private def trimmed (cs : List Char) : List Char :=
  (cs.reverse.dropWhile isBlank).reverse

def lines : List String → List (String × String)
  | [] => []
  | s :: rest =>
    match line? (trimmed s.toList) with
    | some (some v) => v :: lines rest
    | some none => lines rest
    | none => []

def ofFile (s : String) : List (String × String) :=
  lines (s.splitOn "\n")

end Environment

end KeywordScript
