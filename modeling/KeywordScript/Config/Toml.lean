import KeywordScript.Config.Setting

/-!
Settings from the text of a TOML file: comments, tables and lines `key = value`, where a value is a
truth value, a number, a text on one line or a list of these. Other values that TOML knows are
refused. Characters are gathered into tokens and tokens into settings, each by a fold.
-/

namespace KeywordScript.Toml

inductive Token where
  | newline
  | mark (c : Char)
  | bare (cs : List Char)
  | quoted (s : String)

/-- Where a scan stands. Characters seen so far are kept newest first. -/
inductive Mode where
  | between
  | carriage
  | comment
  | bare (seen : List Char)
  | quoted (seen : List Char)
  | escape (seen : List Char)
  | unit (seen : List Char) (missing : Nat) (value : Nat)
  | literal (seen : List Char)

private def isBare (c : Char) : Bool :=
  c.isAlphanum || c == '_' || c == '-' || c == '+' || c == '.' || c == ':'

private def isMark (c : Char) : Bool :=
  c == '=' || c == ',' || c == '[' || c == ']'

private def isControl (c : Char) : Bool :=
  (c < ' ' && c != '\t') || c == '\x7f'

private def isScalar (n : Nat) : Bool :=
  n < 0xD800 || (0xE000 ≤ n && n < 0x110000)

private def escapeOf? : Char → Option Char
  | '"' => some '"'
  | '\\' => some '\\'
  | 'b' => some '\x08'
  | 'f' => some '\x0c'
  | 'n' => some '\n'
  | 'r' => some '\r'
  | 't' => some '\t'
  | _ => none

def begin? (found : List Token) (c : Char) : Option (List Token × Mode) :=
  if c == ' ' || c == '\t' then some (found, .between)
  else if c == '\n' then some (.newline :: found, .between)
  else if c == '\r' then some (found, .carriage)
  else if c == '#' then some (found, .comment)
  else if c == '"' then some (found, .quoted [])
  else if c == '\'' then some (found, .literal [])
  else if isMark c then some (.mark c :: found, .between)
  else if isBare c then some (found, .bare [c])
  else none

private def closed (found : List Token) (seen : List Char) : List Token × Mode :=
  (.quoted (String.ofList seen.reverse) :: found, .between)

def scanStep? : List Token × Mode → Char → Option (List Token × Mode)
  | (found, .between), c => begin? found c
  | (found, .carriage), c => if c == '\n' then some (.newline :: found, .between) else none
  | (found, .comment), c =>
    if c == '\n' then some (.newline :: found, .between)
    else if c == '\r' then some (found, .carriage)
    else if isControl c then none
    else some (found, .comment)
  | (found, .bare seen), c =>
    if isBare c then some (found, .bare (c :: seen)) else begin? (.bare seen.reverse :: found) c
  | (found, .quoted seen), c =>
    if c == '"' then some (closed found seen)
    else if c == '\\' then some (found, .escape seen)
    else if isControl c then none
    else some (found, .quoted (c :: seen))
  | (found, .escape seen), c =>
    if c == 'u' then some (found, .unit seen 4 0)
    else if c == 'U' then some (found, .unit seen 8 0)
    else (escapeOf? c).map fun x => (found, .quoted (x :: seen))
  | (found, .unit seen missing value), c => do
    let value := 16 * value + (← Number.hexDigit? c)
    if 1 < missing then some (found, .unit seen (missing - 1) value)
    else if isScalar value then some (found, .quoted (Char.ofNat value :: seen))
    else none
  | (found, .literal seen), c =>
    if c == '\'' then some (closed found seen)
    else if isControl c then none
    else some (found, .literal (c :: seen))

def tokens? (cs : List Char) : Option (List Token) := do
  match ← cs.foldlM scanStep? ([], .between) with
  | (found, .between) | (found, .comment) => some found.reverse
  | (found, .bare seen) => some (.bare seen.reverse :: found).reverse
  | _ => none

/-- A word without the underscores that group its digits. -/
def ungroup? : List Char → Option (List Char)
  | [] => some []
  | '_' :: _ => none
  | a :: '_' :: b :: rest =>
    if a.isAlphanum && b.isAlphanum then (ungroup? (b :: rest)).map (a :: ·) else none
  | a :: rest => (ungroup? rest).map (a :: ·)

private def unsignedPart : List Char → List Char
  | '-' :: cs => cs
  | '+' :: cs => cs
  | cs => cs

private def leadingZero (cs : List Char) : Bool :=
  match unsignedPart cs with
  | '0' :: d :: _ => d.isDigit
  | _ => false

private def inBase? (base : Nat) (cs : List Char) : Option Int :=
  if cs.isEmpty then none
  else (cs.foldlM (fun n c => do
    let d ← Number.hexDigit? c
    if d < base then some (base * n + d) else none) 0).map Int.ofNat

def integer? (cs : List Char) : Option Int :=
  let n := match cs with
    | '0' :: 'x' :: ds => inBase? 16 ds
    | '0' :: 'o' :: ds => inBase? 8 ds
    | '0' :: 'b' :: ds => inBase? 2 ds
    | cs => if leadingZero cs then none else Number.signedInteger? cs
  n.filter Number.fitsWord

private def pointsStandBetweenDigits (cs : List Char) : Bool :=
  let whole := (unsignedPart cs).takeWhile Char.isDigit
  match (unsignedPart cs).dropWhile Char.isDigit with
  | '.' :: d :: _ => !whole.isEmpty && d.isDigit
  | '.' :: [] => false
  | _ => !whole.isEmpty

def real? (cs : List Char) : Option Float :=
  let word := unsignedPart cs
  if word = ['i', 'n', 'f'] || word = ['n', 'a', 'n'] ||
      (pointsStandBetweenDigits cs && !leadingZero cs) then
    Number.ofText? (String.ofList cs)
  else none

def scalar? (cs : List Char) : Option Setting :=
  if cs = ['t', 'r', 'u', 'e'] then some (.truth true)
  else if cs = ['f', 'a', 'l', 's', 'e'] then some (.truth false)
  else do
    let cs ← ungroup? cs
    match integer? cs with
    | some n => return .integer n
    | none => return .real (← real? cs)

/-- The parts of a bare key, which points divide. -/
def keyParts? (cs : List Char) : Option (List String) :=
  let parts := (String.ofList cs).splitOn "."
  let isBare (c : Char) := c.isAlphanum || c == '_' || c == '-'
  if parts.all fun p => !p.isEmpty && p.toList.all isBare then some parts else none

/-- What a line has given so far. `outer` and `items` are the lists being read, innermost and newest
first. -/
inductive Place where
  | lineStart
  | header
  | headerEnd (name : List String)
  | key (name : List String)
  | value (name : List String)
  | item (name : List String) (outer : List (List Setting)) (items : List Setting)
  | itemEnd (name : List String) (outer : List (List Setting)) (items : List Setting)
  | lineEnd

/-- Entries by their full names, and the table that the next lines belong to. -/
structure Progress where
  table : List String := []
  entries : List (List String × Setting) := []
  place : Place := .lineStart

namespace Progress

/-- Whether a name may not be given any more. -/
def clashes (p : Progress) (name : List String) : Bool :=
  p.entries.any fun (other, v) =>
    match v with
    | .table => name.isPrefixOf other
    | _ => name.isPrefixOf other || other.isPrefixOf name

def record? (p : Progress) (name : List String) (v : Setting) : Option Progress :=
  let full := p.table ++ name
  if p.clashes full then none
  else some { p with entries := (full, v) :: p.entries, place := .lineEnd }

def close? (p : Progress) (name : List String) (items : List Setting) :
    List (List Setting) → Option Progress
  | [] => p.record? name (.list items.reverse)
  | around :: outer => some { p with place := .itemEnd name outer (.list items.reverse :: around) }

private def single? : Token → Option Setting
  | .bare cs => scalar? cs
  | .quoted s => some (.text s)
  | _ => none

private def name? : Token → Option (List String)
  | .bare cs => keyParts? cs
  | .quoted s => some [s]
  | _ => none

def step? (p : Progress) (t : Token) : Option Progress :=
  match p.place, t with
  | .lineStart, .newline => some p
  | .lineStart, .mark '[' => some { p with place := .header }
  | .lineStart, t => (name? t).map fun name => { p with place := .key name }
  | .header, t => (name? t).map fun name => { p with place := .headerEnd name }
  | .headerEnd name, .mark ']' =>
    (record? { p with table := [] } name .table).map fun q => { q with table := name }
  | .key name, .mark '=' => some { p with place := .value name }
  | .value name, .mark '[' => some { p with place := .item name [] [] }
  | .value name, t => do p.record? name (← single? t)
  | .item _ _ _, .newline | .itemEnd _ _ _, .newline => some p
  | .item name outer items, .mark '[' => some { p with place := .item name (items :: outer) [] }
  | .item name outer items, .mark ']' | .itemEnd name outer items, .mark ']' =>
    p.close? name items outer
  | .item name outer items, t =>
    (single? t).map fun v => { p with place := .itemEnd name outer (v :: items) }
  | .itemEnd name outer items, .mark ',' => some { p with place := .item name outer items }
  | .lineEnd, .newline => some { p with place := .lineStart }
  | _, _ => none

/-- The settings outside all tables; a table counts as one setting. -/
def settings? (p : Progress) : Option (List (String × Setting)) :=
  match p.place with
  | .lineStart | .lineEnd =>
    some (p.entries.reverse.filterMap fun
      | ([], _) => none
      | ([key], v) => some (key, v)
      | (key :: _, _) => some (key, .table))
  | _ => none

end Progress

def parse? (s : String) : Option (List (String × Setting)) := do
  let tokens ← tokens? s.toList
  let progress ← tokens.foldlM Progress.step? {}
  progress.settings?

end KeywordScript.Toml
