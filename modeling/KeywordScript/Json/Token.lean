import KeywordScript.Json.Numeral

/-!
Tokens of documents: brackets, separators, texts and the other scalars.
-/

namespace KeywordScript.Json

inductive Token where
  | openArray
  | closeArray
  | openObject
  | closeObject
  | comma
  | colon
  | text (s : String)
  | scalar (v : Json)

namespace Token

open Number (hexDigit?)

def unit? (a b c d : Char) : Option Nat := do
  return (((← hexDigit? a) * 16 + (← hexDigit? b)) * 16 + (← hexDigit? c)) * 16 + (← hexDigit? d)

def escape? : Char → Option Char
  | '"' => some '"'
  | '\\' => some '\\'
  | '/' => some '/'
  | 'b' => some '\x08'
  | 'f' => some '\x0c'
  | 'n' => some '\n'
  | 'r' => some '\r'
  | 't' => some '\t'
  | _ => none

/-- The character of one unit; half of a surrogate pair is none. -/
def single? (u : Nat) : Option Char :=
  if 0xD800 ≤ u && u ≤ 0xDFFF then none else some (Char.ofNat u)

def pair? (high low : Nat) : Option Char :=
  if 0xD800 ≤ high && high ≤ 0xDBFF && 0xDC00 ≤ low && low ≤ 0xDFFF then
    some (Char.ofNat (0x10000 + (high - 0xD800) * 0x400 + (low - 0xDC00)))
  else none

/-- The first character that a text writes, and what follows it. Control characters are written as
escapes only. -/
def character? : List Char → Option (Char × List Char)
  | [] => none
  | '\\' :: 'u' :: a :: b :: c :: d :: cs =>
    match (unit? a b c d).bind single?, cs with
    | some x, cs => some (x, cs)
    | none, '\\' :: 'u' :: e :: f :: g :: h :: rest =>
      ((unit? a b c d).bind fun u => (unit? e f g h).bind fun v => pair? u v).map fun x => (x, rest)
    | none, _ => none
  | '\\' :: e :: cs => (escape? e).map fun x => (x, cs)
  | c :: cs => if c < ' ' then none else some (c, cs)

theorem length_lt_of_character? {cs : List Char} {x : Char} {rest : List Char}
    (h : character? cs = some (x, rest)) : rest.length < cs.length := by
  unfold character? at h
  split at h
  · contradiction
  · split at h
    · cases h
      simp only [List.length_cons]
      omega
    · obtain ⟨_, _, h⟩ := Option.map_eq_some_iff.1 h
      cases h
      simp only [List.length_cons]
      omega
    · contradiction
  · obtain ⟨_, _, h⟩ := Option.map_eq_some_iff.1 h
    cases h
    simp only [List.length_cons]
    omega
  · split at h
    · contradiction
    · cases h
      simp

private theorem length_dropWhile_lt_cons (p : Char → Bool) (c : Char) (cs : List Char) :
    (cs.dropWhile p).length < (c :: cs).length :=
  Nat.lt_succ_of_le (List.dropWhile_suffix p).length_le

private def isBlank (c : Char) : Bool :=
  c == ' ' || c == '\t' || c == '\n' || c == '\r'

def mark? : Char → Option Token
  | '[' => some openArray
  | ']' => some closeArray
  | '{' => some openObject
  | '}' => some closeObject
  | ',' => some comma
  | ':' => some colon
  | _ => none

private def endsWord (c : Char) : Bool :=
  isBlank c || c == '"' || (mark? c).isSome

/-- A run of characters without blanks, quotes and marks. -/
def word? (cs : List Char) : Option Json :=
  if cs = ['n', 'u', 'l', 'l'] then some .null
  else if cs = ['t', 'r', 'u', 'e'] then some (.bool true)
  else if cs = ['f', 'a', 'l', 's', 'e'] then some (.bool false)
  else (Numeral.ofText? cs).map .num

/-- Where a scan stands: between tokens, or in a text whose characters so far are given newest
first. -/
inductive Position where
  | between
  | inText (seen : List Char)

/-- The tokens of a document, after those already found (newest first). -/
def scan? (found : List Token) : Position → List Char → Option (List Token)
  | .between, [] => some found.reverse
  | .between, c :: cs =>
    if isBlank c then scan? found .between cs
    else if c == '"' then scan? found (.inText []) cs
    else match mark? c with
      | some t => scan? (t :: found) .between cs
      | none => do
        let v ← word? (c :: cs.takeWhile fun d => !endsWord d)
        have := length_dropWhile_lt_cons (fun d => !endsWord d) c cs
        scan? (scalar v :: found) .between (cs.dropWhile fun d => !endsWord d)
  | .inText _, [] => none
  | .inText seen, c :: cs =>
    if c == '"' then scan? (text (String.ofList seen.reverse) :: found) .between cs
    else match h : character? (c :: cs) with
      | some (x, rest) =>
        have := length_lt_of_character? h
        scan? found (.inText (x :: seen)) rest
      | none => none
termination_by _ cs => cs.length
decreasing_by all_goals simp_all

end Token

end KeywordScript.Json
