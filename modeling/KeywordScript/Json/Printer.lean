import KeywordScript.Json.Basic
import KeywordScript.Number.Layout

/-!
Documents as text, without blanks.
-/

namespace KeywordScript

/-- Reals keep a point or an exponent, and the exponent keeps its sign. -/
def Numeral.layout : Number.Layout where
  tie := .even
  positional order := -5 ≤ order && order < 16
  pointZero := true
  plus := true
  nan := "null"
  infinity := "null"

def Numeral.text : Numeral → String
  | natural n => n.toNat.repr
  | negative n => "-" ++ n.toNat.repr
  | real x => layout.write x

namespace Json

def escaped (c : Char) : List Char :=
  match c with
  | '"' => ['\\', '"']
  | '\\' => ['\\', '\\']
  | '\x08' => ['\\', 'b']
  | '\x0c' => ['\\', 'f']
  | '\n' => ['\\', 'n']
  | '\r' => ['\\', 'r']
  | '\t' => ['\\', 't']
  | c =>
    if c < ' ' then
      '\\' :: 'u' :: '0' :: '0' :: (c.toNat / 16).digitChar :: [(c.toNat % 16).digitChar]
    else [c]

private def textLiteral (s : String) : String :=
  String.ofList ('"' :: s.toList.flatMap escaped ++ ['"'])

mutual

def compact : Json → String
  | null => "null"
  | bool b => if b then "true" else "false"
  | num n => n.text
  | str s => textLiteral s
  | arr items => "[" ++ String.intercalate "," (compactItems items) ++ "]"
  | obj members => "\x7b" ++ String.intercalate "," (compactMembers members) ++ "\x7d"

def compactItems : List Json → List String
  | [] => []
  | v :: rest => v.compact :: compactItems rest

def compactMembers : List (String × Json) → List String
  | [] => []
  | (key, v) :: rest => (textLiteral key ++ ":" ++ v.compact) :: compactMembers rest

end

end Json

end KeywordScript
