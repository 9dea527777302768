import KeywordScript.Expr.Basic
import KeywordScript.Number.Layout
import KeywordScript.Text.Quoted

/-!
Outlines: texts that show how an expression is built.
-/

namespace KeywordScript

/-- Numbers in outlines keep a point or an exponent. -/
def Literal.layout : Number.Layout where
  tie := .up
  positional order := -4 ≤ order && order < 16
  pointZero := true
  plus := false
  nan := "NaN"
  infinity := "inf"

def Literal.outline : Literal → String
  | null => "Null"
  | bool b => if b then "Bool(true)" else "Bool(false)"
  | num x => "Num(" ++ layout.write x ++ ")"
  | str s => "Str(" ++ Text.quoted s ++ ")"

namespace Expr

private def optional (text : Option String) : String :=
  match text with
  | none => "None"
  | some s => "Some(" ++ s ++ ")"

private def nodeOutline (keyword arg : String) (code : Option String) (line : Option Nat) :
    String :=
  "Node(Node \x7b keyword: " ++ keyword ++ ", arg: " ++ arg ++ ", script: " ++ optional code ++
    ", line: " ++ optional (line.map Nat.repr) ++ " \x7d)"

mutual

def outline : Expr → String
  | lit l => "Lit(" ++ l.outline ++ ")"
  | script items => "Script(" ++ Text.bracketed (outlines items) ++ ")"
  | node keyword arg none line => nodeOutline (Text.quoted keyword) arg.outline none line
  | node keyword arg (some code) line =>
    nodeOutline (Text.quoted keyword) arg.outline (some code.body.outline) line

def outlines : List Expr → List String
  | [] => []
  | e :: rest => e.outline :: outlines rest

end

end Expr

end KeywordScript
