import KeywordScript.Expr.Outline
import KeywordScript.Value.Basic

/-!
Values as text: what a script prints, and an outline that shows how a value is built.
-/

namespace KeywordScript.Value

variable {H : Type}

/-- Numbers are printed positionally, and infinity by its name. -/
def layout : Number.Layout :=
  { Number.Layout.plain with infinity := "Infinity" }

mutual

/-- The text of a value. Items of a list are divided by commas, and a null item leaves its place
empty. -/
def text : Value H → String
  | null => "null"
  | bool b => if b then "true" else "false"
  | num x => layout.write x
  | str s => s
  | list items => String.intercalate "," (itemTexts items)
  | code _ => "[script]"
  | builtin k => "[keyword " ++ k.name ++ "]"
  | native n => "[native " ++ n.name ++ "]"
  | func f => "[function " ++ f.name ++ "]"

def itemTexts : List (Value H) → List String
  | [] => []
  | null :: rest => "" :: itemTexts rest
  | v :: rest => v.text :: itemTexts rest

end

/-- The line that `PRINT` writes: the texts of its arguments one after the other, without those of
nulls. -/
def line (args : List (Value H)) : String :=
  String.join (args.map fun
    | null => ""
    | v => v.text)

mutual

def outline : Value H → String
  | null => Literal.null.outline
  | bool b => (Literal.bool b).outline
  | num x => (Literal.num x).outline
  | str s => (Literal.str s).outline
  | list items => "List(" ++ Text.bracketed (outlines items) ++ ")"
  | code c => "Code(" ++ c.body.outline ++ ")"
  | builtin k => "Builtin(" ++ k.name ++ ")"
  | native n => "Native(" ++ n.name ++ ")"
  | func f => "Func(" ++ f.name ++ "/" ++ f.params.length.repr ++ ")"

def outlines : List (Value H) → List String
  | [] => []
  | v :: rest => v.outline :: outlines rest

end

end KeywordScript.Value
