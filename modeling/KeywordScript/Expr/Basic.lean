/-!
Expressions: literals, scripts and nodes. A node names a keyword, has an argument to evaluate and
may carry code that is handed on as it stands.
-/

namespace KeywordScript

/-- A value written in a script. These are the literals of loaded documents: an array is loaded as a
script and code only as the `script` of a node, so no literal is a list, code or a callable. -/
inductive Literal where
  | null
  | bool (b : Bool)
  | num (x : Float)
  | str (s : String)
deriving DecidableEq

inductive Step where
  | item (index : Nat)
  | argument
  | code
deriving DecidableEq

/-- A place in a document that was loaded; `path` leads there from the top, last step first. Two
pieces of code are the same piece when they stand in the same place. -/
structure Site where
  document : Nat
  path : List Step := []
deriving DecidableEq

def Site.part (site : Site) (step : Step) : Site :=
  { site with path := step :: site.path }

/-- Something together with the place it was loaded from. -/
structure Sited (α : Type) where
  site : Site
  body : α

inductive Expr where
  | lit (l : Literal)
  /-- Evaluates its items in order, in a scope of its own. -/
  | script (items : List Expr)
  /-- Calls what `keyword` is bound to. `line` is for diagnostics only; one that was loaded has 32
  bits. -/
  | node (keyword : String) (arg : Expr) (code : Option (Sited Expr)) (line : Option Nat)

/-- Code that a keyword receives unevaluated. -/
abbrev Code :=
  Sited Expr

namespace Expr

/-- The items of a script; any other expression is its own single item. -/
def items : Expr → List Expr
  | script items => items
  | other => [other]

end Expr

end KeywordScript
