import KeywordScript.Expr.Basic
import KeywordScript.Json.Printer
import KeywordScript.Text.Quoted

/-!
Expressions from documents, and from texts for a given way to parse documents. Scalars are literals,
arrays are scripts, and an object is a node: one key is the keyword, and `line` and `script` are
reserved.
-/

namespace KeywordScript

inductive LoadError where
  | missingKeyword (keys : List String)
  | ambiguousKeyword (keywords : List String)
  | invalidLine (found : Json)

namespace LoadError

def message : LoadError → String
  | missingKeyword keys =>
    "keyword node has no keyword (keys: " ++ Text.bracketed (keys.map Text.quoted) ++ ")"
  | ambiguousKeyword keywords =>
    "keyword node has more than one keyword: " ++ Text.bracketed (keywords.map Text.quoted)
  | invalidLine found =>
    "'line' must be a non-negative integer, got " ++ found.compact

end LoadError

namespace Expr

def lineField : String :=
  "line"

def codeField : String :=
  "script"

/-- Whether a field of a node is not its keyword. -/
def isReserved (key : String) : Bool :=
  key == lineField || key == codeField

/-- The line that a node's members give. It is an integer of 32 bits without a sign. -/
def lineOf (members : List (String × Json)) : Except LoadError (Option Nat) :=
  match members.lookup lineField with
  | none | some .null => .ok none
  | some (.num (.natural n)) =>
    if n.toNat < UInt32.size then .ok (some n.toNat) else .error (.invalidLine (.num (.natural n)))
  | some v => .error (.invalidLine v)

def codeOf (site : Site) (parts : List (String × Except LoadError Expr)) :
    Except LoadError (Option Code) :=
  match parts.lookup codeField with
  | none => .ok none
  | some body => body.map fun e => some { site := site.part .code, body := e }

/-- A node from its line and its members, each loaded by itself. The line is looked at first, then
the code, then the number of keywords, and the argument last. -/
def assemble (site : Site) (line : Except LoadError (Option Nat))
    (parts : List (String × Except LoadError Expr)) : Except LoadError Expr := do
  let line ← line
  let code ← codeOf site parts
  match parts.filter fun (key, _) => !isReserved key with
  | [] =>
    throw (.missingKeyword
      ((if line.isSome then [lineField] else []) ++ if code.isSome then [codeField] else []))
  | [(keyword, arg)] => return .node keyword (← arg) code line
  | several => throw (.ambiguousKeyword (several.map Prod.fst))

mutual

def load (site : Site) : Json → Except LoadError Expr
  | .null => .ok (.lit .null)
  | .bool b => .ok (.lit (.bool b))
  | .num n => .ok (.lit (.num n.toFloat))
  | .str s => .ok (.lit (.str s))
  | .arr items => (loadItems site 0 items).map .script
  | .obj members => assemble site (lineOf members) (loadMembers site members)

/-- Items in order, up to the first that fails. -/
def loadItems (site : Site) (index : Nat) : List Json → Except LoadError (List Expr)
  | [] => .ok []
  | v :: rest => do
    let e ← load (site.part (.item index)) v
    let es ← loadItems site (index + 1) rest
    return e :: es

def loadMembers (site : Site) : List (String × Json) → List (String × Except LoadError Expr)
  | [] => []
  | (key, v) :: rest =>
    (key, load (site.part (if key = codeField then .code else .argument)) v) ::
      loadMembers site rest

end

/-- The items of the script that a document writes. -/
def loadTop (document : Nat) (v : Json) : Except LoadError (List Expr) :=
  (load { document } v).map items

end Expr

inductive SourceError where
  | notJson
  | load (e : LoadError)

namespace Expr

variable (parse : String → Option Json)

/-- The document that `parse` finds in a text. -/
def parsed (source : String) : Except SourceError Json :=
  match parse source with
  | some v => .ok v
  | none => .error .notJson

def ofSource (document : Nat) (source : String) : Except SourceError Expr := do
  (load { document } (← parsed parse source)).mapError .load

def scriptOfSource (document : Nat) (source : String) : Except SourceError (List Expr) := do
  (loadTop document (← parsed parse source)).mapError .load

end Expr

end KeywordScript
