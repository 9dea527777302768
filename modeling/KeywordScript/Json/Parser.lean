import KeywordScript.Json.Token

/-!
Documents from tokens. One token after the other moves a `Progress` on, so reading is a fold; the
containers around the place reached are kept newest first, and there are at most `maxNesting` of
them.
-/

namespace KeywordScript.Json

def maxNesting : Nat :=
  127

/-- A container that is not closed yet: the items so far, newest first, or the members so far and
the key whose value comes next. -/
inductive Opened where
  | array (items : List Json)
  | object (members : List (String × Json)) (key : String)

/-- What has been read, and so what may come next. -/
inductive Progress where
  /-- A value comes next. -/
  | value (outer : List Opened)
  /-- An array was just opened. -/
  | firstItem (outer : List Opened)
  /-- An object was just opened. -/
  | firstKey (outer : List Opened)
  /-- A member is complete and another follows. -/
  | nextKey (outer : List Opened) (members : List (String × Json))
  /-- A key was read. -/
  | afterKey (outer : List Opened) (members : List (String × Json)) (key : String)
  /-- A value is complete. -/
  | complete (outer : List Opened) (v : Json)

namespace Progress

def startValue? (outer : List Opened) : Token → Option Progress
  | .text s => some (complete outer (.str s))
  | .scalar v => some (complete outer v)
  | .openArray => if outer.length < maxNesting then some (firstItem outer) else none
  | .openObject => if outer.length < maxNesting then some (firstKey outer) else none
  | _ => none

def continue? (v : Json) : List Opened → Token → Option Progress
  | .array items :: outer, .comma => some (value (.array (v :: items) :: outer))
  | .array items :: outer, .closeArray => some (complete outer (.arr (v :: items).reverse))
  | .object members key :: outer, .comma => some (nextKey outer (insertMember key v members))
  | .object members key :: outer, .closeObject =>
    some (complete outer (.obj (insertMember key v members)))
  | _, _ => none

def step? : Progress → Token → Option Progress
  | value outer, t => startValue? outer t
  | firstItem outer, .closeArray => some (complete outer (.arr []))
  | firstItem outer, t => startValue? (.array [] :: outer) t
  | firstKey outer, .closeObject => some (complete outer (.obj []))
  | firstKey outer, .text key => some (afterKey outer [] key)
  | nextKey outer members, .text key => some (afterKey outer members key)
  | afterKey outer members key, .colon => some (value (.object members key :: outer))
  | complete outer v, t => continue? v outer t
  | _, _ => none

/-- The document, once nothing is left open. -/
def document? : Progress → Option Json
  | complete [] v => some v
  | _ => none

end Progress

def parse? (source : String) : Option Json := do
  let tokens ← Token.scan? [] .between source.toList
  let progress ← tokens.foldlM Progress.step? (.value [])
  progress.document?

end KeywordScript.Json
