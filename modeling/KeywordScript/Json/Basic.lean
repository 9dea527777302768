/-!
Documents: the data that a script is written in.
-/

namespace KeywordScript

/-- A number of a document. Integers of at most 64 bits keep their digits; `negative n` is `-n`. -/
inductive Numeral where
  | natural (n : UInt64)
  | negative (n : UInt64)
  | real (x : Float)
deriving DecidableEq

namespace Numeral

def toFloat : Numeral → Float
  | natural n => n.toFloat
  | negative n => -n.toFloat
  | real x => x

end Numeral

/-- A document. The members of an object stand in the order of their keys. -/
inductive Json where
  | null
  | bool (b : Bool)
  | num (n : Numeral)
  | str (s : String)
  | arr (items : List Json)
  | obj (members : List (String × Json))

namespace Json

/-- Puts a member in its place. A member of the same key is replaced. -/
def insertMember (key : String) (value : Json) :
    List (String × Json) → List (String × Json)
  | [] => [(key, value)]
  | (k, v) :: rest =>
    if key < k then (key, value) :: (k, v) :: rest
    else if key = k then (key, value) :: rest
    else (k, v) :: insertMember key value rest

end Json

end KeywordScript
