namespace ExprLine

/-- A JSON value. Numbers are integers without bound, and members keep their order. -/
inductive Json where
  | null
  | bool (b : Bool)
  | int (i : Int)
  | str (s : String)
  | arr (items : List Json)
  | obj (members : List (String × Json))
deriving Repr, BEq

namespace Json

abbrev Members := List (String × Json)

/-- The value under a key; the first one where a key is repeated. -/
def Members.get? (ms : Members) (key : String) : Option Json := ms.lookup key

def get? (v : Json) (key : String) : Option Json :=
  match v with
  | obj ms => Members.get? ms key
  | _ => none

def optional : Option Json → Json
  | none => null
  | some v => v

def text : Option String → Json
  | none => null
  | some s => str s

def number : Option Int → Json
  | none => null
  | some i => int i

end Json
end ExprLine
