import ExprLine.FaultCode
import ExprLine.Json.Basic
import ExprLine.Text.Quoted

namespace ExprLine

mutual

/-- A value in running text. Texts within a list or an object are quoted. -/
def Json.spoken (nested : Bool) : Json → String
  | .null => "None"
  | .bool b => if b then "True" else "False"
  | .int i => toString i
  | .str s => if nested then Text.quoted s else s
  | .arr vs => "[" ++ Json.spokenItems "" vs ++ "]"
  | .obj ms => "\x7b" ++ Json.spokenMembers "" ms ++ "\x7d"

def Json.spokenItems (sep : String) : List Json → String
  | [] => ""
  | v :: vs => sep ++ Json.spoken true v ++ Json.spokenItems ", " vs

def Json.spokenMembers (sep : String) : Json.Members → String
  | [] => ""
  | (k, v) :: ms => sep ++ Text.quoted k ++ ": " ++ Json.spoken true v ++ Json.spokenMembers ", " ms

end

/-- A fault with what is known of it: where it is, and the details under their names. -/
structure Fault where
  code : FaultCode
  position : Json
  details : Json.Members
deriving Repr

namespace Fault

/-- Why a fault has no message. -/
inductive Gap where
  | missing (s : Slot)
  | taken (name : String)
deriving DecidableEq, Repr

/-- The names that no detail may have: they say what the fault is and where. -/
def reserved : List String := ["self", "code", "position"]

/-- What fills a slot. The position is always known, if only as missing. -/
def detail? (f : Fault) (s : Slot) : Option Json :=
  match s with
  | .position => some f.position
  | s => f.details.get? s.name

/-- The message, unless a detail has a reserved name or there is none for a slot. -/
def message (f : Fault) : Except Gap String :=
  match f.details.find? fun (k, _) => k ∈ reserved with
  | some (k, _) => .error (.taken k)
  | none =>
    match f.code.slots.find? fun s => (f.detail? s).isNone with
    | some s => .error (.missing s)
    | none => .ok (f.code.fill fun s => ((f.detail? s).map (Json.spoken false)).getD "")

end Fault
end ExprLine
