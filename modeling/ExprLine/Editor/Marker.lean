import ExprLine.Analysis.Run
import ExprLine.Editor.Position

namespace ExprLine.Editor

/-- A message over a range of a document. -/
structure Marker where
  start : Position
  stop : Position
  message : String
deriving DecidableEq, Repr

namespace Marker

/-- Every marker is an error. -/
def severity : Nat := 1

/-- Who set the marker. -/
def origin : String := "exa"

end Marker

/-- The offset an analysis blames. A lexical failure carries none, so the tokens are tried again. -/
def blamedOffset? (s : List Char) (a : Analysis) : Option Int :=
  match a.errors with
  | some (d :: _) => d.position
  | _ =>
    if a.errorType = some .lexicalError then
      match Token.ofText s with
      | .ok _ => none
      | .error e => some e.position
    else none

/-- The range of one character at an offset, or of the whole document. -/
def range (s : List Char) : Option Int → Except PositionFault (Position × Position)
  | none => do return (⟨0, 0⟩, ← Position.ofOffset s s.length)
  | some o => do
    let start ← Position.ofOffset s o
    return (start, ← Position.make start.line (start.character + 1))

/-- The markers of a document: one if its analysis failed. A blank document has none. -/
def markers (s : List Char) (a : Analysis) : Except PositionFault (List Marker) :=
  if s.all Text.isBlank || a.success then .ok []
  else do
    let (start, stop) ← range s (blamedOffset? s a)
    return [⟨start, stop, a.message⟩]

/-- The markers of a document by its own analysis. -/
def markersOf (s : List Char) : Except PositionFault (List Marker) :=
  markers s (Analysis.ofText s defaultLimit)

end ExprLine.Editor
