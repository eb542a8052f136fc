import ExprLine.Editor.Hover
import ExprLine.Editor.Marker

namespace ExprLine.Editor

/-- The open documents and their texts. -/
structure Workspace where
  documents : List (String × List Char)
deriving Repr

/-- Why a document cannot be answered for. -/
inductive WorkspaceFault where
  | notOpen (uri : String)
  | position (f : PositionFault)
deriving DecidableEq, Repr

namespace Workspace

def empty : Workspace := ⟨[]⟩

def text? (w : Workspace) (uri : String) : Option (List Char) := w.documents.lookup uri

/-- Opens a document or replaces the text of an open one. -/
def set (w : Workspace) (uri : String) (s : List Char) : Workspace :=
  ⟨(uri, s) :: w.documents.filter (·.1 ≠ uri)⟩

def publish (s : List Char) : Except WorkspaceFault (List Marker) :=
  (markersOf s).mapError .position

/-- Opens a document and marks it. -/
def opened (w : Workspace) (uri : String) (s : List Char) :
    Workspace × Except WorkspaceFault (List Marker) :=
  (w.set uri s, publish s)

/-- Replaces the text of an open document and marks it. -/
def changed (w : Workspace) (uri : String) (s : List Char) :
    Workspace × Except WorkspaceFault (List Marker) :=
  match w.text? uri with
  | none => (w, .error (.notOpen uri))
  | some _ => (w.set uri s, publish s)

/-- What is shown at a line and a character of an open document. -/
def hover (w : Workspace) (uri : String) (line character : Int) : Except WorkspaceFault (Option String) :=
  match Position.make line character with
  | .error f => .error (.position f)
  | .ok p =>
    match w.text? uri with
    | none => .error (.notOpen uri)
    | some s => .ok (describeAt? s (p.toOffset s))

end Workspace
end ExprLine.Editor
