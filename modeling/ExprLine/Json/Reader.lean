import ExprLine.Json.Lexeme

namespace ExprLine.Json

/-- A list or an object that is still open. What it holds already comes last first. -/
inductive Frame where
  | list (done : List Json)
  | object (done : Members) (key : String)
deriving Repr

/-- What may come next. `stack` has the innermost open list or object first. -/
inductive State where
  | value (stack : List Frame)
  | itemOrClose (stack : List Frame)
  | keyOrClose (stack : List Frame)
  | key (done : Members) (stack : List Frame)
  | colon (done : Members) (key : String) (stack : List Frame)
  | more (frame : Frame) (stack : List Frame)
  | done (v : Json)
deriving Repr

/-- A complete value goes into the innermost open frame. -/
def State.accept (v : Json) : List Frame → State
  | [] => .done v
  | .list vs :: stack => .more (.list (v :: vs)) stack
  | .object ms k :: stack => .more (.object ((k, v) :: ms) k) stack

/-- A value starts: it is complete or opens a frame. -/
def State.start (x : Lexeme) (stack : List Frame) : Option State :=
  match x with
  | .scalar v => some (accept v stack)
  | .text s => some (accept (.str s) stack)
  | .openList => some (.itemOrClose stack)
  | .openObject => some (.keyOrClose stack)
  | _ => none

def State.step : State → Lexeme → Option State
  | value stack, x => start x stack
  | itemOrClose stack, x =>
    match x with
    | .closeList => some (accept (.arr []) stack)
    | x => start x (.list [] :: stack)
  | keyOrClose stack, x =>
    match x with
    | .closeObject => some (accept (.obj []) stack)
    | .text k => some (.colon [] k stack)
    | _ => none
  | key ms stack, x =>
    match x with
    | .text k => some (.colon ms k stack)
    | _ => none
  | colon ms k stack, x =>
    match x with
    | .colon => some (.value (.object ms k :: stack))
    | _ => none
  | more (.list vs) stack, x =>
    match x with
    | .comma => some (.value (.list vs :: stack))
    | .closeList => some (accept (.arr vs.reverse) stack)
    | _ => none
  | more (.object ms _) stack, x =>
    match x with
    | .comma => some (.key ms stack)
    | .closeObject => some (accept (.obj ms.reverse) stack)
    | _ => none
  | done _, _ => none

/-- The value of a document: its lexemes lead from the start to a complete value. -/
def ofLexemes? (xs : List Lexeme) : Option Json :=
  match xs.foldlM State.step (.value []) with
  | some (.done v) => some v
  | _ => none

def read? (s : String) : Option Json := (lexemes? s.toList).bind ofLexemes?

end ExprLine.Json
