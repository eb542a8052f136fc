import ExprLine.Text.Line

namespace ExprLine.Editor

/-- A line and a character in it, both from 0, as an editor names a place. -/
structure Position where
  line : Nat
  character : Nat
deriving DecidableEq, Repr

/-- The half of a position that is out of range. -/
inductive PositionFault where
  | line (n : Int)
  | character (n : Int)
deriving DecidableEq, Repr

namespace Position

/-- The largest line or character an editor can name. -/
def largest : Nat := 2147483647

def inRange (n : Int) : Bool := 0 ≤ n && n ≤ largest

/-- The position of a line and a character in range. The line is looked at first. -/
def make (line character : Int) : Except PositionFault Position :=
  if !inRange line then .error (.line line)
  else if !inRange character then .error (.character character)
  else .ok ⟨line.toNat, character.toNat⟩

/-- The position of an offset. -/
def ofOffset (s : List Char) (offset : Int) : Except PositionFault Position :=
  let p := Text.place s offset
  make p.line p.column

/-- The offset of a position, moved into the text. -/
def toOffset (s : List Char) (p : Position) : Nat := Text.offsetOf s p.line p.character

end Position

def PositionFault.message (f : PositionFault) : String :=
  let (half, n) := match f with
    | line n => ("line", n)
    | character n => ("character", n)
  "Position." ++ half ++ " should be in range [0:" ++ toString Position.largest ++ "], but was " ++
    toString n ++ "."

end ExprLine.Editor
