import ExprLine.Text.Pieces
import ExprLine.Text.Slice

namespace ExprLine.Text

/-- The lines of a text. Only a line feed ends a line. -/
def lines (s : List Char) : List (List Char) := pieces '\n' s

/-- Where the last line of `s` starts: just after its last line feed. -/
def lastLineStart (s : List Char) : Nat :=
  s.length - (s.reverse.takeWhile (· ≠ '\n')).length

/-- A place as a line and a column, both from 0. The column is the distance from the start of
the line; a place before the text has a negative one. -/
structure Place where
  line : Nat
  column : Int
deriving DecidableEq, Repr

/-- The place of an offset. An offset past the end keeps its distance from the last line. -/
def place (s : List Char) (offset : Int) : Place :=
  let head := before s offset
  ⟨head.count '\n', offset - lastLineStart head⟩

/-- The offset of a line and a character in it; both are moved into the text. -/
def offsetOf (s : List Char) (line character : Nat) : Nat :=
  let ls := lines s
  let l := min line (ls.length - 1)
  (ls.take l).foldr (fun r n => r.length + 1 + n) 0 + min character (ls.getD l []).length

end ExprLine.Text
