import ExprLine.Text.Line

namespace ExprLine.Report

/-- What stands under the characters before the caret. A tab stays, so that the caret lines up
under a line with tabs. -/
def padding (s : List Char) : List Char := s.map fun c => if c = '\t' then '\t' else ' '

/-- The line that holds an offset, and below it a caret under the column of the offset. -/
def caret (source : List Char) (offset : Int) : String :=
  let p := Text.place source offset
  let line := (Text.lines source).getD p.line []
  "  " ++ String.ofList line ++ "\n  " ++ String.ofList (padding (Text.before line p.column)) ++ "^"

end ExprLine.Report
