namespace ExprLine.Report

/-- A column of a table: its header and its cells, all set to the right. -/
structure Column where
  header : String
  cells : List String
deriving DecidableEq, Repr

namespace Column

/-- Control characters that would break a row are written as escapes. -/
def escape (s : String) : String :=
  String.ofList (s.toList.flatMap fun
    | '\t' => ['\\', 't']
    | '\r' => ['\\', 'r']
    | '\n' => ['\\', 'n']
    | c => [c])

def texts (header : String) (cells : List String) : Column := ⟨header, cells.map escape⟩

/-- All numbers fit in 64 bits, all of them signed or all of them without a sign. -/
def fit (ns : List Int) : Bool :=
  ns.all (fun n => -0x8000000000000000 ≤ n && n < 0x8000000000000000) ||
    ns.all (fun n => 0 ≤ n && n < 0x10000000000000000)

/-- A column of numbers leaves room for a sign above them; numbers too large to be stored as
such are treated as texts. -/
def numbers (header : String) (ns : List Int) : Column :=
  ⟨if fit ns then " " ++ header else header, ns.map toString⟩

def width (c : Column) : Nat := c.cells.foldl (fun w s => max w s.length) c.header.length

def padLeft (w : Nat) (s : String) : String := String.ofList (List.replicate (w - s.length) ' ') ++ s

/-- Header and cells, brought to one width. -/
def lines (c : Column) : List String := (c.header :: c.cells).map (padLeft c.width)

end Column

/-- Puts columns side by side with a space between them. -/
def joinColumns : List (List String) → List String
  | [] => []
  | [c] => c
  | c :: cs => List.zipWith (fun a b => a ++ " " ++ b) c (joinColumns cs)

def table (columns : List Column) : String := "\n".intercalate (joinColumns (columns.map Column.lines))

end ExprLine.Report
