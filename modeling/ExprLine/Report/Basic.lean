import ExprLine.Analysis.Basic
import ExprLine.Report.Caret
import ExprLine.Report.Table
import ExprLine.Tree.Sketch

namespace ExprLine.Report

/-- The colours of a terminal. -/
inductive Colour where
  | red | green | cyan
deriving DecidableEq, Repr

def Colour.code : Colour → String
  | red => "\x1b[91m"
  | green => "\x1b[92m"
  | cyan => "\x1b[96m"

def paint (c : Colour) (s : String) : String := c.code ++ s ++ "\x1b[0m"

def tokenTable (ts : List Token) : String :=
  table [.numbers "position" (ts.map (·.position)), .texts "type" (ts.map (·.kind.name)),
    .texts "value" (ts.map (·.lexeme.getD "")), .texts "description" (ts.map (·.kind.phrase))]

/-- Offsets with a comma between them. -/
def offsets (ps : List Int) : String := ", ".intercalate (ps.map toString)

def symbolTable (es : List Symbol) : String :=
  table [.texts "token" (es.map (·.lexeme)), .texts "type" (es.map (·.kind.name)),
    .numbers "first" (es.map (·.first)), .numbers "count" (es.map fun e => e.occurrences.length),
    .texts "occurrences" (es.map fun e => offsets e.occurrences)]

def tallyLine (t : Tally) : String :=
  "Total tokens: " ++ toString t.total ++ " (" ++
    ", ".intercalate (t.byKind.map fun (k, n) => k ++ "=" ++ toString n) ++ ")"

def heading (s : String) : String := "\n" ++ paint .cyan s ++ "\n"

/-- What came of the analysis. A failure is shown by its type, so it must have one. -/
def banner? (a : Analysis) : Option String :=
  if a.success then some ("\n" ++ paint .green ("--- " ++ a.message ++ " ---") ++ "\n")
  else a.errorType.map fun e => "\n" ++ paint .red ("--- " ++ e.name ++ " ---\n" ++ a.message) ++ "\n"

/-- The places of the errors that name one. -/
def carets (source : List Char) (a : Analysis) : String :=
  String.join ((a.errors.getD []).filterMap fun d => d.position.map fun p => caret source p ++ "\n")

/-- The report of an analysis. Parts that are empty are left out. -/
def text? (source : List Char) (a : Analysis) : Option String :=
  (banner? a).map fun banner =>
    banner ++ carets source a ++
    (if a.tokens.isEmpty then "" else heading "Tokens" ++ tokenTable a.tokens ++ "\n") ++
    (if a.symbols.isEmpty then "" else heading "Symbol Table" ++ symbolTable a.symbols ++ "\n") ++
    (match a.tally with
      | none => ""
      | some t => "\n" ++ tallyLine t ++ "\n") ++
    (match a.tree with
      | none => ""
      | some t => heading "Derivation Tree" ++ t.pretty)

end ExprLine.Report
