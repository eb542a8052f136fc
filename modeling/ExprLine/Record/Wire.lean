import ExprLine.Analysis.Run
import ExprLine.Json.Basic

namespace ExprLine

def Token.toJson (t : Token) : Json :=
  .obj [("type", .str t.kind.name), ("value", .text t.lexeme), ("position", .int t.position)]

mutual

def Tree.toJson : Tree → Json
  | .node l v cs => .obj [("label", .str l), ("value", .text v), ("children", .arr (Tree.toJsonAll cs))]

def Tree.toJsonAll : List Tree → List Json
  | [] => []
  | t :: ts => t.toJson :: Tree.toJsonAll ts

end

def Symbol.toJson (e : Symbol) : Json :=
  .obj [("token", .str e.lexeme), ("type", .str e.kind.name), ("firstOccurrence", .int e.first),
    ("occurrences", .arr (e.occurrences.map .int))]

def Tally.toJson (t : Tally) : Json :=
  .obj [("totalTokens", .int t.total), ("tokensByType", .obj (t.byKind.map fun (k, n) => (k, .int n)))]

def Diagnostic.toJson (d : Diagnostic) : Json :=
  .obj [("message", .str d.message), ("position", .number d.position), ("token", .text d.token)]

def Verdict.toJson (v : Verdict) : Json :=
  .obj [("success", .bool v.success), ("parseTree", .optional (v.tree.map Tree.toJson)),
    ("errors", .arr (v.errors.map Diagnostic.toJson))]

/-- The tally and the errors are left out where there are none; an empty list of errors stays. -/
def Analysis.toJson (a : Analysis) : Json :=
  .obj ([("success", .bool a.success), ("errorType", .text (a.errorType.map ErrorType.name)),
      ("message", .str a.message), ("tokens", .arr (a.tokens.map Token.toJson)),
      ("symbolTable", .arr (a.symbols.map Symbol.toJson))] ++
    (a.tally.map fun t => ("statistics", t.toJson)).toList ++
    (a.errors.map fun es => ("errors", .arr (es.map Diagnostic.toJson))).toList ++
    [("parseTree", .optional (a.tree.map Tree.toJson))])

/-- What a stage leaves on disk. The table is kept with its counts. -/
def Product.toJson : Product → Json
  | tokens ts => .arr (ts.map Token.toJson)
  | symbolTable t =>
    .obj [("symbolTable", .arr (t.symbols.map Symbol.toJson)), ("statistics", t.tally.toJson)]
  | parseTree v => v.toJson

end ExprLine
