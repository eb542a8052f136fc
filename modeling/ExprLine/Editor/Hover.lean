import ExprLine.SymbolTable
import ExprLine.Token.Lexer

namespace ExprLine.Editor

/-- What is shown of a symbol, in Markdown. -/
def describe (e : Symbol) : String :=
  "```\n(" ++ e.kind.name ++ ") " ++ e.lexeme ++ "\n```\n---\nFirst occurrence: " ++ toString e.first ++
    "\nOccurrences (" ++ toString e.occurrences.length ++ "): " ++
    ", ".intercalate (e.occurrences.map toString)

/-- The symbol of the token at an offset. A text with a bad character has no symbols. -/
def symbolAt? (s : List Char) (offset : Int) : Option Symbol :=
  match Token.ofText s with
  | .error _ => none
  | .ok tokens =>
    match SymbolTable.ofTokens tokens with
    | .error _ => none
    | .ok table => table.symbolAt offset

def describeAt? (s : List Char) (offset : Int) : Option String := (symbolAt? s offset).map describe

end ExprLine.Editor
