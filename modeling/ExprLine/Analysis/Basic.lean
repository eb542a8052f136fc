import ExprLine.Grammar.Verdict
import ExprLine.SymbolTable

namespace ExprLine

/-- The four ways an analysis fails. -/
inductive ErrorType where
  | inputError | lexicalError | syntaxError | internalError
deriving DecidableEq, Repr

namespace ErrorType

def all : List ErrorType := [inputError, lexicalError, syntaxError, internalError]

def name : ErrorType → String
  | inputError => "INPUT_ERROR"
  | lexicalError => "LEXICAL_ERROR"
  | syntaxError => "SYNTAX_ERROR"
  | internalError => "INTERNAL_ERROR"

def ofName? (s : String) : Option ErrorType := all.find? (·.name = s)

theorem ofName?_name (e : ErrorType) : ofName? e.name = some e := by cases e <;> decide

end ErrorType

/-- All that is known of a text. There is a tally only on success and a list of errors only
after a syntax error. -/
structure Analysis where
  success : Bool
  errorType : Option ErrorType
  message : String
  tokens : List Token
  symbols : List Symbol
  tally : Option Tally
  errors : Option (List Diagnostic)
  tree : Option Tree
deriving Repr, BEq

def Analysis.failure (e : ErrorType) (message : String) : Analysis :=
  ⟨false, some e, message, [], [], none, none, none⟩

end ExprLine
