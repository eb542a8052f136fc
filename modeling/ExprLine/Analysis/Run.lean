import ExprLine.Analysis.Basic

namespace ExprLine

/-- The stages of an analysis in their order. -/
inductive Stage where
  | tokens | symbolTable | parseTree
deriving DecidableEq, Repr

namespace Stage

def all : List Stage := [tokens, symbolTable, parseTree]

def name : Stage → String
  | tokens => "tokens"
  | symbolTable => "symbol_table"
  | parseTree => "parse_tree"

/-- What the command line calls a stage. -/
def title : Stage → String
  | tokens => "Token Stream"
  | symbolTable => "Symbol Table"
  | parseTree => "Derivation Tree"

/-- The number by which the command line selects a stage. -/
def key : Stage → String
  | tokens => "1"
  | symbolTable => "2"
  | parseTree => "3"

def ofKey? (s : String) : Option Stage := all.find? (·.key = s)

end Stage

/-- What a completed stage has made. -/
inductive Product where
  | tokens (ts : List Token)
  | symbolTable (t : SymbolTable)
  | parseTree (v : Verdict)
deriving Repr

def Product.stage : Product → Stage
  | tokens _ => .tokens
  | symbolTable _ => .symbolTable
  | parseTree _ => .parseTree

/-- An analysis and the products of the stages it completed, in their order. -/
structure Run where
  analysis : Analysis
  products : List Product
deriving Repr

namespace Analysis

def accepted : String := "Input string accepted!"

/-- A stopped analysis never looked at the grammar, so it says nothing of acceptance. -/
def stopped (s : Stage) : String := "Analysis stopped after stage '" ++ s.name ++ "'"

def internalFailure : Analysis := failure .internalError FaultCode.internal.template

/-- The analysis of a derivation that was tried. -/
def ofVerdict (tokens : List Token) (table : SymbolTable) (v : Verdict) : Analysis :=
  if v.success then
    { success := true, errorType := none, message := accepted, tokens := tokens,
      symbols := table.symbols, tally := some table.tally, errors := none, tree := v.tree }
  else
    { success := false, errorType := some .syntaxError,
      message := (v.errors.head?.map (·.message)).getD "", tokens := tokens,
      symbols := table.symbols, tally := none, errors := some v.errors, tree := none }

/-- The stages after the tokens. -/
def runTokens (tokens : List Token) (stopAfter : Option String) (limit : Option Int) : Run :=
  if stopAfter = some Stage.tokens.name then
    ⟨{ success := true, errorType := none, message := stopped .tokens, tokens := tokens,
       symbols := [], tally := none, errors := none, tree := none }, [.tokens tokens]⟩
  else match SymbolTable.ofTokens tokens with
    | .error _ => ⟨internalFailure, [.tokens tokens]⟩
    | .ok table =>
      if stopAfter = some Stage.symbolTable.name then
        ⟨{ success := true, errorType := none, message := stopped .symbolTable, tokens := tokens,
           symbols := table.symbols, tally := some table.tally, errors := none, tree := none },
          [.tokens tokens, .symbolTable table]⟩
      else match parse tokens limit with
        | .error _ => ⟨internalFailure, [.tokens tokens, .symbolTable table]⟩
        | .ok v =>
          ⟨ofVerdict tokens table v, [.tokens tokens, .symbolTable table, .parseTree v]⟩

/-- Analyses a text, up to the stage named by `stopAfter` if there is one of that name. A blank
text, or none, is refused before the first stage. -/
def run (source : Option (List Char)) (stopAfter : Option String) (limit : Option Int) : Run :=
  match source with
  | none => ⟨failure .inputError FaultCode.emptyInput.template, []⟩
  | some s =>
    if s.all Text.isBlank then ⟨failure .inputError FaultCode.emptyInput.template, []⟩
    else match Token.ofText s with
      | .error e => ⟨failure .lexicalError e.message, []⟩
      | .ok tokens => runTokens tokens stopAfter limit

/-- The full analysis of a text. -/
def ofText (s : List Char) (limit : Int) : Analysis := (run (some s) none (some limit)).analysis

end Analysis
end ExprLine
