import ExprLine.Token.Basic

namespace ExprLine

/-- All tokens of one kind and lexeme: the offset of the first, and those of all as they came. -/
structure Symbol where
  lexeme : String
  kind : Kind
  first : Int
  occurrences : List Int
deriving DecidableEq, Repr

/-- How many tokens there are, and how many of each kind. -/
structure Tally where
  total : Int
  byKind : List (String × Int)
deriving DecidableEq, Repr

/-- The symbols in the order they were first seen, and the kinds likewise with their counts. -/
structure SymbolTable where
  symbols : List Symbol
  counts : List (Kind × Nat)
deriving DecidableEq, Repr

namespace SymbolTable

/-- Why a token is no symbol. -/
inductive Rejection where
  | endMarker | noLexeme
deriving DecidableEq, Repr

/-- How an end marker is refused. A token without a lexeme is refused by the fields of a symbol. -/
def Rejection.endMarker.message : String :=
  "The EOF marker is not a lexeme and cannot be added to the symbol table."

def empty : SymbolTable := ⟨[], []⟩

/-- Adds an occurrence to the symbol of kind `k` and lexeme `x`, or a new symbol at the end. -/
def insert (k : Kind) (x : String) (p : Int) : List Symbol → List Symbol
  | [] => [⟨x, k, p, [p]⟩]
  | e :: es =>
    if e.kind = k ∧ e.lexeme = x then { e with occurrences := e.occurrences ++ [p] } :: es
    else e :: insert k x p es

/-- Counts one more of kind `k`; a new kind goes to the end. -/
def count (k : Kind) : List (Kind × Nat) → List (Kind × Nat)
  | [] => [(k, 1)]
  | (l, n) :: cs => if l = k then (l, n + 1) :: cs else (l, n) :: count k cs

def add (t : SymbolTable) (a : Token) : Except Rejection SymbolTable :=
  if a.isEnd then .error .endMarker
  else match a.lexeme with
    | none => .error .noLexeme
    | some x => .ok ⟨insert a.kind x a.position t.symbols, count a.kind t.counts⟩

/-- The table of a list of tokens. End markers are passed over; any other token without a
lexeme spoils the whole table. -/
def ofTokens (tokens : List Token) : Except Rejection SymbolTable :=
  (tokens.filter (!·.isEnd)).foldlM add empty

def lookup (t : SymbolTable) (k : Kind) (x : String) : Option Symbol :=
  t.symbols.find? fun e => e.kind = k ∧ e.lexeme = x

/-- The first symbol that occurs at `p`. -/
def symbolAt (t : SymbolTable) (p : Int) : Option Symbol :=
  t.symbols.find? fun e => p ∈ e.occurrences

def size (t : SymbolTable) : Nat := t.symbols.length

def total (t : SymbolTable) : Nat := t.counts.foldr (fun e n => e.2 + n) 0

def tally (t : SymbolTable) : Tally :=
  ⟨t.total, t.counts.map fun (k, n) => (k.name, n)⟩

end SymbolTable
end ExprLine
