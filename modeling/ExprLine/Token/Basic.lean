namespace ExprLine

/-- The closed set of token kinds. `endOfInput` marks the end and is no lexeme. -/
inductive Kind where
  | number | identifier | plus | minus | multiply | divide | leftParen | rightParen | endOfInput
deriving DecidableEq, Repr

namespace Kind

def all : List Kind :=
  [number, identifier, plus, minus, multiply, divide, leftParen, rightParen, endOfInput]

/-- The name a kind has in every written form. -/
def name : Kind → String
  | number => "NUMBER"
  | identifier => "IDENTIFIER"
  | plus => "PLUS"
  | minus => "MINUS"
  | multiply => "MULTIPLY"
  | divide => "DIVIDE"
  | leftParen => "LPAREN"
  | rightParen => "RPAREN"
  | endOfInput => "EOF"

def ofName? (s : String) : Option Kind := all.find? (·.name = s)

theorem ofName?_name (k : Kind) : ofName? k.name = some k := by cases k <;> decide

/-- What a reader of the report calls a kind. -/
def phrase : Kind → String
  | number => "a digit"
  | identifier => "a letter"
  | plus => "a plus sign '+'"
  | minus => "a minus sign '-'"
  | multiply => "a multiplication sign '*'"
  | divide => "a division sign '/'"
  | leftParen => "an opening parenthesis '('"
  | rightParen => "a closing parenthesis ')'"
  | endOfInput => "the end of input"

/-- Digits and letters stand for a value; all else joins or groups values. -/
def isOperand : Kind → Bool
  | number | identifier => true
  | _ => false

/-- The kind of the one-character lexeme `c`. Only ASCII digits and letters are lexemes. -/
def ofChar? (c : Char) : Option Kind :=
  if c.isDigit then some number
  else if c.isAlpha then some identifier
  else match c with
    | '+' => some plus
    | '-' => some minus
    | '*' => some multiply
    | '/' => some divide
    | '(' => some leftParen
    | ')' => some rightParen
    | _ => none

theorem ofChar?_ne_endOfInput {c : Char} {k : Kind} (h : ofChar? c = some k) : k ≠ endOfInput := by
  rintro rfl
  unfold ofChar? at h
  split at h
  · simp at h
  split at h
  · simp at h
  split at h <;> simp at h

end Kind

/-- A lexeme with its kind and the offset it starts at. Tokens may also be given as data: then
the lexeme may be any text or none, and the offset any integer. -/
structure Token where
  kind : Kind
  lexeme : Option String
  position : Int
deriving DecidableEq, Repr

/-- The marker that ends the tokens of a text of length `n`. -/
def Token.endAt (n : Nat) : Token := ⟨.endOfInput, none, n⟩

def Token.isEnd (t : Token) : Bool := t.kind = .endOfInput

end ExprLine
