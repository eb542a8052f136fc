namespace ExprLine

/-- What a fault text leaves open until the fault happens. -/
inductive Slot where
  | char | position | found | limit
deriving DecidableEq, Repr

def Slot.name : Slot → String
  | char => "char"
  | position => "position"
  | found => "found"
  | limit => "max_depth"

/-- A part of a fault text: fixed words or a slot. -/
inductive Piece where
  | words (s : String)
  | slot (s : Slot)
deriving DecidableEq, Repr

/-- The faults an analysis can report. -/
inductive FaultCode where
  | emptyInput | invalidCharacter | expectedClosing | expectedOperand | unexpectedToken
  | nestingTooDeep | internal
deriving DecidableEq, Repr

namespace FaultCode

def all : List FaultCode :=
  [emptyInput, invalidCharacter, expectedClosing, expectedOperand, unexpectedToken,
    nestingTooDeep, internal]

def name : FaultCode → String
  | emptyInput => "EMPTY_INPUT"
  | invalidCharacter => "INVALID_CHARACTER"
  | expectedClosing => "EXPECTED_RPAREN"
  | expectedOperand => "EXPECTED_OPERAND"
  | unexpectedToken => "UNEXPECTED_TOKEN"
  | nestingTooDeep => "NESTING_TOO_DEEP"
  | internal => "INTERNAL"

def ofName? (s : String) : Option FaultCode := all.find? (·.name = s)

theorem ofName?_name (c : FaultCode) : ofName? c.name = some c := by cases c <;> decide

def pieces : FaultCode → List Piece
  | emptyInput => [.words "Input string is required"]
  | invalidCharacter =>
    [.words "Invalid character: '", .slot .char, .words "' at position ", .slot .position]
  | expectedClosing => [.words "Expected ')' but found ", .slot .found]
  | expectedOperand => [.words "Expected identifier or '(' but found ", .slot .found]
  | unexpectedToken => [.words "Unexpected token: ", .slot .found]
  | nestingTooDeep =>
    [.words "Expression is nested too deeply (maximum depth is ", .slot .limit, .words ")"]
  | internal => [.words "An unexpected internal error occurred."]

/-- The text of the fault once every slot is known. What fills a slot is never read as slots
again. -/
def fill (c : FaultCode) (f : Slot → String) : String :=
  c.pieces.foldr (fun
    | .words s, r => s ++ r
    | .slot s, r => f s ++ r) ""

/-- The text with its slots named between braces. -/
def template (c : FaultCode) : String := c.fill fun s => "\x7b" ++ s.name ++ "\x7d"

/-- The slots of the text from left to right. -/
def slots (c : FaultCode) : List Slot :=
  c.pieces.filterMap fun
    | .words _ => none
    | .slot s => some s

end FaultCode
end ExprLine
