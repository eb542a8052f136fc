import ExprLine.FaultCode
import ExprLine.Token.Lexer

namespace ExprLine

/-- A message and the token it is about. One given as data may name no place. -/
structure Diagnostic where
  message : String
  position : Option Int
  token : Option String
deriving DecidableEq, Repr

/-- A token as a message shows it: the lexeme in quotes, or the end of input. -/
def Token.shown (t : Token) : String :=
  if t.isEnd then Kind.endOfInput.phrase else "'" ++ t.lexeme.getD "None" ++ "'"

def BadCharacter.message (e : BadCharacter) : String :=
  FaultCode.invalidCharacter.fill fun
    | .char => String.singleton e.char
    | _ => toString e.position

/-- Why no derivation exists. -/
inductive Cause where
  | expectedClosing | expectedOperand | unexpectedToken
  | nestingTooDeep (limit : Int)
deriving DecidableEq, Repr

def Cause.code : Cause → FaultCode
  | expectedClosing => .expectedClosing
  | expectedOperand => .expectedOperand
  | unexpectedToken => .unexpectedToken
  | nestingTooDeep _ => .nestingTooDeep

/-- A cause and the token at which it was found. -/
structure Blame where
  cause : Cause
  token : Token
deriving DecidableEq, Repr

def Blame.message (b : Blame) : String :=
  b.cause.code.fill fun
    | .limit => match b.cause with
      | .nestingTooDeep limit => toString limit
      | _ => ""
    | _ => b.token.shown

def Blame.diagnostic (b : Blame) : Diagnostic := ⟨b.message, some b.token.position, b.token.lexeme⟩

end ExprLine
