import ExprLine.Text.Charset
import ExprLine.Token.Basic

namespace ExprLine

/-- The first character of a text that is neither blank nor a lexeme, and where it stands. -/
structure BadCharacter where
  char : Char
  position : Nat
deriving DecidableEq, Repr

namespace Token

/-- The tokens of `s`, whose first character has offset `p`. A bad character anywhere means
that there is no token at all. -/
def scan : List Char → Nat → Except BadCharacter (List Token)
  | [], p => .ok [endAt p]
  | c :: r, p =>
    if Text.isBlank c then scan r (p + 1)
    else match Kind.ofChar? c with
      | none => .error ⟨c, p⟩
      | some k => (scan r (p + 1)).map (⟨k, some (String.singleton c), p⟩ :: ·)

/-- The tokens of a text. Every lexeme is one character, so `12` is two numbers. -/
def ofText (s : List Char) : Except BadCharacter (List Token) := scan s 0

end Token
end ExprLine
