import ExprLine.Token.Basic
import ExprLine.Tree.Basic

namespace ExprLine

/-- The nonterminals of the grammar
`E → T E'`, `E' → (+|-) T E' | ε`, `T → F T'`, `T' → (*|/) F T' | ε`, `F → ( E ) | id`. -/
inductive Nonterminal where
  | expr | exprRest | term | termRest | factor
deriving DecidableEq, Repr

def Nonterminal.label : Nonterminal → String
  | expr => "E"
  | exprRest => "E'"
  | term => "T"
  | termRest => "T'"
  | factor => "F"

/-- What stands on the right of a production: a token, a nonterminal or the empty string. -/
inductive Item where
  | token (k : Kind)
  | sub (n : Nonterminal)
  | empty
deriving DecidableEq, Repr

/-- The production of a nonterminal that the next token selects, if any does. One token is
enough: no two productions of a nonterminal start alike. -/
def production : Nonterminal → Kind → Option (List Item)
  | .expr, _ => some [.sub .term, .sub .exprRest]
  | .exprRest, k =>
    match k with
    | .plus | .minus => some [.token k, .sub .term, .sub .exprRest]
    | _ => some [.empty]
  | .term, _ => some [.sub .factor, .sub .termRest]
  | .termRest, k =>
    match k with
    | .multiply | .divide => some [.token k, .sub .factor, .sub .termRest]
    | _ => some [.empty]
  | .factor, k =>
    match k with
    | .leftParen => some [.token .leftParen, .sub .expr, .token .rightParen]
    | .number | .identifier => some [.token k]
    | _ => none

/-- The leaf of a token. Digits and letters are all the terminal `id`. -/
def Token.leaf (t : Token) : Tree := .leaf (if t.kind.isOperand then "id" else t.kind.name) t.lexeme

def Tree.emptyLeaf : Tree := .leaf "ε" none

end ExprLine
