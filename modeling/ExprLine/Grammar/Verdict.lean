import ExprLine.Grammar.Descent

namespace ExprLine

/-- The limit on open nonterminals when none is asked for. An opening parenthesis takes three
levels and an operator in a chain one. -/
def defaultLimit : Int := 200

/-- What came of a derivation. -/
structure Verdict where
  success : Bool
  tree : Option Tree
  errors : List Diagnostic
deriving Repr, BEq

/-- Why tokens cannot be tried at all. -/
inductive Untried where
  | noEndMarker | noLimit
deriving DecidableEq, Repr

/-- How tokens without an end marker are refused. A limit that is lacking has no words of its own. -/
def Untried.noEndMarker.message : String :=
  "The token sequence handed to the parser must end with an EOF token."

/-- The start of a descent through tokens whose last one is the end marker. -/
def Descent.State.start? : List Token → Option Descent.State
  | [] => none
  | t :: ts => if ((t :: ts).getLast (by simp)).isEnd then some ⟨t, ts, 0, []⟩ else none

/-- Derives the tokens as one expression. Tokens after the first end marker are not looked at. Only
the limit stops a descent. A host whose stack is used up first ends it with a diagnostic of its
own; that is left out, since it is not told by the tokens and the limit. -/
def parse (tokens : List Token) (limit : Option Int) : Except Untried Verdict :=
  match Descent.State.start? tokens, limit with
  | none, _ => .error .noEndMarker
  | some _, none => .error .noLimit
  | some s, some limit =>
    match Descent.whole limit s with
    | (.ok t, _) => .ok ⟨true, some t, []⟩
    | (.error _, s₁) => .ok ⟨false, none, s₁.blames.map Blame.diagnostic⟩

end ExprLine
