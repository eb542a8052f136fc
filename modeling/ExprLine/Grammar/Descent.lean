import ExprLine.Diagnostic
import ExprLine.Grammar.Production

namespace ExprLine.Descent

/-- Where a descent stands: the next token and those after it, the number of nonterminals open,
and the blames so far. There is always a next token. -/
structure State where
  current : Token
  ahead : List Token
  depth : Int
  blames : List Blame
deriving DecidableEq, Repr

namespace State

/-- The tokens not consumed yet. -/
def rest (s : State) : List Token := s.current :: s.ahead

/-- Consumes a token. The last one stays. -/
def advance (s : State) : State :=
  match s.ahead with
  | [] => s
  | t :: ts => { s with current := t, ahead := ts }

theorem rest_ne_nil (s : State) : s.rest ≠ [] := by simp [rest]

/-- Either a token is consumed, or there was only the last one. -/
theorem rest_advance (s : State) :
    s.rest = s.current :: s.advance.rest ∨ s.ahead = [] ∧ s.advance = s := by
  cases h : s.ahead with
  | nil => exact Or.inr ⟨rfl, by simp [advance, h]⟩
  | cons t ts => exact Or.inl (by simp [rest, advance, h])

def enter (s : State) : State := { s with depth := s.depth + 1 }

def leave (s : State) : State := { s with depth := s.depth - 1 }

@[simp] theorem leave_enter (s : State) : s.enter.leave = s := by
  simp [enter, leave]

/-- Blames the next token. -/
def fail {α : Type} (s : State) (c : Cause) : Except Blame α × State :=
  let b : Blame := ⟨c, s.current⟩
  (.error b, { s with blames := s.blames ++ [b] })

end State

/-- A procedure that consumes tokens and yields a value, or stops with a blame. -/
abbrev Procedure (α : Type) := State → Except Blame α × State

/-- Derives one item. A token that selected its production is there already, so only a missing
closing parenthesis can fail here. -/
def item (sub : Nonterminal → Procedure Tree) : Item → Procedure Tree
  | .token k, s => if s.current.kind = k then (.ok s.current.leaf, s.advance) else s.fail .expectedClosing
  | .sub n, s => sub n s
  | .empty, s => (.ok .emptyLeaf, s)

/-- Derives the items of a production in order and stops at the first blame. -/
def items (sub : Nonterminal → Procedure Tree) : List Item → Procedure (List Tree)
  | [], s => (.ok [], s)
  | i :: is, s =>
    match item sub i s with
    | (.error b, s₁) => (.error b, s₁)
    | (.ok t, s₁) =>
      match items sub is s₁ with
      | (.error b, s₂) => (.error b, s₂)
      | (.ok ts, s₂) => (.ok (t :: ts), s₂)

/-- Derives a nonterminal with `room` more allowed open at once. Each level opened takes one
from `room`, so the limit on the depth also bounds the recursion. -/
def derive (limit : Int) : Nat → Nonterminal → Procedure Tree
  | 0, _, s => s.fail (.nestingTooDeep limit)
  | room + 1, n, s =>
    match production n s.current.kind with
    | none => s.fail .expectedOperand
    | some is =>
      match items (derive limit room) is s.enter with
      | (.error b, s₁) => (.error b, s₁.leave)
      | (.ok ts, s₁) => (.ok (.node n.label none ts), s₁.leave)

/-- The procedure of a nonterminal. At most `limit` may be open, those open in `s` included; the
stack of the host is taken to hold as many. -/
def procedure (limit : Int) (n : Nonterminal) : Procedure Tree := fun s =>
  derive limit (limit - s.depth).toNat n s

/-- A whole expression: what follows it must be the end. -/
def whole (limit : Int) : Procedure Tree := fun s =>
  match procedure limit .expr s with
  | (.error b, s₁) => (.error b, s₁)
  | (.ok t, s₁) => if s₁.current.isEnd then (.ok t, s₁) else s₁.fail .unexpectedToken

end ExprLine.Descent
