namespace ExprLine

/-- A labelled tree. In a derivation the inner nodes are nonterminals without a value, and the
leaves are tokens or the empty string. -/
inductive Tree where
  | node (label : String) (value : Option String) (children : List Tree)
deriving Repr, BEq

namespace Tree

def label : Tree → String
  | node l _ _ => l

def value : Tree → Option String
  | node _ v _ => v

def children : Tree → List Tree
  | node _ _ cs => cs

def leaf (label : String) (value : Option String) : Tree := node label value []

def isLeaf (t : Tree) : Bool := t.children.isEmpty

mutual

/-- The leaves from left to right. -/
def leaves : Tree → List Tree
  | node l v [] => [node l v []]
  | node _ _ (c :: cs) => leaves c ++ leavesAll cs

def leavesAll : List Tree → List Tree
  | [] => []
  | t :: ts => leaves t ++ leavesAll ts

end

mutual

/-- The number of nodes. -/
def size : Tree → Nat
  | node _ _ cs => sizeAll cs + 1

def sizeAll : List Tree → Nat
  | [] => 0
  | t :: ts => size t + sizeAll ts

end

theorem size_pos (t : Tree) : 0 < t.size := by cases t; simp [size]

theorem sizeAll_append (ts us : List Tree) : sizeAll (ts ++ us) = sizeAll ts + sizeAll us := by
  induction ts with
  | nil => simp [sizeAll]
  | cons t ts ih => simp [sizeAll, ih, Nat.add_assoc]

/-- The leaves of the trees on a stack, the top first. A node with children is replaced by
them, so the nodes still to visit shrink by one at each step and no call is left open. -/
def walk : List Tree → List Tree
  | [] => []
  | node l v [] :: stack => node l v [] :: walk stack
  | node _ _ (c :: cs) :: stack => walk (c :: cs ++ stack)
termination_by stack => sizeAll stack
decreasing_by
  · simp [sizeAll, size]
  · simp only [sizeAll, size, List.cons_append, sizeAll_append]; omega

theorem leavesAll_append (ts us : List Tree) :
    leavesAll (ts ++ us) = leavesAll ts ++ leavesAll us := by
  induction ts with
  | nil => simp [leavesAll]
  | cons t ts ih => simp [leavesAll, ih]

end Tree
end ExprLine
