import ExprLine.Tree.Basic

namespace ExprLine

/-- What is drawn of a tree: labelled branches, and words at their ends. -/
inductive Sketch where
  | word (text : String)
  | branch (label : String) (parts : List Sketch)
deriving Repr

mutual

/-- A leaf holds its value as a word; the value of a node with children is not drawn. -/
def Tree.sketch : Tree → Sketch
  | .node l v [] => .branch l (v.map Sketch.word).toList
  | .node l _ (c :: cs) => .branch l (c.sketch :: Tree.sketchAll cs)

def Tree.sketchAll : List Tree → List Sketch
  | [] => []
  | t :: ts => t.sketch :: Tree.sketchAll ts

end

namespace Sketch

mutual

/-- The words from left to right. -/
def words : Sketch → List String
  | word w => [w]
  | branch _ ps => wordsAll ps

def wordsAll : List Sketch → List String
  | [] => []
  | p :: ps => words p ++ wordsAll ps

end

/-- Two spaces for each level. -/
def indent (level : Nat) : String := String.ofList (List.replicate (2 * level) ' ')

mutual

/-- One line for each branch. A word alone in its branch shares the line, after a tab. -/
def draw (level : Nat) : Sketch → String
  | word w => indent level ++ w ++ "\n"
  | branch l [word w] => indent level ++ l ++ "\t" ++ w ++ "\n"
  | branch l ps => indent level ++ l ++ "\n" ++ drawAll (level + 1) ps

def drawAll (level : Nat) : List Sketch → String
  | [] => ""
  | p :: ps => draw level p ++ drawAll level ps

end

end Sketch

/-- The tree as indented text. -/
def Tree.pretty (t : Tree) : String := t.sketch.draw 0

end ExprLine
