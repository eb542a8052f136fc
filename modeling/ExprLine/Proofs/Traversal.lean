import ExprLine.Tree.Sketch
import Mathlib.Logic.Function.Iterate

namespace ExprLine.Tree

mutual

/-- All nodes of a tree, each of them before those below it. -/
def nodes : Tree → List Tree
  | node l v cs => node l v cs :: nodesAll cs

def nodesAll : List Tree → List Tree
  | [] => []
  | t :: ts => nodes t ++ nodesAll ts

end

theorem mem_nodesAll {cs : List Tree} {w : Tree} (h : w ∈ nodesAll cs) : ∃ c ∈ cs, w ∈ c.nodes := by
  induction cs with
  | nil => simp [nodesAll] at h
  | cons c cs ih =>
    rcases List.mem_append.mp h with h | h
    · exact ⟨c, List.mem_cons_self, h⟩
    · obtain ⟨d, hd, hw⟩ := ih h
      exact ⟨d, List.mem_cons_of_mem c hd, hw⟩

mutual

theorem length_nodes : ∀ t : Tree, t.nodes.length = t.size
  | node l v cs => by rw [nodes, List.length_cons, length_nodesAll cs, size]

theorem length_nodesAll : ∀ ts : List Tree, (nodesAll ts).length = sizeAll ts
  | [] => rfl
  | t :: ts => by
    rw [nodesAll, List.length_append, length_nodes t, length_nodesAll ts, sizeAll]

end

mutual

/-- The leaves are the nodes without children, in the order of the nodes. -/
theorem leaves_eq_filter : ∀ t : Tree, t.leaves = t.nodes.filter isLeaf
  | node l v [] => rfl
  | node l v (c :: cs) => by
    have hinner : ¬(node l v (c :: cs)).isLeaf = true := by simp [isLeaf, children]
    have hall : leavesAll (c :: cs) = leaves c ++ leavesAll cs := by rw [leavesAll]
    rw [leaves, nodes, List.filter_cons_of_neg hinner, ← leavesAll_eq_filter (c :: cs), hall]

theorem leavesAll_eq_filter : ∀ ts : List Tree, leavesAll ts = (nodesAll ts).filter isLeaf
  | [] => rfl
  | t :: ts => by
    rw [leavesAll, nodesAll, List.filter_append, ← leaves_eq_filter t, ← leavesAll_eq_filter ts]

end

/-- What a walk gives out is the leaves of its stack, tree by tree. -/
theorem walk_eq_leavesAll (stack : List Tree) : walk stack = leavesAll stack := by
  fun_induction walk stack with
  | case1 => rfl
  | case2 l v stack ih =>
    rw [ih, leavesAll, leaves]
    rfl
  | case3 l v c cs stack ih =>
    rw [ih, leavesAll_append, leavesAll, leavesAll, leaves]

/-- A traversal under way: the stack, with its top at the end, and the leaves given out so far. -/
structure Traversal where
  stack : List Tree
  out : List Tree

namespace Traversal

def start (t : Tree) : Traversal := ⟨[t], []⟩

/-- One turn of the loop. The top is taken off the stack; a leaf is given out, and in place of any
other node its children go on the stack, the last of them first. -/
def turn (w : Traversal) : Traversal :=
  match w.stack.getLast? with
  | none => w
  | some t =>
    if t.isLeaf then ⟨w.stack.dropLast, w.out ++ [t]⟩
    else ⟨w.stack.dropLast ++ t.children.reverse, w.out⟩

/-- The leaves given out and those to come. -/
def total (w : Traversal) : List Tree := w.out ++ leavesAll w.stack.reverse

/-- The number of nodes to come. -/
def remaining (w : Traversal) : Nat := sizeAll w.stack.reverse

theorem turn_leaf (below : List Tree) (l : String) (v : Option String) (out : List Tree) :
    turn ⟨below ++ [node l v []], out⟩ = ⟨below, out ++ [node l v []]⟩ := by
  simp [turn, isLeaf, children]

theorem turn_inner (below : List Tree) (l : String) (v : Option String) (c : Tree) (cs : List Tree)
    (out : List Tree) :
    turn ⟨below ++ [node l v (c :: cs)], out⟩ = ⟨below ++ (c :: cs).reverse, out⟩ := by
  simp [turn, isLeaf, children]

theorem remaining_eq_zero_iff {w : Traversal} : w.remaining = 0 ↔ w.stack = [] := by
  constructor
  · intro h
    rw [remaining] at h
    cases hs : w.stack.reverse with
    | nil => exact List.reverse_eq_nil_iff.mp hs
    | cons t ts =>
      have hpos := size_pos t
      rw [hs, sizeAll] at h
      omega
  · intro h
    rw [remaining, h]
    rfl

/-- A turn takes one node, and loses or repeats no leaf. -/
theorem turn_spec (w : Traversal) :
    w.turn.total = w.total ∧ w.turn.remaining = w.remaining - 1 := by
  obtain ⟨stack, out⟩ := w
  rcases List.eq_nil_or_concat stack with rfl | ⟨below, t, rfl⟩
  · exact ⟨rfl, rfl⟩
  obtain ⟨l, v, cs⟩ := t
  cases cs with
  | nil =>
    rw [List.concat_eq_append, turn_leaf]
    constructor
    · simp [total, leavesAll, leaves]
    · simp [remaining, sizeAll, size]
  | cons c cs =>
    rw [List.concat_eq_append, turn_inner]
    constructor
    · simp [total, leavesAll, leaves, leavesAll_append]
    · simp only [remaining, List.reverse_append, List.reverse_reverse, List.reverse_singleton,
        List.singleton_append, sizeAll_append, sizeAll, size]
      omega

theorem turns_spec (n : Nat) (w : Traversal) :
    (turn^[n] w).total = w.total ∧ (turn^[n] w).remaining = w.remaining - n := by
  induction n with
  | zero => exact ⟨rfl, rfl⟩
  | succ n ih =>
    obtain ⟨htotal, hremaining⟩ := turn_spec (turn^[n] w)
    rw [Function.iterate_succ_apply', htotal, hremaining, ih.1, ih.2]
    exact ⟨rfl, by omega⟩

/-- The stack of a tree is empty from the turn on that has taken its last node. -/
theorem stack_eq_nil_iff (t : Tree) (n : Nat) : (turn^[n] (start t)).stack = [] ↔ t.size ≤ n := by
  have hremaining := (turns_spec n (start t)).2
  have hstart : (start t).remaining = t.size := by simp [start, remaining, sizeAll]
  rw [← remaining_eq_zero_iff, hremaining, hstart]
  omega

theorem out_append (t : Tree) (n : Nat) : (turn^[n] (start t)).out ++
    leavesAll (turn^[n] (start t)).stack.reverse = t.leaves := by
  have htotal := (turns_spec n (start t)).1
  have hstart : (start t).total = t.leaves := by simp [start, total, leavesAll]
  rw [← hstart, ← htotal, total]

end Traversal

mutual

theorem words_sketch : ∀ t : Tree, t.sketch.words = t.leaves.filterMap value
  | node l none [] => rfl
  | node l (some v) [] => rfl
  | node l v (c :: cs) => by
    rw [sketch, Sketch.words, Sketch.wordsAll, words_sketch c, words_sketchAll cs, leaves,
      List.filterMap_append]

theorem words_sketchAll :
    ∀ ts : List Tree, Sketch.wordsAll (sketchAll ts) = (leavesAll ts).filterMap value
  | [] => rfl
  | t :: ts => by
    rw [sketchAll, Sketch.wordsAll, words_sketch t, words_sketchAll ts, leavesAll,
      List.filterMap_append]

end

/-- A tree is traversed in as many turns as it has nodes. The leaves are given out from left to
right, each of them once, and the words of what is drawn are their values: a value above a leaf
is not drawn. -/
structure Traversed (t : Tree) : Prop where
  leaves : t.leaves = t.nodes.filter isLeaf
  walk : walk [t] = t.leaves
  ends : ∀ n, (Traversal.turn^[n] (.start t)).stack = [] ↔ t.nodes.length ≤ n
  out : ∀ n, t.nodes.length ≤ n → (Traversal.turn^[n] (.start t)).out = t.leaves
  ordered : ∀ n, (Traversal.turn^[n] (.start t)).out <+: t.leaves
  words : t.sketch.words = t.leaves.filterMap value

theorem traversed (t : Tree) : Traversed t where
  leaves := leaves_eq_filter t
  walk := by
    rw [walk_eq_leavesAll, leavesAll, leavesAll, List.append_nil]
  ends := by
    rw [length_nodes]
    exact Traversal.stack_eq_nil_iff t
  out := by
    intro n hn
    rw [length_nodes] at hn
    have hstack := (Traversal.stack_eq_nil_iff t n).mpr hn
    have hout := Traversal.out_append t n
    rw [hstack, List.reverse_nil, leavesAll, List.append_nil] at hout
    exact hout
  ordered := fun n => ⟨_, Traversal.out_append t n⟩
  words := words_sketch t

/-- An empty value is a word, no value is none, and the value of a node with children is lost. -/
example : (node "S" (some "x") [leaf "a" (some ""), leaf "b" none]).sketch.words = [""] := rfl

end ExprLine.Tree
