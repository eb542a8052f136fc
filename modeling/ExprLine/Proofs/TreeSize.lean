import ExprLine.Proofs.Balance
import ExprLine.Proofs.DrawnDerivation

namespace ExprLine

open Descent (Accepts sentence)

/-- How many tokens of a word are of the kinds `p`. -/
def count (p : Kind → Bool) (w : List Token) : Nat := w.countP fun a => p a.kind

theorem count_cons (p : Kind → Bool) (a : Token) (w : List Token) :
    count p (a :: w) = count p w + (p a.kind).toNat := by
  rw [count, List.countP_cons, count]
  cases p a.kind <;> rfl

theorem count_append (p : Kind → Bool) (v w : List Token) :
    count p (v ++ w) = count p v + count p w :=
  List.countP_append

theorem count_nil (p : Kind → Bool) : count p [] = 0 := rfl

/-- Each kind is in one class: it opens or closes, adds or multiplies, is an operand or the end. -/
theorem Kind.classes (k : Kind) :
    (decide (k = .leftParen)).toNat + (decide (k = .rightParen)).toNat + k.isSum.toNat +
      k.isProduct.toNat + k.isOperand.toNat + (decide (k = .endOfInput)).toNat = 1 := by
  cases k <;> rfl

theorem length_eq_counts {w : List Token} (h : ∀ a ∈ w, a.isEnd = false) :
    w.length = count (· = .leftParen) w + count (· = .rightParen) w + count Kind.isSum w +
      count Kind.isProduct w + count Kind.isOperand w := by
  induction w with
  | nil => rfl
  | cons a w ih =>
    obtain ⟨ha, hw⟩ := List.forall_mem_cons.mp h
    have hlength := ih hw
    have hclass := a.kind.classes
    have hend : (decide (a.kind = .endOfInput)).toNat = 0 := congrArg Bool.toNat ha
    simp only [count_cons, List.length_cons]
    omega

namespace Tree

/-- How many leaves stand for no token. -/
def empties (t : Tree) : Nat := t.leaves.countP (·.label = "ε")

theorem size_leaf (l : String) (v : Option String) : (leaf l v).size = 1 := by
  simp [leaf, size, sizeAll]

theorem empties_leaf {l : String} (h : l ≠ "ε") (v : Option String) : (leaf l v).empties = 0 := by
  simp [leaf, empties, leaves, label, h]

theorem size_pair (l : String) (t r : Tree) : (node l none [t, r]).size = t.size + r.size + 1 := by
  simp [size, sizeAll]

theorem empties_pair (l : String) (t r : Tree) :
    (node l none [t, r]).empties = t.empties + r.empties := by
  simp [empties, leaves, leavesAll]

theorem size_triple (l : String) (t r u : Tree) :
    (node l none [t, r, u]).size = t.size + r.size + u.size + 1 := by
  simp [size, sizeAll, Nat.add_assoc]

theorem empties_triple (l : String) (t r u : Tree) :
    (node l none [t, r, u]).empties = t.empties + r.empties + u.empties := by
  simp [empties, leaves, leavesAll, Nat.add_assoc]

end Tree

/-- The tree `t` over the tokens `w` has as many operands, nodes and empty leaves more than
`operands`, `nodes` and `empties` as its operators and parentheses bring with them: a pair of
parentheses nine nodes, a sum seven and a product four. -/
structure Counted (t : Tree) (w : List Token) (operands nodes empties : Nat) : Prop where
  parentheses : count (· = .rightParen) w = count (· = .leftParen) w
  operands : count Kind.isOperand w = operands + count Kind.isSum w + count Kind.isProduct w
  nodes : t.size = nodes + 9 * count (· = .leftParen) w + 7 * count Kind.isSum w +
    4 * count Kind.isProduct w
  empties : t.empties = empties + 2 * count (· = .leftParen) w + count Kind.isSum w

namespace Counted

variable {t r : Tree} {v x : List Token} {o n e o' n' e' : Nat} {y : String}

theorem empty (l : String) : Counted (.node l none [.leaf "ε" none]) [] 0 2 1 := by
  constructor <;> simp [count_nil, Tree.size, Tree.sizeAll, Tree.leaf, Tree.empties, Tree.leaves,
    Tree.leavesAll, Tree.label]

theorem pair (ht : Counted t v o n e) (hr : Counted r x o' n' e') (l : String) :
    Counted (.node l none [t, r]) (v ++ x) (o + o') (n + n' + 1) (e + e') := by
  obtain ⟨hp, ho, hn, he⟩ := ht
  obtain ⟨hp', ho', hn', he'⟩ := hr
  constructor <;> simp only [count_append, Tree.size_pair, Tree.empties_pair] <;> omega

/-- A sum, its term and a tail: seven nodes and an empty leaf more than the tail has. -/
theorem sum (ht : Counted t v 1 5 1) (hr : Counted r x o n e) {a : Token}
    (ha : a.kind.isSum = true) (hy : y ≠ "ε") (l : String) (z : Option String) :
    Counted (.node l none [.leaf y z, t, r]) (a :: (v ++ x)) o n e := by
  obtain ⟨hp, ho, hn, he⟩ := ht
  obtain ⟨hp', ho', hn', he'⟩ := hr
  have hclass := a.kind.classes
  have hsum : a.kind.isSum.toNat = 1 := congrArg Bool.toNat ha
  constructor <;> simp only [count_cons, count_append, Tree.size_triple, Tree.empties_triple,
    Tree.size_leaf, Tree.empties_leaf hy] <;> omega

/-- A product, its factor and a tail: four nodes more than the tail has. -/
theorem product (ht : Counted t v 1 2 0) (hr : Counted r x o n e) {a : Token}
    (ha : a.kind.isProduct = true) (hy : y ≠ "ε") (l : String) (z : Option String) :
    Counted (.node l none [.leaf y z, t, r]) (a :: (v ++ x)) o n e := by
  obtain ⟨hp, ho, hn, he⟩ := ht
  obtain ⟨hp', ho', hn', he'⟩ := hr
  have hclass := a.kind.classes
  have hproduct : a.kind.isProduct.toNat = 1 := congrArg Bool.toNat ha
  constructor <;> simp only [count_cons, count_append, Tree.size_triple, Tree.empties_triple,
    Tree.size_leaf, Tree.empties_leaf hy] <;> omega

theorem group (ht : Counted t v 1 8 2) {a b : Token} (ha : a.kind = .leftParen)
    (hb : b.kind = .rightParen) (hy : y ≠ "ε") {y' : String} (hy' : y' ≠ "ε") (l : String)
    (z z' : Option String) :
    Counted (.node l none [.leaf y z, t, .leaf y' z']) (a :: (v ++ [b])) 1 2 0 := by
  obtain ⟨hp, ho, hn, he⟩ := ht
  have hclass := a.kind.classes
  have hclass' := b.kind.classes
  have hleft : (decide (a.kind = .leftParen)).toNat = 1 := congrArg Bool.toNat (decide_eq_true ha)
  have hright : (decide (b.kind = .rightParen)).toNat = 1 := congrArg Bool.toNat (decide_eq_true hb)
  constructor <;> simp only [count_cons, count_append, count_nil, Tree.size_triple,
    Tree.empties_triple, Tree.size_leaf, Tree.empties_leaf hy, Tree.empties_leaf hy'] <;> omega

theorem operand {a : Token} (ha : a.kind.isOperand = true) (hy : y ≠ "ε") (l : String)
    (z : Option String) : Counted (.node l none [.leaf y z]) [a] 1 2 0 := by
  have hclass := a.kind.classes
  have hoperand : a.kind.isOperand.toNat = 1 := congrArg Bool.toNat ha
  have hsize : (Tree.node l none [.leaf y z]).size = 2 := by
    simp [Tree.size, Tree.sizeAll, Tree.leaf]
  have hempties : (Tree.node l none [.leaf y z]).empties = 0 := by
    simp [Tree.empties, Tree.leaves, Tree.leavesAll, Tree.leaf, Tree.label, hy]
  constructor <;> simp only [count_cons, count_nil, hsize, hempties] <;> omega

end Counted

/-- The numbers of operands, nodes and empty leaves of the smallest trees. -/
def Nonterminal.least : Nonterminal → Nat × Nat × Nat
  | expr => (1, 8, 2)
  | term => (1, 5, 1)
  | factor => (1, 2, 0)
  | exprRest | termRest => (0, 2, 1)

theorem counted_of_derives {n : Nonterminal} {t : Tree} (h : Derives n t) {w : List Token}
    (hw : w.map Token.leaf = t.yield) : Counted t w n.least.1 n.least.2.1 n.least.2.2 := by
  induction h generalizing w with
  | expr ht hr iht ihr =>
    obtain ⟨v, x, rfl, hv, hx⟩ := exists_tokens_pair hw
    exact (iht hv).pair (ihr hx) "E"
  | exprMore hk ht hr iht ihr =>
    obtain ⟨a, v, x, rfl, rfl, -, hv, hx⟩ := exists_tokens_more hw
    exact (iht hv).sum (ihr hx) (Kind.isSum_iff.mpr hk) a.kind.name_ne_empty "E'" _
  | exprEnd =>
    obtain rfl := eq_nil_of_empty hw
    exact .empty "E'"
  | term ht hr iht ihr =>
    obtain ⟨v, x, rfl, hv, hx⟩ := exists_tokens_pair hw
    exact (iht hv).pair (ihr hx) "T"
  | termMore hk ht hr iht ihr =>
    obtain ⟨a, v, x, rfl, rfl, -, hv, hx⟩ := exists_tokens_more hw
    exact (iht hv).product (ihr hx) (Kind.isProduct_iff.mpr hk) a.kind.name_ne_empty "T'" _
  | termEnd =>
    obtain rfl := eq_nil_of_empty hw
    exact .empty "T'"
  | group he ihe =>
    obtain ⟨a, v, b, rfl, ha, hb, -, -, hv⟩ := exists_tokens_group hw
    exact (ihe hv).group ha hb (by decide) (by decide) "F" _ _
  | operand =>
    obtain ⟨a, rfl, ha, -⟩ := exists_token_operand hw
    exact .operand ha (by decide) "F" _

/-- The numbers of an accepted sentence `w` and its tree: one operand and eight nodes are the least.
With one to eight nodes for a token, the tree grows as the sentence does, and so does its drawing. -/
structure Sized (t : Tree) (w : List Token) : Prop where
  parentheses : count (· = .leftParen) w = count (· = .rightParen) w
  operands : count Kind.isOperand w = count Kind.isSum w + count Kind.isProduct w + 1
  nodes : t.nodes.length = 8 + 9 * count (· = .leftParen) w + 7 * count Kind.isSum w +
    4 * count Kind.isProduct w
  empties : t.leaves.countP (·.label = "ε") = 2 * count (· = .leftParen) w + count Kind.isSum w + 2
  linear : w.length < t.nodes.length ∧ t.nodes.length ≤ 8 * w.length
  drawn : (∀ a ∈ w, ∀ x, a.lexeme = some x → '\n' ∉ x.toList) →
    ∃ ls, Text.lines t.pretty.toList = ls ++ [[]] ∧ ls.length = t.nodes.length

namespace Descent

theorem isEnd_of_mem_sentence (ts : List Token) : ∀ a ∈ sentence ts, a.isEnd = false := by
  intro a ha
  have hlive := List.mem_takeWhile_imp ha
  simpa using hlive

theorem sized_of_accepts (ts : List Token) (limit : Int) (t : Tree) (h : Accepts ts limit t) :
    Sized t (sentence ts) := by
  obtain ⟨hder, hyield, -⟩ := derives_of_accepts h
  obtain ⟨hparentheses, hoperands, hnodes, hempties⟩ := counted_of_derives hder hyield.symm
  have hlength := length_eq_counts (isEnd_of_mem_sentence ts)
  simp only [Nonterminal.least] at hoperands hnodes hempties
  constructor
  case parentheses => exact hparentheses.symm
  case operands => omega
  case nodes => rw [Tree.length_nodes, hnodes]
  case empties =>
    rw [show t.leaves.countP _ = t.empties from rfl, hempties]
    omega
  case linear =>
    rw [Tree.length_nodes]
    omega
  case drawn => exact fun hl => Tree.exists_lines_pretty (legible_of_accepts h hl)

/-- A product with a group in it; the tokens after the first end marker do not count. -/
theorem sized_of_accepts_product :
    let ts : List Token := [⟨.leftParen, none, 0⟩, ⟨.identifier, some "a", 1⟩,
      ⟨.plus, some "+", 2⟩, ⟨.number, some "1", 3⟩, ⟨.rightParen, some ")", 4⟩,
      ⟨.multiply, some "*", 5⟩, ⟨.identifier, some "b", 6⟩, .endAt 7, ⟨.plus, some "+", 7⟩,
      .endAt 8]
    ∃ t, Accepts ts 7 t ∧ Sized t (sentence ts) ∧ t.nodes.length = 28 ∧
      t.leaves.countP (·.label = "ε") = 5 := by
  intro ts
  have haccepts : ∃ t, Accepts ts 7 t := ⟨_, _, rfl, rfl, rfl⟩
  obtain ⟨t, ht⟩ := haccepts
  have hsized := sized_of_accepts ts 7 t ht
  exact ⟨t, ht, hsized, hsized.nodes, hsized.empties⟩

end Descent
end ExprLine
