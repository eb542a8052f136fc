import ExprLine.Grammar.Production
import Mathlib.Data.List.Forall2

namespace ExprLine

/-- The derivation trees of the grammar under their roots, one rule for each production. A
nonterminal has no value; the lexeme of a terminal is left open. -/
inductive Derives : Nonterminal → Tree → Prop
  | expr {t r : Tree} (ht : Derives .term t) (hr : Derives .exprRest r) :
      Derives .expr (.node "E" none [t, r])
  | exprMore {k : Kind} {x : Option String} {t r : Tree} (hk : k = .plus ∨ k = .minus)
      (ht : Derives .term t) (hr : Derives .exprRest r) :
      Derives .exprRest (.node "E'" none [.leaf k.name x, t, r])
  | exprEnd : Derives .exprRest (.node "E'" none [.leaf "ε" none])
  | term {t r : Tree} (ht : Derives .factor t) (hr : Derives .termRest r) :
      Derives .term (.node "T" none [t, r])
  | termMore {k : Kind} {x : Option String} {t r : Tree} (hk : k = .multiply ∨ k = .divide)
      (ht : Derives .factor t) (hr : Derives .termRest r) :
      Derives .termRest (.node "T'" none [.leaf k.name x, t, r])
  | termEnd : Derives .termRest (.node "T'" none [.leaf "ε" none])
  | group {x y : Option String} {e : Tree} (he : Derives .expr e) :
      Derives .factor (.node "F" none [.leaf "LPAREN" x, e, .leaf "RPAREN" y])
  | operand {x : Option String} : Derives .factor (.node "F" none [.leaf "id" x])

def Nonterminal.all : List Nonterminal := [expr, exprRest, term, termRest, factor]

def isNonterminalLabel (l : String) : Bool := Nonterminal.all.any (·.label = l)

theorem isNonterminalLabel_label (n : Nonterminal) : isNonterminalLabel n.label = true := by
  cases n <;> decide

namespace Tree

/-- The leaves that stand for a token, from left to right. -/
def yield (t : Tree) : List Tree := t.leaves.filter (·.label ≠ "ε")

theorem leavesAll_eq_flatMap (ts : List Tree) : leavesAll ts = ts.flatMap leaves := by
  induction ts with
  | nil => simp [leavesAll]
  | cons t ts ih => simp [leavesAll, ih]

theorem yield_node (l : String) (v : Option String) (c : Tree) (cs : List Tree) :
    (node l v (c :: cs)).yield = (c :: cs).flatMap yield := by
  have h : (node l v (c :: cs)).leaves = (c :: cs).flatMap leaves := by
    simp [leaves, leavesAll_eq_flatMap]
  rw [yield, h, List.filter_flatMap]
  rfl

theorem yield_of_ne_nil {cs : List Tree} (h : cs ≠ []) (l : String) (v : Option String) :
    (node l v cs).yield = cs.flatMap yield := by
  obtain ⟨c, ds, rfl⟩ := List.exists_cons_of_ne_nil h
  exact yield_node l v c ds

theorem yield_leaf {l : String} (h : l ≠ "ε") (v : Option String) :
    (leaf l v).yield = [leaf l v] := by
  simp [leaf, yield, leaves, label, h]

@[simp] theorem yield_emptyLeaf : (leaf "ε" none).yield = [] := by
  simp [leaf, yield, leaves, label]

mutual

/-- The most nonterminals on a way from the root to a leaf. -/
def height : Tree → Nat
  | node l _ cs => heightAll cs + if isNonterminalLabel l then 1 else 0

def heightAll : List Tree → Nat
  | [] => 0
  | t :: ts => max (height t) (heightAll ts)

end

theorem height_node (n : Nonterminal) (v : Option String) (cs : List Tree) :
    (node n.label v cs).height = heightAll cs + 1 := by
  simp [height, isNonterminalLabel_label]

theorem height_le_heightAll {c : Tree} {cs : List Tree} (h : c ∈ cs) : c.height ≤ heightAll cs := by
  induction cs with
  | nil => simp at h
  | cons d ds ih =>
    rw [heightAll]
    rcases List.mem_cons.mp h with rfl | h
    · exact Nat.le_max_left _ _
    · exact Nat.le_trans (ih h) (Nat.le_max_right _ _)

theorem height_child_le (n : Nonterminal) {v : Option String} {cs : List Tree} {d : Nat}
    (h : (node n.label v cs).height ≤ d + 1) : ∀ c ∈ cs, c.height ≤ d := by
  intro c hc
  rw [height_node] at h
  have hle := height_le_heightAll hc
  omega

theorem height_leaf {l : String} (h : isNonterminalLabel l = false) (v : Option String) :
    (leaf l v).height = 0 := by
  simp [leaf, height, heightAll, h]

mutual

/-- The ways from the root to a leaf, each as the labels on it. -/
def paths : Tree → List (List String)
  | node l _ [] => [[l]]
  | node l _ (c :: cs) => (pathsAll (c :: cs)).map (l :: ·)

def pathsAll : List Tree → List (List String)
  | [] => []
  | t :: ts => paths t ++ pathsAll ts

end

mutual

theorem countP_le_height : ∀ t : Tree, ∀ p ∈ t.paths, p.countP isNonterminalLabel ≤ t.height
  | node l v [] => by simp [paths, height, heightAll, List.countP_cons]
  | node l v (c :: cs) => by
    intro p hp
    simp only [paths] at hp
    obtain ⟨q, hq, rfl⟩ := List.mem_map.mp hp
    have h := countP_le_heightAll (c :: cs) q hq
    rw [List.countP_cons, height]
    omega

theorem countP_le_heightAll :
    ∀ ts : List Tree, ∀ p ∈ pathsAll ts, p.countP isNonterminalLabel ≤ heightAll ts
  | [] => by simp [pathsAll]
  | t :: ts => by
    intro p hp
    simp only [pathsAll, List.mem_append] at hp
    rw [heightAll]
    rcases hp with hp | hp
    · exact Nat.le_trans (countP_le_height t p hp) (Nat.le_max_left _ _)
    · exact Nat.le_trans (countP_le_heightAll ts p hp) (Nat.le_max_right _ _)

end

mutual

theorem exists_path_height : ∀ t : Tree, ∃ p ∈ t.paths, p.countP isNonterminalLabel = t.height
  | node l v [] => by simp [paths, height, heightAll, List.countP_cons]
  | node l v (c :: cs) => by
    obtain ⟨q, hq, h⟩ := exists_path_heightAll (c :: cs) (List.cons_ne_nil c cs)
    refine ⟨l :: q, ?_, ?_⟩
    · simp only [paths]
      exact List.mem_map.mpr ⟨q, hq, rfl⟩
    · rw [List.countP_cons, h, height]

theorem exists_path_heightAll : ∀ ts : List Tree, ts ≠ [] →
    ∃ p ∈ pathsAll ts, p.countP isNonterminalLabel = heightAll ts
  | [], hn => absurd rfl hn
  | [t], _ => by
    obtain ⟨p, hp, h⟩ := exists_path_height t
    exact ⟨p, by simp [pathsAll, hp], by simp [heightAll, h]⟩
  | t :: u :: us, _ => by
    obtain ⟨p, hp, h⟩ := exists_path_height t
    obtain ⟨q, hq, k⟩ := exists_path_heightAll (u :: us) (List.cons_ne_nil u us)
    rw [pathsAll, heightAll]
    rcases Nat.le_total (heightAll (u :: us)) t.height with hle | hle
    · exact ⟨p, List.mem_append_left _ hp, by rw [h, Nat.max_eq_left hle]⟩
    · exact ⟨q, List.mem_append_right _ hq, by rw [k, Nat.max_eq_right hle]⟩

end

/-- The height is a bound for every way to a leaf, and the least one. -/
theorem height_le_iff {t : Tree} {d : Int} :
    (t.height : Int) ≤ d ↔ ∀ p ∈ t.paths, (p.countP isNonterminalLabel : Int) ≤ d := by
  constructor
  · intro h p hp
    have hle := countP_le_height t p hp
    omega
  · intro h
    obtain ⟨p, hp, he⟩ := exists_path_height t
    have hle := h p hp
    omega

end Tree

theorem Kind.name_injective {k l : Kind} (h : k.name = l.name) : k = l := by
  have hk := Kind.ofName?_name k
  rw [h, Kind.ofName?_name l] at hk
  exact (Option.some.inj hk).symm

theorem Kind.name_ne_id (k : Kind) : k.name ≠ "id" := by cases k <;> decide

theorem Kind.name_ne_empty (k : Kind) : k.name ≠ "ε" := by cases k <;> decide

theorem Kind.isNonterminalLabel_name (k : Kind) : isNonterminalLabel k.name = false := by
  cases k <;> decide

namespace Token

theorem leaf_of_not_operand {a : Token} (h : a.kind.isOperand = false) :
    a.leaf = .leaf a.kind.name a.lexeme := by
  simp [leaf, h]

theorem leaf_of_operand {a : Token} (h : a.kind.isOperand = true) :
    a.leaf = .leaf "id" a.lexeme := by
  simp [leaf, h]

theorem of_leaf_eq_name {a : Token} {k : Kind} {x : Option String}
    (h : a.leaf = .leaf k.name x) : a.kind = k ∧ a.lexeme = x := by
  cases ho : a.kind.isOperand with
  | false =>
    rw [leaf_of_not_operand ho] at h
    simp only [Tree.leaf, Tree.node.injEq, and_true] at h
    exact ⟨Kind.name_injective h.1, h.2⟩
  | true =>
    rw [leaf_of_operand ho] at h
    simp only [Tree.leaf, Tree.node.injEq, and_true] at h
    exact absurd h.1.symm (Kind.name_ne_id k)

theorem of_leaf_eq_id {a : Token} {x : Option String} (h : a.leaf = .leaf "id" x) :
    a.kind.isOperand = true ∧ a.lexeme = x := by
  cases ho : a.kind.isOperand with
  | false =>
    rw [leaf_of_not_operand ho] at h
    simp only [Tree.leaf, Tree.node.injEq, and_true] at h
    exact absurd h.1 (Kind.name_ne_id a.kind)
  | true =>
    rw [leaf_of_operand ho] at h
    simp only [Tree.leaf, Tree.node.injEq, and_true] at h
    exact ⟨rfl, h.2⟩

@[simp] theorem yield_leaf (a : Token) : a.leaf.yield = [a.leaf] := by
  cases ho : a.kind.isOperand with
  | false => rw [leaf_of_not_operand ho, Tree.yield_leaf (Kind.name_ne_empty _)]
  | true => rw [leaf_of_operand ho, Tree.yield_leaf (by decide)]

@[simp] theorem height_leaf (a : Token) : a.leaf.height = 0 := by
  cases ho : a.kind.isOperand with
  | false => rw [leaf_of_not_operand ho, Tree.height_leaf (Kind.isNonterminalLabel_name _)]
  | true => rw [leaf_of_operand ho, Tree.height_leaf (by decide)]

end Token

inductive Realizes : Item → Tree → Prop
  | token (a : Token) : Realizes (.token a.kind) a.leaf
  | sub {n : Nonterminal} {t : Tree} (h : Derives n t) : Realizes (.sub n) t
  | empty : Realizes .empty .emptyLeaf

theorem realizes_token_iff {k : Kind} {t : Tree} :
    Realizes (.token k) t ↔ ∃ a : Token, a.kind = k ∧ t = a.leaf := by
  constructor
  · rintro ⟨a⟩
    exact ⟨a, rfl, rfl⟩
  · rintro ⟨a, rfl, rfl⟩
    exact .token a

theorem realizes_sub_iff {n : Nonterminal} {t : Tree} : Realizes (.sub n) t ↔ Derives n t := by
  constructor
  · intro h
    cases h with
    | sub h => exact h
  · exact .sub

theorem realizes_empty_iff {t : Tree} : Realizes .empty t ↔ t = .emptyLeaf := by
  constructor
  · intro h
    cases h
    rfl
  · rintro rfl
    exact .empty

/-- The productions, whatever the next token is. -/
inductive Rule : Nonterminal → List Item → Prop
  | expr : Rule .expr [.sub .term, .sub .exprRest]
  | exprMore {k : Kind} (hk : k = .plus ∨ k = .minus) :
      Rule .exprRest [.token k, .sub .term, .sub .exprRest]
  | exprEnd : Rule .exprRest [.empty]
  | term : Rule .term [.sub .factor, .sub .termRest]
  | termMore {k : Kind} (hk : k = .multiply ∨ k = .divide) :
      Rule .termRest [.token k, .sub .factor, .sub .termRest]
  | termEnd : Rule .termRest [.empty]
  | group : Rule .factor [.token .leftParen, .sub .expr, .token .rightParen]
  | operand {k : Kind} (hk : k.isOperand = true) : Rule .factor [.token k]

theorem rule_of_production {n : Nonterminal} {k : Kind} {is : List Item}
    (h : production n k = some is) : Rule n is := by
  cases n with
  | expr =>
    cases h
    exact .expr
  | exprRest =>
    cases k with
    | plus => cases h; exact .exprMore (Or.inl rfl)
    | minus => cases h; exact .exprMore (Or.inr rfl)
    | _ => cases h; exact .exprEnd
  | term =>
    cases h
    exact .term
  | termRest =>
    cases k with
    | multiply => cases h; exact .termMore (Or.inl rfl)
    | divide => cases h; exact .termMore (Or.inr rfl)
    | _ => cases h; exact .termEnd
  | factor =>
    cases k with
    | leftParen => cases h; exact .group
    | number => cases h; exact .operand rfl
    | identifier => cases h; exact .operand rfl
    | _ => cases h

namespace Rule

theorem ne_nil {n : Nonterminal} {is : List Item} (h : Rule n is) : is ≠ [] := by
  cases h <;> exact List.cons_ne_nil _ _

theorem end_not_mem {n : Nonterminal} {is : List Item} (h : Rule n is) :
    Item.token .endOfInput ∉ is := by
  cases h with
  | exprMore hk => rcases hk with rfl | rfl <;> decide
  | termMore hk => rcases hk with rfl | rfl <;> decide
  | operand hk =>
    intro hm
    obtain rfl := Item.token.inj (List.mem_singleton.mp hm)
    exact absurd hk (by decide)
  | _ => decide

/-- To realize each item of a production in turn is to derive its nonterminal. -/
theorem derives {n : Nonterminal} {is : List Item} {ts : List Tree} (h : Rule n is)
    (hs : List.Forall₂ Realizes is ts) : Derives n (.node n.label none ts) := by
  cases h <;> simp only [List.forall₂_cons_left_iff, List.forall₂_nil_left_iff, realizes_token_iff,
    realizes_sub_iff, realizes_empty_iff] at hs
  case expr =>
    obtain ⟨t, _, ht, ⟨r, _, hr, rfl, rfl⟩, rfl⟩ := hs
    exact .expr ht hr
  case exprMore k hk =>
    obtain ⟨_, _, ⟨a, rfl, rfl⟩, ⟨t, _, ht, ⟨r, _, hr, rfl, rfl⟩, rfl⟩, rfl⟩ := hs
    have ho : a.kind.isOperand = false := by rcases hk with hk | hk <;> rw [hk] <;> rfl
    rw [Token.leaf_of_not_operand ho]
    exact .exprMore hk ht hr
  case exprEnd =>
    obtain ⟨_, _, rfl, rfl, rfl⟩ := hs
    exact .exprEnd
  case term =>
    obtain ⟨t, _, ht, ⟨r, _, hr, rfl, rfl⟩, rfl⟩ := hs
    exact .term ht hr
  case termMore k hk =>
    obtain ⟨_, _, ⟨a, rfl, rfl⟩, ⟨t, _, ht, ⟨r, _, hr, rfl, rfl⟩, rfl⟩, rfl⟩ := hs
    have ho : a.kind.isOperand = false := by rcases hk with hk | hk <;> rw [hk] <;> rfl
    rw [Token.leaf_of_not_operand ho]
    exact .termMore hk ht hr
  case termEnd =>
    obtain ⟨_, _, rfl, rfl, rfl⟩ := hs
    exact .termEnd
  case group =>
    obtain ⟨_, _, ⟨a, ha, rfl⟩, ⟨e, _, he, ⟨_, _, ⟨b, hb, rfl⟩, rfl, rfl⟩, rfl⟩, rfl⟩ := hs
    rw [Token.leaf_of_not_operand (by rw [ha]; rfl), Token.leaf_of_not_operand (by rw [hb]; rfl),
      ha, hb]
    exact .group he
  case operand k hk =>
    obtain ⟨_, _, ⟨a, rfl, rfl⟩, rfl, rfl⟩ := hs
    rw [Token.leaf_of_operand hk]
    exact .operand

end Rule

section

-- how the tokens under a node part, one lemma for each form of its children
variable {w : List Token} {l : String}

theorem exists_tokens_pair {t r : Tree} (h : w.map Token.leaf = (Tree.node l none [t, r]).yield) :
    ∃ v x, w = v ++ x ∧ v.map Token.leaf = t.yield ∧ x.map Token.leaf = r.yield := by
  rw [Tree.yield_node, List.flatMap_cons, List.flatMap_singleton] at h
  exact List.map_eq_append_iff.mp h

theorem exists_tokens_more {k : Kind} {y : Option String} {t r : Tree}
    (h : w.map Token.leaf = (Tree.node l none [.leaf k.name y, t, r]).yield) :
    ∃ a v x, w = a :: (v ++ x) ∧ a.kind = k ∧ a.leaf = .leaf k.name y ∧
      v.map Token.leaf = t.yield ∧ x.map Token.leaf = r.yield := by
  rw [Tree.yield_node, List.flatMap_cons, List.flatMap_cons, List.flatMap_singleton,
    Tree.yield_leaf (Kind.name_ne_empty k), List.singleton_append] at h
  obtain ⟨a, z, rfl, ha, hz⟩ := List.map_eq_cons_iff.mp h
  obtain ⟨v, x, rfl, hv, hx⟩ := List.map_eq_append_iff.mp hz
  exact ⟨a, v, x, rfl, (Token.of_leaf_eq_name ha).1, ha, hv, hx⟩

theorem exists_tokens_group {y z : Option String} {e : Tree}
    (h : w.map Token.leaf = (Tree.node l none [.leaf "LPAREN" y, e, .leaf "RPAREN" z]).yield) :
    ∃ a v b, w = a :: (v ++ [b]) ∧ a.kind = .leftParen ∧ b.kind = .rightParen ∧
      a.leaf = .leaf "LPAREN" y ∧ b.leaf = .leaf "RPAREN" z ∧ v.map Token.leaf = e.yield := by
  rw [Tree.yield_node, List.flatMap_cons, List.flatMap_cons, List.flatMap_singleton,
    Tree.yield_leaf (show "LPAREN" ≠ "ε" by decide),
    Tree.yield_leaf (show "RPAREN" ≠ "ε" by decide), List.singleton_append] at h
  obtain ⟨a, x, rfl, ha, hx⟩ := List.map_eq_cons_iff.mp h
  obtain ⟨v, u, rfl, hv, hu⟩ := List.map_eq_append_iff.mp hx
  obtain ⟨b, u, rfl, hb, hnil⟩ := List.map_eq_cons_iff.mp hu
  obtain rfl := List.map_eq_nil_iff.mp hnil
  exact ⟨a, v, b, rfl, (Token.of_leaf_eq_name (k := .leftParen) ha).1,
    (Token.of_leaf_eq_name (k := .rightParen) hb).1, ha, hb, hv⟩

theorem exists_token_operand {y : Option String}
    (h : w.map Token.leaf = (Tree.node l none [.leaf "id" y]).yield) :
    ∃ a, w = [a] ∧ a.kind.isOperand = true ∧ a.leaf = .leaf "id" y := by
  rw [Tree.yield_node, List.flatMap_singleton, Tree.yield_leaf (by decide)] at h
  obtain ⟨a, v, rfl, ha, hv⟩ := List.map_eq_cons_iff.mp h
  obtain rfl := List.map_eq_nil_iff.mp hv
  exact ⟨a, rfl, (Token.of_leaf_eq_id ha).1, ha⟩

theorem eq_nil_of_empty (h : w.map Token.leaf = (Tree.node l none [.leaf "ε" none]).yield) :
    w = [] := by
  simpa [Tree.yield_node] using h

end

end ExprLine
