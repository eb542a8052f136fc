import ExprLine.Proofs.Agreement
import ExprLine.Proofs.Drawing

namespace ExprLine

open Descent (Accepts sentence)
open Token (lexemes stream)

theorem Kind.isLabel_name (k : Kind) : IsLabel k.name := by cases k <;> decide

namespace Tree

/-- The tokens of a tree that have a value have it on one line. -/
def OneLined (t : Tree) : Prop := ∀ u ∈ t.yield, ∀ v, u.value = some v → '\n' ∉ v.toList

theorem OneLined.child {l : String} {v : Option String} {cs : List Tree}
    (h : (node l v cs).OneLined) : ∀ c ∈ cs, c.OneLined := by
  intro c hc u hu
  have hmem : u ∈ (node l v cs).yield := by
    rw [yield_of_ne_nil (List.ne_nil_of_mem hc)]
    exact List.mem_flatMap.mpr ⟨c, hc, hu⟩
  exact h u hmem

theorem OneLined.of_leaf {l : String} {v : Option String} (h : (leaf l v).OneLined) (he : l ≠ "ε") :
    ∀ x, v = some x → '\n' ∉ x.toList := by
  apply h (leaf l v)
  rw [yield_leaf he]
  exact List.mem_singleton_self _

theorem legible_leaf {l : String} {v : Option String} (hl : IsLabel l)
    (hv : ∀ x, v = some x → '\n' ∉ x.toList) : ∀ w ∈ (leaf l v).nodes, w.Legible := by
  intro w hw
  obtain rfl : w = leaf l v := by simpa [leaf, nodes, nodesAll] using hw
  exact ⟨hl, hv, by simp [leaf, children]⟩

theorem legible_node {l : String} {cs : List Tree} (hl : IsLabel l)
    (h : ∀ c ∈ cs, ∀ w ∈ c.nodes, w.Legible) : ∀ w ∈ (node l none cs).nodes, w.Legible := by
  intro w hw
  rw [nodes] at hw
  rcases List.mem_cons.mp hw with rfl | hw
  · exact ⟨hl, by simp [value], fun _ => rfl⟩
  · obtain ⟨c, hc, hw⟩ := mem_nodesAll hw
    exact h c hc w hw

end Tree

/-- A derivation of one-lined tokens is shown whole. -/
theorem Derives.legible {n : Nonterminal} {t : Tree} (h : Derives n t) (ho : t.OneLined) :
    ∀ w ∈ t.nodes, w.Legible := by
  induction h with
  | expr ht hr iht ihr | term ht hr iht ihr =>
    apply Tree.legible_node (by decide)
    intro c hc
    have hone := ho.child c hc
    simp only [List.mem_cons, List.not_mem_nil, or_false] at hc
    rcases hc with rfl | rfl
    · exact iht hone
    · exact ihr hone
  | @exprMore k x t r hk ht hr iht ihr | @termMore k x t r hk ht hr iht ihr =>
    apply Tree.legible_node (by decide)
    intro c hc
    have hone := ho.child c hc
    simp only [List.mem_cons, List.not_mem_nil, or_false] at hc
    rcases hc with rfl | rfl | rfl
    · exact Tree.legible_leaf k.isLabel_name (hone.of_leaf k.name_ne_empty)
    · exact iht hone
    · exact ihr hone
  | exprEnd | termEnd =>
    apply Tree.legible_node (by decide)
    intro c hc
    rw [List.mem_singleton.mp hc]
    exact Tree.legible_leaf (by decide) (by simp)
  | group he ihe =>
    apply Tree.legible_node (by decide)
    intro c hc
    have hone := ho.child c hc
    simp only [List.mem_cons, List.not_mem_nil, or_false] at hc
    rcases hc with rfl | rfl | rfl
    · exact Tree.legible_leaf (by decide) (hone.of_leaf (by decide))
    · exact ihe hone
    · exact Tree.legible_leaf (by decide) (hone.of_leaf (by decide))
  | operand =>
    apply Tree.legible_node (by decide)
    intro c hc
    have hone := ho.child c hc
    rw [List.mem_singleton] at hc
    rw [hc] at hone ⊢
    exact Tree.legible_leaf (by decide) (hone.of_leaf (by decide))

theorem Token.value_leaf (a : Token) : a.leaf.value = a.lexeme := rfl

namespace Descent

/-- What is accepted is shown whole if no lexeme takes more than a line. -/
theorem legible_of_accepts {ts : List Token} {limit : Int} {t : Tree} (h : Accepts ts limit t)
    (hl : ∀ a ∈ sentence ts, ∀ x, a.lexeme = some x → '\n' ∉ x.toList) :
    ∀ w ∈ t.nodes, w.Legible := by
  obtain ⟨hder, hyield, -⟩ := derives_of_accepts h
  apply hder.legible
  intro u hu
  rw [hyield] at hu
  obtain ⟨a, ha, rfl⟩ := List.mem_map.mp hu
  rw [Token.value_leaf]
  exact hl a ha

end Descent

theorem Token.newline_not_mem_of_mem_lexemes {s : List Char} (hr : ∀ c ∈ s, IsReadable c)
    {a : Token} (h : a ∈ lexemes s 0) {x : String} (hx : a.lexeme = some x) :
    '\n' ∉ x.toList := by
  have hvalues := map_lexemes (f := Token.lexeme) (g := fun c => some (String.singleton c))
    (fun _ _ _ _ => rfl) hr 0
  have hmem : a.lexeme ∈ (lexemes s 0).map Token.lexeme := List.mem_map_of_mem h
  rw [hvalues, hx] at hmem
  obtain ⟨c, hc, he⟩ := List.mem_map.mp hmem
  obtain rfl := Option.some.inj he
  have hblank : Text.isBlank c = false := by simpa using (List.mem_filter.mp hc).2
  rw [String.toList_singleton, List.mem_singleton]
  rintro rfl
  exact absurd hblank (by decide)

namespace Analysis

theorem exists_accepts_of_success {s : List Char} {limit : Int}
    (h : (ofText s limit).success = true) : (∀ c ∈ s, IsReadable c) ∧
      ∃ t, (ofText s limit).tree = some t ∧ Accepts (stream s) limit t := by
  obtain ⟨hb, hr⟩ := readable_of_success h
  obtain ⟨_, -, -, -, hsuccess⟩ := exists_views hb hr limit
  exact ⟨hr, (hsuccess h).2⟩

section

variable {s s' : List Char} {l l' : Int} {t t' : Tree} (hr : ∀ c ∈ s, IsReadable c)
  (h : Accepts (stream s) l t)
include hr h

theorem legible_of_accepts_stream : ∀ w ∈ t.nodes, w.Legible := by
  apply Descent.legible_of_accepts h
  rw [sentence_stream]
  intro a ha x hx
  exact Token.newline_not_mem_of_mem_lexemes hr ha hx

/-- Whatever the limits are, the tree of an accepted text tells its characters and is told by
them. -/
theorem tree_eq_iff (hr' : ∀ c ∈ s', IsReadable c) (h' : Accepts (stream s') l' t') :
    t = t' ↔ s.filter (!Text.isBlank ·) = s'.filter (!Text.isBlank ·) := by
  constructor
  · rintro rfl
    have hvalues := (values_of_accepts hr h).symm.trans (values_of_accepts hr' h')
    apply (List.map_inj_right _).mp hvalues
    intro c d hcd
    exact String.singleton_inj.mp (Option.some.inj hcd)
  · intro hs
    obtain ⟨hder, hyield, -⟩ := Descent.derives_of_accepts h
    obtain ⟨hder', hyield', -⟩ := Descent.derives_of_accepts h'
    rw [sentence_stream] at hyield hyield'
    have hleaves : ((lexemes s' 0).map Token.leaf).map some =
        ((lexemes s 0).map Token.leaf).map some := by
      rw [map_leaf_lexemes hr', map_leaf_lexemes hr, hs]
    have htokens := (List.map_inj_right fun _ _ => Option.some.inj).mp hleaves
    exact Descent.derives_unique hder hder' hyield.symm (htokens ▸ hyield'.symm)

end

/-- Drawings lose nothing. Trees that are equal when drawn are equal, if their labels can be told
from what is drawn around them, no value takes more than a line and only leaves have one. So the
trees of accepted texts are equal when drawn just if the texts have the same characters that are
not blank. -/
theorem pretty_faithful :
    (∀ t u : Tree, (∀ w ∈ t.nodes, w.Legible) → (∀ w ∈ u.nodes, w.Legible) →
      t.pretty = u.pretty → t = u) ∧
    ∀ (s s' : List Char) (l l' : Int), (ofText s l).success = true →
      (ofText s' l').success = true → ∃ t t', (ofText s l).tree = some t ∧
        (ofText s' l').tree = some t' ∧
        (t.pretty = t'.pretty ↔ s.filter (!Text.isBlank ·) = s'.filter (!Text.isBlank ·)) := by
  refine ⟨fun _ _ => Tree.eq_of_pretty, ?_⟩
  intro s s' l l' h h'
  obtain ⟨hr, t, htree, ht⟩ := exists_accepts_of_success h
  obtain ⟨hr', t', htree', ht'⟩ := exists_accepts_of_success h'
  refine ⟨t, t', htree, htree', ?_⟩
  rw [← tree_eq_iff hr ht hr' ht']
  constructor
  · exact Tree.eq_of_pretty (legible_of_accepts_stream hr ht) (legible_of_accepts_stream hr' ht')
  · exact congrArg Tree.pretty

/-- An empty label and a value with a tab are no trouble: a child is told from a sibling, and no
value from an empty one. -/
theorem pretty_faithful_corner_cases :
    (Tree.node "S" none [.leaf "" none, .leaf "x" (some "a\tb")]).pretty ≠
      (Tree.node "S" none [.node "" none [.leaf "x" (some "a\tb")]]).pretty ∧
    (Tree.leaf "S" none).pretty ≠ (Tree.leaf "S" (some "")).pretty ∧
    ∃ t t', (ofText ['a', '+', '1'] 6).tree = some t ∧
      (ofText [' ', 'a', '\n', '+', '1'] 9).tree = some t' ∧ t.pretty = t'.pretty := by
  have htab : ∀ w ∈ (Tree.leaf "x" (some "a\tb")).nodes, w.Legible :=
    Tree.legible_leaf (by decide) (by simp)
  have hempty : ∀ w ∈ (Tree.leaf "" none).nodes, w.Legible :=
    Tree.legible_leaf (by decide) (by simp)
  have hsiblings : ∀ w ∈ (Tree.node "S" none [.leaf "" none, .leaf "x" (some "a\tb")]).nodes,
      w.Legible := Tree.legible_node (by decide) (by simpa using ⟨hempty, htab⟩)
  have hchild : ∀ w ∈ (Tree.node "" none [.leaf "x" (some "a\tb")]).nodes, w.Legible :=
    Tree.legible_node (by decide) (by simpa using htab)
  have hnested : ∀ w ∈ (Tree.node "S" none [.node "" none [.leaf "x" (some "a\tb")]]).nodes,
      w.Legible := Tree.legible_node (by decide) (by simpa using hchild)
  refine ⟨?_, ?_, ?_⟩
  · intro h
    simpa [Tree.leaf] using pretty_faithful.1 _ _ hsiblings hnested h
  · intro h
    simpa [Tree.leaf] using pretty_faithful.1 _ _ (Tree.legible_leaf (by decide) (by simp))
      (Tree.legible_leaf (by decide) (by simp)) h
  · obtain ⟨t, t', ht, ht', hiff⟩ :=
      pretty_faithful.2 ['a', '+', '1'] [' ', 'a', '\n', '+', '1'] 6 9 rfl rfl
    exact ⟨t, t', ht, ht', hiff.mpr (by decide)⟩

end Analysis
end ExprLine
