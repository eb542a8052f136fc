import ExprLine.Proofs.Balance
import ExprLine.Proofs.Recognition

namespace ExprLine

namespace Tree

/-- The tree `u` stands in a tree, with the leaves `pre` on its left and `post` on its right. -/
inductive Occurs : Tree → List Tree → Tree → List Tree → Prop
  | root (t : Tree) : Occurs t [] t []
  | child {l : String} {v : Option String} {cs ds : List Tree} {c u : Tree} {pre post : List Tree}
      (h : Occurs c pre u post) :
      Occurs (.node l v (cs ++ c :: ds)) (cs.flatMap yield ++ pre) u (post ++ ds.flatMap yield)

theorem Occurs.yield_eq {t u : Tree} {pre post : List Tree} (h : t.Occurs pre u post) :
    t.yield = pre ++ (u.yield ++ post) := by
  induction h with
  | root t => simp
  | child h ih =>
    rw [yield_of_ne_nil (by simp), List.flatMap_append, List.flatMap_cons, ih]
    simp

theorem Occurs.eq_of_leaf {l : String} {v : Option String} {u : Tree} {pre post : List Tree}
    (h : (leaf l v).Occurs pre u post) : u = leaf l v := by
  generalize ht : leaf l v = t at h
  cases h with
  | root => rfl
  | child h =>
    have hn := congrArg children ht
    exact absurd hn.symm (by simp [leaf, children])

/-- The spine of a tail: the operators with the operands after them, as the tails go down. -/
inductive Spine (tail : String) : Tree → List (Tree × Tree) → Prop
  | done : Spine tail (.node tail none [.leaf "ε" none]) []
  | more {o t r : Tree} {ps : List (Tree × Tree)} (h : Spine tail r ps) :
      Spine tail (.node tail none [o, t, r]) ((o, t) :: ps)

end Tree

namespace Derives

theorem label_eq {n : Nonterminal} {t : Tree} (h : Derives n t) : t.label = n.label := by
  cases h <;> rfl

theorem of_child {n : Nonterminal} {l : String} {v : Option String} {cs : List Tree}
    (h : Derives n (.node l v cs)) : ∀ c ∈ cs, (∃ m, Derives m c) ∨
      ∃ x y, c = .leaf x y ∧ isNonterminalLabel x = false := by
  intro c hc
  cases h with
  | expr ht hr | term ht hr =>
    simp only [List.mem_cons, List.not_mem_nil, or_false] at hc
    rcases hc with rfl | rfl
    · exact Or.inl ⟨_, ht⟩
    · exact Or.inl ⟨_, hr⟩
  | exprMore hk ht hr | termMore hk ht hr =>
    simp only [List.mem_cons, List.not_mem_nil, or_false] at hc
    rcases hc with rfl | rfl | rfl
    · exact Or.inr ⟨_, _, rfl, Kind.isNonterminalLabel_name _⟩
    · exact Or.inl ⟨_, ht⟩
    · exact Or.inl ⟨_, hr⟩
  | group he =>
    simp only [List.mem_cons, List.not_mem_nil, or_false] at hc
    rcases hc with rfl | rfl | rfl
    · exact Or.inr ⟨_, _, rfl, by decide⟩
    · exact Or.inl ⟨_, he⟩
    · exact Or.inr ⟨_, _, rfl, by decide⟩
  | exprEnd | termEnd | operand =>
    obtain rfl := List.mem_singleton.mp hc
    exact Or.inr ⟨_, _, rfl, by decide⟩

/-- What stands in a derivation under the label of a nonterminal is a derivation too. -/
theorem of_occurs {t u : Tree} {pre post : List Tree} (ho : t.Occurs pre u post) {n : Nonterminal}
    (h : Derives n t) (hu : isNonterminalLabel u.label = true) : ∃ m, Derives m u := by
  induction ho generalizing n with
  | root t => exact ⟨n, h⟩
  | @child l v cs ds c u pre post ho ih =>
    rcases h.of_child c (by simp) with ⟨m, hm⟩ | ⟨x, y, rfl, hx⟩
    · exact ih hm hu
    · have hlabel : u.label = x := by rw [ho.eq_of_leaf]; rfl
      rw [hlabel, hx] at hu
      exact absurd hu (by decide)

end Derives

theorem Nonterminal.label_injective {m n : Nonterminal} (h : m.label = n.label) : m = n := by
  cases m <;> cases n <;> first | rfl | exact absurd h (by decide)

theorem derives_of_label {n : Nonterminal} {t u : Tree} {pre post : List Tree}
    (ho : t.Occurs pre u post) (h : Derives n t) {m : Nonterminal} (hu : u.label = m.label) :
    Derives m u := by
  obtain ⟨m', hm'⟩ := h.of_occurs ho (by rw [hu]; exact isNonterminalLabel_label m)
  obtain rfl := Nonterminal.label_injective (hm'.label_eq.symm.trans hu)
  exact hm'

/-- The tree `t` has the given label and stands for the tokens `v`. -/
def IsPart (label : String) (t : Tree) (v : List Token) : Prop :=
  t.label = label ∧ t.yield = v.map Token.leaf

/-- The operators and operands on a spine are those that the cut gives, one by one. -/
def Matches (part : String) (ps : List (Tree × Tree)) (cs : List (Token × List Token)) : Prop :=
  List.Forall₂ (fun p c => p.1 = c.1.leaf ∧ IsPart part p.2 c.2) ps cs

/-- The node `u` over the tokens `w` is made of a first part and a spine, and these are what comes
of cutting `w` at its operators. -/
def Chained (op : Kind → Bool) (part tail : String) (u : Tree) (w : List Token) : Prop :=
  Balanced w ∧ ∃ t r ps, u.children = [t, r] ∧ r.Spine tail ps ∧
    IsPart part t (cut op 0 w).1 ∧ Matches part ps (cut op 0 w).2

/-- The factor `u` over the tokens `w` is an expression in two parentheses that match. -/
def Wraps (u : Tree) (w : List Token) : Prop :=
  ∃ a v b e, w = a :: (v ++ [b]) ∧ a.kind = .leftParen ∧ b.kind = .rightParen ∧ Balanced v ∧
    u.children = [a.leaf, e, b.leaf] ∧ IsPart "E" e v

def Trailed (op : Kind → Bool) (part tail : String) (r : Tree) (w : List Token) : Prop :=
  Balanced w ∧ (cut op 0 w).1 = [] ∧ ∃ ps, r.Spine tail ps ∧ Matches part ps (cut op 0 w).2

section

variable {op : Kind → Bool} {part tail : String} {t r : Tree} {v x : List Token}

theorem trailed_nil (op : Kind → Bool) (part tail : String) :
    Trailed op part tail (.node tail none [.leaf "ε" none]) [] :=
  ⟨.nil, rfl, [], .done, .nil⟩

theorem chained_append (hb : Balanced v) (hp : Plain op 0 v) (ht : IsPart part t v)
    (hx : Trailed op part tail r x) (l : String) :
    Chained op part tail (.node l none [t, r]) (v ++ x) := by
  obtain ⟨hbx, hfirst, ps, hs, hm⟩ := hx
  have hcut : cut op 0 (v ++ x) = (v, (cut op 0 x).2) := by
    rw [cut_append hp, hb.closed, add_zero, hfirst, List.append_nil]
  refine ⟨hb.append hbx, t, r, ps, rfl, hs, ?_, ?_⟩
  · rw [hcut]
    exact ht
  · rw [hcut]
    exact hm

theorem trailed_cons {a : Token} (ha : op a.kind = true) (hturn : a.kind.turn = 0)
    (hb : Balanced v) (hp : Plain op 0 v) (ht : IsPart part t v) (hx : Trailed op part tail r x) :
    Trailed op part tail (.node tail none [a.leaf, t, r]) (a :: (v ++ x)) := by
  obtain ⟨hbx, hfirst, ps, hs, hm⟩ := hx
  have hcut : cut op 0 (a :: (v ++ x)) = ([], (a, v) :: (cut op 0 x).2) := by
    rw [cut_operator ha, cut_append hp, hb.closed, add_zero, hfirst, List.append_nil]
  refine ⟨(hb.append hbx).cons hturn, by rw [hcut], (a.leaf, t) :: ps, .more hs, ?_⟩
  rw [hcut]
  exact .cons ⟨rfl, ht⟩ hm

end

/-- What the tokens `w` of a nonterminal look like. Sums stand within parentheses only, but for
the tails of an expression and of what is one. -/
def Shaped : Nonterminal → Tree → List Token → Prop
  | .expr, t, w => Chained Kind.isSum "T" "E'" t w
  | .exprRest, t, w => Trailed Kind.isSum "T" "E'" t w
  | .term, t, w => Plain Kind.isSum 0 w ∧ Chained Kind.isProduct "F" "T'" t w
  | .termRest, t, w => Plain Kind.isSum 0 w ∧ Trailed Kind.isProduct "F" "T'" t w
  | .factor, _, w => Balanced w ∧ Plain Kind.isSum 0 w ∧ Plain Kind.isProduct 0 w

theorem shaped_of_derives {n : Nonterminal} {t : Tree} (h : Derives n t) {w : List Token}
    (hw : w.map Token.leaf = t.yield) : Shaped n t w := by
  induction h generalizing w with
  | expr ht hr iht ihr =>
    obtain ⟨v, x, rfl, hv, hx⟩ := exists_tokens_pair hw
    obtain ⟨hplain, hb, -⟩ := iht hv
    exact chained_append hb hplain ⟨ht.label_eq, hv.symm⟩ (ihr hx) "E"
  | exprMore hk ht hr iht ihr =>
    obtain ⟨a, v, x, rfl, rfl, ha, hv, hx⟩ := exists_tokens_more hw
    obtain ⟨hplain, hb, -⟩ := iht hv
    have hop : a.kind.isSum = true := Kind.isSum_iff.mpr hk
    rw [← ha]
    exact trailed_cons hop (Kind.turn_of_isSum hop) hb hplain ⟨ht.label_eq, hv.symm⟩ (ihr hx)
  | exprEnd =>
    obtain rfl := eq_nil_of_empty hw
    exact trailed_nil _ _ _
  | term ht hr iht ihr =>
    obtain ⟨v, x, rfl, hv, hx⟩ := exists_tokens_pair hw
    obtain ⟨hb, hsum, hproduct⟩ := iht hv
    obtain ⟨hsum', htrail⟩ := ihr hx
    refine ⟨hsum.append ?_, chained_append hb hproduct ⟨ht.label_eq, hv.symm⟩ htrail "T"⟩
    rw [hb.closed]
    exact hsum'
  | termMore hk ht hr iht ihr =>
    obtain ⟨a, v, x, rfl, rfl, ha, hv, hx⟩ := exists_tokens_more hw
    obtain ⟨hb, hsum, hproduct⟩ := iht hv
    obtain ⟨hsum', htrail⟩ := ihr hx
    have hop : a.kind.isProduct = true := Kind.isProduct_iff.mpr hk
    have hnot : a.kind.isSum = false := by rcases hk with hk | hk <;> rw [hk] <;> rfl
    have hturn := Kind.turn_of_isProduct hop
    constructor
    · refine ⟨fun _ => hnot, ?_⟩
      rw [hturn, add_zero]
      refine hsum.append ?_
      rw [hb.closed]
      exact hsum'
    · rw [← ha]
      exact trailed_cons hop hturn hb hproduct ⟨ht.label_eq, hv.symm⟩ htrail
  | termEnd =>
    obtain rfl := eq_nil_of_empty hw
    exact ⟨trivial, trailed_nil _ _ _⟩
  | group he ihe =>
    obtain ⟨a, v, b, rfl, ha, hb, -, -, hv⟩ := exists_tokens_group hw
    have hbal := (ihe hv).1
    have hplain (op : Kind → Bool) (hl : op .leftParen = false) (hr : op .rightParen = false) :
        Plain op 0 (a :: (v ++ [b])) := by
      refine ⟨fun _ => by rw [ha, hl], ?_⟩
      have hopen : 0 + a.kind.turn = 1 := by rw [ha]; rfl
      rw [hopen]
      refine hbal.plain_inside.append ⟨?_, trivial⟩
      intro _
      rw [hb, hr]
    exact ⟨hbal.wrap ha hb, hplain _ rfl rfl, hplain _ rfl rfl⟩
  | operand =>
    obtain ⟨a, rfl, ha, -⟩ := exists_token_operand hw
    have hplain (op : Kind → Bool) (ho : op a.kind = false) : Plain op 0 [a] :=
      ⟨fun _ => ho, trivial⟩
    refine ⟨Balanced.nil.cons (Kind.turn_of_isOperand ha), hplain _ ?_, hplain _ ?_⟩
    · revert ha
      cases a.kind <;> simp [Kind.isOperand, Kind.isSum]
    · revert ha
      cases a.kind <;> simp [Kind.isOperand, Kind.isProduct]

theorem wraps_of_derives {u : Tree} (h : Derives .factor u) (hu : u.children.length = 3)
    {w : List Token} (hw : w.map Token.leaf = u.yield) : Wraps u w := by
  cases h with
  | operand => simp [Tree.children] at hu
  | group he =>
    obtain ⟨a, v, b, rfl, hak, hbk, ha, hb, hv⟩ := exists_tokens_group hw
    have hbal := (shaped_of_derives he hv).1
    refine ⟨a, v, b, _, rfl, hak, hbk, hbal, ?_, he.label_eq, hv.symm⟩
    rw [ha, hb]
    rfl

namespace Descent

/-- In an accepted list every node stands for the tokens between those left and right of it. An
expression is cut into its terms at its sums and a term into its factors at its products, where
only operators outside of all parentheses count, and parentheses around a factor match. -/
theorem grouping_of_accepts (ts : List Token) (limit : Int) (t : Tree) (h : Accepts ts limit t)
    (pre : List Tree) (u : Tree) (post : List Tree) (hu : t.Occurs pre u post) :
    ∃ a w b, sentence ts = a ++ (w ++ b) ∧ a.map Token.leaf = pre ∧
      w.map Token.leaf = u.yield ∧ b.map Token.leaf = post ∧
      (u.label = "E" → Chained Kind.isSum "T" "E'" u w) ∧
      (u.label = "T" → Chained Kind.isProduct "F" "T'" u w) ∧
      (u.label = "F" → u.children.length = 3 → Wraps u w) := by
  obtain ⟨hn, he⟩ := ended_of_accepts h
  obtain ⟨hder, hyield, -⟩ := (accepts_iff hn he).mp h
  rw [hu.yield_eq] at hyield
  obtain ⟨a, z, hz, ha, hz'⟩ := List.map_eq_append_iff.mp hyield.symm
  obtain ⟨w, b, rfl, hw, hb⟩ := List.map_eq_append_iff.mp hz'
  refine ⟨a, w, b, hz, ha, hw, hb, ?_, ?_, ?_⟩
  · intro hl
    exact shaped_of_derives (derives_of_label hu hder (m := .expr) hl) hw
  · intro hl
    exact (shaped_of_derives (derives_of_label hu hder (m := .term) hl) hw).2
  · intro hl hc
    exact wraps_of_derives (derives_of_label hu hder (m := .factor) hl) hc hw

/-- A difference whose second term is a product with a group: its sign is the one place to cut. -/
theorem grouping_of_accepts_difference :
    let ts : List Token := [⟨.identifier, some "a", 0⟩, ⟨.minus, some "-", 1⟩,
      ⟨.number, some "1", 2⟩, ⟨.multiply, some "*", 3⟩, ⟨.leftParen, some "(", 4⟩,
      ⟨.identifier, some "b", 5⟩, ⟨.plus, some "+", 6⟩, ⟨.number, some "2", 7⟩,
      ⟨.rightParen, some ")", 8⟩, .endAt 9]
    ∃ t, Accepts ts 9 t ∧ Chained Kind.isSum "T" "E'" t (sentence ts) := by
  intro ts
  have haccepts : ∃ t, Accepts ts 9 t ∧ t.label = "E" := ⟨_, ⟨_, rfl, rfl, rfl⟩, rfl⟩
  obtain ⟨t, ht, hl⟩ := haccepts
  obtain ⟨a, w, b, hs, ha, -, hb, hsum, -⟩ := grouping_of_accepts ts 9 t ht [] t [] (.root t)
  obtain rfl := List.map_eq_nil_iff.mp ha
  obtain rfl := List.map_eq_nil_iff.mp hb
  have hw : sentence ts = w := by
    rw [hs, List.nil_append, List.append_nil]
  refine ⟨t, ht, ?_⟩
  rw [hw]
  exact hsum hl

end Descent
end ExprLine
