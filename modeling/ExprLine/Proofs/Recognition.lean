import ExprLine.Proofs.Contract
import Mathlib.Data.List.TakeWhile

namespace ExprLine

/-- Whether no phrase of `n` that is complete can go on with a token of kind `k`. -/
def Closed : Nonterminal → Kind → Prop
  | .factor, _ => True
  | .term, k | .termRest, k => k ≠ .multiply ∧ k ≠ .divide
  | .expr, k | .exprRest, k => k ≠ .plus ∧ k ≠ .minus ∧ k ≠ .multiply ∧ k ≠ .divide

theorem closed_endOfInput (n : Nonterminal) : Closed n .endOfInput := by
  cases n <;> simp [Closed]

theorem closed_rightParen (n : Nonterminal) : Closed n .rightParen := by
  cases n <;> simp [Closed]

theorem Derives.height_pos {n : Nonterminal} {t : Tree} (h : Derives n t) : 0 < t.height := by
  cases h <;> simp [Tree.height, isNonterminalLabel, Nonterminal.all, Nonterminal.label]

/-- What follows a term within a sum is no operator of the term. -/
theorem Derives.exists_head_closed {r : Tree} {w rest : List Token} {a : Token}
    (h : Derives .exprRest r) (hw : w.map Token.leaf = r.yield) (ha : Closed .exprRest a.kind) :
    ∃ b bs, w ++ a :: rest = b :: bs ∧ Closed .term b.kind := by
  cases h with
  | exprMore hk ht hr =>
    obtain ⟨b, v, x, rfl, hb, -⟩ := exists_tokens_more hw
    refine ⟨b, (v ++ x) ++ a :: rest, rfl, ?_⟩
    rw [hb]
    rcases hk with rfl | rfl <;> simp [Closed]
  | exprEnd =>
    obtain rfl := eq_nil_of_empty hw
    exact ⟨a, rest, rfl, ha.2.2⟩

namespace Descent

namespace State

/-- The state `s` with its cursor moved on to `a`, before `r`. -/
def reach (s : State) (a : Token) (r : List Token) : State := { s with current := a, ahead := r }

@[simp] theorem rest_reach (s : State) (a : Token) (r : List Token) :
    (s.reach a r).rest = a :: r := rfl

@[simp] theorem reach_reach (s : State) (a b : Token) (q r : List Token) :
    (s.reach a q).reach b r = s.reach b r := rfl

@[simp] theorem leave_reach_enter (s : State) (a : Token) (r : List Token) :
    (s.enter.reach a r).leave = s.reach a r := by
  simp [enter, leave, reach]

theorem current_of_rest {s : State} {a : Token} {r : List Token} (h : s.rest = a :: r) :
    s.current = a :=
  (List.cons.inj h).1

theorem reach_of_rest {s : State} {a : Token} {r : List Token} (h : s.rest = a :: r) :
    s.reach a r = s := by
  obtain ⟨rfl, rfl⟩ := List.cons.inj h
  rfl

theorem advance_of_rest {s : State} {a b : Token} {r : List Token} (h : s.rest = a :: b :: r) :
    s.advance = s.reach b r := by
  have ha : s.ahead = b :: r := (List.cons.inj h).2
  simp [advance, ha, reach]

end State

section

variable {sub : Nonterminal → Procedure Tree} {s s₁ s₂ : State}

theorem item_token (sub : Nonterminal → Procedure Tree) {k : Kind} (h : s.current.kind = k) :
    item sub (.token k) s = (.ok s.current.leaf, s.advance) := by
  rw [item, if_pos h]

theorem items_nil : items sub [] s = (.ok [], s) := rfl

theorem items_cons_ok {i : Item} {is : List Item} {t : Tree} {ts : List Tree}
    (h : item sub i s = (.ok t, s₁)) (h' : items sub is s₁ = (.ok ts, s₂)) :
    items sub (i :: is) s = (.ok (t :: ts), s₂) := by
  rw [items, h]
  dsimp only
  rw [h']

theorem derive_ok {limit : Int} {room : Nat} {n : Nonterminal} {is : List Item} {ts : List Tree}
    (hp : production n s.current.kind = some is)
    (hi : items (derive limit room) is s.enter = (.ok ts, s₁)) :
    derive limit (room + 1) n s = (.ok (.node n.label none ts), s₁.leave) := by
  rw [derive, hp]
  dsimp only
  rw [hi]

end

/-- The tree `t` is found wherever its tokens stand, if what follows cannot belong to it. -/
def Found (limit : Int) (room : Nat) (n : Nonterminal) (t : Tree) : Prop :=
  ∀ (s : State) (w : List Token) (a : Token) (r : List Token), s.rest = w ++ a :: r →
    w.map Token.leaf = t.yield → Closed n a.kind → derive limit room n s = (.ok t, s.reach a r)

/-- Two nonterminals in a row. What starts the second, or follows it where it is empty, must not
belong to the first. -/
theorem items_pair {limit : Int} {room : Nat} {n₁ n₂ : Nonterminal} {t u : Tree}
    (ht : Found limit room n₁ t) (hu : Found limit room n₂ u)
    (hclosed : ∀ (w : List Token) (a : Token) (r : List Token), w.map Token.leaf = u.yield →
      Closed n₂ a.kind → ∃ b bs, w ++ a :: r = b :: bs ∧ Closed n₁ b.kind)
    {s : State} {v x : List Token} {a : Token} {r : List Token}
    (hs : s.rest = (v ++ x) ++ a :: r) (hv : v.map Token.leaf = t.yield)
    (hx : x.map Token.leaf = u.yield) (ha : Closed n₂ a.kind) :
    items (derive limit room) [.sub n₁, .sub n₂] s = (.ok [t, u], s.reach a r) := by
  obtain ⟨b, bs, hb, hbc⟩ := hclosed x a r hx ha
  have first := ht s v b bs (by rw [hs, List.append_assoc, hb]) hv hbc
  have second := hu (s.reach b bs) x a r (by rw [State.rest_reach, hb]) hx ha
  rw [State.reach_reach] at second
  exact items_cons_ok first (items_cons_ok second items_nil)

theorem found_pair {limit : Int} {room : Nat} {n n₁ n₂ : Nonterminal} {t u : Tree}
    (hp : ∀ k, production n k = some [.sub n₁, .sub n₂])
    (hn : ∀ k, Closed n k → Closed n₂ k)
    (ht : Found limit room n₁ t) (hu : Found limit room n₂ u)
    (hclosed : ∀ (w : List Token) (a : Token) (r : List Token), w.map Token.leaf = u.yield →
      Closed n₂ a.kind → ∃ b bs, w ++ a :: r = b :: bs ∧ Closed n₁ b.kind) :
    Found limit (room + 1) n (.node n.label none [t, u]) := by
  intro s w a r hs hw ha
  obtain ⟨v, x, rfl, hv, hx⟩ := exists_tokens_pair hw
  have hi := items_pair ht hu hclosed (s := s.enter) hs hv hx (hn _ ha)
  rw [derive_ok (hp _) hi, State.leave_reach_enter]

theorem found_more {limit : Int} {room : Nat} {n n₁ : Nonterminal} {k : Kind} {x : Option String}
    {t u : Tree} (hp : production n k = some [.token k, .sub n₁, .sub n])
    (ht : Found limit room n₁ t) (hu : Found limit room n u)
    (hclosed : ∀ (w : List Token) (a : Token) (r : List Token), w.map Token.leaf = u.yield →
      Closed n a.kind → ∃ b bs, w ++ a :: r = b :: bs ∧ Closed n₁ b.kind) :
    Found limit (room + 1) n (.node n.label none [.leaf k.name x, t, u]) := by
  intro s w a r hs hw ha
  obtain ⟨c, v, z, rfl, rfl, hc, hv, hz⟩ := exists_tokens_more hw
  obtain ⟨b, bs, hb⟩ : ∃ b bs, (v ++ z) ++ a :: r = b :: bs :=
    List.exists_cons_of_ne_nil (by simp)
  have hcur : s.current = c := State.current_of_rest hs
  have hadv : s.enter.advance = s.enter.reach b bs := State.advance_of_rest (a := c) (by
    rw [State.rest_enter, hs, List.cons_append, hb])
  have hi := items_pair ht hu hclosed (s := s.enter.reach b bs) hb.symm hv hz ha
  have htok := item_token (derive limit room) (s := s.enter) (k := c.kind) (by
    rw [State.current_enter, hcur])
  rw [hadv, State.current_enter, hcur, hc] at htok
  rw [State.reach_reach] at hi
  rw [derive_ok (by rw [hcur, hp]) (items_cons_ok htok hi), State.leave_reach_enter]

theorem found_end {limit : Int} {room : Nat} {n : Nonterminal}
    (hp : ∀ k, Closed n k → production n k = some [.empty]) :
    Found limit (room + 1) n (.node n.label none [.leaf "ε" none]) := by
  intro s w a r hs hw ha
  obtain rfl := eq_nil_of_empty hw
  rw [List.nil_append] at hs
  have hcur : s.current = a := State.current_of_rest hs
  have hi : items (derive limit room) [.empty] s.enter = (.ok [.emptyLeaf], s.enter) := rfl
  rw [derive_ok (hp _ (by rw [hcur]; exact ha)) hi, State.leave_enter, State.reach_of_rest hs]
  rfl

theorem found_group {limit : Int} {room : Nat} {x y : Option String} {e : Tree}
    (he : Found limit room .expr e) :
    Found limit (room + 1) .factor (.node "F" none [.leaf "LPAREN" x, e, .leaf "RPAREN" y]) := by
  intro s w a r hs hw _
  obtain ⟨c, u, d, rfl, hck, hdk, hc, hd, hu⟩ := exists_tokens_group hw
  obtain ⟨b, bs, hb⟩ : ∃ b bs, u ++ d :: a :: r = b :: bs :=
    List.exists_cons_of_ne_nil (by simp)
  have hs' : s.enter.rest = c :: b :: bs := by
    rw [State.rest_enter, hs, ← hb]
    simp
  have hcur : s.enter.current = c := State.current_of_rest hs'
  have opening := item_token (derive limit room) (hcur ▸ hck)
  rw [hcur, hc, State.advance_of_rest hs'] at opening
  have inner : item (derive limit room) (.sub .expr) (s.enter.reach b bs) =
      (.ok e, s.enter.reach d (a :: r)) :=
    he (s.enter.reach b bs) u d (a :: r) hb.symm hu (hdk ▸ closed_rightParen .expr)
  have closing := item_token (derive limit room) (s := s.enter.reach d (a :: r)) hdk
  rw [State.advance_of_rest (State.rest_reach ..), State.reach_reach] at closing
  have hd' : (s.enter.reach d (a :: r)).current.leaf = .leaf "RPAREN" y := hd
  rw [hd'] at closing
  have hi := items_cons_ok opening (items_cons_ok inner (items_cons_ok closing items_nil))
  have hp : production .factor s.current.kind =
      some [.token .leftParen, .sub .expr, .token .rightParen] := by
    rw [← State.current_enter, hcur, hck]
    rfl
  rw [derive_ok hp hi, State.leave_reach_enter]
  rfl

theorem found_operand {limit : Int} {room : Nat} {x : Option String} :
    Found limit (room + 1) .factor (.node "F" none [.leaf "id" x]) := by
  intro s w a r hs hw _
  obtain ⟨c, rfl, hck, hc⟩ := exists_token_operand hw
  have hs' : s.enter.rest = c :: a :: r := hs
  have hcur : s.enter.current = c := State.current_of_rest hs'
  have one := item_token (derive limit room) (s := s.enter) (k := c.kind) (by rw [hcur])
  rw [hcur, hc, State.advance_of_rest hs'] at one
  have hp : production .factor s.current.kind = some [.token c.kind] := by
    rw [← State.current_enter, hcur]
    revert hck
    cases c.kind <;> simp [Kind.isOperand, production]
  rw [derive_ok hp (items_cons_ok one items_nil), State.leave_reach_enter]
  rfl

/-- Any token may follow a factor, so nothing is asked of the tokens after it. -/
theorem exists_head_factor (w : List Token) (a : Token) (r : List Token) :
    ∃ b bs, w ++ a :: r = b :: bs ∧ Closed .factor b.kind := by
  obtain ⟨b, bs, hb⟩ : ∃ b bs, w ++ a :: r = b :: bs := List.exists_cons_of_ne_nil (by simp)
  exact ⟨b, bs, hb, trivial⟩

theorem found_of_derives {n : Nonterminal} {t : Tree} (h : Derives n t) (limit : Int) {room : Nat}
    (hh : t.height ≤ room) : Found limit room n t := by
  -- on the room and not on the derivation, so that every subtree is found one level down
  induction room generalizing n t with
  | zero =>
    have hpos := h.height_pos
    omega
  | succ room ih =>
    cases h with
    | @expr t r ht hr =>
      have hc := Tree.height_child_le .expr hh
      exact found_pair (fun _ => rfl) (fun _ h => h) (ih ht (hc t (by simp))) (ih hr (hc r (by simp)))
        fun _ _ _ hw ha => hr.exists_head_closed hw ha
    | @exprMore k x t r hk ht hr =>
      have hc := Tree.height_child_le .exprRest hh
      exact found_more (by rcases hk with rfl | rfl <;> rfl) (ih ht (hc t (by simp)))
        (ih hr (hc r (by simp))) fun _ _ _ hw ha => hr.exists_head_closed hw ha
    | exprEnd =>
      apply found_end (n := .exprRest)
      intro k hk
      revert hk
      cases k <;> simp [Closed, production]
    | @term t r ht hr =>
      have hc := Tree.height_child_le .term hh
      exact found_pair (fun _ => rfl) (fun _ h => h) (ih ht (hc t (by simp))) (ih hr (hc r (by simp)))
        fun w a r _ _ => exists_head_factor w a r
    | @termMore k x t r hk ht hr =>
      have hc := Tree.height_child_le .termRest hh
      exact found_more (by rcases hk with rfl | rfl <;> rfl) (ih ht (hc t (by simp)))
        (ih hr (hc r (by simp))) fun w a r _ _ => exists_head_factor w a r
    | termEnd =>
      apply found_end (n := .termRest)
      intro k hk
      revert hk
      cases k <;> simp [Closed, production]
    | @group x y e he =>
      have hc := Tree.height_child_le .factor hh
      exact found_group (ih he (hc e (by simp)))
    | operand => exact found_operand

/-- The tokens before the first end marker. -/
def sentence (ts : List Token) : List Token := ts.takeWhile (!·.isEnd)

theorem exists_end_of_ended {ts : List Token} (h : Ended ts) :
    ∃ e r, ts = sentence ts ++ e :: r ∧ e.isEnd = true := by
  obtain ⟨e, he, hend⟩ := h
  have hmem : e ∈ ts := List.mem_of_getLast? he
  cases hd : ts.dropWhile (!·.isEnd) with
  | nil =>
    have hall := List.dropWhile_eq_nil_iff.mp hd e hmem
    rw [hend] at hall
    exact absurd hall (by decide)
  | cons a r =>
    refine ⟨a, r, ?_, ?_⟩
    · rw [← hd]
      exact List.takeWhile_append_dropWhile.symm
    · have ha := List.head_dropWhile_not (fun t : Token => !t.isEnd) (l := ts) (by simp [hd])
      simpa [hd] using ha

theorem sentence_append_end {w r : List Token} {e : Token} (hw : ∀ a ∈ w, a.isEnd = false)
    (he : e.isEnd = true) : sentence (w ++ e :: r) = w := by
  rw [sentence, List.takeWhile_append_of_pos (by simpa using hw)]
  simp [he]

theorem whole_ok_iff (limit : Int) {s : State} (h : Ended s.rest) (hd : s.depth = 0) {t : Tree} :
    (∃ s', whole limit s = (.ok t, s')) ↔
      Derives .expr t ∧ t.yield = (sentence s.rest).map Token.leaf ∧ (t.height : Int) ≤ limit := by
  rw [whole, procedure_start limit .expr hd]
  constructor
  · rintro ⟨s', hs'⟩
    have hk := derive_keeps limit limit.toNat .expr h
    generalize derive limit limit.toNat .expr s = r at hk hs'
    cases hk with
    | error hm hb hc => simp at hs'
    | @ok w u s₁ hm hb hp =>
      obtain ⟨hder, hy, hh⟩ := hp
      dsimp only at hs'
      split at hs'
      · next hend =>
        obtain ⟨rfl, rfl⟩ : u = t ∧ s₁ = s' := by simpa using hs'
        have hsent : sentence s.rest = w := by
          rw [hm.rest]
          exact sentence_append_end hm.live hend
        have hpos := hder.height_pos
        exact ⟨hder, by rw [hy, hsent], by omega⟩
      · simp [State.fail] at hs'
  · rintro ⟨hder, hy, hh⟩
    obtain ⟨e, r, he, hend⟩ := exists_end_of_ended h
    have hkind : e.kind = .endOfInput := of_decide_eq_true hend
    have hf := found_of_derives hder limit (show t.height ≤ limit.toNat by omega) s _ e r he hy.symm
      (hkind ▸ closed_endOfInput .expr)
    rw [hf]
    exact ⟨s.reach e r, if_pos hend⟩

theorem derives_unique {n : Nonterminal} {t u : Tree} {w : List Token} (ht : Derives n t)
    (hu : Derives n u) (hty : w.map Token.leaf = t.yield) (huy : w.map Token.leaf = u.yield) :
    t = u := by
  obtain ⟨a, r, ha⟩ : ∃ a r, w ++ [Token.endAt 0] = a :: r := List.exists_cons_of_ne_nil (by simp)
  have hrest : (State.mk a r 0 []).rest = w ++ Token.endAt 0 :: [] := ha.symm
  have hclosed : Closed n (Token.endAt 0).kind := closed_endOfInput n
  have first := found_of_derives ht 0 (Nat.le_max_left t.height u.height) _ _ _ _ hrest hty hclosed
  have second := found_of_derives hu 0 (Nat.le_max_right t.height u.height) _ _ _ _ hrest huy hclosed
  -- one run of one procedure has found both
  rw [first] at second
  simpa using second

def Accepts (ts : List Token) (limit : Int) (t : Tree) : Prop :=
  ∃ v, parse ts (some limit) = .ok v ∧ v.success = true ∧ v.tree = some t

theorem accepts_iff {ts : List Token} (h : ts ≠ []) (he : (ts.getLast h).isEnd = true)
    {limit : Int} {t : Tree} : Accepts ts limit t ↔
      Derives .expr t ∧ t.yield = (sentence ts).map Token.leaf ∧ (t.height : Int) ≤ limit := by
  obtain ⟨s, hs, hrest, hd, -, hended⟩ := start?_of_getLast h he
  have hw := whole_ok_iff limit hended hd (t := t)
  rw [hrest] at hw
  rw [← hw, Accepts, parse_of_start hs]
  rcases whole limit s with ⟨b | u, s'⟩ <;> simp

theorem exists_accepts {ts : List Token} (h : ts ≠ []) (he : (ts.getLast h).isEnd = true)
    {limit : Int} {v : Verdict} (hv : parse ts (some limit) = .ok v) (hs : v.success = true) :
    ∃ t, Accepts ts limit t := by
  obtain ⟨s, hstart, -⟩ := start?_of_getLast h he
  have hp := parse_of_start hstart limit
  rw [hv] at hp
  rcases hw : whole limit s with ⟨b | t, s'⟩ <;> rw [hw] at hp
  · obtain rfl := Except.ok.inj hp
    simp at hs
  · obtain rfl := Except.ok.inj hp
    exact ⟨t, _, hv, rfl, rfl⟩

theorem ended_of_accepts {ts : List Token} {limit : Int} {t : Tree} (h : Accepts ts limit t) :
    ∃ hn : ts ≠ [], (ts.getLast hn).isEnd = true := by
  obtain ⟨v, hv, -⟩ := h
  cases ts with
  | nil => simp [parse, State.start?] at hv
  | cons a r =>
    refine ⟨List.cons_ne_nil a r, ?_⟩
    by_contra hend
    simp [parse, State.start?, hend] at hv

theorem derives_of_accepts {ts : List Token} {limit : Int} {t : Tree} (h : Accepts ts limit t) :
    Derives .expr t ∧ t.yield = (sentence ts).map Token.leaf ∧ (t.height : Int) ≤ limit := by
  obtain ⟨hn, he⟩ := ended_of_accepts h
  exact (accepts_iff hn he).mp h

/-- Every list of tokens that ends as it must is accepted with the derivations of its sentence
whose ways to a leaf pass no more nonterminals than the limit. There is at most one of them, so a
sentence is accepted exactly from the height of its derivation on. -/
theorem accepts_derivations (ts : List Token) (h : ts ≠ []) (he : (ts.getLast h).isEnd = true) :
    (∀ (limit : Int) (t : Tree), Accepts ts limit t ↔
      Derives .expr t ∧ t.yield = (sentence ts).map Token.leaf ∧
        ∀ p ∈ t.paths, (p.countP isNonterminalLabel : Int) ≤ limit) ∧
    (∀ (l m : Int) (t u : Tree), Accepts ts l t → Accepts ts m u → t = u) ∧
    ∀ t, Derives .expr t → t.yield = (sentence ts).map Token.leaf →
      ∀ limit : Int, (∃ v, parse ts (some limit) = .ok v ∧ v.success = true) ↔
        (t.height : Int) ≤ limit := by
  refine ⟨?_, ?_, ?_⟩
  · intro limit t
    rw [accepts_iff h he, Tree.height_le_iff]
  · intro l m t u ht hu
    obtain ⟨htd, hty, -⟩ := (accepts_iff h he).mp ht
    obtain ⟨hud, huy, -⟩ := (accepts_iff h he).mp hu
    exact derives_unique htd hud hty.symm huy.symm
  · intro t ht hy limit
    constructor
    · rintro ⟨v, hv, hs⟩
      obtain ⟨u, hu⟩ := exists_accepts h he hv hs
      obtain ⟨hud, huy, hle⟩ := (accepts_iff h he).mp hu
      rw [derives_unique ht hud hy.symm huy.symm]
      exact hle
    · intro hle
      obtain ⟨v, hv, hs, -⟩ := (accepts_iff h he).mpr ⟨ht, hy, hle⟩
      exact ⟨v, hv, hs⟩

/-- A letter in parentheses takes six levels. The parenthesis has lost its lexeme, and the tokens
after the first end marker do not matter. -/
theorem accepts_derivations_group :
    {limit : Int | ∃ v, parse [⟨.leftParen, none, 0⟩, ⟨.identifier, some "a", 1⟩,
        ⟨.rightParen, some ")", 2⟩, .endAt 3, ⟨.plus, some "+", 3⟩, .endAt 4] (some limit) = .ok v ∧
      v.success = true} = {limit | 6 ≤ limit} := by
  have hinner : Derives .expr (.node "E" none [.node "T" none [.node "F" none [.leaf "id" (some "a")],
      .node "T'" none [.leaf "ε" none]], .node "E'" none [.leaf "ε" none]]) :=
    .expr (.term .operand .termEnd) .exprEnd
  have hgroup : Derives .expr (.node "E" none [.node "T" none [.node "F" none
      [.leaf "LPAREN" none, _, .leaf "RPAREN" (some ")")], .node "T'" none [.leaf "ε" none]],
      .node "E'" none [.leaf "ε" none]]) :=
    .expr (.term (.group hinner) .termEnd) .exprEnd
  ext limit
  exact (accepts_derivations _ (List.cons_ne_nil _ _) rfl).2.2 _ hgroup rfl limit

end Descent
end ExprLine
