import ExprLine.Proofs.Contract
import Mathlib.Logic.Relation

namespace ExprLine

/-- Only the tails may be empty. -/
theorem Derives.yield_ne_nil {n : Nonterminal} {t : Tree} (h : Derives n t)
    (hn : n ∈ [Nonterminal.expr, .term, .factor]) : t.yield ≠ [] := by
  induction h with
  | expr ht hr iht ihr =>
    have hleft := iht (by decide)
    simp [Tree.yield_node, hleft]
  | term ht hr iht ihr =>
    have hleft := iht (by decide)
    simp [Tree.yield_node, hleft]
  | group he ihe => simp [Tree.yield_node, Tree.yield_leaf]
  | operand => simp [Tree.yield_node, Tree.yield_leaf]
  | exprMore hk ht hr iht ihr => exact absurd hn (by decide)
  | exprEnd => exact absurd hn (by decide)
  | termMore hk ht hr iht ihr => exact absurd hn (by decide)
  | termEnd => exact absurd hn (by decide)

namespace Descent

/-- After `s` comes `s'`, with as many levels open. The cursor never goes back. -/
structure Follows (s s' : State) : Prop where
  depth : s'.depth = s.depth
  rest : s'.rest <:+ s.rest

namespace Follows

theorem refl (s : State) : Follows s s := ⟨rfl, List.suffix_rfl⟩

theorem trans {s₁ s₂ s₃ : State} (h : Follows s₁ s₂) (k : Follows s₂ s₃) : Follows s₁ s₃ :=
  ⟨k.depth.trans h.depth, k.rest.trans h.rest⟩

theorem advance (s : State) : Follows s s.advance := by
  refine ⟨s.depth_advance, ?_⟩
  rcases s.rest_advance with h | ⟨-, h⟩
  · exact h ▸ List.suffix_cons _ _
  · exact congrArg State.rest h ▸ List.suffix_rfl

theorem leave {s s' : State} (h : Follows s.enter s') : Follows s s'.leave := by
  refine ⟨?_, h.rest⟩
  have hd := h.depth
  simp only [State.enter, State.leave] at hd ⊢
  omega

end Follows

/-- Where items end: the first blame stops them. -/
theorem items_cons_snd (sub : Nonterminal → Procedure Tree) (i : Item) (is : List Item) (s : State) :
    (items sub (i :: is) s).2 = match item sub i s with
      | (.error _, s₁) => s₁
      | (.ok _, s₁) => (items sub is s₁).2 := by
  rw [items]
  rcases item sub i s with ⟨b | t, s₁⟩
  · rfl
  · dsimp only
    rcases items sub is s₁ with ⟨b | us, s₂⟩ <;> rfl

section

variable {sub : Nonterminal → Procedure Tree} (hsub : ∀ n s, Follows s (sub n s).2)
include hsub

theorem item_follows (i : Item) (s : State) : Follows s (item sub i s).2 := by
  cases i with
  | token k =>
    rw [item]
    split
    · exact Follows.advance s
    · exact ⟨rfl, List.suffix_rfl⟩
  | sub n => exact hsub n s
  | empty => exact Follows.refl s

theorem items_follows (is : List Item) (s : State) : Follows s (items sub is s).2 := by
  induction is generalizing s with
  | nil => exact Follows.refl s
  | cons i is ih =>
    have hone := item_follows hsub i s
    rw [items_cons_snd]
    rcases hi : item sub i s with ⟨b | t, s₁⟩
    · rw [hi] at hone
      exact hone
    · rw [hi] at hone
      exact hone.trans (ih s₁)

/-- The items after the first one go on from where it ends, or do not come about. -/
theorem items_cons_follows (i : Item) (is : List Item) (s : State) :
    Follows (item sub i s).2 (items sub (i :: is) s).2 := by
  rw [items_cons_snd]
  rcases item sub i s with ⟨b | t, s₁⟩
  · exact Follows.refl s₁
  · exact items_follows hsub is s₁

end

theorem derive_follows (limit : Int) (room : Nat) (n : Nonterminal) (s : State) :
    Follows s (derive limit room n s).2 := by
  induction room generalizing n s with
  | zero => exact ⟨rfl, List.suffix_rfl⟩
  | succ room ih =>
    rw [derive]
    cases hp : production n s.current.kind with
    | none => exact ⟨rfl, List.suffix_rfl⟩
    | some is =>
      have hall := items_follows ih is s.enter
      dsimp only
      rcases hr : items (derive limit room) is s.enter with ⟨b | us, s₁⟩
      · rw [hr] at hall
        exact hall.leave
      · rw [hr] at hall
        exact hall.leave

theorem procedure_follows (limit : Int) (n : Nonterminal) (s : State) :
    Follows s (procedure limit n s).2 :=
  derive_follows limit _ n s

/-- The room that is left is the same wherever the same number of levels is open. -/
theorem items_derive_eq {limit : Int} {room : Nat} (is : List Item) {s : State}
    (h : room = (limit - s.depth).toNat) :
    items (derive limit room) is s = items (procedure limit) is s := by
  induction is generalizing s with
  | nil => rfl
  | cons i is ih =>
    have hi : item (derive limit room) i s = item (procedure limit) i s := by
      cases i with
      | sub n =>
        rw [h]
        rfl
      | _ => rfl
    -- an item closes what it opens, so the next one has the same room
    have hf := item_follows (procedure_follows limit) i s
    rw [items, items, hi]
    rcases hr : item (procedure limit) i s with ⟨b | t, s₁⟩
    · rfl
    · rw [hr] at hf
      have hd : s₁.depth = s.depth := hf.depth
      dsimp only
      rw [ih (by rw [hd]; exact h)]

/-- The recursion is that of the procedures themselves, and its only bound is the limit on the
levels open in the state. -/
theorem procedure_eq (limit : Int) (n : Nonterminal) (s : State) : procedure limit n s =
    if s.depth < limit then
      match production n s.current.kind with
      | none => s.fail .expectedOperand
      | some is =>
        match items (procedure limit) is s.enter with
        | (.error b, s₁) => (.error b, s₁.leave)
        | (.ok us, s₁) => (.ok (.node n.label none us), s₁.leave)
    else s.fail (.nestingTooDeep limit) := by
  split
  · next hd =>
    obtain ⟨room, hroom⟩ : ∃ room, (limit - s.depth).toNat = room + 1 :=
      ⟨(limit - s.depth).toNat - 1, by omega⟩
    have hinner : room = (limit - s.enter.depth).toNat := by
      simp only [State.enter]
      omega
    rw [procedure, hroom, derive]
    cases production n s.current.kind with
    | none => rfl
    | some is =>
      dsimp only
      rcases hr : items (procedure limit) is s.enter with ⟨b | us, s₁⟩
      all_goals
        rw [← items_derive_eq is hinner] at hr
        simp only [hr]
  · next hd =>
    have hroom : (limit - s.depth).toNat = 0 := by omega
    rw [procedure, hroom, derive]

theorem procedure_snd {limit : Int} {n : Nonterminal} {s : State} {is : List Item}
    (hd : s.depth < limit) (hp : production n s.current.kind = some is) :
    (procedure limit n s).2 = (items (procedure limit) is s.enter).2.leave := by
  rw [procedure_eq, if_pos hd, hp]
  dsimp only
  rcases items (procedure limit) is s.enter with ⟨b | us, s₁⟩ <;> rfl

/-- The cursor of `s` is at index `i` of the tokens. -/
structure StandsAt (ts : List Token) (i : Nat) (s : State) : Prop where
  current : ts[i]? = some s.current
  ahead : s.ahead = ts.drop (i + 1)

namespace StandsAt

variable {ts : List Token} {i j : Nat} {s s' : State}

theorem inside (h : StandsAt ts i s) : i < ts.length :=
  (List.getElem?_eq_some_iff.mp h.current).1

theorem rest (h : StandsAt ts i s) : s.rest = ts.drop i := by
  obtain ⟨hi, hc⟩ := List.getElem?_eq_some_iff.mp h.current
  rw [State.rest, h.ahead, ← hc, List.getElem_cons_drop]

theorem of_rest (h : s.rest = ts.drop i) : StandsAt ts i s := by
  have hi : i < ts.length := by
    by_contra hn
    exact s.rest_ne_nil (h.trans (List.drop_eq_nil_of_le (by omega)))
  rw [← List.getElem_cons_drop hi] at h
  obtain ⟨hc, ha⟩ := List.cons.inj h
  exact ⟨by rw [List.getElem?_eq_getElem hi, hc], ha⟩

theorem of_append {w : List Token} (h : StandsAt ts i s) (hr : s.rest = w ++ s'.rest) :
    StandsAt ts (i + w.length) s' := by
  apply of_rest
  rw [← List.drop_drop, ← h.rest, hr, List.drop_left]

/-- Of two states, the one with fewer tokens left is further on. -/
theorem le_of_suffix (h : StandsAt ts i s) (k : StandsAt ts j s') (hr : s'.rest <:+ s.rest) :
    i ≤ j := by
  have hlength := hr.length_le
  have hi := h.inside
  have hj := k.inside
  rw [h.rest, k.rest, List.length_drop, List.length_drop] at hlength
  omega

theorem unique (h : StandsAt ts i s) (k : StandsAt ts j s) : i = j :=
  Nat.le_antisymm (h.le_of_suffix k List.suffix_rfl) (k.le_of_suffix h List.suffix_rfl)

theorem ended (h : StandsAt ts i s) (he : Ended ts) : Ended s.rest := by
  have hsplit : ts = ts.take i ++ s.rest := by rw [h.rest, List.take_append_drop]
  rw [hsplit] at he
  exact he.of_append s.rest_ne_nil

end StandsAt

/-- From `s` at index `i` a call has come to `s'` at index `j`. It has closed the levels that it
opened and has not gone past an end marker. -/
structure Passes (ts : List Token) (i j : Nat) (s s' : State) : Prop where
  depth : s'.depth = s.depth
  cursor : StandsAt ts j s'
  forward : i ≤ j
  before_end : ∀ k a, i ≤ k → ts[k]? = some a → a.isEnd = true → j ≤ k

section

variable {ts w : List Token} {i : Nat} {s s' : State} (h : StandsAt ts i s) (hm : Moves s w s')
include h hm

theorem Moves.eq_extract : w = ts.extract i (i + w.length) := by
  rw [List.extract, Nat.add_sub_cancel_left, ← h.rest, hm.rest, List.take_left]

theorem Moves.passes : Passes ts i (i + w.length) s s' where
  depth := hm.depth
  cursor := h.of_append hm.rest
  forward := Nat.le_add_right _ _
  before_end := by
    intro k a hk ha hend
    by_contra hlt
    obtain ⟨m, rfl⟩ := Nat.exists_eq_add_of_le hk
    -- an end marker would be one of the tokens consumed
    have hw : w[m]? = some a := by
      rw [← ha, ← List.getElem?_drop, ← h.rest, hm.rest, List.getElem?_append_left (by omega)]
    have hlive := hm.live a (List.mem_of_getElem? hw)
    rw [hend] at hlive
    exact absurd hlive (by decide)

end

/-- The diagnostics that a run has come to from those it was given. -/
def State.diagnostics (earlier : List Diagnostic) (s : State) : List Diagnostic :=
  earlier ++ s.blames.map Blame.diagnostic

theorem State.diagnostics_congr {s s' : State} (h : s'.blames = s.blames)
    (earlier : List Diagnostic) : s'.diagnostics earlier = s.diagnostics earlier := by
  rw [diagnostics, h, diagnostics]

/-- A call of `n`, begun in `s` at index `i`, is back at index `j`. Either it has derived the tokens
between, or it has blamed the one at `j`. -/
structure Returns (ts : List Token) (earlier : List Diagnostic) (n : Nonterminal) (i j : Nat)
    (s : State) (r : Except Blame Tree × State) : Prop extends Passes ts i j s r.2 where
  derived : ∀ t, r.1 = .ok t → r.2.diagnostics earlier = s.diagnostics earlier ∧
    t.yield = (ts.extract i j).map Token.leaf ∧ (n ∈ [Nonterminal.expr, .term, .factor] → i < j)
  refused : ∀ b, r.1 = .error b →
    r.2.diagnostics earlier = s.diagnostics earlier ++ [b.diagnostic] ∧ ts[j]? = some b.token

theorem exists_returns {ts : List Token} (he : Ended ts) (earlier : List Diagnostic) (limit : Int)
    (n : Nonterminal) {i : Nat} {s : State} (h : StandsAt ts i s) :
    ∃ j, Returns ts earlier n i j s (procedure limit n s) := by
  have hk := derive_keeps limit (limit - s.depth).toNat n (h.ended he)
  rw [procedure]
  generalize derive limit (limit - s.depth).toNat n s = r at hk
  cases hk with
  | @ok w t s' hm hb hp =>
    obtain ⟨hder, hyield, -⟩ := hp
    have hconsumed (hn : n ∈ [Nonterminal.expr, .term, .factor]) : 0 < w.length := by
      have hne := hder.yield_ne_nil hn
      rw [hyield, ne_eq, List.map_eq_nil_iff] at hne
      exact List.length_pos_of_ne_nil hne
    refine ⟨i + w.length, hm.passes h, ?_, ?_⟩
    · rintro _ ⟨⟩
      refine ⟨State.diagnostics_congr hb earlier, ?_, ?_⟩
      · rw [← hm.eq_extract h]
        exact hyield
      · exact fun hn => Nat.lt_add_of_pos_right (hconsumed hn)
    · rintro _ ⟨⟩
  | @error w b s' hm hb hc =>
    have hpasses := hm.passes h
    refine ⟨i + w.length, hpasses, ?_, ?_⟩
    · rintro _ ⟨⟩
    · rintro _ ⟨⟩
      refine ⟨?_, hc ▸ hpasses.cursor.current⟩
      rw [State.diagnostics, hb, State.diagnostics, List.map_append, List.map_singleton,
        List.append_assoc]

/-- The call of the first makes the call of the second: the items before it have been derived. -/
inductive Calls (limit : Int) : Nonterminal × State → Nonterminal × State → Prop
  | sub {n m : Nonterminal} {s s' : State} (before after : List Item) {us : List Tree}
      (hd : s.depth < limit)
      (hp : production n s.current.kind = some (before ++ .sub m :: after))
      (hi : items (procedure limit) before s.enter = (.ok us, s')) : Calls limit (n, s) (m, s')

/-- The call of the second is made and is done while that of the first goes on. -/
structure Within (limit : Int) (p q : Nonterminal × State) : Prop where
  deeper : p.2.depth < q.2.depth
  allowed : q.2.depth ≤ limit
  blames : q.2.blames = p.2.blames
  begun : q.2.rest <:+ p.2.rest
  done : (procedure limit p.1 p.2).2.rest <:+ (procedure limit q.1 q.2).2.rest

theorem Within.trans {limit : Int} {p q r : Nonterminal × State} (h : Within limit p q)
    (k : Within limit q r) : Within limit p r where
  deeper := Int.lt_trans h.deeper k.deeper
  allowed := k.allowed
  blames := k.blames.trans h.blames
  begun := k.begun.trans h.begun
  done := h.done.trans k.done

/-- What comes after items that are derived goes on from where they end. -/
theorem items_append_snd {sub : Nonterminal → Procedure Tree} {before : List Item}
    (after : List Item) {s s' : State} {us : List Tree} (h : items sub before s = (.ok us, s')) :
    (items sub (before ++ after) s).2 = (items sub after s').2 := by
  induction before generalizing s us with
  | nil =>
    obtain ⟨-, rfl⟩ := Prod.mk.inj h
    rfl
  | cons i before ih =>
    rw [items] at h
    rw [List.cons_append, items_cons_snd]
    rcases hi : item sub i s with ⟨b | t, s₁⟩
    · rw [hi] at h
      cases h
    · rw [hi] at h
      dsimp only at h ⊢
      rcases hr : items sub before s₁ with ⟨b | vs, s₂⟩
      · rw [hr] at h
        cases h
      · rw [hr] at h
        obtain ⟨-, rfl⟩ := Prod.mk.inj h
        exact ih hr

theorem exists_moves_of_items {limit : Int} {is : List Item} {s s' : State} {us : List Tree}
    (hi : Item.token .endOfInput ∉ is) (he : Ended s.rest)
    (h : items (procedure limit) is s = (.ok us, s')) :
    ∃ w, Moves s w s' ∧ s'.blames = s.blames := by
  have hall := items_keeps (fun n _ h => derive_keeps limit (limit - s.depth).toNat n h) hi he
  rw [items_derive_eq is rfl, h] at hall
  cases hall with
  | @ok w _ _ hm hb hspans => exact ⟨w, hm, hb⟩

theorem Calls.within {limit : Int} {p q : Nonterminal × State} (h : Calls limit p q)
    (he : Ended p.2.rest) : Within limit p q := by
  cases h with
  | @sub n m s s' before after us hd hp hi =>
    have hbefore : Item.token .endOfInput ∉ before := by
      intro hmem
      exact (rule_of_production hp).end_not_mem (List.mem_append_left _ hmem)
    obtain ⟨w, hm, hb⟩ := exists_moves_of_items hbefore (s := s.enter) he hi
    have hdepth : s'.depth = s.depth + 1 := hm.depth
    have hafter := items_cons_follows (procedure_follows limit) (.sub m) after s'
    rw [← items_append_snd _ hi] at hafter
    constructor
    case deeper => exact hdepth ▸ Int.lt_succ s.depth
    case allowed => exact hdepth ▸ Int.add_one_le_of_lt hd
    case blames => exact hb
    case begun => exact ⟨w, hm.rest.symm⟩
    case done =>
      dsimp only
      rw [procedure_snd hd hp]
      exact hafter.rest

theorem within_of_transGen {limit : Int} {p q : Nonterminal × State}
    (h : Relation.TransGen (Calls limit) p q) (he : Ended p.2.rest) : Within limit p q := by
  induction h with
  | single h => exact h.within he
  | @tail q r _ h ih =>
    obtain ⟨w, hw⟩ := ih.begun
    rw [← hw] at he
    exact ih.trans (h.within (he.of_append q.2.rest_ne_nil))

/-- A procedure may be called in any state whose cursor is on one of the tokens: it returns with the
levels that it opened closed and no end marker passed, and it derives just what it has passed or
blames the token that it has come to. So do all the calls that it makes on the way, each between the
indices where its caller begins and ends, deeper than it and before anything is blamed. -/
theorem procedure_returns (ts : List Token) (h : ts ≠ []) (he : (ts.getLast h).isEnd = true)
    (earlier : List Diagnostic) (limit : Int) (n : Nonterminal) (i : Nat) (s : State)
    (hs : StandsAt ts i s) : ∃ j, Returns ts earlier n i j s (procedure limit n s) ∧
      ∀ m s', Relation.TransGen (Calls limit) (n, s) (m, s') →
        ∃ k l, Returns ts earlier m k l s' (procedure limit m s') ∧ StandsAt ts k s' ∧
          i ≤ k ∧ l ≤ j ∧ s.depth < s'.depth ∧ s'.depth ≤ limit ∧
          s'.diagnostics earlier = s.diagnostics earlier := by
  have hended : Ended ts := ⟨_, List.getLast?_eq_some_getLast h, he⟩
  obtain ⟨j, hj⟩ := exists_returns hended earlier limit n hs
  refine ⟨j, hj, ?_⟩
  intro m s' hcalls
  obtain ⟨hdeeper, hallowed, hblames, ⟨w, hw⟩, hdone⟩ :=
    within_of_transGen hcalls (hs.ended hended)
  have hs' := hs.of_append hw.symm
  obtain ⟨l, hl⟩ := exists_returns hended earlier limit m hs'
  exact ⟨i + w.length, l, hl, hs', Nat.le_add_right _ _, hl.cursor.le_of_suffix hj.cursor hdone,
    hdeeper, hallowed, State.diagnostics_congr hblames earlier⟩

/-- A group is entered with four levels open and a blame on record. Its sum is derived, and then it
fails at the end marker, although the parenthesis that is missing stands after it. -/
theorem procedure_returns_unclosed :
    let ts : List Token := [⟨.identifier, some "a", 0⟩, ⟨.multiply, some "*", 1⟩,
      ⟨.leftParen, some "(", 2⟩, ⟨.number, none, 3⟩, .endAt 4, ⟨.rightParen, some ")", 4⟩, .endAt 5]
    let earlier : List Diagnostic := [⟨"no place", none, none⟩]
    let s : State := ⟨⟨.leftParen, some "(", 2⟩, ts.drop 3, 4, [⟨.unexpectedToken, .endAt 5⟩]⟩
    let s' : State := ⟨⟨.number, none, 3⟩, ts.drop 4, 5, s.blames⟩
    StandsAt ts 2 s ∧ Relation.TransGen (Calls 8) (.factor, s) (.expr, s') ∧
      Returns ts earlier .factor 2 4 s (procedure 8 .factor s) ∧
      Returns ts earlier .expr 3 4 s' (procedure 8 .expr s') ∧
      (procedure 8 .factor s).1 = .error ⟨.expectedClosing, .endAt 4⟩ ∧
      ∃ t, (procedure 8 .expr s').1 = .ok t := by
  intro ts earlier s s'
  have hs : StandsAt ts 2 s := ⟨rfl, rfl⟩
  have hcall : Calls 8 (.factor, s) (.expr, s') :=
    .sub [.token .leftParen] [.token .rightParen] (by decide) rfl rfl
  obtain ⟨j, hj, hcalls⟩ :=
    procedure_returns ts (List.cons_ne_nil _ _) rfl earlier 8 .factor 2 s hs
  obtain ⟨k, l, hinner, hk, -⟩ := hcalls .expr s' (.single hcall)
  obtain rfl : j = 4 := hj.cursor.unique ⟨rfl, rfl⟩
  obtain rfl : k = 3 := hk.unique ⟨rfl, rfl⟩
  obtain rfl : l = 4 := hinner.cursor.unique ⟨rfl, rfl⟩
  exact ⟨hs, .single hcall, hj, hinner, rfl, _, rfl⟩

end Descent
end ExprLine
