import ExprLine.Grammar.Verdict
import ExprLine.Proofs.Derivation

namespace ExprLine.Descent

/-- The last token is an end marker. More of them may stand before it. -/
def Ended (ts : List Token) : Prop := ∃ e, ts.getLast? = some e ∧ e.isEnd = true

theorem Ended.of_append {w r : List Token} (h : Ended (w ++ r)) (hr : r ≠ []) : Ended r := by
  obtain ⟨e, he, hend⟩ := h
  rw [List.getLast?_append_of_ne_nil _ hr] at he
  exact ⟨e, he, hend⟩

theorem start?_of_getLast {ts : List Token} (h : ts ≠ []) (he : (ts.getLast h).isEnd = true) :
    ∃ s, State.start? ts = some s ∧ s.rest = ts ∧ s.depth = 0 ∧ s.blames = [] ∧ Ended s.rest := by
  cases ts with
  | nil => exact absurd rfl h
  | cons a r =>
    refine ⟨⟨a, r, 0, []⟩, ?_, rfl, rfl, rfl, ⟨_, List.getLast?_eq_some_getLast h, he⟩⟩
    rw [State.start?, if_pos he]

namespace State

@[simp] theorem rest_enter (s : State) : s.enter.rest = s.rest := rfl

@[simp] theorem rest_leave (s : State) : s.leave.rest = s.rest := rfl

@[simp] theorem current_enter (s : State) : s.enter.current = s.current := rfl

@[simp] theorem depth_advance (s : State) : s.advance.depth = s.depth := by
  cases h : s.ahead <;> simp [advance, h]

@[simp] theorem blames_advance (s : State) : s.advance.blames = s.blames := by
  cases h : s.ahead <;> simp [advance, h]

/-- Before the end a token is consumed whenever the cursor is told to move. -/
theorem rest_eq_cons_advance {s : State} (h : Ended s.rest) (hc : s.current.isEnd = false) :
    s.rest = s.current :: s.advance.rest := by
  rcases s.rest_advance with h' | ⟨h', -⟩
  · exact h'
  · obtain ⟨e, he, hend⟩ := h
    simp only [rest, h', List.getLast?_singleton, Option.some.injEq] at he
    rw [he, hend] at hc
    exact absurd hc (by decide)

end State

/-- From `s` to `s'` exactly the tokens `w` were consumed, no end marker among them. -/
structure Moves (s : State) (w : List Token) (s' : State) : Prop where
  depth : s'.depth = s.depth
  rest : s.rest = w ++ s'.rest
  live : ∀ a ∈ w, a.isEnd = false

namespace Moves

theorem refl (s : State) : Moves s [] s := ⟨rfl, rfl, by simp⟩

theorem trans {s₁ s₂ s₃ : State} {v w : List Token} (h : Moves s₁ v s₂) (k : Moves s₂ w s₃) :
    Moves s₁ (v ++ w) s₃ := by
  refine ⟨k.depth.trans h.depth, ?_, ?_⟩
  · rw [h.rest, k.rest, List.append_assoc]
  · intro a ha
    rcases List.mem_append.mp ha with ha | ha
    · exact h.live a ha
    · exact k.live a ha

theorem ended {s s' : State} {w : List Token} (h : Moves s w s') (he : Ended s.rest) :
    Ended s'.rest := by
  rw [h.rest] at he
  exact he.of_append s'.rest_ne_nil

theorem advance {s : State} (h : Ended s.rest) (hc : s.current.isEnd = false) :
    Moves s [s.current] s.advance := by
  refine ⟨s.depth_advance, s.rest_eq_cons_advance h hc, ?_⟩
  simp [hc]

/-- The level that a procedure opens is closed again when it returns. -/
theorem leave {s s' : State} {w : List Token} (h : Moves s.enter w s') : Moves s w s'.leave := by
  refine ⟨?_, h.rest, h.live⟩
  have hd := h.depth
  simp only [State.enter, State.leave] at hd ⊢
  omega

end Moves

/-- What a procedure started in `s` keeps to. It may fail once, at the token it has come to, or
it blames nothing and what it yields is `P` of the tokens consumed. -/
inductive Keeps {α : Type} (P : List Token → α → Prop) (s : State) : Except Blame α × State → Prop
  | ok {w : List Token} {a : α} {s' : State} (hm : Moves s w s') (hb : s'.blames = s.blames)
      (hp : P w a) : Keeps P s (.ok a, s')
  | error {w : List Token} {b : Blame} {s' : State} (hm : Moves s w s')
      (hb : s'.blames = s.blames ++ [b]) (hc : b.token = s'.current) : Keeps P s (.error b, s')

theorem keeps_fail {α : Type} (P : List Token → α → Prop) (s : State) (c : Cause) :
    Keeps P s (s.fail c) :=
  .error (w := []) ⟨rfl, rfl, by simp⟩ rfl rfl

/-- The trees of a nonterminal for the tokens `w`, of at most the given height. -/
def Spans (room : Nat) (n : Nonterminal) (w : List Token) (t : Tree) : Prop :=
  Derives n t ∧ t.yield = w.map Token.leaf ∧ t.height ≤ room

def SpansAll (room : Nat) (is : List Item) (w : List Token) (ts : List Tree) : Prop :=
  List.Forall₂ Realizes is ts ∧ ts.flatMap Tree.yield = w.map Token.leaf ∧
    Tree.heightAll ts ≤ room

section

variable {room : Nat} {sub : Nonterminal → Procedure Tree}
  (hsub : ∀ n s, Ended s.rest → Keeps (Spans room n) s (sub n s))
include hsub

theorem item_keeps {i : Item} (hi : i ≠ .token .endOfInput) {s : State} (h : Ended s.rest) :
    Keeps (fun w t => Realizes i t ∧ t.yield = w.map Token.leaf ∧ t.height ≤ room) s
      (item sub i s) := by
  cases i with
  | token k =>
    rw [item]
    split
    · next hk =>
      have hc : s.current.isEnd = false := by
        rw [Token.isEnd, hk]
        apply decide_eq_false
        intro he
        exact hi (by rw [he])
      refine .ok (Moves.advance h hc) s.blames_advance ⟨?_, ?_, ?_⟩
      · rw [← hk]
        exact .token s.current
      · simp
      · simp
    · exact keeps_fail _ s _
  | sub n =>
    have hone := hsub n s h
    rw [item]
    generalize sub n s = r at hone
    cases hone with
    | ok hm hb hp => exact .ok hm hb ⟨.sub hp.1, hp.2⟩
    | error hm hb hc => exact .error hm hb hc
  | empty => exact .ok (Moves.refl s) rfl ⟨.empty, by simp [Tree.emptyLeaf], by
      rw [Tree.emptyLeaf, Tree.height_leaf (by decide)]; omega⟩

theorem items_keeps {is : List Item} (hi : Item.token .endOfInput ∉ is) {s : State}
    (h : Ended s.rest) : Keeps (SpansAll room is) s (items sub is s) := by
  induction is generalizing s with
  | nil => exact .ok (Moves.refl s) rfl ⟨.nil, rfl, by simp [Tree.heightAll]⟩
  | cons i is ih =>
    have hne : i ≠ .token .endOfInput := by
      intro he
      exact hi (by simp [he])
    have hrest : Item.token .endOfInput ∉ is := by
      intro hmem
      exact hi (List.mem_cons_of_mem _ hmem)
    have hone := item_keeps hsub hne h
    rw [items]
    generalize item sub i s = r at hone
    cases hone with
    | error hm hb hc => exact .error hm hb hc
    | @ok w t s₁ hm hb hp =>
      have hmore := ih hrest (hm.ended h)
      dsimp only
      generalize items sub is s₁ = r at hmore
      cases hmore with
      | error hm' hb' hc => exact .error (hm.trans hm') (by rw [hb', hb]) hc
      | ok hm' hb' hp' =>
        refine .ok (hm.trans hm') (hb'.trans hb) ⟨.cons hp.1 hp'.1, ?_, ?_⟩
        · rw [List.flatMap_cons, List.map_append, hp.2.1, hp'.2.1]
        · rw [Tree.heightAll]
          exact Nat.max_le.mpr ⟨hp.2.2, hp'.2.2⟩

end

/-- Every procedure keeps to its contract from any state within the tokens. -/
theorem derive_keeps (limit : Int) (room : Nat) (n : Nonterminal) {s : State}
    (h : Ended s.rest) : Keeps (Spans room n) s (derive limit room n s) := by
  -- the room is all that goes down: a tail is entered again from within itself
  induction room generalizing n s with
  | zero => exact keeps_fail _ s _
  | succ room ih =>
    rw [derive]
    cases hp : production n s.current.kind with
    | none => exact keeps_fail _ s _
    | some is =>
      have hr := rule_of_production hp
      have hall := items_keeps (fun n _ h => ih n h) hr.end_not_mem (s := s.enter) h
      dsimp only
      generalize items (derive limit room) is s.enter = r at hall
      cases hall with
      | error hm hb hc => exact .error hm.leave hb hc
      | @ok w ts s' hm hb hp =>
        obtain ⟨hreal, hy, hh⟩ := hp
        refine .ok hm.leave hb ⟨hr.derives hreal, ?_, ?_⟩
        · cases ts with
          | nil =>
            obtain rfl := List.forall₂_nil_right_iff.mp hreal
            exact absurd rfl hr.ne_nil
          | cons t ts => rw [Tree.yield_node, hy]
        · rw [Tree.height_node]
          omega

theorem pos_of_derive_ok {limit : Int} {room : Nat} {n : Nonterminal} {s s' : State} {t : Tree}
    (h : derive limit room n s = (.ok t, s')) : 0 < room := by
  cases room with
  | zero => simp [derive, State.fail] at h
  | succ room => exact room.succ_pos

theorem ended_of_derive_ok {limit : Int} {room : Nat} {n : Nonterminal} {s s' : State} {t : Tree}
    (h : Ended s.rest) (hok : derive limit room n s = (.ok t, s')) : Ended s'.rest := by
  have hk := derive_keeps limit room n h
  rw [hok] at hk
  cases hk with
  | ok hm hb hp => exact hm.ended h

theorem procedure_start (limit : Int) (n : Nonterminal) {s : State} (hd : s.depth = 0) :
    procedure limit n s = derive limit limit.toNat n s := by
  rw [procedure, hd, Int.sub_zero]

theorem whole_keeps (limit : Int) {s : State} (h : Ended s.rest) (hd : s.depth = 0) :
    Keeps (Spans limit.toNat .expr) s (whole limit s) := by
  have hk := derive_keeps limit limit.toNat .expr h
  rw [whole, procedure_start limit .expr hd]
  generalize derive limit limit.toNat .expr s = r at hk
  cases hk with
  | error hm hb hc => exact .error hm hb hc
  | ok hm hb hp =>
    dsimp only
    split
    · exact .ok hm hb hp
    · exact .error ⟨hm.depth, hm.rest, hm.live⟩ (by rw [← hb]) rfl

/-- A run on tokens that end as they must always has a verdict. -/
theorem parse_of_start {ts : List Token} {s : State} (h : State.start? ts = some s) (limit : Int) :
    parse ts (some limit) = match whole limit s with
      | (.ok t, _) => .ok ⟨true, some t, []⟩
      | (.error _, s₁) => .ok ⟨false, none, s₁.blames.map Blame.diagnostic⟩ := by
  rcases hw : whole limit s with ⟨b | t, s'⟩ <;> simp [parse, h, hw]

end ExprLine.Descent
