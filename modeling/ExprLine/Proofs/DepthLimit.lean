import ExprLine.Proofs.Simulation

namespace ExprLine

theorem Level.costAll_cons (l : Level) (ls : List Level) :
    costAll (l :: ls) = 3 + l.sums + l.products + costAll ls := rfl

namespace Scanner

theorem react_cost {c d : Config} {k : Kind} (h : react c k = .go d) : d.cost ≤ c.cost + 3 := by
  obtain ⟨mode, top, below⟩ := c
  cases mode with
  | operand =>
    cases k <;> simp only [react, Next.go.injEq, reduceCtorEq] at h
    all_goals
      subst h
      simp only [Config.cost, Level.costAll_cons]
      omega
  | operator =>
    cases k <;> cases below <;>
      simp only [react, Next.go.injEq, reduceCtorEq, if_true, if_false] at h
    all_goals
      subst h
      simp only [Config.cost, Level.costAll_cons]
      omega

theorem step_cost {limit : Int} {c d : Config} {k : Kind} (h : step limit c k = .go d) :
    d.cost ≤ c.cost + 3 := by
  rw [step] at h
  split at h
  · simp at h
  · exact react_cost h

/-- A token opens three levels at most, and that is a parenthesis. -/
theorem walk_cost {limit : Int} {c d : Config} {ts : List Token} (h : walk limit c ts = some d) :
    d.cost ≤ c.cost + 3 * ts.length := by
  induction ts generalizing c with
  | nil =>
    obtain rfl := Option.some.inj h
    exact Nat.le_add_right _ _
  | cons t ts ih =>
    rw [walk] at h
    cases hs : step limit c t.kind with
    | go c' =>
      rw [hs] at h
      have hone := step_cost hs
      have hmore := ih h
      rw [List.length_cons]
      omega
    | accept => simp [hs] at h
    | stop cause => simp [hs] at h

theorem cost_of_stop {l m : Int} {c : Config} {k : Kind}
    (h : step l c k = .stop (.nestingTooDeep m)) : l < c.cost := by
  rw [step] at h
  split at h
  · next hd => exact hd.2
  · exact absurd h (react_ne_nesting c k m)

theorem run_ne_nesting {limit : Int} {ts : List Token} (hl : 3 * (ts.length : Int) ≤ limit)
    {p : Stop} (hp : run limit .start ts = some p) (m : Int) : p.cause ≠ .nestingTooDeep m := by
  intro hm
  obtain ⟨us, d, rfl, hw, hs⟩ := exists_walk_of_run hp
  rw [hm] at hs
  have hdeep := cost_of_stop hs
  have hcost := walk_cost hw
  have hstart : Config.start.cost = 3 := rfl
  have hlength : us.length + 1 ≤ (us ++ p.token :: p.after).length := by simp
  omega

end Scanner

namespace Descent

open Scanner

/-- A result that does not speak of the limit. -/
def Settled {α : Type} (r : Except Blame α) : Prop :=
  ∀ b, r = .error b → ∀ m, b.cause ≠ .nestingTooDeep m

theorem settled_ok {α : Type} (a : α) : Settled (.ok a : Except Blame α) := by
  intro b hb
  cases hb

theorem Settled.error {α β : Type} {b : Blame} (h : Settled (.error b : Except Blame α)) :
    Settled (.error b : Except Blame β) := by
  intro c hc
  obtain rfl := Except.error.inj hc
  exact h b rfl

section

variable {sub : Nonterminal → Procedure Tree} {s : State}

/-- Where the items settle, the first one does, and so do the others after it. -/
theorem settled_items_cons {i : Item} {is : List Item} (h : Settled (items sub (i :: is) s).1) :
    Settled (item sub i s).1 ∧
      ∀ t s₁, item sub i s = (.ok t, s₁) → Settled (items sub is s₁).1 := by
  rw [items] at h
  rcases hi : item sub i s with ⟨b | t, s₁⟩
  · rw [hi] at h
    refine ⟨h.error, ?_⟩
    intro t s₂ ht
    cases ht
  · rw [hi] at h
    refine ⟨settled_ok t, ?_⟩
    intro t' s₂ ht
    cases ht
    dsimp only at h
    rcases hs : items sub is s₁ with ⟨b | ts, s₂⟩
    · rw [hs] at h
      exact h.error
    · exact settled_ok ts

theorem settled_items_of_derive {limit : Int} {room : Nat} {n : Nonterminal} {is : List Item}
    (hp : production n s.current.kind = some is) (h : Settled (derive limit (room + 1) n s).1) :
    Settled (items (derive limit room) is s.enter).1 := by
  rw [derive, hp] at h
  dsimp only at h
  rcases hi : items (derive limit room) is s.enter with ⟨b | ts, s₁⟩
  · rw [hi] at h
    exact h.error
  · exact settled_ok ts

theorem not_settled_zero (limit : Int) (n : Nonterminal) : ¬Settled (derive limit 0 n s).1 := by
  intro h
  exact h _ rfl limit rfl

variable {sub' : Nonterminal → Procedure Tree}

theorem items_eq_of_settled (hsub : ∀ n s, Settled (sub n s).1 → sub' n s = sub n s)
    {is : List Item} (h : Settled (items sub is s).1) : items sub' is s = items sub is s := by
  induction is generalizing s with
  | nil => rfl
  | cons i is ih =>
    obtain ⟨hone, hmore⟩ := settled_items_cons h
    have hi : item sub' i s = item sub i s := by
      cases i with
      | sub n => exact hsub n s hone
      | token k => rfl
      | empty => rfl
    rw [items, items, hi]
    rcases ht : item sub i s with ⟨b | t, s₁⟩
    · rfl
    · dsimp only
      rw [ih (hmore t s₁ ht)]

end

/-- More room changes no result but one that speaks of the limit. -/
theorem derive_eq_of_settled {l m : Int} {room room' : Nat} (hle : room ≤ room') {n : Nonterminal}
    {s : State} (h : Settled (derive l room n s).1) : derive m room' n s = derive l room n s := by
  induction room generalizing room' n s with
  | zero => exact absurd h (not_settled_zero l n)
  | succ room ih =>
    obtain ⟨room', rfl⟩ : ∃ r, room' = r + 1 := ⟨room' - 1, by omega⟩
    have hsub : ∀ n s, Settled (derive l room n s).1 → derive m room' n s = derive l room n s := by
      intro n s hs
      exact ih (by omega) hs
    rw [derive, derive]
    cases hp : production n s.current.kind with
    | none => rfl
    | some is =>
      dsimp only
      rw [items_eq_of_settled hsub (settled_items_of_derive hp h)]

theorem settled_derive_of_whole {limit : Int} {s : State} (hd : s.depth = 0)
    (h : Settled (whole limit s).1) : Settled (derive limit limit.toNat .expr s).1 := by
  rw [whole, procedure_start limit .expr hd] at h
  rcases hr : derive limit limit.toNat .expr s with ⟨b | t, s₁⟩
  · rw [hr] at h
    exact h
  · exact settled_ok t

theorem whole_eq_of_settled {l m : Int} (hle : l ≤ m) {s : State} (hd : s.depth = 0)
    (h : Settled (whole l s).1) : whole m s = whole l s := by
  have hroom : l.toNat ≤ m.toNat := by omega
  have hs := settled_derive_of_whole hd h
  rw [whole, whole, procedure_start l .expr hd, procedure_start m .expr hd,
    derive_eq_of_settled hroom hs]

mutual

/-- How a descent that knows no limit ends. -/
inductive Ends : Nonterminal → State → Except Blame Tree × State → Prop
  | refused {n : Nonterminal} {s : State} (hp : production n s.current.kind = none) :
      Ends n s (s.fail .expectedOperand)
  | failed {n : Nonterminal} {s s₁ : State} {is : List Item} {b : Blame}
      (hp : production n s.current.kind = some is) (hi : EndsAll is s.enter (.error b, s₁)) :
      Ends n s (.error b, s₁.leave)
  | derived {n : Nonterminal} {s s₁ : State} {is : List Item} {ts : List Tree}
      (hp : production n s.current.kind = some is) (hi : EndsAll is s.enter (.ok ts, s₁)) :
      Ends n s (.ok (.node n.label none ts), s₁.leave)

inductive EndsOne : Item → State → Except Blame Tree × State → Prop
  | token {k : Kind} {s : State} (hk : s.current.kind = k) :
      EndsOne (.token k) s (.ok s.current.leaf, s.advance)
  | missing {k : Kind} {s : State} (hk : s.current.kind ≠ k) :
      EndsOne (.token k) s (s.fail .expectedClosing)
  | sub {n : Nonterminal} {s : State} {r : Except Blame Tree × State} (hn : Ends n s r) :
      EndsOne (.sub n) s r
  | empty {s : State} : EndsOne .empty s (.ok .emptyLeaf, s)

inductive EndsAll : List Item → State → Except Blame (List Tree) × State → Prop
  | nil {s : State} : EndsAll [] s (.ok [], s)
  | failed {i : Item} {is : List Item} {s s₁ : State} {b : Blame}
      (hi : EndsOne i s (.error b, s₁)) : EndsAll (i :: is) s (.error b, s₁)
  | failedLater {i : Item} {is : List Item} {s s₁ s₂ : State} {t : Tree} {b : Blame}
      (hi : EndsOne i s (.ok t, s₁)) (hs : EndsAll is s₁ (.error b, s₂)) :
      EndsAll (i :: is) s (.error b, s₂)
  | cons {i : Item} {is : List Item} {s s₁ s₂ : State} {t : Tree} {ts : List Tree}
      (hi : EndsOne i s (.ok t, s₁)) (hs : EndsAll is s₁ (.ok ts, s₂)) :
      EndsAll (i :: is) s (.ok (t :: ts), s₂)

end

theorem item_ends {sub : Nonterminal → Procedure Tree}
    (hsub : ∀ n s, Settled (sub n s).1 → Ends n s (sub n s)) {i : Item} {s : State}
    (h : Settled (item sub i s).1) : EndsOne i s (item sub i s) := by
  cases i with
  | token k =>
    rw [item]
    split
    · next hk => exact .token hk
    · next hk => exact .missing hk
  | sub n => exact .sub (hsub n s h)
  | empty => exact .empty

theorem items_end {sub : Nonterminal → Procedure Tree}
    (hsub : ∀ n s, Settled (sub n s).1 → Ends n s (sub n s)) {is : List Item} {s : State}
    (h : Settled (items sub is s).1) : EndsAll is s (items sub is s) := by
  induction is generalizing s with
  | nil => exact .nil
  | cons i is ih =>
    obtain ⟨hone, hmore⟩ := settled_items_cons h
    have hi := item_ends hsub hone
    rw [items]
    rcases ht : item sub i s with ⟨b | t, s₁⟩
    · rw [ht] at hi
      exact .failed hi
    · rw [ht] at hi
      have hs := ih (hmore t s₁ ht)
      dsimp only
      rcases hr : items sub is s₁ with ⟨b | ts, s₂⟩
      · rw [hr] at hs
        exact .failedLater hi hs
      · rw [hr] at hs
        exact .cons hi hs

theorem derive_ends {limit : Int} {room : Nat} {n : Nonterminal} {s : State}
    (h : Settled (derive limit room n s).1) : Ends n s (derive limit room n s) := by
  induction room generalizing n s with
  | zero => exact absurd h (not_settled_zero limit n)
  | succ room ih =>
    have hs (is : List Item) (hp : production n s.current.kind = some is) :=
      items_end (fun _ _ h => ih h) (settled_items_of_derive hp h)
    rw [derive]
    cases hp : production n s.current.kind with
    | none => exact .refused hp
    | some is =>
      have hi := hs is hp
      dsimp only
      rcases hr : items (derive limit room) is s.enter with ⟨b | ts, s₁⟩
      · rw [hr] at hi
        exact .failed hp hi
      · rw [hr] at hi
        exact .derived hp hi

def nestingMessage (limit : Int) : String :=
  "Expression is nested too deeply (maximum depth is " ++ toString limit ++ ")"

theorem append_ne_append {a b : String} {n : Nat} (ha : n ≤ a.toList.length)
    (hb : n ≤ b.toList.length) (hn : a.toList.take n ≠ b.toList.take n) (x y : String) :
    a ++ x ≠ b ++ y := by
  intro h
  have hl := congrArg String.toList h
  rw [String.toList_append, String.toList_append] at hl
  have ht := congrArg (List.take n) hl
  rw [List.take_append_of_le_length ha, List.take_append_of_le_length hb] at ht
  exact hn ht

theorem cause_of_nestingMessage {p : Stop} {limit : Int} (h : p.message = nestingMessage limit) :
    ∃ m, p.cause = .nestingTooDeep m := by
  obtain ⟨cause, a, r⟩ := p
  have hm : (Stop.mk cause a r).message =
      "Expression is nested too deeply (maximum depth is " ++ (toString limit ++ ")") := by
    rw [← String.append_assoc]
    exact h
  -- the messages differ in their first letters already
  cases cause with
  | nestingTooDeep m => exact ⟨m, rfl⟩
  | expectedOperand | expectedClosing | unexpectedToken =>
    exact absurd hm (append_ne_append (n := 5) (by simp) (by simp) (by simp) _ _)

/-- All that is reported of the tokens is that they nest too deeply. -/
def TooDeep (ts : List Token) (limit : Int) : Prop :=
  ∃ d, parse ts (some limit) = .ok ⟨false, none, [d]⟩ ∧ d.message = nestingMessage limit

/-- The descent gives up with its cursor at index `i`, and the token there is blamed. -/
def FailsAt (ts : List Token) (limit : Int) (i : Nat) : Prop :=
  ∃ s s' b, State.start? ts = some s ∧ whole limit s = (.error b, s') ∧ s'.rest = ts.drop i ∧
    ts[i]? = some b.token ∧ parse ts (some limit) = .ok ⟨false, none, [b.diagnostic]⟩

theorem FailsAt.unique {ts : List Token} {limit : Int} {i j : Nat} (hi : FailsAt ts limit i)
    (hj : FailsAt ts limit j) : i = j := by
  obtain ⟨s, s', b, hs, hw, hrest, hlt, -⟩ := hi
  obtain ⟨s₂, s₂', b₂, hs₂, hw₂, hrest₂, hlt₂, -⟩ := hj
  obtain rfl := Option.some.inj (hs.symm.trans hs₂)
  obtain ⟨-, rfl⟩ := Prod.mk.inj (hw.symm.trans hw₂)
  have hlength := congrArg List.length (hrest.symm.trans hrest₂)
  obtain ⟨hi, -⟩ := List.getElem?_eq_some_iff.mp hlt
  obtain ⟨hj, -⟩ := List.getElem?_eq_some_iff.mp hlt₂
  rw [List.length_drop, List.length_drop] at hlength
  omega

section

variable {ts : List Token} (h : ts ≠ []) (he : (ts.getLast h).isEnd = true)
include h he

theorem tooDeep_iff (limit : Int) :
    TooDeep ts limit ↔ ∃ p m, run limit .start ts = some p ∧ p.cause = .nestingTooDeep m := by
  rcases parse_scan h he limit with ⟨hrun, t, hp⟩ | ⟨p, hrun, hp⟩
  · rw [TooDeep, hp, hrun]
    simp
  · rw [TooDeep, hp, hrun]
    constructor
    · rintro ⟨d, hd, hm⟩
      obtain rfl : p.diagnostic = d := by simpa using hd
      obtain ⟨m, hm⟩ := cause_of_nestingMessage hm
      exact ⟨p, m, rfl, hm⟩
    · rintro ⟨q, m, hq, hm⟩
      obtain rfl := Option.some.inj hq
      obtain ⟨us, d, -, -, hs⟩ := exists_walk_of_run hrun
      rw [hm] at hs
      obtain rfl := limit_of_stop hs
      refine ⟨p.diagnostic, rfl, ?_⟩
      rw [Stop.diagnostic, Stop.message, hm]
      rfl

/-- The descent stops at the index of the token that the scanner stops at. -/
theorem failsAt_of_run {limit : Int} {p : Stop} {us : List Token}
    (hp : run limit .start ts = some p) (hts : ts = us ++ p.token :: p.after) :
    FailsAt ts limit us.length := by
  obtain ⟨s, hs, hrest, hd, hb, hended⟩ := start?_of_getLast h he
  have hk := whole_keeps limit hended hd
  have hrun := run_eq_follow_whole limit hended hd
  rw [hrest, hp] at hrun
  have hparse := parse_of_start hs limit
  rcases hw : whole limit s with ⟨b | t, s'⟩
  · rw [hw] at hrun hparse hk
    obtain rfl := Option.some.inj hrun
    cases hk with
    | error hm hb' hc =>
      rw [hb, List.nil_append] at hb'
      refine ⟨s, s', b, hs, hw, ?_, ?_, ?_⟩
      · rw [hts, List.drop_left]
        rfl
      · rw [hts, List.getElem?_append_right (Nat.le_refl _), Nat.sub_self, hc]
        rfl
      · rw [hparse]
        dsimp only
        rw [hb']
        rfl
  · rw [hw] at hrun
    exact absurd hrun (by simp [follow])

theorem settled_of_not_tooDeep {limit : Int} (hn : ¬TooDeep ts limit) {s : State}
    (hs : State.start? ts = some s) : Settled (whole limit s).1 := by
  obtain ⟨s', hs', hrest, hd, -, hended⟩ := start?_of_getLast h he
  obtain rfl := Option.some.inj (hs.symm.trans hs')
  intro b hb m hm
  apply hn
  rw [tooDeep_iff h he, ← hrest, run_eq_follow_whole limit hended hd]
  rcases hw : whole limit s with ⟨c | t, s'⟩
  · rw [hw] at hb
    obtain rfl := Except.error.inj hb
    exact ⟨_, m, rfl, hm⟩
  · rw [hw] at hb
    cases hb

theorem parse_eq_of_not_tooDeep {l m : Int} (hle : l ≤ m) (hn : ¬TooDeep ts l) :
    parse ts (some m) = parse ts (some l) := by
  obtain ⟨s, hs, -, hd, -, -⟩ := start?_of_getLast h he
  rw [parse_of_start hs, parse_of_start hs,
    whole_eq_of_settled hle hd (settled_of_not_tooDeep h he hn hs)]

theorem exists_failsAt {limit : Int} (hn : TooDeep ts limit) : ∃ i, FailsAt ts limit i := by
  obtain ⟨p, -, hp, -⟩ := (tooDeep_iff h he limit).mp hn
  obtain ⟨us, d, hts, -, -⟩ := exists_walk_of_run hp
  exact ⟨us.length, failsAt_of_run h he hp hts⟩

/-- A larger limit lets the scanner pass the tokens that it passed under the smaller one. -/
theorem failsAt_of_tooDeep {l m : Int} (hle : l ≤ m) (hn : TooDeep ts l) {i : Nat}
    (hi : FailsAt ts l i) : (∃ t, parse ts (some m) = .ok ⟨true, some t, []⟩) ∨
      ∃ j, i ≤ j ∧ FailsAt ts m j := by
  obtain ⟨p, -, hp, -⟩ := (tooDeep_iff h he l).mp hn
  obtain ⟨us, d, hts, hw, -⟩ := exists_walk_of_run hp
  obtain rfl := hi.unique (failsAt_of_run h he hp hts)
  rcases parse_scan h he m with ⟨-, t, hparse⟩ | ⟨q, hq, -⟩
  · exact Or.inl ⟨t, hparse⟩
  · have hrest : run m d (p.token :: p.after) = some q := by
      rw [← hq, hts, run_of_walk (walk_mono hle hw)]
    obtain ⟨vs, e, hvs, -, -⟩ := exists_walk_of_run hrest
    have hsplit : ts = (us ++ vs) ++ q.token :: q.after := by
      rw [List.append_assoc, ← hvs]
      exact hts
    exact Or.inr ⟨(us ++ vs).length, by simp, failsAt_of_run h he hq hsplit⟩

theorem not_tooDeep_of_length_le {m : Int} (hm : 3 * (ts.length : Int) ≤ m) : ¬TooDeep ts m := by
  intro hn
  obtain ⟨p, n, hp, hcause⟩ := (tooDeep_iff h he m).mp hn
  exact run_ne_nesting hm hp n hcause

end

/-- A limit only ever turns a result into one that speaks of the limit. A larger one changes no
other result and moves the blame to no earlier token, and three levels for each token are enough:
from there on the result is that of a descent without a limit, which always ends. -/
theorem parse_of_limit (ts : List Token) (h : ts ≠ []) (he : (ts.getLast h).isEnd = true) :
    (∀ l m : Int, l ≤ m →
      (¬TooDeep ts l → parse ts (some m) = parse ts (some l)) ∧
      (TooDeep ts l → (∃ i, FailsAt ts l i) ∧ ∀ i, FailsAt ts l i →
        (∃ t, parse ts (some m) = .ok ⟨true, some t, []⟩) ∨ ∃ j, i ≤ j ∧ FailsAt ts m j)) ∧
    (∀ m : Int, 3 * (ts.length : Int) ≤ m →
      ¬TooDeep ts m ∧ parse ts (some m) = parse ts (some (3 * (ts.length : Int)))) ∧
    ∃ s r, State.start? ts = some s ∧ Ends .expr s r ∧
      ∀ m : Int, 3 * (ts.length : Int) ≤ m → procedure m .expr s = r := by
  refine ⟨?_, ?_, ?_⟩
  · intro l m hle
    refine ⟨parse_eq_of_not_tooDeep h he hle, ?_⟩
    intro hn
    exact ⟨exists_failsAt h he hn, fun _ hi => failsAt_of_tooDeep h he hle hn hi⟩
  · intro m hm
    exact ⟨not_tooDeep_of_length_le h he hm,
      parse_eq_of_not_tooDeep h he hm (not_tooDeep_of_length_le h he (Int.le_refl _))⟩
  · obtain ⟨s, hs, -, hd, -, -⟩ := start?_of_getLast h he
    have hdeep := not_tooDeep_of_length_le h he (Int.le_refl (3 * (ts.length : Int)))
    have hsettled := settled_derive_of_whole hd (settled_of_not_tooDeep h he hdeep hs)
    refine ⟨s, _, hs, derive_ends hsettled, ?_⟩
    intro m hm
    have hroom : (3 * (ts.length : Int)).toNat ≤ m.toNat := by omega
    rw [procedure_start m .expr hd, derive_eq_of_settled hroom hsettled]

/-- An operand two parentheses deep takes nine levels. With fewer of them the blame goes from one
token to the next, and from nine on it stays with the parenthesis that is missing. -/
theorem parse_of_limit_unclosed :
    let ts : List Token := [⟨.leftParen, some "(", 0⟩, ⟨.leftParen, some "(", 1⟩,
      ⟨.identifier, none, 2⟩, ⟨.rightParen, some ")", 3⟩, .endAt 4]
    ((∃ i, FailsAt ts 5 i) ∧ ∀ i, FailsAt ts 5 i →
      (∃ t, parse ts (some 8) = .ok ⟨true, some t, []⟩) ∨ ∃ j, i ≤ j ∧ FailsAt ts 8 j) ∧
    (∀ m : Int, 9 ≤ m → parse ts (some m) =
      .ok ⟨false, none, [⟨"Expected ')' but found the end of input", some 4, none⟩]⟩) ∧
    ∃ s r, State.start? ts = some s ∧ Ends .expr s r ∧ ∀ m : Int, 15 ≤ m → procedure m .expr s = r := by
  intro ts
  have hlast : (ts.getLast (List.cons_ne_nil _ _)).isEnd = true := rfl
  obtain ⟨hlimit, -, hends⟩ := parse_of_limit ts (List.cons_ne_nil _ _) hlast
  have hnine : parse ts (some 9) =
      .ok ⟨false, none, [⟨"Expected ')' but found the end of input", some 4, none⟩]⟩ := rfl
  refine ⟨?_, ?_, hends⟩
  · exact (hlimit 5 8 (by decide)).2 ⟨_, rfl, rfl⟩
  · intro m hm
    rw [← hnine]
    refine (hlimit 9 m hm).1 ?_
    rintro ⟨d, hd, hdeep⟩
    rw [hnine] at hd
    obtain ⟨-, -, hd⟩ := Verdict.mk.inj (Except.ok.inj hd)
    obtain rfl := List.singleton_inj.mp hd
    exact absurd hdeep (by decide)

end Descent
end ExprLine
