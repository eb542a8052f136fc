import ExprLine.Proofs.Scanner

namespace ExprLine.Descent

open Scanner

/-- Goes on with `f` after a success. A failure is where the scanner should have stopped. -/
def follow {α : Type} (r : Except Blame α × State) (f : State → Option Stop) : Option Stop :=
  match r with
  | (.error b, s) => some ⟨b.cause, s.current, s.ahead⟩
  | (.ok _, s) => f s

theorem follow_congr {α : Type} {r : Except Blame α × State} {f g : State → Option Stop}
    (h : ∀ a s, r = (.ok a, s) → f s = g s) : follow r f = follow r g := by
  rcases r with ⟨b | a, s⟩
  · rfl
  · exact h a s rfl

section

variable (sub : Nonterminal → Procedure Tree) (s : State) (f : State → Option Stop)

theorem follow_token (k : Kind) : follow (item sub (.token k) s) f =
    if s.current.kind = k then f s.advance else some ⟨.expectedClosing, s.current, s.ahead⟩ := by
  rw [item]
  split <;> rfl

theorem follow_nil : follow (items sub [] s) f = f s := rfl

theorem follow_cons (i : Item) (is : List Item) : follow (items sub (i :: is) s) f =
    follow (item sub i s) fun s₁ => follow (items sub is s₁) f := by
  rw [items]
  rcases item sub i s with ⟨b | t, s₁⟩
  · rfl
  · dsimp only [follow]
    rcases items sub is s₁ with ⟨b | ts, s₂⟩ <;> rfl

theorem follow_derive_zero (limit : Int) (n : Nonterminal) : follow (derive limit 0 n s) f =
    some ⟨.nestingTooDeep limit, s.current, s.ahead⟩ := rfl

theorem follow_derive_succ (limit : Int) (room : Nat) (n : Nonterminal) :
    follow (derive limit (room + 1) n s) f =
      match production n s.current.kind with
      | none => some ⟨.expectedOperand, s.current, s.ahead⟩
      | some is => follow (items (derive limit room) is s.enter) fun s' => f s'.leave := by
  rw [derive]
  cases production n s.current.kind with
  | none => rfl
  | some is =>
    dsimp only
    rcases items (derive limit room) is s.enter with ⟨b | ts, s'⟩ <;> rfl

end

/-- The scanner where an expression over `below` is complete. -/
def closing (limit : Int) (below : List Level) : List Token → Option Stop
  | [] => none
  | t :: ts =>
    match below with
    | l :: ls =>
      if t.kind = .rightParen then run limit ⟨.operator, l, ls⟩ ts
      else some ⟨.expectedClosing, t, ts⟩
    | [] => if t.kind = .endOfInput then none else some ⟨.unexpectedToken, t, ts⟩

/-- The scanner where a term after `k` sums is complete. -/
def adding (limit : Int) (k : Nat) (below : List Level) : List Token → Option Stop
  | [] => none
  | t :: ts =>
    if t.kind = .plus ∨ t.kind = .minus then run limit ⟨.operand, ⟨k + 1, 0⟩, below⟩ ts
    else closing limit below (t :: ts)

theorem run_operator (limit : Int) (k j : Nat) (below : List Level) (t : Token) (ts : List Token) :
    run limit ⟨.operator, ⟨k, j⟩, below⟩ (t :: ts) =
      if t.kind = .multiply ∨ t.kind = .divide then run limit ⟨.operand, ⟨k, j + 1⟩, below⟩ ts
      else adding limit k below (t :: ts) := by
  rw [run, adding]
  cases hk : t.kind <;> cases below <;> simp [step, react, closing, hk]

/-- The scanner where the descent enters a nonterminal, `k` sums and `j` products into a level. -/
def entry (limit : Int) (k j : Nat) (below : List Level) : Nonterminal → List Token → Option Stop
  | .expr => run limit ⟨.operand, ⟨0, 0⟩, below⟩
  | .exprRest => adding limit k below
  | .term => run limit ⟨.operand, ⟨k, 0⟩, below⟩
  | .termRest => run limit ⟨.operator, ⟨k, j⟩, below⟩
  | .factor => run limit ⟨.operand, ⟨k, j⟩, below⟩

/-- The scanner where the descent leaves it. -/
def exit (limit : Int) (k j : Nat) (below : List Level) : Nonterminal → List Token → Option Stop
  | .expr | .exprRest => closing limit below
  | .term | .termRest => adding limit k below
  | .factor => run limit ⟨.operator, ⟨k, j⟩, below⟩

/-- The nonterminals open before it is entered. -/
def opened (k j : Nat) (below : List Level) : Nonterminal → Nat
  | .expr => Level.costAll below
  | .exprRest | .term => Level.costAll below + 1 + k
  | .termRest | .factor => Level.costAll below + 2 + k + j

/-- The tails of a sum and of a product are entered by nonterminals that are open already deeper
down, so they always have room. -/
def HasRoom (room : Nat) : Nonterminal → Prop
  | .exprRest | .termRest => 0 < room
  | _ => True

/-- The scanner goes through the tokens of a nonterminal as the descent does. -/
def Simulated (limit : Int) (room : Nat) : Prop :=
  ∀ (n : Nonterminal) (k j : Nat) (below : List Level) (s : State), Ended s.rest →
    room = (limit - opened k j below n).toNat → HasRoom room n →
    entry limit k j below n s.rest =
      follow (derive limit room n s) fun s' => exit limit k j below n s'.rest

theorem run_operand_deep {limit : Int} {c : Config} (hm : c.mode = .operand)
    (h : limit < c.cost) (t : Token) (ts : List Token) :
    run limit c (t :: ts) = some ⟨.nestingTooDeep limit, t, ts⟩ := by
  simp [run, step, hm, h]

theorem simulated_zero (limit : Int) : Simulated limit 0 := by
  intro n k j below s _ hroom hhas
  rw [follow_derive_zero, State.rest]
  cases n with
  | exprRest | termRest => exact absurd hhas (Nat.lt_irrefl 0)
  | expr | term | factor =>
    apply run_operand_deep rfl
    simp only [opened, Config.cost, Level.costAll, Level.cost] at hroom ⊢
    omega

/-- A nonterminal and its tail: the tail is entered where the nonterminal was left. -/
theorem entry_pair {limit : Int} {room : Nat} (ih : Simulated limit room) (n₁ n₂ : Nonterminal)
    (k j : Nat) (below : List Level) (hn : HasRoom room n₁)
    (ho : opened k j below n₂ = opened k j below n₁)
    (hlink : exit limit k j below n₁ = entry limit k j below n₂) {s : State} (h : Ended s.rest)
    (hroom : room = (limit - opened k j below n₁).toNat) :
    entry limit k j below n₁ s.rest = follow (items (derive limit room) [.sub n₁, .sub n₂] s)
      fun s' => exit limit k j below n₂ s'.rest := by
  rw [ih n₁ k j below s h hroom hn, follow_cons]
  refine follow_congr fun t s₁ hok => ?_
  have hs₁ := ended_of_derive_ok h hok
  have hpos := pos_of_derive_ok hok
  have hhas : HasRoom room n₂ := by cases n₂ <;> simp [HasRoom, hpos]
  rw [hlink, ih n₂ k j below s₁ hs₁ (ho ▸ hroom) hhas, follow_cons]
  rfl

theorem rest_advance_eq_ahead {s : State} (h : Ended s.rest) (hc : s.current.isEnd = false) :
    s.advance.rest = s.ahead :=
  (List.cons.inj (s.rest_eq_cons_advance h hc)).2.symm

theorem isEnd_of_kind {a : Token} {k : Kind} (h : a.kind = k) (hk : k ≠ .endOfInput) :
    a.isEnd = false := by
  rw [Token.isEnd, h]
  exact decide_eq_false hk

/-- A tail starts with an operator, and then a nonterminal and the tail follow once more, or it is
empty. -/
theorem simulated_tail {limit : Int} {room : Nat} (ih : Simulated limit room) (n₁ n₂ : Nonterminal)
    (k j k' j' : Nat) (below : List Level) (op : Kind → Prop) [DecidablePred op]
    (hop : ¬op .endOfInput) (hp : ∀ c, production n₂ c =
      if op c then some [.token c, .sub n₁, .sub n₂] else some [.empty])
    (hentry : ∀ t ts, entry limit k j below n₂ (t :: ts) =
      if op t.kind then entry limit k' j' below n₁ ts else exit limit k j below n₂ (t :: ts))
    (hexit : exit limit k j below n₂ = exit limit k' j' below n₂)
    (hn : HasRoom room n₁) (ho : opened k' j' below n₂ = opened k' j' below n₁)
    (hlink : exit limit k' j' below n₁ = entry limit k' j' below n₂) {s : State} (h : Ended s.rest)
    (hroom : room = (limit - opened k' j' below n₁).toNat) :
    entry limit k j below n₂ s.rest =
      follow (derive limit (room + 1) n₂ s) fun s' => exit limit k j below n₂ s'.rest := by
  rw [State.rest, hentry, follow_derive_succ, hp]
  by_cases hk : op s.current.kind
  · have hlive : s.current.isEnd = false := by
      apply isEnd_of_kind rfl
      intro he
      exact hop (he ▸ hk)
    have hmove := Moves.advance (s := s.enter) h hlive
    have hpair := entry_pair ih n₁ n₂ k' j' below hn ho hlink (hmove.ended h) hroom
    rw [rest_advance_eq_ahead (s := s.enter) h hlive] at hpair
    rw [if_pos hk, if_pos hk, hexit]
    dsimp only
    rw [follow_cons, follow_token, State.current_enter, if_pos rfl]
    exact hpair
  · rw [if_neg hk, if_neg hk]
    rfl

theorem simulated_exprRest {limit : Int} {room : Nat} (ih : Simulated limit room) (k j : Nat)
    (below : List Level) {s : State} (h : Ended s.rest)
    (hroom : room + 1 = (limit - opened k j below .exprRest).toNat) :
    entry limit k j below .exprRest s.rest =
      follow (derive limit (room + 1) .exprRest s) fun s' => exit limit k j below .exprRest s'.rest := by
  have hp (c : Kind) : production .exprRest c = if c = .plus ∨ c = .minus then
      some [.token c, .sub .term, .sub .exprRest] else some [.empty] := by
    cases c <;> rfl
  have hroom' : room = (limit - opened (k + 1) j below .term).toNat := by
    simp only [opened] at hroom ⊢
    omega
  exact simulated_tail ih .term .exprRest k j (k + 1) j below (fun c => c = .plus ∨ c = .minus)
    (by decide) hp (fun _ _ => rfl) rfl trivial rfl rfl h hroom'

theorem simulated_termRest {limit : Int} {room : Nat} (ih : Simulated limit room) (k j : Nat)
    (below : List Level) {s : State} (h : Ended s.rest)
    (hroom : room + 1 = (limit - opened k j below .termRest).toNat) :
    entry limit k j below .termRest s.rest =
      follow (derive limit (room + 1) .termRest s) fun s' => exit limit k j below .termRest s'.rest := by
  have hp (c : Kind) : production .termRest c = if c = .multiply ∨ c = .divide then
      some [.token c, .sub .factor, .sub .termRest] else some [.empty] := by
    cases c <;> rfl
  have hroom' : room = (limit - opened k (j + 1) below .factor).toNat := by
    simp only [opened] at hroom ⊢
    omega
  exact simulated_tail ih .factor .termRest k j k (j + 1) below
    (fun c => c = .multiply ∨ c = .divide) (by decide) hp (run_operator limit k j below) rfl trivial
    rfl rfl h hroom'

theorem run_operand {limit : Int} {c : Config} (hm : c.mode = .operand) (h : (c.cost : Int) ≤ limit)
    (t : Token) (ts : List Token) : run limit c (t :: ts) =
      if t.kind = .leftParen then run limit ⟨.operand, ⟨0, 0⟩, c.top :: c.below⟩ ts
      else if t.kind.isOperand then run limit ⟨.operator, c.top, c.below⟩ ts
      else some ⟨.expectedOperand, t, ts⟩ := by
  have hle : ¬(c.mode = .operand ∧ limit < c.cost) := by
    intro hc
    omega
  rw [run, step, if_neg hle]
  cases hk : t.kind <;> simp [react, hm, Kind.isOperand]

theorem closing_eq_follow {limit : Int} {room : Nat} {l : Level} {below : List Level} {s : State}
    (h : Ended s.rest) (f : State → Option Stop)
    (hf : ∀ s', f s' = run limit ⟨.operator, l, below⟩ s'.rest) :
    closing limit (l :: below) s.rest =
      follow (items (derive limit room) [.token .rightParen] s) f := by
  rw [follow_cons, follow_token, State.rest]
  by_cases hk : s.current.kind = .rightParen
  · rw [closing, if_pos hk, if_pos hk, follow_nil, hf,
      rest_advance_eq_ahead h (isEnd_of_kind hk (by decide))]
  · rw [closing, if_neg hk, if_neg hk]

theorem simulated_factor {limit : Int} {room : Nat} (ih : Simulated limit room) (k j : Nat)
    (below : List Level) {s : State} (h : Ended s.rest)
    (hroom : room + 1 = (limit - opened k j below .factor).toNat) :
    entry limit k j below .factor s.rest =
      follow (derive limit (room + 1) .factor s) fun s' => exit limit k j below .factor s'.rest := by
  have hcost : (Config.cost ⟨.operand, ⟨k, j⟩, below⟩ : Int) ≤ limit := by
    simp only [opened] at hroom
    simp only [Config.cost, Level.costAll, Level.cost]
    omega
  rw [entry, State.rest, run_operand rfl hcost, follow_derive_succ]
  by_cases hl : s.current.kind = .leftParen
  · have hlive := isEnd_of_kind hl (by decide)
    have hmove := Moves.advance (s := s.enter) h hlive
    have hinner := ih .expr 0 0 (⟨k, j⟩ :: below) s.enter.advance (hmove.ended h) (by
      simp only [opened, Level.costAll, Level.cost] at hroom ⊢
      omega) trivial
    rw [rest_advance_eq_ahead (s := s.enter) h hlive] at hinner
    have hp : production .factor s.current.kind =
        some [.token .leftParen, .sub .expr, .token .rightParen] := by rw [hl]; rfl
    rw [if_pos hl, hp]
    dsimp only
    rw [follow_cons, follow_token, State.current_enter, if_pos hl, follow_cons]
    refine hinner.trans (follow_congr fun t s₁ hok => ?_)
    exact closing_eq_follow (ended_of_derive_ok (hmove.ended h) hok) _ fun _ => rfl
  · rw [if_neg hl]
    by_cases ho : s.current.kind.isOperand = true
    · have hlive : s.current.isEnd = false := isEnd_of_kind rfl (by
        intro he
        rw [he] at ho
        exact absurd ho (by decide))
      have hp : production .factor s.current.kind = some [.token s.current.kind] := by
        revert ho
        cases s.current.kind <;> simp [production, Kind.isOperand]
      rw [if_pos ho, hp]
      dsimp only
      rw [follow_cons, follow_token, State.current_enter, if_pos rfl, follow_nil,
        exit, State.rest_leave, rest_advance_eq_ahead (s := s.enter) h hlive]
      rfl
    · have hp : production .factor s.current.kind = none := by
        revert hl ho
        cases s.current.kind <;> simp [production, Kind.isOperand]
      rw [if_neg ho, hp]

theorem simulated_succ {limit : Int} {room : Nat} (ih : Simulated limit room) :
    Simulated limit (room + 1) := by
  intro n k j below s h hroom _
  cases n with
  | expr =>
    rw [follow_derive_succ]
    exact entry_pair ih .term .exprRest 0 0 below trivial rfl rfl (s := s.enter) h (by
      simp only [opened] at hroom ⊢
      omega)
  | exprRest => exact simulated_exprRest ih k j below h hroom
  | term =>
    rw [follow_derive_succ]
    exact entry_pair ih .factor .termRest k 0 below trivial rfl rfl (s := s.enter) h (by
      simp only [opened] at hroom ⊢
      omega)
  | termRest => exact simulated_termRest ih k j below h hroom
  | factor => exact simulated_factor ih k j below h hroom

theorem simulated (limit : Int) (room : Nat) : Simulated limit room := by
  induction room with
  | zero => exact simulated_zero limit
  | succ room ih => exact simulated_succ ih

/-- The whole descent stops where the scanner does. -/
theorem run_eq_follow_whole (limit : Int) {s : State} (h : Ended s.rest) (hd : s.depth = 0) :
    run limit .start s.rest = follow (whole limit s) fun _ => none := by
  have hsim := simulated limit limit.toNat .expr 0 0 [] s h (by simp [opened, Level.costAll]) trivial
  refine hsim.trans ?_
  rw [whole, procedure_start limit .expr hd]
  rcases derive limit limit.toNat .expr s with ⟨b | t, s'⟩
  · rfl
  · simp only [follow, exit, State.rest, closing, Token.isEnd, decide_eq_true_eq]
    split <;> rfl

theorem parse_scan {ts : List Token} (h : ts ≠ []) (he : (ts.getLast h).isEnd = true) (limit : Int) :
    (run limit .start ts = none ∧ ∃ t, parse ts (some limit) = .ok ⟨true, some t, []⟩) ∨
    ∃ p, run limit .start ts = some p ∧
      parse ts (some limit) = .ok ⟨false, none, [p.diagnostic]⟩ := by
  obtain ⟨s, hs, rfl, hd, hb, hended⟩ := start?_of_getLast h he
  have hk := whole_keeps limit hended hd
  rw [run_eq_follow_whole limit hended hd, parse_of_start hs]
  generalize whole limit s = r at hk
  cases hk with
  | ok hm hb' hp => exact Or.inl ⟨rfl, _, rfl⟩
  | @error w b s' hm hb' hc =>
    refine Or.inr ⟨_, rfl, ?_⟩
    rw [hb, List.nil_append] at hb'
    simp [hb', Stop.diagnostic, Stop.message_eq, Blame.diagnostic, ← hc]

/-- The descent reports just what one pass with a stack of levels does. A failure is all that is
reported, and it blames the token the scanner stopped at. -/
theorem parse_eq_scan (ts : List Token) (h : ts ≠ []) (he : (ts.getLast h).isEnd = true)
    (limit : Int) : ∃ v, parse ts (some limit) = .ok v ∧
      v.success = (run limit .start ts).isNone ∧
      v.errors = ((run limit .start ts).map Stop.diagnostic).toList := by
  rcases parse_scan h he limit with ⟨hrun, t, hp⟩ | ⟨p, hrun, hp⟩
  · exact ⟨_, hp, by rw [hrun]; rfl, by rw [hrun]; rfl⟩
  · exact ⟨_, hp, by rw [hrun]; rfl, by rw [hrun]; rfl⟩

theorem parse_eq_scan_unclosed : ∃ v,
    parse [⟨.number, some "1", 0⟩, ⟨.divide, some "/", 1⟩, ⟨.leftParen, some "(", 2⟩,
      ⟨.identifier, none, 4⟩, .endAt 5] (some 7) = .ok v ∧ v.success = false ∧
      v.errors = [⟨"Expected ')' but found the end of input", some 5, none⟩] :=
  parse_eq_scan _ (List.cons_ne_nil _ _) rfl 7

end ExprLine.Descent
