import ExprLine.Proofs.Contract

namespace ExprLine

/-- The operators met at one level of parentheses: sums, and products since the last sum. -/
structure Level where
  sums : Nat
  products : Nat
deriving DecidableEq, Repr

/-- The nonterminals that are open at a factor of the level. -/
def Level.cost (l : Level) : Nat := 3 + l.sums + l.products

def Level.costAll : List Level → Nat
  | [] => 0
  | l :: ls => l.cost + costAll ls

namespace Scanner

inductive Mode where
  | operand | operator
deriving DecidableEq, Repr

/-- A scanner of tokens that goes through them once and keeps only a stack of levels, the
innermost one on top. There is always a level. -/
structure Config where
  mode : Mode
  top : Level
  below : List Level
deriving DecidableEq, Repr

def Config.start : Config := ⟨.operand, ⟨0, 0⟩, []⟩

/-- The nonterminals that are open where an operand stands. -/
def Config.cost (c : Config) : Nat := Level.costAll (c.top :: c.below)

inductive Next where
  | go (c : Config)
  | accept
  | stop (c : Cause)
deriving DecidableEq, Repr

/-- What comes of a token of kind `k`, however deep the levels are. -/
def react (c : Config) (k : Kind) : Next :=
  match c.mode with
  | .operand =>
    match k with
    | .leftParen => .go ⟨.operand, ⟨0, 0⟩, c.top :: c.below⟩
    | .number | .identifier => .go ⟨.operator, c.top, c.below⟩
    | _ => .stop .expectedOperand
  | .operator =>
    match k with
    | .multiply | .divide => .go ⟨.operand, ⟨c.top.sums, c.top.products + 1⟩, c.below⟩
    | .plus | .minus => .go ⟨.operand, ⟨c.top.sums + 1, 0⟩, c.below⟩
    | _ =>
      match c.below with
      | l :: ls => if k = .rightParen then .go ⟨.operator, l, ls⟩ else .stop .expectedClosing
      | [] => if k = .endOfInput then .accept else .stop .unexpectedToken

/-- Where an operand is expected the depth is looked at before the token. -/
def step (limit : Int) (c : Config) (k : Kind) : Next :=
  if c.mode = .operand ∧ limit < c.cost then .stop (.nestingTooDeep limit) else react c k

/-- Where the scanner gave up: why, at which token, and what it never looked at. -/
structure Stop where
  cause : Cause
  token : Token
  after : List Token
deriving DecidableEq, Repr

namespace Stop

def message (p : Stop) : String :=
  match p.cause with
  | .nestingTooDeep limit =>
    "Expression is nested too deeply (maximum depth is " ++ toString limit ++ ")"
  | .expectedOperand => "Expected identifier or '(' but found " ++ p.token.shown
  | .expectedClosing => "Expected ')' but found " ++ p.token.shown
  | .unexpectedToken => "Unexpected token: " ++ p.token.shown

def diagnostic (p : Stop) : Diagnostic := ⟨p.message, some p.token.position, p.token.lexeme⟩

theorem message_eq (p : Stop) : p.message = (Blame.mk p.cause p.token).message := by
  obtain ⟨c, a, r⟩ := p
  cases c <;>
    simp [message, Blame.message, Cause.code, FaultCode.fill, FaultCode.pieces, String.append_assoc]

end Stop

/-- Scans the tokens; there is no stop where they are accepted. -/
def run (limit : Int) : Config → List Token → Option Stop
  | _, [] => none
  | c, t :: ts =>
    match step limit c t.kind with
    | .go c' => run limit c' ts
    | .accept => none
    | .stop cause => some ⟨cause, t, ts⟩

def walk (limit : Int) : Config → List Token → Option Config
  | c, [] => some c
  | c, t :: ts =>
    match step limit c t.kind with
    | .go c' => walk limit c' ts
    | _ => none

theorem run_of_walk {limit : Int} {c d : Config} {ts : List Token} (h : walk limit c ts = some d)
    (us : List Token) : run limit c (ts ++ us) = run limit d us := by
  induction ts generalizing c with
  | nil =>
    obtain rfl := Option.some.inj h
    rfl
  | cons t ts ih =>
    rw [walk] at h
    rw [List.cons_append, run]
    cases hs : step limit c t.kind with
    | go c' =>
      rw [hs] at h
      exact ih h
    | accept => simp [hs] at h
    | stop cause => simp [hs] at h

/-- Before the token it stops at the scanner took in every token. -/
theorem exists_walk_of_run {limit : Int} {c : Config} {ts : List Token} {p : Stop}
    (h : run limit c ts = some p) : ∃ us d, ts = us ++ p.token :: p.after ∧
      walk limit c us = some d ∧ step limit d p.token.kind = .stop p.cause := by
  induction ts generalizing c with
  | nil => simp [run] at h
  | cons t ts ih =>
    rw [run] at h
    cases hs : step limit c t.kind with
    | go c' =>
      rw [hs] at h
      obtain ⟨us, d, rfl, hw, hd⟩ := ih h
      exact ⟨t :: us, d, rfl, by rw [walk, hs]; exact hw, hd⟩
    | accept => simp [hs] at h
    | stop cause =>
      simp only [hs, Option.some.injEq] at h
      subst h
      exact ⟨[], c, rfl, rfl, hs⟩

theorem run_eq_some_of_stop {limit : Int} {c d : Config} {ts : List Token} {a : Token}
    {cause : Cause} (hw : walk limit c ts = some d) (hs : step limit d a.kind = .stop cause)
    (us : List Token) : run limit c (ts ++ a :: us) = some ⟨cause, a, us⟩ := by
  rw [run_of_walk hw, run, hs]

/-- The limit decides only whether the nesting is too deep. -/
theorem step_eq_or (l m : Int) (c : Config) (k : Kind) : step m c k = step l c k ∨
    step m c k = .stop (.nestingTooDeep m) ∨ step l c k = .stop (.nestingTooDeep l) := by
  by_cases hm : c.mode = .operand ∧ m < c.cost
  · exact Or.inr (Or.inl (if_pos hm))
  · by_cases hl : c.mode = .operand ∧ l < c.cost
    · exact Or.inr (Or.inr (if_pos hl))
    · exact Or.inl (by rw [step, step, if_neg hm, if_neg hl])

theorem react_ne_nesting (c : Config) (k : Kind) (m : Int) :
    react c k ≠ .stop (.nestingTooDeep m) := by
  obtain ⟨mode, top, below⟩ := c
  cases mode <;> cases k <;> cases below <;> simp [react]

theorem limit_of_stop {l m : Int} {c : Config} {k : Kind}
    (h : step l c k = .stop (.nestingTooDeep m)) : m = l := by
  rw [step] at h
  split at h
  · exact (Cause.nestingTooDeep.inj (Next.stop.inj h)).symm
  · exact absurd h (react_ne_nesting c k m)

theorem step_mono {l m : Int} (hlm : l ≤ m) {c d : Config} {k : Kind} (h : step l c k = .go d) :
    step m c k = .go d := by
  rw [step] at h
  split at h
  · simp at h
  · next hl =>
    have hm : ¬(c.mode = .operand ∧ m < c.cost) := by
      intro hm
      exact hl ⟨hm.1, by omega⟩
    rw [step, if_neg hm]
    exact h

theorem walk_mono {l m : Int} (hlm : l ≤ m) {c d : Config} {ts : List Token}
    (h : walk l c ts = some d) : walk m c ts = some d := by
  induction ts generalizing c with
  | nil => exact h
  | cons t ts ih =>
    rw [walk] at h
    cases hs : step l c t.kind with
    | go c' =>
      rw [hs] at h
      rw [walk, step_mono hlm hs]
      exact ih h
    | accept => simp [hs] at h
    | stop cause => simp [hs] at h

/-- Tokens taken in under one limit lead to the same state under another, or too deep. -/
theorem walk_or_stop {l m : Int} {c d : Config} {ts : List Token} (h : walk l c ts = some d) :
    walk m c ts = some d ∨ ∀ us, run m c (ts ++ us) ≠ none := by
  induction ts generalizing c with
  | nil => exact Or.inl h
  | cons t ts ih =>
    rw [walk] at h
    cases hs : step l c t.kind with
    | go c' =>
      rw [hs] at h
      rcases step_eq_or l m c t.kind with hm | hm | hm
      · rw [hs] at hm
        rcases ih h with hw | hw
        · exact Or.inl (by rw [walk, hm]; exact hw)
        · apply Or.inr
          intro us
          rw [List.cons_append, run, hm]
          exact hw us
      · apply Or.inr
        intro us
        simp [run, hm]
      · simp [hs] at hm
    | accept => simp [hs] at h
    | stop cause => simp [hs] at h

end Scanner
end ExprLine
