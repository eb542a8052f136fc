import ExprLine.Proofs.Outcome

namespace ExprLine

open Token (lexemes stream endAt)

namespace Scanner

/-- What a text needs to be complete: an operand if one is expected, and then a parenthesis for
each level that is still open. -/
def Config.completion (c : Config) : List Char :=
  match c.mode with
  | .operand => 'a' :: List.replicate c.below.length ')'
  | .operator => List.replicate c.below.length ')'

theorem Config.isReadable_completion (c : Config) : ∀ d ∈ c.completion, IsReadable d := by
  have hparen : IsReadable ')' := Or.inr (by simp [IsLexeme])
  have ha : IsReadable 'a' := Or.inr (by simp [IsLexeme])
  have hclose : ∀ d ∈ List.replicate c.below.length ')', IsReadable d := by
    intro d hd
    rw [List.eq_of_mem_replicate hd]
    exact hparen
  intro d hd
  rw [completion] at hd
  cases hm : c.mode with
  | operand =>
    rw [hm] at hd
    rcases List.mem_cons.mp hd with rfl | hd
    · exact ha
    · exact hclose d hd
  | operator =>
    rw [hm] at hd
    exact hclose d hd

/-- Parentheses that close all levels take no room. -/
theorem run_closing (limit : Int) (top : Level) (below : List Level) (p n : Nat) :
    run limit ⟨.operator, top, below⟩
      (lexemes (List.replicate below.length ')') p ++ [endAt n]) = none := by
  have hk : Kind.ofChar? ')' = some .rightParen := rfl
  induction below generalizing top p with
  | nil => rfl
  | cons l ls ih =>
    rw [List.length_cons, List.replicate_succ, Token.lexemes_cons_some hk, List.cons_append, run]
    exact ih l (p + 1)

theorem run_completion {limit : Int} {c : Config} (h : c.cost ≤ limit) (p n : Nat) :
    run limit c (lexemes c.completion p ++ [endAt n]) = none := by
  obtain ⟨mode, top, below⟩ := c
  cases mode with
  | operand =>
    have hk : Kind.ofChar? 'a' = some .identifier := rfl
    have hroom : ¬limit < (Config.mk .operand top below).cost := by omega
    simp only [Config.completion]
    rw [Token.lexemes_cons_some hk, List.cons_append, run, step, if_neg fun hd => hroom hd.2]
    exact run_closing limit top below (p + 1) n
  | operator => exact run_closing limit top below p n

/-- What is refused for another reason than its depth is refused under every limit, whatever
follows it. -/
theorem run_ne_none_of_stop {l : Int} {c d : Config} {ts : List Token} {a : Token} {cause : Cause}
    (hw : walk l c ts = some d) (hs : step l d a.kind = .stop cause)
    (hc : ∀ n, cause ≠ .nestingTooDeep n) (m : Int) (us : List Token) :
    run m c (ts ++ a :: us) ≠ none := by
  rcases walk_or_stop (m := m) hw with hm | hm
  · rw [run_of_walk hm, run]
    rcases step_eq_or l m d a.kind with h | h | h
    · simp [h, hs]
    · simp [h]
    · exact absurd (Next.stop.inj (hs.symm.trans h)) (hc l)
  · exact hm (a :: us)

end Scanner

namespace Analysis

/-- A text is accepted just when the scanner gets through its tokens. -/
theorem success_iff_scan (s : List Char) (limit : Int) : (ofText s limit).success = true ↔
    (∀ c ∈ s, IsReadable c) ∧ Scanner.run limit .start (stream s) = none := by
  by_cases hb : ∀ c ∈ s, Text.isBlank c = true
  · have hscan : Scanner.run limit .start (stream s) ≠ none := by
      rw [stream, Token.lexemes_of_isBlank hb, List.nil_append, Scanner.run, Scanner.step]
      split_ifs <;> simp [Scanner.react, Scanner.Config.start, endAt]
    rw [ofText, run_blank hb]
    simp [failure, hscan]
  by_cases hr : ∀ c ∈ s, IsReadable c
  · obtain ⟨table, -, ⟨t, hrun, -, ha⟩ | ⟨p, hrun, -, ha⟩⟩ := run_readable hb hr limit
    · rw [ofText, ha, hrun]
      exact ⟨fun _ => ⟨hr, rfl⟩, fun _ => rfl⟩
    · rw [ofText, ha, hrun]
      simp [ofVerdict]
  · obtain ⟨q, c, r, rfl, hq, hc⟩ := Token.exists_first_unreadable hr
    rw [ofText, run_unreadable hb hq hc]
    exact ⟨by simp [failure], fun h => absurd h.1 hr⟩

/-- A syntax error reports what the scanner stopped at and nothing else. -/
theorem exists_stop_of_syntaxError {s : List Char} {limit : Int}
    (h : (ofText s limit).errorType = some .syntaxError) :
    (∀ c ∈ s, IsReadable c) ∧ ∃ p, Scanner.run limit .start (stream s) = some p ∧
      (ofText s limit).message = p.message ∧ (ofText s limit).errors = some [p.diagnostic] := by
  by_cases hb : ∀ c ∈ s, Text.isBlank c = true
  · rw [ofText, run_blank hb] at h
    simp [failure] at h
  by_cases hr : ∀ c ∈ s, IsReadable c
  · obtain ⟨table, -, ⟨t, -, -, ha⟩ | ⟨p, hrun, -, ha⟩⟩ := run_readable hb hr limit
    · rw [ofText, ha] at h
      simp [ofVerdict] at h
    · rw [ofText, ha]
      exact ⟨hr, p, hrun, rfl, rfl⟩
  · obtain ⟨q, c, r, rfl, hq, hc⟩ := Token.exists_first_unreadable hr
    rw [ofText, run_unreadable hb hq hc] at h
    simp [failure] at h

theorem exists_completion {s : List Char} (hr : ∀ c ∈ s, IsReadable c) {limit : Int}
    {c : Scanner.Config} (hw : Scanner.walk limit .start (lexemes s 0) = some c) :
    ∃ t D, (ofText (s ++ t) D).success = true := by
  refine ⟨c.completion, max limit c.cost, (success_iff_scan _ _).mpr ⟨?_, ?_⟩⟩
  · intro d hd
    rcases List.mem_append.mp hd with hd | hd
    · exact hr d hd
    · exact c.isReadable_completion d hd
  · have hw' := Scanner.walk_mono (Int.le_max_left limit c.cost) hw
    rw [stream, Token.lexemes_append, List.append_assoc, Scanner.run_of_walk hw']
    exact Scanner.run_completion (Int.le_max_right limit c.cost) _ _

/-- Where the scanner stopped for another reason than the depth it stops in any text that has the
same tokens up to there. -/
theorem success_eq_false_of_stop {l : Int} {c : Scanner.Config} {ts us : List Token} {a : Token}
    {cause : Cause} (hw : Scanner.walk l .start ts = some c)
    (hs : Scanner.step l c a.kind = .stop cause) (hc : ∀ n, cause ≠ .nestingTooDeep n)
    {s : List Char} (h : stream s = ts ++ a :: us) (D : Int) : (ofText s D).success = false := by
  rw [Bool.eq_false_iff, Ne, success_iff_scan, h]
  intro hD
  exact Scanner.run_ne_none_of_stop hw hs hc D us hD.2

/-- A syntax error is the earliest there can be. What stands before the token it blames can be
completed, and unless it is about the depth nothing can be made of the text with that token. -/
theorem earliest_error (s : List Char) (limit : Int)
    (h : (ofText s limit).errorType = some .syntaxError) :
    ∃ (p : Nat) (d : Diagnostic), (ofText s limit).errors = some [d] ∧
      d.position = some (p : Int) ∧ p ≤ s.length ∧
      (∃ t D, (ofText (s.take p ++ t) D).success = true) ∧
      ((ofText s limit).message ≠
          "Expression is nested too deeply (maximum depth is " ++ toString limit ++ ")" →
        (p < s.length → ∀ u D, (ofText (s.take (p + 1) ++ u) D).success = false) ∧
        (p = s.length → ∀ D, (ofText s D).success = false)) := by
  obtain ⟨hr, b, hrun, hmessage, herrors⟩ := exists_stop_of_syntaxError h
  obtain ⟨us, c, hsplit, hw, hs⟩ := Scanner.exists_walk_of_run hrun
  -- only the depth has a message that depends on the limit
  have hcause (hm : (ofText s limit).message ≠
      "Expression is nested too deeply (maximum depth is " ++ toString limit ++ ")") (n : Int) :
      b.cause ≠ .nestingTooDeep n := by
    intro hn
    rw [hn] at hs
    obtain rfl := Scanner.limit_of_stop hs
    rw [hmessage, Scanner.Stop.message, hn] at hm
    exact hm rfl
  rcases Token.split_stream hsplit with ⟨rfl, ha, -⟩ | ⟨q, x, r, k, rfl, hk, rfl, ha⟩
  · have hposition : b.diagnostic.position = some (s.length : Int) := by
      rw [Scanner.Stop.diagnostic, ha]
      rfl
    refine ⟨s.length, b.diagnostic, herrors, hposition, le_rfl, ?_, ?_⟩
    · rw [List.take_length]
      exact exists_completion hr hw
    · intro hm
      refine ⟨fun hlt => absurd hlt (lt_irrefl _), ?_⟩
      intro _ D
      exact success_eq_false_of_stop hw hs (hcause hm) hsplit D
  · have hq : ∀ d ∈ q, IsReadable d := by
      intro d hd
      exact hr d (List.mem_append_left _ hd)
    have hlt : q.length < (q ++ x :: r).length := by simp
    have hposition : b.diagnostic.position = some (q.length : Int) := by
      rw [Scanner.Stop.diagnostic, ha]
    refine ⟨q.length, b.diagnostic, herrors, hposition, hlt.le, ?_, ?_⟩
    · rw [List.take_left]
      exact exists_completion hq hw
    · intro hm
      refine ⟨?_, fun he => absurd he hlt.ne⟩
      intro _ u D
      have htake : (q ++ x :: r).take (q.length + 1) ++ u = q ++ x :: u := by
        rw [List.take_length_add_append, List.take_succ_cons, List.take_zero, List.append_assoc,
          List.singleton_append]
      have hstart := Token.stream_append_cons hk q u
      rw [← ha] at hstart
      rw [htake]
      exact success_eq_false_of_stop hw hs (hcause hm) hstart D

/-- Two operators in a row are wrong however the text goes on, though all that stands before the
second one is not. -/
theorem earliest_error_two_operators :
    (∃ t D, (ofText (['a', '+'] ++ t) D).success = true) ∧
      ∀ u D, (ofText (['a', '+', '*'] ++ u) D).success = false := by
  have he : (ofText ['a', '+', '*', 'b'] 200).errors =
      some [⟨"Expected identifier or '(' but found '*'", some 2, some "*"⟩] := by decide
  obtain ⟨p, d, hd, hp, -, ht, hu⟩ := earliest_error ['a', '+', '*', 'b'] 200 (by decide)
  rw [he] at hd
  obtain rfl := List.singleton_inj.mp (Option.some.inj hd)
  have hpos : (2 : Int) = p := Option.some.inj hp
  obtain rfl : p = 2 := by omega
  exact ⟨ht, (hu (by decide)).1 (by decide)⟩

end Analysis
end ExprLine
