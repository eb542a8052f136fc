import ExprLine.Proofs.EarliestError

namespace ExprLine.Analysis

open Token (lexemes stream)

theorem syntaxError_of_stop {s : List Char} {limit : Int} {b : Scanner.Stop}
    (hb : ¬∀ c ∈ s, Text.isBlank c = true) (hr : ∀ c ∈ s, IsReadable c)
    (hrun : Scanner.run limit .start (stream s) = some b) :
    (ofText s limit).errorType = some .syntaxError ∧
      (ofText s limit).errors = some [b.diagnostic] ∧ (ofText s limit).message = b.message := by
  obtain ⟨table, -, ⟨t, hnone, -, -⟩ | ⟨b', hb', -, ha⟩⟩ := run_readable hb hr limit
  · rw [hrun] at hnone
    exact absurd hnone (by simp)
  · have hsame : b' = b := Option.some.inj (hb'.symm.trans hrun)
    rw [ofText, ha, hsame]
    exact ⟨rfl, rfl, rfl⟩

/-- A text that goes on otherwise after the character `x` has the same tokens up to there, so the
scanner stops in it as it did. -/
theorem exists_stop_append {q u : List Char} {x : Char} {k : Kind} (hk : Kind.ofChar? x = some k)
    {limit : Int} {c : Scanner.Config} (hw : Scanner.walk limit .start (lexemes q 0) = some c)
    {cause : Cause} (hs : Scanner.step limit c k = .stop cause) :
    ∃ vs, Scanner.run limit .start (stream (q ++ x :: u)) =
      some ⟨cause, ⟨k, some (String.singleton x), q.length⟩, vs⟩ := by
  rw [Token.stream_append_cons hk]
  exact ⟨_, Scanner.run_eq_some_of_stop hw hs _⟩

theorem take_append_eq (q r u : List Char) (x : Char) :
    (q ++ x :: r).take (q.length + 1) ++ u = q ++ x :: u := by
  rw [List.take_length_add_append, List.take_succ_cons, List.take_zero, List.append_assoc,
    List.singleton_append]

theorem syntaxError_of_take {s : List Char} {limit : Int}
    (h : (ofText s limit).errorType = some .syntaxError) :
    ∃ (p : Nat) (d : Diagnostic), (ofText s limit).errors = some [d] ∧ d.position = some (p : Int) ∧
      (p < s.length → ∀ u, (∀ c ∈ u, IsReadable c) →
        (ofText (s.take (p + 1) ++ u) limit).errorType = some .syntaxError ∧
        (ofText (s.take (p + 1) ++ u) limit).errors = (ofText s limit).errors ∧
        (ofText (s.take (p + 1) ++ u) limit).message = (ofText s limit).message) := by
  obtain ⟨hr, b, hrun, hmessage, herrors⟩ := exists_stop_of_syntaxError h
  obtain ⟨us, c, hsplit, hw, hs⟩ := Scanner.exists_walk_of_run hrun
  rcases Token.split_stream hsplit with ⟨-, ha, -⟩ | ⟨q, x, r, k, rfl, hk, rfl, ha⟩
  · have hposition : b.diagnostic.position = some (s.length : Int) := by
      rw [Scanner.Stop.diagnostic, ha]
      rfl
    exact ⟨s.length, b.diagnostic, herrors, hposition, fun hlt => absurd hlt (lt_irrefl _)⟩
  · have hposition : b.diagnostic.position = some (q.length : Int) := by
      rw [Scanner.Stop.diagnostic, ha]
    refine ⟨q.length, b.diagnostic, herrors, hposition, ?_⟩
    intro _ u hu
    rw [take_append_eq, herrors, hmessage]
    have hread : ∀ d ∈ q ++ x :: u, IsReadable d := by
      intro d hd
      rcases List.mem_append.mp hd with hd | hd
      · exact hr d (List.mem_append_left _ hd)
      · rcases List.mem_cons.mp hd with rfl | hd
        · exact hr d (by simp)
        · exact hu d hd
    have hx : Text.isBlank x = false :=
      Kind.not_isBlank_of_isLexeme (Kind.isSome_ofChar?_iff.mp (by rw [hk]; rfl))
    have hblank : ¬∀ d ∈ q ++ x :: u, Text.isBlank d = true := not_blank_of_mem (by simp) hx
    rw [ha] at hs
    obtain ⟨vs, hrun'⟩ := exists_stop_append (u := u) hk hw hs
    -- the two stops differ in the tokens after them, and these are not reported
    have hsame := syntaxError_of_stop hblank hread hrun'
    rw [← ha] at hsame
    exact hsame

theorem lexicalError_of_take {s : List Char} {limit : Int}
    (h : (ofText s limit).errorType = some .lexicalError) :
    ∃ (p : Nat) (c : Char), s[p]? = some c ∧ Token.ofText s = .error ⟨c, p⟩ ∧
      (ofText s limit).message =
        "Invalid character: '" ++ String.singleton c ++ "' at position " ++ toString p ∧
      ∀ u, ofText (s.take (p + 1) ++ u) limit = ofText s limit := by
  obtain ⟨d, hd, hu⟩ := exists_unreadable h
  obtain ⟨q, c, r, rfl, hq, hc⟩ := Token.exists_first_unreadable (s := s) (fun hr => hu (hr d hd))
  have hblank (u : List Char) : ¬∀ d ∈ q ++ c :: u, Text.isBlank d = true := by
    apply not_blank_of_mem (c := c) (by simp)
    exact Bool.eq_false_iff.mpr fun hb => hc (Or.inl hb)
  have hrun (u : List Char) : ofText (q ++ c :: u) limit =
      failure .lexicalError (BadCharacter.message ⟨c, q.length⟩) := by
    rw [ofText, run_unreadable (hblank u) hq hc]
  refine ⟨q.length, c, by simp, ?_, ?_, ?_⟩
  · exact Token.ofText_unreadable hq hc
  · rw [hrun r, BadCharacter.message_eq]
    rfl
  · intro u
    rw [take_append_eq, hrun u, hrun r]

/-- What is reported depends on the text up to the blamed character and on nothing after it. A
syntax error stays the same whatever readable text follows, one about the depth included, and a
lexical error whatever follows at all. -/
theorem error_of_take (s : List Char) (limit : Int) :
    ((ofText s limit).errorType = some .syntaxError →
      ∃ (p : Nat) (d : Diagnostic), (ofText s limit).errors = some [d] ∧
        d.position = some (p : Int) ∧
        (p < s.length → ∀ u, (∀ c ∈ u, IsReadable c) →
          (ofText (s.take (p + 1) ++ u) limit).errorType = some .syntaxError ∧
          (ofText (s.take (p + 1) ++ u) limit).errors = (ofText s limit).errors ∧
          (ofText (s.take (p + 1) ++ u) limit).message = (ofText s limit).message)) ∧
    ((ofText s limit).errorType = some .lexicalError →
      ∃ (p : Nat) (c : Char), s[p]? = some c ∧ Token.ofText s = .error ⟨c, p⟩ ∧
        (ofText s limit).message =
          "Invalid character: '" ++ String.singleton c ++ "' at position " ++ toString p ∧
        ∀ u, ofText (s.take (p + 1) ++ u) limit = ofText s limit) :=
  ⟨syntaxError_of_take, lexicalError_of_take⟩

/-- Two parentheses are too deep for five levels whatever they hold, and nothing that comes after
a bad character matters. -/
theorem error_of_take_parentheses :
    (∀ u, (∀ c ∈ u, IsReadable c) → (ofText (['(', '('] ++ u) 5).errors =
      some [⟨"Expression is nested too deeply (maximum depth is 5)", some 1, some "("⟩]) ∧
    ∀ u, ofText (['1', '$'] ++ u) 5 =
      failure .lexicalError "Invalid character: '$' at position 1" := by
  constructor
  · have he : (ofText ['(', '(', 'a', ')', ')'] 5).errors =
        some [⟨"Expression is nested too deeply (maximum depth is 5)", some 1, some "("⟩] := by
      decide
    obtain ⟨p, d, hd, hp, hu⟩ := (error_of_take ['(', '(', 'a', ')', ')'] 5).1 (by decide)
    rw [he] at hd
    obtain rfl := List.singleton_inj.mp (Option.some.inj hd)
    have hpos : (1 : Int) = p := Option.some.inj hp
    obtain rfl : p = 1 := by omega
    intro u hr
    exact (hu (by decide) u hr).2.1.trans he
  · obtain ⟨p, c, -, hp, -, hu⟩ := (error_of_take ['1', '$', 'a'] 5).2 (by decide)
    have hscan : Token.ofText ['1', '$', 'a'] = .error ⟨'$', 1⟩ := by decide
    rw [hscan] at hp
    obtain ⟨-, rfl⟩ := BadCharacter.mk.inj (Except.error.inj hp)
    intro u
    have ha : ofText ['1', '$', 'a'] 5 =
        failure .lexicalError "Invalid character: '$' at position 1" := rfl
    exact (hu u).trans ha

end ExprLine.Analysis
