import ExprLine.Editor.Marker
import ExprLine.Proofs.EarliestError
import ExprLine.Proofs.Placement

namespace ExprLine

open Token (stream)

namespace Analysis

/-- The offset that an analysis of `s` blames: the one of its diagnostic, or the one of the first
character that no expression may hold. -/
inductive Blames (s : List Char) (a : Analysis) (o : Nat) : Prop
  | syntaxError (d : Diagnostic) (he : a.errorType = some .syntaxError) (hd : a.errors = some [d])
      (ho : d.position = some (o : Int))
  | lexicalError (q r : List Char) (c : Char) (he : a.errorType = some .lexicalError)
      (hd : a.errors = none) (hs : s = q ++ c :: r) (hq : ∀ d ∈ q, IsReadable d)
      (hc : ¬IsReadable c) (ho : q.length = o)

theorem exists_blames {s : List Char} (hb : ¬∀ c ∈ s, Text.isBlank c = true) {limit : Int}
    (hf : (ofText s limit).success = false) : ∃ o ≤ s.length, (ofText s limit).Blames s o := by
  by_cases hr : ∀ c ∈ s, IsReadable c
  · obtain ⟨table, -, ⟨t, -, -, ha⟩ | ⟨p, hrun, -, ha⟩⟩ := run_readable hb hr limit
    · rw [ofText, ha] at hf
      simp [ofVerdict] at hf
    · obtain ⟨us, c, hsplit, -, -⟩ := Scanner.exists_walk_of_run hrun
      have hplace : ∃ o ≤ s.length, p.token.position = (o : Int) := by
        rcases Token.split_stream hsplit with ⟨-, hp, -⟩ | ⟨q, x, r, k, rfl, -, -, hp⟩
        · exact ⟨s.length, le_rfl, by rw [hp]; rfl⟩
        · exact ⟨q.length, by simp, by rw [hp]⟩
      obtain ⟨o, ho, hposition⟩ := hplace
      refine ⟨o, ho, ?_⟩
      rw [ofText, ha]
      exact .syntaxError p.diagnostic rfl rfl (congrArg some hposition)
  · obtain ⟨q, c, r, rfl, hq, hc⟩ := Token.exists_first_unreadable hr
    refine ⟨q.length, by simp, ?_⟩
    rw [ofText, run_unreadable hb hq hc]
    exact .lexicalError q r c rfl rfl rfl hq hc rfl

end Analysis

namespace Editor

theorem blamedOffset?_of_blames {s : List Char} {a : Analysis} {o : Nat} (h : a.Blames s o) :
    blamedOffset? s a = some (o : Int) := by
  cases h with
  | syntaxError d he hd ho =>
    rw [blamedOffset?, hd]
    exact ho
  | lexicalError q r c he hd hs hq hc ho =>
    have htokens : Token.ofText s = .error ⟨c, o⟩ := by
      rw [hs, Token.ofText_unreadable hq hc, ho]
    simp [blamedOffset?, hd, he, htokens]

namespace Marker

/-- The marker is on the character at offset `o`, or just after the last one: its range is one
character wide, from a place within a line of the text. -/
structure Marks (s : List Char) (o : Nat) (m : Marker) : Prop where
  offset : m.start.toOffset s = o
  line : ∃ line, (Text.lines s)[m.start.line]? = some line ∧ m.start.character ≤ line.length
  stop : m.stop = ⟨m.start.line, m.start.character + 1⟩

/-- An editor can name both ends of the marker. -/
def Nameable (m : Marker) : Prop :=
  m.stop.line ≤ Position.largest ∧ m.stop.character ≤ Position.largest

end Marker

section

variable {line character : Nat}

theorem make_natCast (hl : line ≤ Position.largest) (hc : character ≤ Position.largest) :
    Position.make line character = .ok ⟨line, character⟩ := by
  simp [Position.make, Position.inRange, hl, hc]

theorem make_error (h : ¬(line ≤ Position.largest ∧ character ≤ Position.largest)) :
    ∃ f, Position.make line character = .error f := by
  by_cases hl : line ≤ Position.largest
  · have hc : ¬character ≤ Position.largest := fun hc => h ⟨hl, hc⟩
    simp [Position.make, Position.inRange, hl, hc]
  · simp [Position.make, Position.inRange, hl]

end

theorem range_some (s : List Char) (o : Int) : range s (some o) =
    (Position.ofOffset s o).bind fun p =>
      (Position.make p.line (p.character + 1 : Nat)).map fun q => (p, q) := by
  cases hp : Position.ofOffset s o with
  | error f => simp [range, hp, bind, Except.bind]
  | ok p => simp [range, hp, bind, Except.bind, Except.map, pure, Except.pure]

/-- The range at a place that is `n` characters after the start of a line. -/
theorem range_of_place {s : List Char} {o : Int} {line n : Nat} (h : Text.place s o = ⟨line, n⟩) :
    (line ≤ Position.largest ∧ n + 1 ≤ Position.largest →
      range s (some o) = .ok (⟨line, n⟩, ⟨line, n + 1⟩)) ∧
    (¬(line ≤ Position.largest ∧ n + 1 ≤ Position.largest) → ∃ f, range s (some o) = .error f) := by
  have hstart : Position.ofOffset s o = Position.make line n := by rw [Position.ofOffset, h]
  rw [range_some, hstart]
  constructor
  · rintro ⟨hl, hn⟩
    rw [make_natCast hl (Nat.le_of_succ_le hn), Except.bind, make_natCast hl hn, Except.map]
  · intro hout
    by_cases hin : line ≤ Position.largest ∧ n ≤ Position.largest
    · obtain ⟨f, hf⟩ := make_error hout
      exact ⟨f, by rw [make_natCast hin.1 hin.2, Except.bind, hf, Except.map]⟩
    · obtain ⟨f, hf⟩ := make_error hin
      exact ⟨f, by rw [hf, Except.bind]⟩

/-- The marker at an offset of a text, as far as an editor has names for the place. -/
theorem exists_marks {s : List Char} {o : Nat} (h : o ≤ s.length) (message : String) :
    ∃ m : Marker, m.Marks s o ∧ m.message = message ∧
      (m.Nameable → range s (some o) = .ok (m.start, m.stop)) ∧
      (¬m.Nameable → Position.largest ≤ s.length ∧ ∃ f, range s (some o) = .error f) := by
  obtain ⟨above, line, below, n, hlines, hn, hplace, ho⟩ := Text.exists_place h
  obtain ⟨hnamed, hunnamed⟩ := range_of_place hplace
  refine ⟨⟨⟨above.length, n⟩, ⟨above.length, n + 1⟩, message⟩, ⟨?_, ?_, rfl⟩, rfl, hnamed, ?_⟩
  · rw [Position.toOffset, Text.offsetOf_of_lines hlines hn, ho]
  · exact ⟨line, by simp [hlines], hn⟩
  · intro hout
    refine ⟨?_, hunnamed hout⟩
    have habove := Text.length_le_extent above
    by_contra hs
    have hline : above.length ≤ Position.largest := by omega
    have hstop : n + 1 ≤ Position.largest := by omega
    exact hout ⟨hline, hstop⟩

/-- Without a failure to show there is no marker. -/
theorem markers_nil {s : List Char} {a : Analysis}
    (h : (∀ c ∈ s, Text.isBlank c = true) ∨ a.success = true) : markers s a = .ok [] := by
  have hnone : (s.all Text.isBlank || a.success) = true := by simpa [List.all_eq_true] using h
  rw [markers, if_pos hnone]

theorem markers_failure {s : List Char} {a : Analysis} (hb : ¬∀ c ∈ s, Text.isBlank c = true)
    (hf : a.success = false) :
    markers s a = (range s (blamedOffset? s a)).map fun p => [⟨p.1, p.2, a.message⟩] := by
  have hsome : ¬(s.all Text.isBlank || a.success) = true := by simpa [List.all_eq_true, hf] using hb
  rw [markers, if_neg hsome]
  cases range s (blamedOffset? s a) <;> rfl

theorem markersOf_of_blames {s : List Char} {o : Nat} (hb : ¬∀ c ∈ s, Text.isBlank c = true)
    (hf : (Analysis.ofText s defaultLimit).success = false)
    (h : (Analysis.ofText s defaultLimit).Blames s o) : markersOf s =
      (range s (some o)).map fun p => [⟨p.1, p.2, (Analysis.ofText s defaultLimit).message⟩] := by
  rw [markersOf, markers_failure hb hf, blamedOffset?_of_blames h]

/-- The marker of an analysis of `s` that failed. It is all that is shown, unless the text is so long
that an editor has no number for the place. -/
structure Marker.Reports (s : List Char) (a : Analysis) (m : Marker) : Prop where
  blamed : ∃ o : Nat, a.Blames s o ∧ blamedOffset? s a = some (o : Int) ∧ m.Marks s o
  message : m.message = a.message
  shown : m.Nameable → markersOf s = .ok [m]
  unshown : ¬m.Nameable → Position.largest ≤ s.length ∧ ∃ f, markersOf s = .error f

theorem exists_reports {s : List Char} (hb : ¬∀ c ∈ s, Text.isBlank c = true)
    (hf : (Analysis.ofText s defaultLimit).success = false) :
    ∃ m : Marker, m.Reports s (Analysis.ofText s defaultLimit) := by
  obtain ⟨o, ho, hblames⟩ := Analysis.exists_blames hb hf
  obtain ⟨m, hm, hmessage, hnamed, hunnamed⟩ :=
    exists_marks ho (Analysis.ofText s defaultLimit).message
  have hmarkers := markersOf_of_blames hb hf hblames
  refine ⟨m, ⟨o, hblames, blamedOffset?_of_blames hblames, hm⟩, hmessage, ?_, ?_⟩
  · intro hn
    rw [hmarkers, hnamed hn, Except.map, ← hmessage]
  · intro hn
    obtain ⟨hlong, f, hrange⟩ := hunnamed hn
    exact ⟨hlong, f, by rw [hmarkers, hrange, Except.map]⟩

/-- A marker that is shown starts at the place of the offset that the analysis blames. -/
theorem start_of_mem_markersOf {s : List Char} {ms : List Marker} {m : Marker}
    (h : markersOf s = .ok ms) (hm : m ∈ ms) : ∃ o ≤ s.length,
    (Analysis.ofText s defaultLimit).Blames s o ∧
      ∀ line n : Nat, Text.place s o = ⟨line, n⟩ → m.start = ⟨line, n⟩ := by
  by_cases hnil : (∀ c ∈ s, Text.isBlank c = true) ∨
      (Analysis.ofText s defaultLimit).success = true
  · obtain rfl := Except.ok.inj ((markers_nil hnil).symm.trans h)
    simp at hm
  · obtain ⟨hb, hf⟩ := not_or.mp hnil
    rw [Bool.not_eq_true] at hf
    obtain ⟨o, ho, hblames⟩ := Analysis.exists_blames hb hf
    refine ⟨o, ho, hblames, ?_⟩
    intro line n hplace
    obtain ⟨hnamed, hunnamed⟩ := range_of_place hplace
    rw [markersOf_of_blames hb hf hblames] at h
    by_cases hin : line ≤ Position.largest ∧ n + 1 ≤ Position.largest
    · rw [hnamed hin] at h
      obtain rfl := Except.ok.inj h
      rw [List.mem_singleton.mp hm]
    · obtain ⟨f, hrange⟩ := hunnamed hin
      rw [hrange] at h
      simp [Except.map] at h

/-- What an editor shows of the analysis of `s`, and of an analysis it is given. -/
structure Shown (s : List Char) (a : Analysis) : Prop where
  nil_iff : markersOf s = .ok [] ↔ (∀ c ∈ s, Text.isBlank c = true) ∨ a.success = true
  one : (¬∀ c ∈ s, Text.isBlank c = true) → a.success = false → ∃ m : Marker, m.Reports s a
  given : markers s a = markersOf s

/-- A document shows nothing if it is blank or accepted, and else one marker, on the very character
that its analysis blames. -/
theorem shown_of_text (s : List Char) : Shown s (Analysis.ofText s defaultLimit) where
  nil_iff := by
    refine ⟨?_, markers_nil⟩
    intro hnil
    by_contra hnot
    obtain ⟨hb, hf⟩ := not_or.mp hnot
    obtain ⟨m, hm⟩ := exists_reports hb (by simpa using hf)
    by_cases hn : m.Nameable
    · rw [hm.shown hn] at hnil
      simp at hnil
    · obtain ⟨-, f, hf⟩ := hm.unshown hn
      rw [hf] at hnil
      simp at hnil
  one := exists_reports
  given := rfl

/-- The end of a text is a place of its own, after the last line feed. -/
example : markersOf ['a', '+', '\n', '\n'] = .ok [⟨⟨2, 0⟩, ⟨2, 1⟩,
    "Expected identifier or '(' but found the end of input"⟩] := by decide

end Editor
end ExprLine
