import ExprLine.Proofs.Coordinates
import ExprLine.Report.Basic

namespace ExprLine

namespace Editor.Marker.Marks

theorem isAt {s : List Char} {o : Nat} {m : Marker} (h : m.Marks s o) : m.start.IsAt s o := by
  obtain ⟨line, hline, hcharacter⟩ := h.line
  obtain ⟨row, hrow, hplace⟩ := Text.place_offsetOf s m.start.line m.start.character
  have hlt : m.start.line < (Text.lines s).length := (List.getElem?_eq_some_iff.mp hline).1
  rw [Nat.min_eq_left (Nat.le_sub_one_of_lt hlt)] at hrow hplace
  obtain rfl : line = row := Option.some.inj (hline.symm.trans hrow)
  rw [Nat.min_eq_left hcharacter, show Text.offsetOf s _ _ = o from h.offset] at hplace
  exact hplace

end Editor.Marker.Marks

namespace Report

/-- The report shows the line of a position, and under it a line with nothing but a caret, which
stands under the character of the position. -/
def PointsAt (report : String) (s : List Char) (p : Editor.Position) : Prop :=
  ∃ row before after, (Text.lines s)[p.line]? = some row ∧ p.character ≤ row.length ∧
    report = before ++ "\n  " ++ String.ofList row ++ "\n  " ++
      String.ofList (padding (row.take p.character)) ++ "^\n" ++ after

theorem newline_not_mem_padding (s : List Char) : '\n' ∉ padding s := by
  intro h
  obtain ⟨c, -, hc⟩ := List.mem_map.mp h
  split at hc <;> simp at hc

theorem caret_of_isAt {s : List Char} {o : Nat} {p : Editor.Position} {row : List Char}
    (h : p.IsAt s o) (hrow : (Text.lines s)[p.line]? = some row) :
    caret s o = "  " ++ String.ofList row ++ "\n  " ++
      String.ofList (padding (row.take p.character)) ++ "^" := by
  have hplace : Text.place s o = ⟨p.line, p.character⟩ := h
  simp only [caret, hplace, Text.before_natCast, List.getD_eq_getElem?_getD, hrow, Option.getD_some]

/-- A failure is shown by its type and message, then by its carets. -/
theorem text?_failure {s : List Char} {a : Analysis} {e : ErrorType} (hf : a.success = false)
    (he : a.errorType = some e) : ∃ after, text? s a = some ("\n" ++
      paint .red ("--- " ++ e.name ++ " ---\n" ++ a.message) ++ "\n" ++ carets s a ++ after) := by
  have hbanner : banner? a =
      some ("\n" ++ paint .red ("--- " ++ e.name ++ " ---\n" ++ a.message) ++ "\n") := by
    rw [banner?, if_neg (by simp [hf]), he, Option.map_some]
  constructor
  rw [text?, hbanner, Option.map_some]
  simp only [String.append_assoc]
  rfl

/-- A diagnostic is pointed at, with its offset in the place of a position. -/
theorem pointsAt_of_diagnostic {s : List Char} {a : Analysis} {e : ErrorType} {d : Diagnostic}
    {o : Nat} {m : Editor.Marker} (hf : a.success = false) (he : a.errorType = some e)
    (hd : a.errors = some [d]) (ho : d.position = some (o : Int)) (hm : m.Marks s o) :
    ∃ report, text? s a = some report ∧ PointsAt report s m.start := by
  obtain ⟨row, hrow, hcharacter⟩ := hm.line
  obtain ⟨after, htext⟩ := text?_failure (s := s) hf he
  have hcarets : carets s a = caret s o ++ "\n" := by
    simp [carets, hd, ho, String.join]
  refine ⟨_, htext, row, "\n" ++ paint .red ("--- " ++ e.name ++ " ---\n" ++ a.message), after,
    hrow, hcharacter, ?_⟩
  rw [hcarets, caret_of_isAt hm.isAt hrow]
  simp only [String.append_assoc]
  rfl

/-- A caret has a line of its own, which begins with a space. -/
theorem PointsAt.exists_line {report : String} {s : List Char} {p : Editor.Position}
    (h : PointsAt report s p) : ∃ r, (' ' :: r) ∈ Text.lines report.toList := by
  obtain ⟨row, before, after, -, -, rfl⟩ := h
  let r := ' ' :: (padding (row.take p.character) ++ ['^'])
  have hline : Text.lines (' ' :: r) = [' ' :: r] :=
    Text.pieces_of_not_mem (by simp [r, newline_not_mem_padding])
  have htext : (before ++ "\n  " ++ String.ofList row ++ "\n  " ++
      String.ofList (padding (row.take p.character)) ++ "^\n" ++ after).toList =
      (before.toList ++ '\n' :: ' ' :: ' ' :: row) ++ '\n' :: (' ' :: r ++ '\n' :: after.toList) := by
    simp [r]
  refine ⟨r, ?_⟩
  rw [htext, Text.lines_append, Text.lines_append, Text.lines_append, hline]
  simp

theorem text?_lexicalError (s : List Char) (message : String) :
    text? s (.failure .lexicalError message) =
      some ("\n" ++ paint .red ("--- LEXICAL_ERROR ---\n" ++ message) ++ "\n") := by
  simp [text?, banner?, carets, Analysis.failure, ErrorType.name, String.join]

/-- All that is shown of a lexical failure is its banner, of four lines. -/
theorem lines_lexicalError {message : String} (h : '\n' ∉ message.toList) :
    Text.lines ("\n" ++ paint .red ("--- LEXICAL_ERROR ---\n" ++ message) ++ "\n").toList =
      [[], "\x1b[91m--- LEXICAL_ERROR ---".toList, message.toList ++ "\x1b[0m".toList, []] := by
  have htext : ("\n" ++ paint .red ("--- LEXICAL_ERROR ---\n" ++ message) ++ "\n").toList =
      [] ++ '\n' :: ("\x1b[91m--- LEXICAL_ERROR ---".toList ++
        '\n' :: (message.toList ++ "\x1b[0m".toList ++ '\n' :: [])) := by
    simp [paint, Colour.code]
  have hlast : Text.lines (message.toList ++ "\x1b[0m".toList) =
      [message.toList ++ "\x1b[0m".toList] := Text.pieces_of_not_mem (by simp [h])
  rw [htext, Text.lines_append, Text.lines_append, Text.lines_append, hlast]
  rfl

/-- The banner of a lexical failure points at nothing. -/
theorem not_pointsAt_lexicalError {e : BadCharacter} (h : e.char ≠ '\n') (s : List Char) :
    ∃ report, text? s (.failure .lexicalError e.message) = some report ∧
      ∀ p, ¬PointsAt report s p := by
  refine ⟨_, text?_lexicalError s e.message, ?_⟩
  intro p hpoints
  obtain ⟨r, hr⟩ := hpoints.exists_line
  have hdigits : '\n' ∉ Nat.toDigits 10 e.position := by
    intro hc
    have hdigit : Char.isDigit '\n' = true :=
      Nat.isDigit_of_mem_toDigits (by decide) (by decide) hc
    simp at hdigit
  have hmessage : e.message.toList = "Invalid character: '".toList ++ e.char ::
      ("' at position ".toList ++ Nat.toDigits 10 e.position) := by
    rw [e.message_eq]
    simp
  have hnewline : '\n' ∉ e.message.toList := by
    rw [hmessage]
    simp [Ne.symm h, hdigits]
  rw [lines_lexicalError hnewline, hmessage] at hr
  simp at hr

/-- The report and the marker of a failed analysis of `s`. What is no expression is pointed at by
both, at one place; a character that no expression may hold is marked and not pointed at. -/
structure Located (s : List Char) (a : Analysis) (report : String) (m : Editor.Marker) : Prop where
  text : text? s a = some report
  marker : m.Reports s a
  errorType : a.errorType = some .syntaxError ∨ a.errorType = some .lexicalError
  syntaxError : a.errorType = some .syntaxError → PointsAt report s m.start
  lexicalError : a.errorType = some .lexicalError → ∀ p, ¬PointsAt report s p

/-- The report of a failure points at the start of its marker, unless the failure is lexical: then
it points nowhere, since carets are drawn under diagnostics alone. -/
theorem exists_located {s : List Char} (hb : ¬∀ c ∈ s, Text.isBlank c = true)
    (hf : (Analysis.ofText s defaultLimit).success = false) :
    ∃ report m, Located s (Analysis.ofText s defaultLimit) report m := by
  obtain ⟨m, hm⟩ := Editor.exists_reports hb hf
  obtain ⟨o, hblames, -, hmarks⟩ := hm.blamed
  cases hblames with
  | syntaxError d he hd ho =>
    obtain ⟨report, htext, hpoints⟩ := pointsAt_of_diagnostic hf he hd ho hmarks
    exact ⟨report, m, { text := htext, marker := hm, errorType := Or.inl he,
                        syntaxError := fun _ => hpoints, lexicalError := by simp [he] }⟩
  | lexicalError q r c he hd hs hq hc ho =>
    have hfailure : Analysis.ofText s defaultLimit =
        .failure .lexicalError (BadCharacter.message ⟨c, q.length⟩) := by
      subst hs
      rw [Analysis.ofText, Analysis.run_unreadable hb hq hc]
    have hc' : c ≠ '\n' := by
      rintro rfl
      exact hc (Or.inl rfl)
    obtain ⟨report, htext, hpoints⟩ := not_pointsAt_lexicalError (e := ⟨c, q.length⟩) hc' s
    exact ⟨report, m, { text := hfailure ▸ htext, marker := hm, errorType := Or.inr he,
                        syntaxError := by simp [he], lexicalError := fun _ => hpoints }⟩

theorem exists_located_second_line : ∃ report m,
    Located ['a', '+', '\n', '*', 'b'] (Analysis.ofText ['a', '+', '\n', '*', 'b'] defaultLimit)
      report m := by
  have hb : ¬∀ c ∈ ['a', '+', '\n', '*', 'b'], Text.isBlank c = true :=
    Analysis.not_blank_of_mem List.mem_cons_self rfl
  exact exists_located hb rfl

/-- The ampersand is marked in an editor, and the report does not point at it. -/
theorem lexicalError_marked_not_pointed_at :
    (Analysis.ofText ['3', '&', '4'] defaultLimit).success = false ∧ ∃ report m,
      text? ['3', '&', '4'] (Analysis.ofText ['3', '&', '4'] defaultLimit) = some report ∧
      Editor.markersOf ['3', '&', '4'] = .ok [m] ∧ m.start = ⟨0, 1⟩ ∧
      ¬PointsAt report ['3', '&', '4'] m.start := by
  refine ⟨rfl, ?_⟩
  obtain ⟨report, htext, hpoints⟩ := not_pointsAt_lexicalError (e := ⟨'&', 1⟩) (by decide)
    ['3', '&', '4']
  exact ⟨report, ⟨⟨0, 1⟩, ⟨0, 2⟩, _⟩, htext, rfl, rfl, hpoints _⟩

end Report
end ExprLine
