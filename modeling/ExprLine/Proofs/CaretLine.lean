import ExprLine.Proofs.Pointing

namespace ExprLine.Text

/-- Whatever the offset is, its line is one of the lines of the text. -/
theorem line_place_lt (s : List Char) (p : Int) : (place s p).line < (lines s).length := by
  have hcount : (before s p).count '\n' ≤ s.count '\n' :=
    (before_isPrefix s p).sublist.count_le '\n'
  rw [length_lines]
  exact Nat.lt_succ_of_le hcount

/-- No two lines hold the same offset. -/
theorem eq_of_lines {s : List Char} {above above' below below' : List (List Char)}
    {row row' : List Char} (h : lines s = above ++ row :: below)
    (h' : lines s = above' ++ row' :: below') {n n' : Nat} (hn : n ≤ row.length)
    (hn' : n' ≤ row'.length) (ho : extent above + n = extent above' + n') :
    above = above' ∧ row = row' ∧ below = below' := by
  have hplace := place_of_lines h hn
  rw [ho, place_of_lines h' hn'] at hplace
  have hlength : above.length = above'.length := (Place.mk.inj hplace).1.symm
  obtain ⟨rfl, hrest⟩ := List.append_inj (h.symm.trans h') hlength
  obtain ⟨rfl, rfl⟩ := List.cons.inj hrest
  exact ⟨rfl, rfl, rfl⟩

end ExprLine.Text

namespace ExprLine.Report

theorem getElem?_padding {row : List Char} {n i : Nat} (hn : n ≤ row.length) (hi : i < n) :
    (padding (row.take n))[i]? = some (if row[i]? = some '\t' then '\t' else ' ') := by
  have hrow : row[i]? = some row[i] := List.getElem?_eq_getElem (by omega)
  rw [padding, List.getElem?_map, List.getElem?_take_of_lt hi, hrow]
  simp

theorem length_padding_take {row : List Char} {n : Nat} (hn : n ≤ row.length) :
    (padding (row.take n)).length = n := by
  rw [padding, List.length_map, List.length_take_of_le hn]

/-- What is shown of offset `p` in a text: the one line that holds it, `row`, and below it a caret
behind the padding `pad`, which is as wide as the line up to the offset and keeps its tabs. -/
structure Underlines (s : List Char) (p : Nat) (row pad : List Char) : Prop where
  line : ∃ above below, Text.lines s = above ++ row :: below ∧
    Text.extent above + pad.length = p ∧ Text.place s p = ⟨above.length, pad.length⟩ ∧
    ∀ above' row' below', Text.lines s = above' ++ row' :: below' → Text.extent above' ≤ p →
      p ≤ Text.extent above' + row'.length → above' = above ∧ row' = row ∧ below' = below
  column_le : pad.length ≤ row.length
  padding : ∀ i < pad.length, pad[i]? = some (if row[i]? = some '\t' then '\t' else ' ')
  text : caret s p = "  " ++ String.ofList row ++ "\n  " ++ String.ofList pad ++ "^"
  lines : Text.lines (caret s p).toList = ["  ".toList ++ row, "  ".toList ++ pad ++ ['^']]

theorem exists_underlines {s : List Char} {p : Nat} (h : p ≤ s.length) :
    ∃ row pad, Underlines s p row pad := by
  obtain ⟨above, row, below, n, hlines, hn, hplace, hp⟩ := Text.exists_place h
  have hlength := length_padding_take hn
  have hrow : (Text.lines s)[above.length]? = some row := by simp [hlines]
  have htext : caret s p = "  " ++ String.ofList row ++ "\n  " ++
      String.ofList (padding (row.take n)) ++ "^" :=
    caret_of_isAt (p := ⟨above.length, n⟩) hplace hrow
  have hnewline : '\n' ∉ row := Text.not_mem_of_mem_pieces (List.mem_of_getElem? hrow)
  refine ⟨row, padding (row.take n), ?_, ?_, ?_, htext, ?_⟩
  · refine ⟨above, below, hlines, by rw [hlength, hp], by rw [hlength, hplace], ?_⟩
    intro above' row' below' hlines' hstart hend
    have ho : Text.extent above' + (p - Text.extent above') = Text.extent above + n := by omega
    exact Text.eq_of_lines hlines' hlines (by omega) hn ho
  · rw [hlength]
    exact hn
  · intro i hi
    rw [hlength] at hi
    exact getElem?_padding hn hi
  · have hsplit : (caret s p).toList =
        ("  ".toList ++ row) ++ '\n' :: ("  ".toList ++ padding (row.take n) ++ ['^']) := by
      rw [htext]
      simp
    have hfirst : Text.lines ("  ".toList ++ row) = ["  ".toList ++ row] :=
      Text.pieces_of_not_mem (by simp [hnewline])
    have hsecond : Text.lines ("  ".toList ++ padding (row.take n) ++ ['^']) =
        ["  ".toList ++ padding (row.take n) ++ ['^']] :=
      Text.pieces_of_not_mem (by simp [newline_not_mem_padding])
    rw [hsplit, Text.lines_append, hfirst, hsecond]
    rfl

/-- The line of an offset and its caret, or nothing if the text had no such line. -/
def caret? (s : List Char) (p : Int) : Option String :=
  (Text.lines s)[(Text.place s p).line]?.map fun row => "  " ++ String.ofList row ++ "\n  " ++
    String.ofList (padding (Text.before row (Text.place s p).column)) ++ "^"

/-- The carets of an analysis, or nothing if a line is missing. -/
def carets? (s : List Char) (a : Analysis) : Option String :=
  (((a.errors.getD []).filterMap (·.position)).mapM fun p => (caret? s p).map (· ++ "\n")).map
    String.join

theorem caret?_eq (s : List Char) (p : Int) : caret? s p = some (caret s p) := by
  have hline := Text.line_place_lt s p
  simp only [caret?, caret, List.getElem?_eq_getElem hline, Option.map_some,
    List.getD_eq_getElem?_getD, Option.getD_some]

theorem carets?_eq (s : List Char) (a : Analysis) : carets? s a = some (carets s a) := by
  have hall (ps : List Int) : (ps.mapM fun p => (caret? s p).map (· ++ "\n")) =
      some (ps.map fun p => caret s p ++ "\n") := by
    induction ps with
    | nil => rfl
    | cons p ps ih =>
      rw [List.mapM_cons, caret?_eq, ih]
      rfl
  rw [carets?, hall, Option.map_some, carets, List.map_filterMap]

/-- In the report the carets follow the banner. -/
theorem exists_after (s : List Char) (a : Analysis) : ∃ after, text? s a =
    (banner? a).bind fun banner => (carets? s a).map fun cs => banner ++ cs ++ after := by
  rw [text?, carets?_eq]
  cases banner? a with
  | none => exact ⟨"", rfl⟩
  | some banner =>
    simp only [Option.map_some, Option.bind_some, Option.some.injEq, String.append_assoc]
    exact ⟨_, rfl⟩

theorem text?_eq_none_iff (s : List Char) (a : Analysis) :
    text? s a = none ↔ a.success = false ∧ a.errorType = none := by
  rw [text?, Option.map_eq_none_iff, banner?]
  cases a.success <;> simp

/-- The carets of a text. Any offset in it is underlined. For any number at all there is a line to
show, so no caret keeps a report from being printed: the one report that cannot be is that of a
failure without a type. -/
structure Careted (s : List Char) : Prop where
  underlined : ∀ p ≤ s.length, ∃ row pad, Underlines s p row pad
  inside : ∀ p : Int, (Text.place s p).line < (Text.lines s).length
  shown : ∀ a : Analysis, carets? s a = some (carets s a)
  printed : ∀ a : Analysis, ∃ after, text? s a =
    (banner? a).bind fun banner => (carets? s a).map fun cs => banner ++ cs ++ after
  refused : ∀ a : Analysis, text? s a = none ↔ a.success = false ∧ a.errorType = none

theorem careted_of_text (s : List Char) : Careted s where
  underlined := fun _ hp => exists_underlines hp
  inside := Text.line_place_lt s
  shown := carets?_eq s
  printed := exists_after s
  refused := text?_eq_none_iff s

/-- A tab before the offset stays. An offset outside of the text has a line and a caret too. -/
example : caret ['a', '\t', 'b', '\n'] 2 = "  a\tb\n   \t^" ∧
    caret ['a', '\t', 'b', '\n'] (-9) = "  a\tb\n  ^" ∧
    caret ['a', '\t', 'b', '\n'] 9 = "  \n  ^" := by decide

end ExprLine.Report
