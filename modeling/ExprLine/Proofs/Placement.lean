import ExprLine.Text.Line
import Mathlib.Data.List.Induction

namespace ExprLine.Text

/-- How far whole lines reach, their line feeds included. -/
def extent (ls : List (List Char)) : Nat := ls.foldr (fun r n => r.length + 1 + n) 0

theorem extent_cons (l : List Char) (ls : List (List Char)) :
    extent (l :: ls) = l.length + 1 + extent ls := rfl

theorem length_le_extent (ls : List (List Char)) : ls.length ≤ extent ls := by
  induction ls with
  | nil => exact Nat.le_refl 0
  | cons l ls ih =>
    rw [extent_cons, List.length_cons]
    omega

/-- The lines of a text reach one further than it, for the last one has no line feed. -/
theorem extent_lines (s : List Char) : extent (lines s) = s.length + 1 := by
  induction s with
  | nil => rfl
  | cons c s ih =>
    by_cases hc : c = '\n'
    · have hlines : lines (c :: s) = [] :: lines s := by rw [lines, pieces, if_pos hc, lines]
      rw [hlines, extent_cons, ih, List.length_nil, List.length_cons]
      omega
    · cases hs : lines s with
      | nil => exact absurd hs (pieces_ne_nil '\n' s)
      | cons l ls =>
        have hlines : lines (c :: s) = (c :: l) :: ls := by
          rw [lines, pieces, if_neg hc, show pieces '\n' s = l :: ls from hs]
        rw [hs] at ih
        rw [hlines, extent_cons, List.length_cons, List.length_cons, ← ih, extent_cons]
        omega

theorem length_lines (s : List Char) : (lines s).length = s.count '\n' + 1 := length_pieces '\n' s

theorem lines_append (a b : List Char) : lines (a ++ '\n' :: b) = lines a ++ lines b :=
  pieces_append '\n' a b

theorem lastLineStart_concat (s : List Char) (c : Char) :
    lastLineStart (s ++ [c]) = if c = '\n' then s.length + 1 else lastLineStart s := by
  have hle : (s.reverse.takeWhile (· ≠ '\n')).length ≤ s.length := by
    rw [← s.length_reverse]
    exact (List.takeWhile_sublist _).length_le
  unfold lastLineStart
  rw [List.reverse_append, List.reverse_singleton, List.singleton_append, List.length_append,
    List.length_singleton]
  by_cases hc : c = '\n'
  · simp [hc]
  · rw [List.takeWhile_cons_of_pos (by simpa using hc), List.length_cons, if_neg hc]
    omega

/-- A text is whole lines and the start of one more, which goes on in whatever follows. -/
theorem exists_lastLine (h : List Char) : ∃ above l, '\n' ∉ l ∧
    (∀ t, lines (h ++ t) = above ++ lines (l ++ t)) ∧ above.length = h.count '\n' ∧
    lastLineStart h = extent above ∧ extent above + l.length = h.length := by
  -- from the right, as the last line grows
  induction h using List.reverseRecOn with
  | nil => exact ⟨[], [], List.not_mem_nil, fun _ => rfl, rfl, rfl, rfl⟩
  | append_singleton h c ih =>
    rw [List.count_append, List.length_append, lastLineStart_concat]
    by_cases hc : c = '\n'
    · refine ⟨lines h, [], List.not_mem_nil, ?_, ?_, ?_, ?_⟩
      · intro t
        rw [hc, List.append_assoc, List.singleton_append, lines_append, List.nil_append]
      · rw [length_lines, hc]
        rfl
      · rw [if_pos hc, extent_lines]
      · rw [extent_lines]
        rfl
    · obtain ⟨above, l, hl, hlines, hcount, hstart, hlength⟩ := ih
      refine ⟨above, l ++ [c], ?_, ?_, ?_, ?_, ?_⟩
      · simp [hl, Ne.symm hc]
      · intro t
        rw [List.append_assoc, List.append_assoc, hlines]
      · rw [hcount, List.count_singleton]
        simp [hc]
      · rw [if_neg hc, hstart]
      · rw [List.length_append, ← Nat.add_assoc, hlength]

theorem exists_lines_append {l : List Char} (h : '\n' ∉ l) (t : List Char) :
    ∃ r below, lines (l ++ t) = (l ++ r) :: below := by
  induction l with
  | nil =>
    cases ht : lines t with
    | nil => exact absurd ht (pieces_ne_nil '\n' t)
    | cons r below => exact ⟨r, below, ht⟩
  | cons c l ih =>
    obtain ⟨hc, hl⟩ := not_or.mp (mt List.mem_cons.mpr h)
    obtain ⟨r, below, hlines⟩ := ih hl
    refine ⟨r, below, ?_⟩
    rw [List.cons_append, lines, pieces, if_neg (Ne.symm hc),
      show pieces '\n' (l ++ t) = _ from hlines]
    rfl

/-- Each place of a text is in one of its lines, as far from the start of that line as its column
says and as far from the start of the text as its offset says. -/
theorem exists_place {s : List Char} {o : Nat} (h : o ≤ s.length) :
    ∃ above line below, ∃ n : Nat, lines s = above ++ line :: below ∧ n ≤ line.length ∧
      place s o = ⟨above.length, n⟩ ∧ extent above + n = o := by
  obtain ⟨above, l, hl, hlines, hcount, hstart, hlength⟩ := exists_lastLine (s.take o)
  obtain ⟨r, below, hline⟩ := exists_lines_append hl (s.drop o)
  have htake : (s.take o).length = o := List.length_take_of_le h
  refine ⟨above, l ++ r, below, l.length, ?_, ?_, ?_, ?_⟩
  · rw [← hline, ← hlines, List.take_append_drop]
  · simp
  · rw [place, before_natCast, hcount, hstart]
    congr 1
    omega
  · rw [hlength, htake]

theorem offsetOf_of_lines {s : List Char} {above below : List (List Char)} {line : List Char}
    {n : Nat} (h : lines s = above ++ line :: below) (hn : n ≤ line.length) :
    offsetOf s above.length n = extent above + n := by
  have hline : min above.length ((above ++ line :: below).length - 1) = above.length := by
    simp
  simp only [offsetOf, h, hline, List.take_left]
  simp [extent, hn]

theorem exists_split_of_intercalate (above : List (List Char)) (line : List Char)
    (below : List (List Char)) : ∃ q r, ['\n'].intercalate (above ++ line :: below) = q ++ line ++ r ∧
      q.length = extent above ∧ (q = [] ∨ ∃ q', q = q' ++ ['\n']) ∧
      (r = [] ∨ ∃ r', r = '\n' :: r') := by
  induction above with
  | nil =>
    cases below with
    | nil => exact ⟨[], [], by simp [List.intercalate], rfl, Or.inl rfl, Or.inl rfl⟩
    | cons l below =>
      refine ⟨[], _, ?_, rfl, Or.inl rfl, Or.inr ⟨['\n'].intercalate (l :: below), rfl⟩⟩
      rw [List.nil_append, List.intercalate_cons_cons, List.append_assoc]
      rfl
  | cons l above ih =>
    obtain ⟨q, r, hsplit, hq, hstart, hend⟩ := ih
    have hjoin : ['\n'].intercalate (l :: above ++ line :: below) =
        l ++ ['\n'] ++ ['\n'].intercalate (above ++ line :: below) := by
      cases above <;> exact List.intercalate_cons_cons
    refine ⟨l ++ ['\n'] ++ q, r, by rw [hjoin, hsplit]; simp, ?_, Or.inr ?_, hend⟩
    · rw [List.length_append, List.length_append, List.length_singleton, hq, extent_cons]
    · rcases hstart with rfl | ⟨q', rfl⟩
      · exact ⟨l, by simp⟩
      · exact ⟨l ++ ['\n'] ++ q', by simp⟩

/-- A line stands in the text between its own ends: it starts the text or follows a line feed, and it
ends the text or is followed by one. -/
theorem exists_split_of_lines {s : List Char} {above below : List (List Char)} {line : List Char}
    (h : lines s = above ++ line :: below) : ∃ q r, s = q ++ line ++ r ∧ q.length = extent above ∧
      (q = [] ∨ ∃ q', q = q' ++ ['\n']) ∧ (r = [] ∨ ∃ r', r = '\n' :: r') := by
  have hs := intercalate_pieces '\n' s
  rw [show pieces '\n' s = _ from h] at hs
  rw [← hs]
  exact exists_split_of_intercalate above line below

/-- The line that a position is moved into, and the offset of the position as one within it. -/
theorem exists_offsetOf (s : List Char) (line character : Nat) : ∃ above l below,
    lines s = above ++ l :: below ∧ above.length = min line ((lines s).length - 1) ∧
    offsetOf s line character = extent above + min character l.length := by
  have hlt : min line ((lines s).length - 1) < (lines s).length := by
    have hpos : 0 < (lines s).length := by
      rw [length_lines]
      exact Nat.succ_pos _
    omega
  have hl : (lines s).getD (min line ((lines s).length - 1)) [] =
      (lines s)[min line ((lines s).length - 1)] := by simp [hlt]
  refine ⟨(lines s).take (min line ((lines s).length - 1)), (lines s)[min line ((lines s).length - 1)],
    (lines s).drop (min line ((lines s).length - 1) + 1), ?_,
    List.length_take_of_le (Nat.le_of_lt hlt), ?_⟩
  · rw [List.getElem_cons_drop, List.take_append_drop]
  · simp only [offsetOf, hl]
    rfl

/-- What stands at an offset within a line, or at its end. -/
theorem getElem?_of_lines {s : List Char} {above below : List (List Char)} {row : List Char}
    (h : lines s = above ++ row :: below) :
    (∀ n < row.length, s[extent above + n]? = row[n]?) ∧
      ∀ c, s[extent above + row.length]? = some c → c = '\n' := by
  obtain ⟨q, r, rfl, hq, -, hend⟩ := exists_split_of_lines h
  rw [List.append_assoc, ← hq]
  constructor
  · intro n hn
    rw [List.getElem?_append_right (Nat.le_add_right _ _), Nat.add_sub_cancel_left,
      List.getElem?_append_left hn]
  · intro c hc
    rw [List.getElem?_append_right (Nat.le_add_right _ _), Nat.add_sub_cancel_left,
      List.getElem?_append_right (Nat.le_refl _), Nat.sub_self] at hc
    rcases hend with rfl | ⟨r', rfl⟩
    · simp at hc
    · simpa using hc.symm

/-- The place of an offset, read off the text before it: its line feeds, and what follows the last. -/
theorem exists_place_eq {s : List Char} {o : Nat} (h : o ≤ s.length) : ∃ q l : List Char,
    s.take o = q ++ l ∧ (q = [] ∨ ∃ q', q = q' ++ ['\n']) ∧ '\n' ∉ l ∧
    place s o = ⟨q.count '\n', l.length⟩ := by
  obtain ⟨above, l, hl, hlines, -, hstart, hlength⟩ := exists_lastLine (s.take o)
  have hlast : lines (s.take o) = above ++ l :: [] := by
    rw [← pieces_of_not_mem hl, ← (s.take o).append_nil, hlines, List.append_nil]
    rfl
  obtain ⟨q, r, hsplit, hq, hends, -⟩ := exists_split_of_lines hlast
  have hlen := congrArg List.length hsplit
  rw [List.length_append, List.length_append, hq, hlength, Nat.left_eq_add] at hlen
  obtain rfl := List.length_eq_zero_iff.mp hlen
  rw [List.append_nil] at hsplit
  refine ⟨q, l, hsplit, hends, hl, ?_⟩
  have htake : (s.take o).length = o := List.length_take_of_le h
  rw [place, before_natCast, hstart]
  congr 1
  · rw [hsplit, List.count_append, List.count_eq_zero.mpr hl, Nat.add_zero]
  · omega

theorem extent_append (ls ms : List (List Char)) : extent (ls ++ ms) = extent ls + extent ms := by
  induction ls with
  | nil => rw [List.nil_append, show extent [] = 0 from rfl, Nat.zero_add]
  | cons l ls ih => rw [List.cons_append, extent_cons, extent_cons, ih, Nat.add_assoc _ (extent ls)]

section

variable {s : List Char} {above below above' below' : List (List Char)} {line line' : List Char}

/-- A line ends, at its line feed, before any later line starts. -/
theorem extent_add_length_lt (h : above ++ line :: below = above' ++ line' :: below')
    (hlt : above.length < above'.length) : extent above + line.length < extent above' := by
  rcases List.append_eq_append_iff.mp h with ⟨between, rfl, hrest⟩ | ⟨between, rfl, -⟩
  · cases between with
    | nil => simp at hlt
    | cons l ls =>
      obtain ⟨rfl, -⟩ := List.cons.inj hrest
      rw [extent_append, extent_cons]
      omega
  · rw [List.length_append] at hlt
    omega

theorem extent_add_le (h : lines s = above ++ line :: below) {n : Nat} (hn : n ≤ line.length) :
    extent above + n ≤ s.length := by
  obtain ⟨q, r, rfl, hq, -, -⟩ := exists_split_of_lines h
  rw [List.length_append, List.length_append, hq]
  omega

/-- A character of a line, or the end of the line, has its line and its index there as its place. -/
theorem place_of_lines (h : lines s = above ++ line :: below) {n : Nat} (hn : n ≤ line.length) :
    place s (extent above + n : Nat) = ⟨above.length, n⟩ := by
  obtain ⟨above', line', below', n', hlines, hn', hplace, ho⟩ := exists_place (extent_add_le h hn)
  rw [h] at hlines
  have hlength : above'.length = above.length := by
    rcases Nat.lt_trichotomy above'.length above.length with hlt | heq | hlt
    · have hends := extent_add_length_lt hlines.symm hlt
      omega
    · exact heq
    · have hends := extent_add_length_lt hlines hlt
      omega
  obtain ⟨rfl, -⟩ := List.append_inj hlines hlength.symm
  obtain rfl : n' = n := Nat.add_left_cancel ho
  exact hplace

end

/-- A line and a character that need not exist are moved to the nearest ones that do. -/
theorem place_offsetOf (s : List Char) (line character : Nat) : ∃ row,
    (lines s)[min line ((lines s).length - 1)]? = some row ∧
    place s (offsetOf s line character) =
      ⟨min line ((lines s).length - 1), (min character row.length : Nat)⟩ := by
  obtain ⟨above, row, below, hlines, habove, ho⟩ := exists_offsetOf s line character
  refine ⟨row, ?_, ?_⟩
  · rw [← habove, hlines, List.getElem?_append_right (Nat.le_refl _), Nat.sub_self,
      List.getElem?_cons_zero]
  · rw [ho, place_of_lines hlines (Nat.min_le_right _ _), habove]

end ExprLine.Text
