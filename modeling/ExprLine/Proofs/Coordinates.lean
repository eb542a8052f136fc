import ExprLine.Proofs.Hovering

namespace ExprLine.Editor.Position

/-- The position is the place of offset `o`. -/
def IsAt (p : Position) (s : List Char) (o : Nat) : Prop := Text.place s o = ⟨p.line, p.character⟩

/-- The reading order: line by line, and from left to right within a line. -/
def Before (p q : Position) : Prop :=
  p.line < q.line ∨ p.line = q.line ∧ p.character < q.character

/-- The position itself, or the nearest one there is in a text whose line there is `row`. -/
def movedInto (p : Position) (s row : List Char) : Position :=
  ⟨min p.line ((Text.lines s).length - 1), min p.character row.length⟩

section

variable {s : List Char} {a b : Nat} {p q : Position}

theorem IsAt.ofOffset_eq (h : p.IsAt s a) : ofOffset s a = make p.line p.character := by
  rw [ofOffset, h]

theorem exists_isAt (ha : a ≤ s.length) :
    ∃ p : Position, p.IsAt s a ∧ p.toOffset s = a ∧ p.line ≤ a ∧ p.character ≤ a := by
  obtain ⟨above, line, below, n, hlines, hn, hplace, ho⟩ := Text.exists_place ha
  have habove := Text.length_le_extent above
  refine ⟨⟨above.length, n⟩, hplace, ?_, ?_, ?_⟩
  · rw [toOffset, Text.offsetOf_of_lines hlines hn, ho]
  · show above.length ≤ a
    omega
  · show n ≤ a
    omega

theorem exists_movedInto (p : Position) (s : List Char) : ∃ row,
    (Text.lines s)[min p.line ((Text.lines s).length - 1)]? = some row ∧
    (p.movedInto s row).IsAt s (p.toOffset s) :=
  Text.place_offsetOf s p.line p.character

/-- Of two places the earlier one is on an earlier line, or before the other on the same line. -/
theorem before_of_lt (hb : b ≤ s.length) (hp : p.IsAt s a) (hq : q.IsAt s b) (h : a < b) :
    p.Before q := by
  obtain ⟨above, line, below, n, hlines, hn, hplace, ho⟩ := Text.exists_place (by omega : a ≤ s.length)
  obtain ⟨above', line', below', n', hlines', hn', hplace', ho'⟩ := Text.exists_place hb
  obtain ⟨hpl, hpc⟩ := Text.Place.mk.inj (hplace.symm.trans hp)
  obtain ⟨hql, hqc⟩ := Text.Place.mk.inj (hplace'.symm.trans hq)
  rw [Before, ← hpl, ← hql, ← Int.ofNat.inj hpc, ← Int.ofNat.inj hqc]
  have hsame := hlines.symm.trans hlines'
  rcases Nat.lt_trichotomy above.length above'.length with hlt | heq | hlt
  · exact Or.inl hlt
  · obtain ⟨rfl, -⟩ := List.append_inj hsame heq
    exact Or.inr ⟨rfl, by omega⟩
  · have hends := Text.extent_add_length_lt hsame.symm hlt
    omega

theorem Before.asymm (h : p.Before q) : ¬q.Before p := by
  unfold Before at *
  omega

theorem lt_iff_before (ha : a ≤ s.length) (hb : b ≤ s.length) (hp : p.IsAt s a)
    (hq : q.IsAt s b) : a < b ↔ p.Before q := by
  refine ⟨before_of_lt hb hp hq, ?_⟩
  intro h
  by_contra hle
  rcases Nat.lt_or_eq_of_le (Nat.le_of_not_lt hle) with hlt | rfl
  · exact h.asymm (before_of_lt ha hq hp hlt)
  · obtain ⟨hline, hcharacter⟩ := Text.Place.mk.inj (hp.symm.trans hq)
    unfold Before at h
    omega

end

/-- Offsets and positions are two names of the places of a text `s`. An editor has no numbers past
`largest`, so for a place further out the position is refused. -/
structure Corresponds (s : List Char) : Prop where
  offset : ∀ o ≤ s.length, ∃ p : Position, p.IsAt s o ∧ p.toOffset s = o ∧
    ofOffset s o = make p.line p.character ∧ (o ≤ largest → ofOffset s o = .ok p)
  position : ∀ p : Position, p.toOffset s ≤ s.length ∧ ∃ row,
    (Text.lines s)[min p.line ((Text.lines s).length - 1)]? = some row ∧
    (p.movedInto s row).IsAt s (p.toOffset s) ∧
    (p.line ≤ largest → p.character ≤ largest →
      ofOffset s (p.toOffset s) = .ok (p.movedInto s row))
  order : ∀ a ≤ s.length, ∀ b ≤ s.length, ∀ p q : Position, p.IsAt s a → q.IsAt s b →
    (a < b ↔ p.Before q)

/-- In every text offsets and positions correspond, there and back, and in their order. -/
theorem corresponds_of_text (s : List Char) : Corresponds s where
  offset := by
    intro o ho
    obtain ⟨p, hp, hback, hline, hcharacter⟩ := exists_isAt ho
    refine ⟨p, hp, hback, hp.ofOffset_eq, ?_⟩
    intro hsmall
    rw [hp.ofOffset_eq, make_natCast (hline.trans hsmall) (hcharacter.trans hsmall)]
  position := by
    intro p
    obtain ⟨row, hrow, hp⟩ := exists_movedInto p s
    refine ⟨p.toOffset_le s, row, hrow, hp, ?_⟩
    intro hl hc
    have hline : (p.movedInto s row).line ≤ largest := (Nat.min_le_left _ _).trans hl
    have hcharacter : (p.movedInto s row).character ≤ largest := (Nat.min_le_left _ _).trans hc
    rw [hp.ofOffset_eq, make_natCast hline hcharacter]
  order := fun _ ha _ hb _ _ hp hq => lt_iff_before ha hb hp hq

/-- The offset of a line feed is the end of its line, and a line too many is the last. -/
example : Position.ofOffset ['a', '\n', '\n', 'b'] 1 = .ok ⟨0, 1⟩ ∧
    Position.toOffset ['a', '\n', '\n', 'b'] ⟨1, 7⟩ = 2 ∧
    Position.toOffset ['a', '\n', '\n', 'b'] ⟨9, 0⟩ = 3 := by decide

end ExprLine.Editor.Position
