namespace ExprLine.Text

/-- The pieces of a text between the characters `sep`; there is always a last one. -/
def pieces (sep : Char) : List Char → List (List Char)
  | [] => [[]]
  | c :: r =>
    if c = sep then [] :: pieces sep r
    else match pieces sep r with
      | [] => [[c]]
      | p :: ps => (c :: p) :: ps

theorem pieces_ne_nil (sep : Char) (s : List Char) : pieces sep s ≠ [] := by
  cases s with
  | nil => simp [pieces]
  | cons c r =>
    simp only [pieces]
    split
    · simp
    · split <;> simp

/-- There is one piece more than there are separators. -/
theorem length_pieces (sep : Char) (s : List Char) : (pieces sep s).length = s.count sep + 1 := by
  induction s with
  | nil => rfl
  | cons c r ih =>
    by_cases h : c = sep
    · simp [pieces, h, ih]
    · simp only [pieces, h, if_false, List.count_cons, beq_iff_eq]
      split
      · next he => exact absurd he (pieces_ne_nil sep r)
      · next p ps he => simpa [he] using ih

/-- A separator cuts a text in two, and each half has its own pieces. -/
theorem pieces_append (sep : Char) (a b : List Char) :
    pieces sep (a ++ sep :: b) = pieces sep a ++ pieces sep b := by
  induction a with
  | nil => simp [pieces]
  | cons c a ih =>
    by_cases h : c = sep
    · simp [pieces, h, ih]
    · simp only [List.cons_append, pieces, if_neg h, ih]
      cases hp : pieces sep a with
      | nil => exact absurd hp (pieces_ne_nil sep a)
      | cons p ps => rfl

theorem pieces_of_not_mem {sep : Char} {s : List Char} (h : sep ∉ s) : pieces sep s = [s] := by
  induction s with
  | nil => rfl
  | cons c s ih =>
    obtain ⟨hc, hs⟩ := not_or.mp (mt List.mem_cons.mpr h)
    simp only [pieces, if_neg (Ne.symm hc), ih hs]

/-- What is joined by separators comes apart at them, if there is no separator within a part. -/
theorem pieces_intercalate {sep : Char} {ls : List (List Char)} (hne : ls ≠ [])
    (h : ∀ l ∈ ls, sep ∉ l) : pieces sep ([sep].intercalate ls) = ls := by
  induction ls with
  | nil => exact absurd rfl hne
  | cons l ls ih =>
    have hl : pieces sep l = [l] := pieces_of_not_mem (h l List.mem_cons_self)
    cases ls with
    | nil => simpa [List.intercalate] using hl
    | cons m ms =>
      have hrest := ih (by simp) fun k hk => h k (List.mem_cons_of_mem l hk)
      rw [List.intercalate_cons_cons, List.append_assoc, List.singleton_append, pieces_append, hl,
        hrest, List.singleton_append]

/-- The pieces of a text, joined again. -/
theorem intercalate_pieces (sep : Char) (s : List Char) : [sep].intercalate (pieces sep s) = s := by
  induction s with
  | nil => rfl
  | cons c s ih =>
    cases hp : pieces sep s with
    | nil => exact absurd hp (pieces_ne_nil sep s)
    | cons p ps =>
      rw [hp] at ih
      by_cases hc : c = sep
      · rw [pieces, if_pos hc, hp, List.intercalate_cons_cons, ih, hc]
        rfl
      · rw [pieces, if_neg hc, hp]
        cases ps with
        | nil => simpa [List.intercalate] using ih
        | cons m ms =>
          rw [List.intercalate_cons_cons, List.cons_append, List.cons_append,
            ← List.intercalate_cons_cons, ih]

theorem not_mem_of_mem_pieces {sep : Char} {s p : List Char} (h : p ∈ pieces sep s) : sep ∉ p := by
  induction s generalizing p with
  | nil =>
    have hp : p = [] := by simpa [pieces] using h
    simp [hp]
  | cons c s ih =>
    by_cases hc : c = sep
    · simp only [pieces, if_pos hc, List.mem_cons] at h
      rcases h with rfl | h
      · simp
      · exact ih h
    · simp only [pieces, if_neg hc] at h
      cases hp : pieces sep s with
      | nil => exact absurd hp (pieces_ne_nil sep s)
      | cons q qs =>
        simp only [hp, List.mem_cons] at h ih
        rcases h with rfl | h
        · have hq := ih (Or.inl rfl)
          simp [Ne.symm hc, hq]
        · exact ih (Or.inr h)

theorem mem_of_mem_pieces {sep x : Char} {s p : List Char} (h : p ∈ pieces sep s) (hx : x ∈ p) :
    x ∈ s := by
  induction s generalizing p with
  | nil =>
    have hp : p = [] := by simpa [pieces] using h
    simp [hp] at hx
  | cons c s ih =>
    by_cases hc : c = sep
    · simp only [pieces, if_pos hc, List.mem_cons] at h
      rcases h with rfl | h
      · simp at hx
      · exact List.mem_cons_of_mem c (ih h hx)
    · simp only [pieces, if_neg hc] at h
      cases hp : pieces sep s with
      | nil => exact absurd hp (pieces_ne_nil sep s)
      | cons q qs =>
        simp only [hp, List.mem_cons] at h ih
        rcases h with rfl | h
        · rcases List.mem_cons.mp hx with rfl | hx
          · exact List.mem_cons_self
          · exact List.mem_cons_of_mem c (ih (Or.inl rfl) hx)
        · exact List.mem_cons_of_mem c (ih (Or.inr h) hx)

theorem mem_of_mem_intercalate {c : Char} {sep : List Char} (ls : List (List Char))
    (h : c ∈ sep.intercalate ls) : c ∈ sep ∨ ∃ l ∈ ls, c ∈ l := by
  induction ls with
  | nil => simp [List.intercalate] at h
  | cons l ls ih =>
    cases ls with
    | nil =>
      have hc : c ∈ l := by simpa [List.intercalate] using h
      exact Or.inr ⟨l, List.mem_cons_self, hc⟩
    | cons m ms =>
      have happend : sep.intercalate (l :: m :: ms) = l ++ sep ++ sep.intercalate (m :: ms) := by
        simp [List.intercalate]
      rw [happend, List.mem_append, List.mem_append] at h
      rcases h with (hl | hsep) | hrest
      · exact Or.inr ⟨l, List.mem_cons_self, hl⟩
      · exact Or.inl hsep
      · rcases ih hrest with hsep | ⟨k, hk, hc⟩
        · exact Or.inl hsep
        · exact Or.inr ⟨k, List.mem_cons_of_mem l hk, hc⟩

end ExprLine.Text
