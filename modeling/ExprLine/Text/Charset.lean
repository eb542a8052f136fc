namespace ExprLine.Text

/-- A set of characters as the closed ranges of code points it covers. -/
abbrev Charset := List (Nat × Nat)

def Charset.has (s : Charset) (c : Char) : Bool :=
  s.any fun (lo, hi) => lo ≤ c.toNat && c.toNat ≤ hi

theorem Charset.has_iff {s : Charset} {c : Char} :
    s.has c = true ↔ ∃ r ∈ s, r.1 ≤ c.toNat ∧ c.toNat ≤ r.2 := by
  simp [Charset.has]

/-- The blanks an expression may hold between its tokens; the separators U+001C to U+001F count. -/
def blanks : Charset :=
  [(0x09, 0x0D), (0x1C, 0x20), (0x85, 0x85), (0xA0, 0xA0), (0x1680, 0x1680), (0x2000, 0x200A),
    (0x2028, 0x2029), (0x202F, 0x202F), (0x205F, 0x205F), (0x3000, 0x3000)]

def isBlank (c : Char) : Bool := blanks.has c

/-- The White_Space property of Unicode. It lacks the separators U+001C to U+001F. -/
def whiteSpace : Charset :=
  [(0x09, 0x0D), (0x20, 0x20), (0x85, 0x85), (0xA0, 0xA0), (0x1680, 0x1680), (0x2000, 0x200A),
    (0x2028, 0x2029), (0x202F, 0x202F), (0x205F, 0x205F), (0x3000, 0x3000)]

/-- `s` without the members of `cs` at its two ends. -/
def trim (cs : Charset) (s : List Char) : List Char :=
  ((s.dropWhile cs.has).reverse.dropWhile cs.has).reverse

/-- Every blank lies in the basic plane, so it takes one UTF-16 unit. -/
theorem toNat_lt_of_isBlank {c : Char} (h : isBlank c = true) : c.toNat < 0x10000 := by
  obtain ⟨r, hr, -, hc⟩ := Charset.has_iff.mp h
  have hb : ∀ r ∈ blanks, r.2 < 0x10000 := by decide
  exact Nat.lt_of_le_of_lt hc (hb r hr)

end ExprLine.Text
