namespace ExprLine.Text

variable {α : Type}

/-- The items of `s` before index `n`. A negative `n` counts from the end, and an index
outside `s` is moved to the nearer end, so no index is refused. -/
def before (s : List α) (n : Int) : List α :=
  if n < 0 then s.take (s.length + n).toNat else s.take n.toNat

@[simp] theorem before_natCast (s : List α) (n : Nat) : before s n = s.take n := by
  have h : ¬(n : Int) < 0 := by omega
  simp only [before, if_neg h, Int.toNat_natCast]

theorem before_isPrefix (s : List α) (n : Int) : before s n <+: s := by
  unfold before
  split <;> exact List.take_prefix _ _

end ExprLine.Text
