import ExprLine.Token.Basic
import Mathlib.Algebra.Order.Group.Int

namespace ExprLine

namespace Kind

/-- By how much a token changes the depth of parentheses. -/
def turn : Kind → Int
  | leftParen => 1
  | rightParen => -1
  | _ => 0

def isSum : Kind → Bool
  | plus | minus => true
  | _ => false

def isProduct : Kind → Bool
  | multiply | divide => true
  | _ => false

theorem isSum_iff {k : Kind} : k.isSum = true ↔ k = .plus ∨ k = .minus := by
  cases k <;> decide

theorem isProduct_iff {k : Kind} : k.isProduct = true ↔ k = .multiply ∨ k = .divide := by
  cases k <;> decide

theorem turn_of_isSum {k : Kind} (h : k.isSum = true) : k.turn = 0 := by
  cases k <;> first | rfl | simp [isSum] at h

theorem turn_of_isProduct {k : Kind} (h : k.isProduct = true) : k.turn = 0 := by
  cases k <;> first | rfl | simp [isProduct] at h

theorem turn_of_isOperand {k : Kind} (h : k.isOperand = true) : k.turn = 0 := by
  cases k <;> first | rfl | simp [isOperand] at h

end Kind

/-- Opening parentheses less closing ones. -/
def parenDepth : List Token → Int
  | [] => 0
  | a :: w => a.kind.turn + parenDepth w

@[simp] theorem parenDepth_nil : parenDepth [] = 0 := rfl

@[simp] theorem parenDepth_cons (a : Token) (w : List Token) :
    parenDepth (a :: w) = a.kind.turn + parenDepth w := rfl

@[simp] theorem parenDepth_append (v w : List Token) :
    parenDepth (v ++ w) = parenDepth v + parenDepth w := by
  induction v with
  | nil => simp
  | cons a v ih => rw [List.cons_append, parenDepth_cons, ih, parenDepth_cons, Int.add_assoc]

/-- No parenthesis is closed that was not opened, and none is left open. -/
structure Balanced (w : List Token) : Prop where
  nonneg : ∀ u v, w = u ++ v → 0 ≤ parenDepth u
  closed : parenDepth w = 0

namespace Balanced

theorem nil : Balanced [] := by
  refine ⟨?_, rfl⟩
  intro u v h
  obtain ⟨rfl, -⟩ := List.append_eq_nil_iff.mp h.symm
  exact le_rfl

theorem append {v w : List Token} (hv : Balanced v) (hw : Balanced w) : Balanced (v ++ w) := by
  refine ⟨?_, by rw [parenDepth_append, hv.closed, hw.closed, add_zero]⟩
  intro u x h
  rcases List.append_eq_append_iff.mp h with ⟨y, rfl, hy⟩ | ⟨y, hy, -⟩
  · rw [parenDepth_append, hv.closed, zero_add]
    exact hw.nonneg y x hy
  · exact hv.nonneg u y hy

theorem cons {a : Token} (h : a.kind.turn = 0) {w : List Token} (hw : Balanced w) :
    Balanced (a :: w) := by
  refine ⟨?_, by rw [parenDepth_cons, h, hw.closed, add_zero]⟩
  intro u x hu
  rcases List.cons_eq_append_iff.mp hu with ⟨rfl, -⟩ | ⟨v, rfl, hv⟩
  · exact le_rfl
  · rw [parenDepth_cons, h, zero_add]
    exact hw.nonneg v x hv

theorem wrap {a b : Token} (ha : a.kind = .leftParen) (hb : b.kind = .rightParen)
    {w : List Token} (hw : Balanced w) : Balanced (a :: (w ++ [b])) := by
  have hta : a.kind.turn = 1 := by rw [ha]; rfl
  have htb : b.kind.turn = -1 := by rw [hb]; rfl
  have hclosed : parenDepth (a :: (w ++ [b])) = 0 := by
    simp [hta, htb, hw.closed]
  refine ⟨?_, hclosed⟩
  intro u x hu
  rcases List.cons_eq_append_iff.mp hu with ⟨rfl, -⟩ | ⟨v, rfl, hv⟩
  · exact le_rfl
  rcases List.append_eq_append_iff.mp hv with ⟨y, rfl, hy⟩ | ⟨y, hy, -⟩
  · rcases List.cons_eq_append_iff.mp hy with ⟨rfl, -⟩ | ⟨z, rfl, hz⟩
    · simp [hta, hw.closed]
    · obtain ⟨rfl, -⟩ := List.append_eq_nil_iff.mp hz.symm
      exact hclosed.ge
  · have hnonneg := hw.nonneg v y hy
    rw [parenDepth_cons, hta]
    omega

end Balanced

/-- The parts between the tokens for `op` that stand outside of all parentheses: the first part,
and then each such token with the part after it. The word starts at depth `d`. -/
def cut (op : Kind → Bool) : Int → List Token → List Token × List (Token × List Token)
  | _, [] => ([], [])
  | d, a :: w =>
    if d = 0 ∧ op a.kind = true then ([], (a, (cut op 0 w).1) :: (cut op 0 w).2)
    else (a :: (cut op (d + a.kind.turn) w).1, (cut op (d + a.kind.turn) w).2)

theorem cut_operator {op : Kind → Bool} {a : Token} (h : op a.kind = true) (w : List Token) :
    cut op 0 (a :: w) = ([], (a, (cut op 0 w).1) :: (cut op 0 w).2) := by
  rw [cut, if_pos ⟨rfl, h⟩]

/-- No token for `op` stands outside of all parentheses in a word that starts at depth `d`. -/
def Plain (op : Kind → Bool) : Int → List Token → Prop
  | _, [] => True
  | d, a :: w => (d = 0 → op a.kind = false) ∧ Plain op (d + a.kind.turn) w

theorem Plain.append {op : Kind → Bool} {d : Int} {v w : List Token} (hv : Plain op d v)
    (hw : Plain op (d + parenDepth v) w) : Plain op d (v ++ w) := by
  induction v generalizing d with
  | nil => simpa using hw
  | cons a v ih =>
    refine ⟨hv.1, ih hv.2 ?_⟩
    rw [parenDepth_cons, ← add_assoc] at hw
    exact hw

/-- Where the depth stays positive there is nothing outside of all parentheses. -/
theorem plain_of_pos {op : Kind → Bool} {d : Int} {w : List Token}
    (h : ∀ u v, w = u ++ v → 0 < d + parenDepth u) : Plain op d w := by
  induction w generalizing d with
  | nil => trivial
  | cons a w ih =>
    refine ⟨?_, ih ?_⟩
    · intro hd
      have hpos := h [] (a :: w) rfl
      rw [parenDepth_nil] at hpos
      omega
    · intro u v hw
      have hpos := h (a :: u) v (by rw [hw, List.cons_append])
      rw [parenDepth_cons] at hpos
      omega

theorem Balanced.plain_inside {op : Kind → Bool} {w : List Token} (h : Balanced w) :
    Plain op 1 w := by
  apply plain_of_pos
  intro u v hw
  have hnonneg := h.nonneg u v hw
  omega

theorem cut_append {op : Kind → Bool} {d : Int} {v : List Token} (h : Plain op d v)
    (w : List Token) : cut op d (v ++ w) =
      (v ++ (cut op (d + parenDepth v) w).1, (cut op (d + parenDepth v) w).2) := by
  induction v generalizing d with
  | nil => simp
  | cons a v ih =>
    have hno : ¬(d = 0 ∧ op a.kind = true) := by
      rintro ⟨hd, ha⟩
      rw [h.1 hd] at ha
      exact absurd ha (by decide)
    rw [List.cons_append, cut, if_neg hno, ih h.2, parenDepth_cons, add_assoc]
    rfl

end ExprLine
