import Mathlib.Algebra.BigOperators.Group.List.Basic
import Mathlib.Tactic.Abel

/-! Sums in which the place of a symbol decides what it adds: what a replaced symbol, and two that change places, do to
    them. -/

namespace CheckDigit
variable {α M : Type} [AddCommMonoid M] (term : Nat → α → M)

/-- The sum over symbols that stand from the place `i` on. -/
def total : Nat → List α → M
  | _, [] => 0
  | i, a :: l => term i a + total (i + 1) l

theorem total_append (i : Nat) (u v : List α) :
    total term i (u ++ v) = total term i u + total term (i + u.length) v := by
  induction u generalizing i with
  | nil => simp [total]
  | cons a u ih =>
    have hplace : i + 1 + u.length = i + (a :: u).length := by
      rw [List.length_cons]
      omega
    rw [List.cons_append, total, total, ih, hplace, add_assoc]

theorem total_eq_sum (i : Nat) (l : List α) : total term i l = ((l.zipIdx i).map fun a => term a.2 a.1).sum := by
  induction l generalizing i with
  | nil => rfl
  | cons a l ih => rw [total, List.zipIdx_cons, List.map_cons, List.sum_cons, ih]

theorem total_replace (i : Nat) (u v : List α) (a b : α) :
    total term i (u ++ a :: v) + term (i + u.length) b = total term i (u ++ b :: v) + term (i + u.length) a := by
  rw [total_append, total_append, total, total]
  abel

theorem total_swap (i : Nat) (u v : List α) (a b : α) :
    total term i (u ++ a :: b :: v) + (term (i + u.length) b + term (i + u.length + 1) a) =
      total term i (u ++ b :: a :: v) + (term (i + u.length) a + term (i + u.length + 1) b) := by
  rw [total_append, total_append, total, total, total, total]
  abel

end CheckDigit
