import Mathlib
import Engraver.Number.Word

/-!
# Arithmetic in words

What does not fit its word has no answer, so whatever is answered is the exact number.
-/

namespace Engraver.Word

/-- A number with a sign in a word of `width` bits. -/
def signed? (width : Nat) (z : Int) : Option Int :=
  if -2 ^ (width - 1) ≤ z ∧ z < 2 ^ (width - 1) then some z else none

/-- A difference of counts, which is no count below zero. -/
def difference? (m n : Nat) : Option Nat :=
  if n ≤ m then some (m - n) else none

/-- A quotient of counts, rounded down. -/
def quotient? (m n : Nat) : Option Nat :=
  if n = 0 then none else some (m / n)

/-- Counts added up one after the other in a word of `width` bits. -/
def sum? (width : Nat) (counts : List Nat) : Option Nat :=
  counts.foldlM (fun total n => count? width (total + n)) 0

variable {α : Type} {width m n : Nat}

theorem count?_eq (h : n < 2 ^ width) : count? width n = some n :=
  if_pos h

theorem count?_eq_none (h : 2 ^ width ≤ n) : count? width n = none :=
  if_neg (Nat.not_lt.mpr h)

theorem signed?_eq {z : Int} (h : z.natAbs < 2 ^ (width - 1)) : signed? width z = some z := by
  have hcast : (z.natAbs : Int) < 2 ^ (width - 1) := by exact_mod_cast h
  exact if_pos ⟨by omega, by omega⟩

theorem difference?_eq (h : n ≤ m) : difference? m n = some (m - n) :=
  if_pos h

/-! What fits is passed on as it is. -/

theorem bind_count? (h : n < 2 ^ width) (f : Nat → Option α) : (count? width n >>= f) = f n := by
  rw [count?_eq h]
  rfl

theorem bind_signed? {z : Int} (h : z.natAbs < 2 ^ (width - 1)) (f : Int → Option α) :
    (signed? width z >>= f) = f z := by
  rw [signed?_eq h]
  rfl

theorem bind_quotient? (h : 0 < n) (f : Nat → Option α) : (quotient? m n >>= f) = f (m / n) := by
  rw [quotient?, if_neg (Nat.ne_of_gt h)]
  rfl

theorem sum?_eq {counts : List Nat} (h : counts.sum < 2 ^ width) :
    sum? width counts = some counts.sum := by
  suffices hfrom : ∀ total, total + counts.sum < 2 ^ width →
      counts.foldlM (fun total n => count? width (total + n)) total = some (total + counts.sum) by
    simpa [sum?] using hfrom 0 (by omega)
  -- No partial sum is larger than the whole one, so the bound on the whole one is all that is carried.
  clear h
  induction counts with
  | nil => intro total _; rfl
  | cons n counts ih =>
    intro total h
    rw [List.sum_cons] at h
    rw [List.foldlM_cons, bind_count? (by omega), List.sum_cons, ← Nat.add_assoc]
    exact ih (total + n) (by omega)

end Engraver.Word
