/-!
# Grids row by row

A grid that is stored row by row, all of one width, has each of its entries at the place that row and width
make out.
-/

namespace Engraver

section Rows

variable {α : Type} {rows : List (List α)} {width : Nat}

theorem length_flatten_rows (h : ∀ row ∈ rows, row.length = width) :
    rows.flatten.length = width * rows.length := by
  have hlengths : rows.map List.length = List.replicate rows.length width :=
    List.eq_replicate_iff.mpr ⟨List.length_map _, by simpa using h⟩
  rw [List.length_flatten, hlengths, List.sum_replicate_nat, Nat.mul_comm]

theorem getElem?_flatten_rows (h : ∀ row ∈ rows, row.length = width) (row col : Nat) (hcol : col < width) :
    rows.flatten[row * width + col]? = rows[row]?.bind (·[col]?) := by
  -- The induction is on the rows above.
  induction rows generalizing row with
  | nil => rfl
  | cons first rest ih =>
    have hfirst : first.length = width := h first List.mem_cons_self
    have hrest := ih fun row hrow => h row (List.mem_cons_of_mem _ hrow)
    rw [List.flatten_cons]
    cases row with
    | zero =>
      rw [Nat.zero_mul, Nat.zero_add, List.getElem?_append_left (hfirst ▸ hcol)]
      rfl
    | succ row =>
      have hskip : (row + 1) * width + col = first.length + (row * width + col) := by
        rw [hfirst, Nat.succ_mul, Nat.add_comm _ width, Nat.add_assoc]
      rw [hskip, List.getElem?_append_right (Nat.le_add_right _ _), Nat.add_sub_cancel_left, hrest]
      rfl

end Rows

end Engraver
