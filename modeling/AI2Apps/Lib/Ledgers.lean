import Mathlib.Algebra.BigOperators.Group.List.Basic
import Mathlib.Algebra.Order.BigOperators.Group.List
import Mathlib.Data.Int.Basic
import Mathlib.Tactic.Linarith

/-!
# Sums over a part of a table

* `total`: the sum of the amounts of the rows that are selected.
* `total_concat`: a row that is added.
* `total_map_le`: rows that are changed in place, to amounts that are no larger.
-/

namespace AI2Apps.Ledgers

variable {ρ : Type} {amount : ρ → ℤ} {selected : ρ → Bool} {rows : List ρ} {r : ρ}

def total (amount : ρ → ℤ) (selected : ρ → Bool) : List ρ → ℤ
  | [] => 0
  | r :: rows => (if selected r then amount r else 0) + total amount selected rows

theorem total_concat : total amount selected (rows ++ [r]) =
    total amount selected rows + if selected r then amount r else 0 := by
  induction rows with
  | nil => simp [total]
  | cons q rows ih => rw [List.cons_append, total, total, ih, add_assoc]

theorem total_eq_zero (h : ∀ r ∈ rows, selected r = false) : total amount selected rows = 0 := by
  induction rows with
  | nil => rfl
  | cons q rows ih =>
    rw [total, ih fun r hr => h r (List.mem_cons_of_mem _ hr), h q (List.mem_cons_self ..)]
    rfl

/-- Rows that are changed in place, none to a larger amount. -/
theorem total_map_le {f : ρ → ρ} (hselected : ∀ r ∈ rows, selected (f r) = selected r)
    (hamount : ∀ r ∈ rows, amount (f r) ≤ amount r) :
    total amount selected (rows.map f) ≤ total amount selected rows := by
  induction rows with
  | nil => exact le_rfl
  | cons q rows ih =>
    have hrest := ih (fun r hr => hselected r (List.mem_cons_of_mem _ hr))
      fun r hr => hamount r (List.mem_cons_of_mem _ hr)
    have hq := hamount q (List.mem_cons_self ..)
    rw [List.map_cons, total, total, hselected q (List.mem_cons_self ..)]
    split_ifs
    · exact add_le_add hq hrest
    · exact add_le_add le_rfl hrest

end AI2Apps.Ledgers
