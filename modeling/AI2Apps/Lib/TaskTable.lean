import Mathlib.Logic.Function.Basic

/-!
# Tables of tasks

The tasks of an event loop, each known by a name, and what is true of every task or of
some task after one of them moved on.  A task that is over has no entry.

* `TaskTable.forall_update`: one entry is replaced.
-/

namespace AI2Apps.TaskTable

variable {τ α : Type} [DecidableEq τ] {tasks : τ → Option α} {t : τ} {new : Option α}

/-- What holds of every task still does when it holds of the one that moved. -/
theorem forall_update {P : τ → α → Prop} (hnew : ∀ x, new = some x → P t x)
    (h : ∀ u x, u ≠ t → tasks u = some x → P u x) :
    ∀ u x, Function.update tasks t new u = some x → P u x := by
  intro u x hx
  rcases eq_or_ne u t with rfl | hne
  · exact hnew x (by rwa [Function.update_self] at hx)
  · exact h u x hne (by rwa [Function.update_of_ne hne] at hx)

/-- A task is the one that moved, or one of those that were there. -/
theorem update_cases {u : τ} {x : α} (h : Function.update tasks t new u = some x) :
    u = t ∧ new = some x ∨ u ≠ t ∧ tasks u = some x := by
  rcases eq_or_ne u t with rfl | hne
  · exact .inl ⟨rfl, by rwa [Function.update_self] at h⟩
  · exact .inr ⟨hne, by rwa [Function.update_of_ne hne] at h⟩

end AI2Apps.TaskTable
