import AI2Apps.Context.Pairing

/-!
# What is selected

The parts of a surface that `prepare` and `prepare_range` freeze: they lie between two cuts
and hold nothing that is pinned.

* `freeze_eq_ok`: the parts of a surface.
* `prepareRange_eq_ok`: a range that is asked for.
-/

namespace AI2Apps.Context

variable {tools : Tools} {surface : Surface} {route : Route} {meter : Meter} {values : List ℤ}
  {start stop : ℕ} {prepared : Prepared}

/-- The nodes from an index up to another. -/
def Surface.span (surface : Surface) (start stop : ℕ) : List Node :=
  (surface.nodes.take stop).drop start

theorem freeze_eq_ok (h : freeze tools surface route values start stop = .ok prepared) :
    prepared.sessionId = surface.sessionId ∧ prepared.source = surface.span start stop ∧
      prepared.before = (surface.nodes.take start).map Node.id ∧
      prepared.after = (surface.nodes.drop stop).map Node.id ∧ prepared.route = route ∧
      prepared.sourceCost = ((values.take stop).drop start).sum := by
  obtain ⟨sha256, -, h⟩ := bind_eq_ok_iff.mp h
  obtain rfl := Except.ok.inj h
  exact ⟨rfl, rfl, rfl, rfl, rfl, rfl⟩

/-- **A range that is frozen lies between two cuts**, and nothing in it is protected. -/
theorem prepareRange_eq_ok (h : prepareRange tools surface route meter start stop = .ok prepared) :
    start < stop ∧ stop ≤ surface.nodes.length ∧ prepared.source = surface.span start stop ∧
      (∀ n ∈ surface.span start stop, n.pinned = false ∧ n.message.role ≠ some (str "system")) ∧
      pendingAfter ∅ (surface.span start stop) = .ok ∅ ∧
      ∃ values total, costs surface route meter = .ok (values, total) ∧
        freeze tools surface route values start stop = .ok prepared := by
  unfold prepareRange at h
  split_ifs at h with hrange
  obtain ⟨⟨values, total⟩, hcosts, h⟩ := bind_eq_ok_iff.mp h
  obtain ⟨cuts, hcuts, h⟩ := bind_eq_ok_iff.mp h
  dsimp only at h
  split_ifs at h with hbad
  obtain ⟨hstart, hstop⟩ := hrange
  rw [not_or, not_or, Bool.not_eq_false, Bool.not_eq_false, Bool.not_eq_true,
    List.any_eq_false] at hbad
  obtain ⟨hleft, hright, hall⟩ := hbad
  refine ⟨hstart, hstop, (freeze_eq_ok h).2.1, fun n hn => ?_,
    pendingAfter_between hcuts hstart.le hleft hright, values, total, hcosts, h⟩
  have hn' := hall n hn
  rw [Bool.or_eq_true, not_or, Bool.not_eq_true, decide_eq_true_eq] at hn'
  exact hn'

end AI2Apps.Context
