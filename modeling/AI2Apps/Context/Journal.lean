import AI2Apps.Context.Derived
import AI2Apps.Context.Selection

/-!
# The journal of a session

The transactions of a session come one after the other: each has one start, at most one
replacement, of exactly what the start holds, and one end, and only the last can be open.  So
what is pending is the one that is open, and a transaction that was ended replaces nothing
later.

* `Serial`: such a journal.
* `Serial.pending_eq`, `Serial.readSource_eq`: what `_pending` and `source` find.
-/

namespace AI2Apps.Context

variable {floats : FloatText} {tools : Tools} {uuids : Uuids} {closed : List Started}
  {current : Option Started} {journal : List Entry} {s : Started}

/-! ## One transaction after the other -/

/-- The journal of closed transactions, and of one that is open or none. -/
inductive Serial : List Started → Option Started → List Entry → Prop
  | nil : Serial [] none []
  | start {closed : List Started} {journal : List Entry} {s : Started} :
      Serial closed none journal → s.transaction ∉ closed.map Started.transaction →
      s.source ≠ [] → Serial closed (some s) (journal ++ [.started s])
  | finish {closed : List Started} {journal : List Entry} {s : Started} (status : String)
      (reason : Option String) :
      Serial closed (some s) journal →
      Serial (closed ++ [s]) none (journal ++ [.ended s.transaction status reason])
  | replace {closed : List Started} {journal : List Entry} {s : Started} {e : Entry}
      {summary : Node} (status : String) :
      Serial closed (some s) journal →
      e.replacement? = some ⟨s.transaction, s.source, summary⟩ →
      Serial (closed ++ [s]) none (journal ++ [e, .ended s.transaction status none])

namespace Serial

/-- All transactions, the open one last. -/
theorem started_eq (h : Serial closed current journal) :
    journal.filterMap Entry.started? = closed ++ current.toList := by
  induction h with
  | nil => rfl
  | start _ _ _ ih =>
    rw [List.filterMap_append, ih]
    exact congrArg (· ++ _) (List.append_nil _)
  | finish _ _ _ ih =>
    rw [List.filterMap_append, ih]
    rfl
  | @replace _ _ s e _ _ _ he ih =>
    have hstarted : e.started? = none := by
      cases e with
      | started _ => cases he
      | _ => rfl
    rw [List.filterMap_append, ih, List.filterMap_cons_none hstarted]
    rfl

theorem ended_eq (h : Serial closed current journal) :
    journal.filterMap Entry.ended? = closed.map Started.transaction := by
  induction h with
  | nil => rfl
  | start _ _ _ ih =>
    rw [List.filterMap_append, ih]
    exact List.append_nil _
  | finish _ _ _ ih =>
    rw [List.filterMap_append, ih, List.map_append]
    rfl
  | @replace _ _ s e _ _ _ he ih =>
    have hended : e.ended? = none := by
      cases e with
      | ended _ _ _ => cases he
      | _ => rfl
    rw [List.filterMap_append, ih, List.map_append, List.filterMap_cons_none hended]
    rfl

theorem source_ne_nil (h : Serial closed current journal) :
    ∀ s ∈ closed ++ current.toList, s.source ≠ [] := by
  induction h with
  | nil => exact fun s hs => absurd hs List.not_mem_nil
  | start _ _ hsource ih =>
    rw [Option.toList_none, List.append_nil] at ih
    exact List.forall_mem_append.mpr ⟨ih, List.forall_mem_singleton.mpr hsource⟩
  | finish _ _ _ ih =>
    rw [Option.toList_none, List.append_nil]
    exact ih
  | replace _ _ _ ih =>
    rw [Option.toList_none, List.append_nil]
    exact ih

theorem nodup (h : Serial closed current journal) :
    ((closed ++ current.toList).map Started.transaction).Nodup := by
  induction h with
  | nil => exact List.nodup_nil
  | start _ hfresh _ ih =>
    rw [Option.toList_none, List.append_nil] at ih
    rw [Option.toList_some, List.map_append, List.map_singleton]
    exact List.nodup_append_comm.mp (List.nodup_cons.mpr ⟨hfresh, ih⟩)
  | finish _ _ _ ih =>
    rw [Option.toList_none, List.append_nil]
    exact ih
  | replace _ _ _ ih =>
    rw [Option.toList_none, List.append_nil]
    exact ih

/-- A replacement is that of a closed transaction. -/
theorem replacements_sublist (h : Serial closed current journal) :
    ((replacements journal).map fun r => (r.transaction, r.source)).Sublist
      (closed.map fun s => (s.transaction, s.source)) := by
  induction h with
  | nil => exact .refl _
  | start _ _ _ ih =>
    rw [replacements, List.filterMap_append, List.map_append]
    exact (List.append_nil _).symm ▸ ih
  | finish _ _ _ ih =>
    rw [replacements, List.filterMap_append, List.map_append, List.map_append]
    exact ih.append (List.nil_sublist _)
  | replace _ _ he ih =>
    rw [replacements, List.filterMap_append, List.map_append, List.map_append,
      List.filterMap_cons_some he]
    exact ih.append (.refl _)

/-- **What is pending is the transaction that is open.** -/
theorem pending_eq (h : Serial closed current journal) : pending journal = current := by
  have hclosed : closed.filter (fun s =>
      decide (s.transaction ∉ closed.map Started.transaction)) = [] := by
    refine List.filter_eq_nil_iff.mpr fun s hs => ?_
    rw [decide_eq_true_eq, not_not]
    exact List.mem_map_of_mem hs
  rw [pending, opened, h.started_eq, h.ended_eq, List.filter_append, hclosed, List.nil_append]
  cases current with
  | none => rfl
  | some s =>
    have hnodup := h.nodup
    rw [Option.toList_some, List.map_append, List.map_singleton] at hnodup
    have hfresh : s.transaction ∉ closed.map Started.transaction :=
      (List.nodup_cons.mp (List.nodup_append_comm.mp hnodup)).1
    have hopen : [s].filter (fun s => decide (s.transaction ∉ closed.map Started.transaction)) =
        [s] :=
      List.filter_eq_self.mpr (List.forall_mem_singleton.mpr (decide_eq_true hfresh))
    rw [Option.toList_some, hopen]
    rfl

/-- **What a transaction took from the surface can be read**, open or closed. -/
theorem readSource_eq (floats : FloatText) (h : Serial closed current journal)
    (hs : s ∈ closed ++ current.toList) :
    readSource floats journal s.transaction = .ok (sourceText floats s.source) := by
  have hfind : (closed ++ current.toList).find? (fun s' => s'.transaction = s.transaction) =
      some s := by
    cases hfind : (closed ++ current.toList).find? fun s' => s'.transaction = s.transaction with
    | none => exact absurd (decide_eq_true rfl) (List.find?_eq_none.mp hfind s hs)
    | some s' =>
      have hmem := List.mem_of_find?_eq_some hfind
      have hsome := List.find?_some hfind
      have heq : s'.transaction = s.transaction := of_decide_eq_true hsome
      rw [List.inj_on_of_nodup_map h.nodup hmem hs heq]
  rw [readSource, h.started_eq, hfind]

end Serial

end AI2Apps.Context
