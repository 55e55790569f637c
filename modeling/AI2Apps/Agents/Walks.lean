import AI2Apps.Agents.TerminalRuns

/-!
# Loops that rewrite runs one by one

A command on several runs reads them first and then changes each in turn.  A walk
is such a loop: it rewrites the runs that satisfy a condition, and stops at the
first on which the rewriting fails.  What the table holds afterwards is a function
of the runs that were passed.

* `updateRun_run?`: one run rewritten.
* `Walked`: what a walk over some runs leaves.
* `walk_spec`: the rule for the loop.
-/

namespace AI2Apps.Agents

open Clock Faults

/-- What an update of one run leaves. -/
theorem updateRun_run? {db : Db} {id : Str} {r : Run} {f : Run → Run} {hf : ∀ r, (f r).id = r.id}
    (hr : db.run? id = some r) (hstatus : statusAllowed r.status (f r).status = true) :
    wp (updateRun id f hf) (fun _ s => (∀ id', s.run? id' =
      if id' = id then some (f r) else db.run? id') ∧ s.steps = db.steps) (fun _ _ => False) db := by
  have hid : r.id = id := Table.key_of_get? hr
  unfold updateRun updateRuns
  rw [wp_bind, wp_get]
  split
  · refine ⟨fun id' => ?_, rfl⟩
    show (db.runs.update _ f hf).get? id' = _
    rw [Table.get?_update]
    split
    · rename_i heq
      rw [heq, show db.runs.get? id = some r from hr]
      simp [hid]
    · rename_i hne
      show (db.run? id').map _ = _
      cases hget : db.run? id' with
      | none => rfl
      | some r' =>
        have hid' : r'.id ≠ id := by rw [Table.key_of_get? hget]; exact hne
        simp [hid']
  · rename_i hrefused
    refine hrefused (List.all_eq_true.mpr fun r' hr' => ?_)
    by_cases hsel : r'.id = id
    · have hget := Table.get?_of_mem hr'
      rw [hsel, show db.runs.get? id = some r from hr] at hget
      obtain rfl := Option.some.inj hget
      rw [hstatus, Bool.or_true]
    · simp [hsel]

/-- The run after a walk over `done` that rewrites the runs satisfying `p`. -/
def walkedIn (p : Run → Prop) [DecidablePred p] (g : Run → Run) (done : List Run) (r : Run) : Run :=
  if r.id ∈ done.map Run.id ∧ p r then g r else r

section Walk

variable {db : Db} {p : Run → Prop} [DecidablePred p] {g : Run → Run}

theorem walkedIn_snoc_self {done : List Run} {r : Run} (h : p r) :
    walkedIn p g (done ++ [r]) r = g r :=
  if_pos ⟨by simp, h⟩

theorem walkedIn_snoc_of_ne {done : List Run} {item r : Run} (h : r.id = item.id → ¬ p r) :
    walkedIn p g (done ++ [item]) r = walkedIn p g done r := by
  refine if_congr ?_ rfl rfl
  rw [List.map_append, List.mem_append, List.map_singleton, List.mem_singleton]
  constructor
  · rintro ⟨hmem | heq, hp⟩
    · exact ⟨hmem, hp⟩
    · exact absurd hp (h heq)
  · exact fun ⟨hmem, hp⟩ => ⟨.inl hmem, hp⟩

/-- What a walk over `done` leaves: the steps, and the runs it did not rewrite. -/
structure Walked (p : Run → Prop) [DecidablePred p] (g : Run → Run) (db : Db) (done : List Run)
    (s : Db) : Prop where
  steps : s.steps = db.steps
  runs : ∀ id, s.run? id = (db.run? id).map (walkedIn p g done)

theorem Walked.skip {done : List Run} {item : Run} {s : Db} (h : Walked p g db done s)
    (hitem : db.run? item.id = some item) (hp : ¬ p item) : Walked p g db (done ++ [item]) s where
  steps := h.steps
  runs id := by
    rw [h.runs]
    cases hr : db.run? id with
    | none => rfl
    | some r =>
      refine congrArg some (walkedIn_snoc_of_ne fun hid => ?_).symm
      rw [← Table.key_of_get? hr, hid, hitem] at hr
      exact Option.some.inj hr ▸ hp

theorem Walked.rewrite {done : List Run} {item : Run} {s t : Db} (h : Walked p g db done s)
    (hitem : db.run? item.id = some item) (hp : p item) (hsteps : t.steps = s.steps)
    (ht : ∀ id, t.run? id = if id = item.id then some (g item) else s.run? id) :
    Walked p g db (done ++ [item]) t where
  steps := hsteps.trans h.steps
  runs id := by
    rw [ht]
    split
    · rename_i hid
      rw [hid, hitem, Option.map_some, walkedIn_snoc_self hp]
    · rename_i hne
      rw [h.runs]
      cases hr : db.run? id with
      | none => rfl
      | some r =>
        refine congrArg some (walkedIn_snoc_of_ne fun hid => ?_).symm
        exact absurd ((Table.key_of_get? hr).symm.trans hid) hne

/-- **A walk over runs of the table** rewrites those that satisfy `p`, up to the first on which
it fails. -/
theorem walk_spec {runs : List Run} (hnodup : runs.Nodup) (hrow : ∀ r ∈ runs, r ∈ db.runs.rows)
    (fails : Run → Prop) {body : Run → Tx Unit}
    (hskip : ∀ item s, s.steps = db.steps → ¬ p item →
      wp (body item) (fun _ t => t = s) (fun _ _ => False) s)
    (hrewrite : ∀ item s, s.steps = db.steps → s.run? item.id = some item → p item → ¬ fails item →
      wp (body item) (fun _ t => t.steps = s.steps ∧
        ∀ id, t.run? id = if id = item.id then some (g item) else s.run? id) (fun _ _ => False) s)
    (hfail : ∀ item s, s.steps = db.steps → s.run? item.id = some item → p item → fails item →
      wp (body item) (fun _ _ => False) (fun _ t => t = s) s) :
    wp (forM runs body)
      (fun _ s => Walked p g db runs s ∧ ∀ x ∈ runs, p x → ¬ fails x)
      (fun _ s => ∃ done item rest, runs = done ++ item :: rest ∧ Walked p g db done s ∧
        p item ∧ fails item ∧ ∀ x ∈ done, p x → ¬ fails x) db := by
  refine wp_forM (I := fun done s => Walked p g db done s ∧ ∀ x ∈ done, p x → ¬ fails x)
    (fun done item rest s heq hs => ?_) ⟨⟨rfl, fun id => ?_⟩, fun _ h => (nomatch h)⟩
  · obtain ⟨hwalked, hdone⟩ := hs
    have hitem : db.run? item.id = some item := Table.get?_of_mem (hrow item (heq ▸ by simp))
    have hsnoc : ¬ fails item ∨ ¬ p item → ∀ x ∈ done ++ [item], p x → ¬ fails x := by
      intro h x hx hpx
      rcases List.mem_append.mp hx with hx | hx
      · exact hdone x hx hpx
      · obtain rfl := List.mem_singleton.mp hx
        exact h.resolve_right fun hnot => hnot hpx
    by_cases hp : p item
    · -- the item has not been met before, so it is as the list has it
      have hnew : item.id ∉ done.map Run.id := fun h => by
        obtain ⟨r, hr, hid⟩ := List.mem_map.mp h
        have hr' : r ∈ runs := heq ▸ List.mem_append_left _ hr
        obtain rfl := Table.eq_of_key_eq (hrow r hr') (Table.mem_of_get? hitem) hid
        rw [heq] at hnodup
        exact (List.nodup_append.mp hnodup).2.2 _ hr _ (by simp) rfl
      have hsame : s.run? item.id = some item := by
        rw [hwalked.runs, hitem]
        exact congrArg some (if_neg fun h => hnew h.1)
      by_cases hf : fails item
      · refine wp_mono (hfail item s hwalked.steps hsame hp hf) (fun _ _ h => h.elim) ?_
        rintro _ _ rfl
        exact ⟨done, item, rest, heq, hwalked, hp, hf, hdone⟩
      · refine wp_mono (hrewrite item s hwalked.steps hsame hp hf)
          (fun _ t ht => ⟨hwalked.rewrite hitem hp ht.1 ht.2, hsnoc (.inl hf)⟩) fun _ _ h => h.elim
    · refine wp_mono (hskip item s hwalked.steps hp) ?_ fun _ _ h => h.elim
      rintro _ _ rfl
      exact ⟨hwalked.skip hitem hp, hsnoc (.inr hp)⟩
  · cases db.run? id <;> rfl

end Walk

end AI2Apps.Agents
