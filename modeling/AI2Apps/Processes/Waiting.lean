import AI2Apps.Processes.Steps

/-!
# The waiter, the worker thread and the spawn

The steps that change more than the entry of one task: `_wait` takes the child out of the
live map, a worker thread writes the record, `start` brings the child into being.

* `Invariant.cleanup`, `Invariant.drained`: `_wait`.
* `Invariant.worker`: a call of the repository takes effect.
* `Invariant.spawned`: the last section of `start`, where the condition is needed.
-/

namespace AI2Apps.Processes

variable {s s' : System} {t : TaskId} {id : ℕ} {c : ChildId} {pc : Pc} {thread : Thread}
  {a : Answer}

/-! ## `_wait` -/

/-- The waiter goes on to await something else. -/
theorem Invariant.waiting (hs : Invariant s) (htask : s.tasks (.waiter id) = some ⟨pc, thread⟩)
    (hpc : pc.onDuty = false) {task : Task} (hfits : s.Fits (.waiter id) task)
    (hnew : ∀ id, task.pc ≠ .spawning id) : Invariant (s.setTask (.waiter id) (some task)) :=
  hs.setTask (replaces_free htask hpc (fun _ _ => ⟨task, rfl⟩) fun _ h =>
    Option.some.inj h ▸ ⟨(gentle_setTask s _ _).fits hfits, hnew⟩)

/-- The waiter ends after its record is settled. -/
theorem Invariant.waiterOver (hs : Invariant s) (htask : s.tasks (.waiter id) = some ⟨pc, thread⟩)
    (hpc : pc.onDuty = false) (hend : s.db.Ended id) : Invariant (s.over (.waiter id)) := by
  refine hs.setTask ⟨fun _ h => (nomatch h), fun _ _ h => (nomatch h), ?_, ?_, ?_⟩
  · intro x answer c child h
    rw [htask] at h
    cases h
    cases hpc
  · intro task id' h hspawn
    rw [htask] at h
    cases h
    cases hspawn
    cases hpc
  · intro task id' _ heq
    cases heq
    exact .inl hend

theorem ended_of_failed (hs : Invariant s) {stream : Stream}
    (h : (s.tasks (.reader id stream)).map Task.pc = some .failed) : s.db.Ended id := by
  obtain ⟨task, htask, hpc⟩ := Option.map_eq_some_iff.mp h
  have hfits := hs.fits _ task htask
  unfold System.Fits at hfits
  rw [hpc] at hfits
  obtain ⟨id', stream', heq, hend⟩ := hfits
  cases heq
  exact hend

theorem not_returned {o : Option Pc} (hdone : readerDone o = true)
    (h : readerReturned o = false) : o = some .failed := by
  cases o with
  | none => cases h
  | some pc => cases pc <;> first | rfl | cases hdone

/-- A reader that ended with an exception has settled the record. -/
theorem ended_of_unreturned (hs : Invariant s) (hdone : s.readerIs id readerDone = true)
    (hfailed : s.readerIs id readerReturned = false) : s.db.Ended id := by
  obtain ⟨hout, herr⟩ : readerDone ((s.tasks (.reader id .stdout)).map Task.pc) = true ∧
      readerDone ((s.tasks (.reader id .stderr)).map Task.pc) = true := by
    simpa [System.readerIs] using hdone
  cases hret : readerReturned ((s.tasks (.reader id .stdout)).map Task.pc) with
  | false => exact ended_of_failed hs (not_returned hout hret)
  | true =>
    have herr' : readerReturned ((s.tasks (.reader id .stderr)).map Task.pc) = false := by
      simpa [System.readerIs, hret] using hfailed
    exact ended_of_failed hs (not_returned herr herr')

/-- A reader that ended with an exception ends the waiter. -/
theorem Invariant.drained (hs : Invariant s) {code : ℤ}
    (htask : s.tasks (.waiter id) = some ⟨.drain id c code, thread⟩)
    (hc : s.Owns id c) (hdead : s.isDead c = true) :
    Invariant (s.goOn (.waiter id) a .done (.drain id c code)) := by
  show Invariant (if !s.readerIs id readerDone then s
    else if !s.readerIs id readerReturned then s.over (.waiter id)
    else s.toThread (.waiter id) (.inspect id c code))
  split
  · exact hs
  · rename_i hdone
    split
    · rename_i hfailed
      exact hs.waiterOver htask rfl (ended_of_unreturned hs (by simpa using hdone)
        (by simpa using hfailed))
    · exact hs.waiting htask rfl ⟨⟨rfl, hc, hdead⟩, fun h => absurd rfl h⟩ fun _ => nofun

/-- The tasks that `start` creates for the record. -/
def TaskId.watches (id : ℕ) : TaskId → Bool
  | .external _ => false
  | .reader id' _ | .watchdog id' | .waiter id' => id' = id

/-- The tasks that `cleanup` leaves. -/
theorem tasks_cleanup {u : TaskId} :
    (s.cleanup (.waiter id) id).tasks u = if u.watches id then none else s.tasks u := by
  show Function.update (Function.update (Function.update (Function.update s.tasks _ none) _ none)
    _ none) _ none u = _
  simp only [Function.update_apply]
  cases u with
  | reader id' stream => cases stream <;> by_cases h : id' = id <;> simp [TaskId.watches, h]
  | external n => simp [TaskId.watches]
  | watchdog id' => by_cases h : id' = id <;> simp [TaskId.watches, h]
  | waiter id' => by_cases h : id' = id <;> simp [TaskId.watches, h]

/-- A child of another record is not the dead one. -/
theorem Invariant.owner_ne (hs : Invariant s) (hc : s.Owns id c) (hdead : s.isDead c = true)
    {c' : ChildId} {child : Child} (hchild : s.children c' = some child)
    (halive : child.alive = true) : child.owner ≠ id := by
  rintro rfl
  obtain rfl := hs.single c' c child.owner ⟨child, hchild, rfl⟩ hc
  have hdead' := isDead_iff.mp hdead child hchild
  rw [halive] at hdead'
  cases hdead'

/-- A task of a record does not see to a child of another. -/
theorem not_watches {u : TaskId} {x : Termination} (hserves : u.Serves x.id) (hne : x.id ≠ id) :
    u.watches id = false := by
  cases u with
  | external n => rfl
  | waiter id' => exact hserves.elim
  | reader id' stream => exact decide_eq_false fun h => hne (hserves.symm.trans h)
  | watchdog id' => exact decide_eq_false fun h => hne (hserves.symm.trans h)

theorem watches_waiter {id' : ℕ} : (TaskId.waiter id').watches id = decide (id' = id) := rfl

section Cleanup

variable (hs : Invariant s) (hc : s.Owns id c) (hdead : s.isDead c = true) (hend : s.db.Ended id)
  (hdb : s'.db = s.db) (hchildren : s'.children = s.children)
  (hlive : s'.live = Function.update s.live id none)
  (htasks : ∀ u, s'.tasks u = if u.watches id then none else s.tasks u)

include hs hc hdead hend hdb hchildren htasks

theorem Invariant.lawful_cleanup : Lawful s' where
  signalled c' child hchild halive hended := by
    rw [hchildren] at hchild
    rw [hdb] at hended
    have hother := hs.owner_ne hc hdead hchild halive
    rcases hs.signalled c' child hchild halive hended with h | ⟨u, task, hu, x, answer, rfl, hx⟩
    · exact .inl h
    · obtain ⟨hserves, hhandles, -⟩ := hs.fits u _ hu
      unfold System.Handles at hhandles
      rw [hx] at hhandles
      obtain ⟨child', hchild', howner⟩ := hhandles
      obtain rfl := Option.some.inj (hchild.symm.trans hchild')
      have hwatches : u.watches id = false := not_watches hserves (howner ▸ hother)
      exact .inr ⟨u, _, by rw [htasks, hwatches]; exact hu, x, answer, rfl, hx⟩
  ended id' hknown := by
    rw [hdb] at hknown ⊢
    by_cases heq : id' = id
    · exact .inr (.inl (heq ▸ hend))
    · rcases hs.ended id' hknown with ⟨u, task, hu, hpc⟩ | h | ⟨task, hwait⟩
      · obtain ⟨⟨n, rfl⟩, -⟩ := (hs.fits u task hu).spawning hpc
        exact .inl ⟨.external n, task, by rw [htasks]; exact hu, hpc⟩
      · exact .inr (.inl h)
      · refine .inr (.inr ⟨task, ?_⟩)
        rw [htasks, watches_waiter, decide_eq_false heq]
        exact hwait

include hlive

/-- **The child leaves the live map** only when it is dead and its record settled. -/
theorem Invariant.cleanup (hnext : s'.nextChild = s.nextChild) : Invariant s' where
  toLawful := hs.lawful_cleanup hc hdead hend hdb hchildren htasks
  fits u task h := by
    rw [htasks] at h
    split at h
    · cases h
    · rename_i hwatches
      refine (hs.fits u task h).of_eq hdb hchildren fun id' hu => ?_
      have hne : id' ≠ id := fun heq => hwatches (by rw [hu, watches_waiter]; exact decide_eq_true heq)
      rw [hlive, Function.update_of_ne hne]
  once u task u' task' id' h h' := by
    rw [htasks] at h h'
    split at h
    · cases h
    · split at h'
      · cases h'
      · exact hs.once u task u' task' id' h h'
  fresh c' h := by
    rw [hnext] at h
    rw [hchildren, hs.fresh c' h]
  known c' child h := by
    rw [hchildren] at h
    rw [hdb]
    exact hs.known c' child h
  single c₁ c₂ id' h h' := by
    unfold System.Owns at h h'
    rw [hchildren] at h h'
    exact hs.single c₁ c₂ id' h h'
  listed c' child h halive := by
    rw [hchildren] at h
    rw [hlive, Function.update_of_ne (hs.owner_ne hc hdead h halive)]
    exact hs.listed c' child h halive
  owned id' c' h := by
    rw [hlive] at h
    unfold System.Owns
    rw [hchildren]
    rcases TaskTable.update_cases h with ⟨-, h⟩ | ⟨-, h⟩
    · cases h
    · exact hs.owned id' c' h

end Cleanup

theorem Invariant.cleaned (hs : Invariant s) (hc : s.Owns id c) (hdead : s.isDead c = true)
    (hend : s.db.Ended id) : Invariant (s.cleanup (.waiter id) id) := by
  have hdb : (s.cleanup (.waiter id) id).db = s.db := rfl
  have hchildren : (s.cleanup (.waiter id) id).children = s.children := rfl
  have hlive : (s.cleanup (.waiter id) id).live = Function.update s.live id none := rfl
  have hnext : (s.cleanup (.waiter id) id).nextChild = s.nextChild := rfl
  exact hs.cleanup hc hdead hend hdb hchildren hlive (fun _ => tasks_cleanup) hnext

/-! ## The worker thread -/

/-- The record that the worker thread settles for a task. -/
def Pc.settles : Pc → Option ℕ
  | .settle x => some x.id
  | .conclude id _ _ => some id
  | _ => none

theorem writes_work (db : Db) (now : Time) (pc : Pc) :
    db.Writes (pc.work db now).1 pc.settles := by
  cases pc with
  | settle x => exact db.writes_settle ..
  | conclude id c code => exact db.writes_settle ..
  | store id size limitReached => exact db.writes_appendLog ..
  | touching id close => exact db.writes_touch ..
  | _ => exact .refl db

theorem Invariant.worker (hs : Invariant s) (t : TaskId) (now : Time) :
    Invariant (s.worker t now) := by
  unfold System.worker
  split
  · rename_i pc htask
    have hwrites := writes_work s.db now pc
    have hfits := hs.fits t _ htask
    have hg : Gentle s { s with
        db := (pc.work s.db now).1
        tasks := Function.update s.tasks t (some ⟨pc, .returned (pc.work s.db now).2⟩) } :=
      ⟨hwrites.keeps, rfl, rfl, fun _ child h => ⟨child, h, rfl, fun h => h, fun h => h⟩,
        fun _ child h => ⟨child, h⟩⟩
    refine hs.move hg rfl ⟨?_, ?_, ?_, ?_, ?_⟩ ?_ fun id h => .inl (hwrites.known id h)
    · intro task htask'
      obtain rfl := Option.some.inj htask'
      cases pc with
      | inspect id c code =>
        obtain ⟨⟨ht, hc, hdead⟩, -⟩ := hfits
        obtain ⟨child, hchild, rfl⟩ := hc
        obtain ⟨r, hr⟩ := Option.isSome_iff_exists.mp (hs.known c child hchild)
        refine ⟨⟨ht, ⟨child, hchild, rfl⟩, hdead⟩, fun _ => ⟨r, ?_, fun hend => ⟨r, hr, hend⟩⟩⟩
        exact congrArg (fun o => Thread.returned (.record o)) hr
      | conclude id c code =>
        obtain ⟨⟨ht, hc, hdead⟩, -⟩ := hfits
        obtain ⟨child, hchild, rfl⟩ := hc
        refine ⟨⟨ht, ⟨child, hchild, rfl⟩, hdead⟩, fun _ => ?_⟩
        refine Db.ended_settle ?_ (hs.known c child hchild) _ _ _
        split <;> rfl
      | settle x =>
        obtain ⟨ht, hhandles, hknown, -⟩ := hfits
        exact ⟨ht, hg.handles hhandles, hg.known hknown,
          fun _ => Db.ended_settle x.terminal hknown _ _ _⟩
      | begun id | slept id | exit id c | drain id c code => exact absurd hfits.2.1 nofun
      | _ => exact hg.fits hfits
    · intro task id h hpc u task' hu hpc'
      obtain rfl := Option.some.inj h
      exact hs.once u task' t _ id hu htask hpc' hpc
    · intro x answer c child h
      rw [htask] at h
      cases h
    · intro task id h hpc
      rw [htask] at h
      cases h
      exact .inr ⟨_, rfl, hpc⟩
    · exact fun _ _ _ _ => .inr ⟨_, rfl⟩
    · intro c child hchild halive hend
      rcases hwrites.ended child.owner hend with h | hsettles
      · exact .inl h
      · have howns : s.Owns child.owner c := ⟨child, hchild, rfl⟩
        cases pc with
        | settle x =>
          have hid : x.id = child.owner := Option.some.inj hsettles
          obtain ⟨-, hhandles, -⟩ := hfits
          unfold System.Handles at hhandles
          cases hx : x.child with
          | none =>
            rw [hx] at hhandles
            have hdead := hhandles c child hchild hid.symm
            rw [halive] at hdead
            cases hdead
          | some c' =>
            rw [hx] at hhandles
            obtain rfl := hs.single c c' child.owner howns (hid ▸ hhandles)
            exact .inr ⟨t, _, Function.update_self .., x, _, rfl, hx⟩
        | conclude id c' code =>
          have hid : id = child.owner := Option.some.inj hsettles
          obtain ⟨⟨-, hc, hdead⟩, -⟩ := hfits
          exact absurd hid.symm (hs.owner_ne hc hdead hchild halive)
        | _ => cases hsettles
  · exact hs

end AI2Apps.Processes
