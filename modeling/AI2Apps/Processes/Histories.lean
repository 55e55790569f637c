import AI2Apps.Processes.Spawning

/-!
# Every history of a process manager

Every event that meets the condition keeps the invariant and the settled records, and the
law of any history follows by induction.

* `Invariant.raise`, `Invariant.goOn`: an await that raised or returned.
* `after_spec`: one event.
* `run_spec`: every history.
-/

namespace AI2Apps.Processes

variable {s : System} {t : TaskId} {id : ℕ} {c : ChildId} {pc : Pc} {thread : Thread}
  {a : Answer}

/-! ## Calls -/

/-- A call that ends at once, or a new task of it, with nothing to answer for. -/
theorem Invariant.begins (hs : Invariant s) (hnone : s.tasks t = none) {task : Task}
    (hfits : s.Fits t task) (hnew : ∀ id, task.pc ≠ .spawning id) :
    Invariant (s.setTask t (some task)) := by
  refine hs.setTask ⟨fun _ h => Option.some.inj h ▸ (gentle_setTask s _ _).fits hfits, ?_, ?_, ?_, ?_⟩
  · intro task' id h hspawn
    exact absurd hspawn (Option.some.inj h ▸ hnew id)
  · intro x answer c child h
    rw [hnone] at h
    cases h
  · intro task' id h
    rw [hnone] at h
    cases h
  · intro task' id h
    rw [hnone] at h
    cases h

theorem Invariant.beginsCall (hs : Invariant s) {n : ℕ} (hnone : s.tasks (.external n) = none)
    {thread : Thread} (hpc : pc.harmless = true) :
    Invariant (s.setTask (.external n) (some ⟨pc, thread⟩)) := by
  refine hs.begins hnone ?_ ?_
  · cases pc <;> first | exact ⟨n, rfl⟩ | cases hpc
  · rintro id rfl
    cases hpc

theorem Invariant.cancel (hs : Invariant s) {n : ℕ} (hnone : s.tasks (.external n) = none)
    (target : Target) : Invariant (s.cancel (.external n) target) := by
  unfold System.cancel
  cases howned : s.owned target with
  | none => exact hs
  | some record =>
    dsimp only
    split
    · exact hs
    · have hget := (Option.filter_eq_some_iff.mp howned).1
      have hknown : (s.db.get? target.id).isSome = true := Option.isSome_iff_exists.mpr ⟨_, hget⟩
      have hserves : (TaskId.external n).Serves target.id := trivial
      exact hs.begins hnone (hs.fits_terminate hserves hknown rfl _ _) fun _ h => by cases h

theorem Invariant.writeStdin (hs : Invariant s) {n : ℕ} (hnone : s.tasks (.external n) = none)
    (target : Target) (size : ℕ) (close : Bool) :
    Invariant (s.writeStdin (.external n) target size close) := by
  unfold System.writeStdin
  cases s.owned target with
  | none => exact hs
  | some record =>
    dsimp only
    split
    · exact hs
    · split
      · exact hs.beginsCall hnone rfl
      · split
        · exact hs.beginsCall hnone rfl
        · exact hs.beginsCall hnone rfl

/-! ## An await that returned or raised -/

/-- The spawn failed: the record is settled. -/
theorem Invariant.spawnFailed (hs : Invariant s) (htask : s.tasks t = some ⟨.spawning id, thread⟩)
    (hresolve : a.resolveRaises = false) : Invariant (s.raise t a (.spawning id)) := by
  obtain ⟨⟨n, rfl⟩, hknown, hfree⟩ := (hs.fits t _ htask).spawning rfl
  show Invariant ((s.over (.external n)).spawnFailed id a.resolveRaises a.message a.now)
  unfold System.spawnFailed
  rw [hresolve, if_neg Bool.false_ne_true]
  have hwrites := s.db.writes_settle id .failed none (some ⟨"spawn_failed", some a.message⟩) a.now
  have hend : (s.db.settle id .failed none (some ⟨"spawn_failed", some a.message⟩) a.now).Ended id :=
    Db.ended_settle rfl hknown none _ a.now
  have hg : Gentle s { s.over (.external n) with
      db := s.db.settle id .failed none (some ⟨"spawn_failed", some a.message⟩) a.now } :=
    ⟨hwrites.keeps, rfl, rfl, fun _ child h => ⟨child, h, rfl, fun h => h, fun h => h⟩,
      fun _ child h => ⟨child, h⟩⟩
  refine hs.move hg rfl ⟨fun _ h => (nomatch h), fun _ _ h => (nomatch h), ?_, ?_, ?_⟩ ?_
    fun id' h => .inl (hwrites.known id' h)
  · intro x answer c child h
    rw [htask] at h
    cases h
  · intro task id' h hpc
    rw [htask] at h
    cases h
    obtain rfl := Pc.spawning.inj hpc
    exact .inl hend
  · exact fun _ _ _ h => nomatch h
  · intro c child hchild _ hended
    rcases hwrites.ended _ hended with h | h
    · exact .inl h
    · exact absurd (Option.some.inj h).symm (hfree c child hchild)

theorem Invariant.raise (hs : Invariant s) (htask : s.tasks t = some ⟨pc, thread⟩)
    (h : s.HarmlessAt a pc) (hraised : a.raised = true) : Invariant (s.raise t a pc) := by
  have hfits := hs.fits t _ htask
  have hcontra : a.raised = false → Invariant (s.raise t a pc) := fun h => by
    rw [hraised] at h
    cases h
  cases pc with
  | spawning id => exact hs.spawnFailed htask h.1
  | read id | look id size | store id size limitReached =>
    obtain ⟨⟨stream, rfl⟩, hknown⟩ := hfits
    show Invariant (if a.cancelled then s.over _ else s.terminate _ id .failed _ false)
    split
    · exact hs.freeOver htask rfl fun _ h => by cases h
    · exact hs.terminate htask rfl rfl hknown rfl _ _
  | top id | sleep id | check id =>
    obtain ⟨rfl, -⟩ := hfits
    exact hs.freeOver htask rfl fun _ h => by cases h
  | begun id | slept id | exit id c | drain id c code | inspect id c code | conclude id c code =>
    exact hcontra h
  | settle x => exact hcontra h.1
  | grace x =>
    obtain ⟨ht, -, hend⟩ := hfits
    have hdone : Signalled s ⟨.grace x, thread⟩ := fun _ _ _ _ h => by cases h
    exact hs.terminateRaised htask rfl ht hdone hend a.cancelled
  | kill x =>
    obtain ⟨ht, -, hend⟩ := hfits
    have hdone : Signalled s ⟨.kill x, thread⟩ := fun _ _ _ _ h => by cases h
    exact hs.terminateRaised htask rfl ht hdone hend a.cancelled
  | drained id close | closing id | touching id close | reporting id =>
    obtain ⟨n, rfl⟩ := hfits
    exact hs.freeOver htask rfl fun _ h => by cases h
  | listing runId | gathering targets =>
    obtain ⟨n, rfl⟩ := hfits
    exact hs.freeOver htask rfl fun _ h => by cases h
  | failed => exact hs

/-- What `_wait` does with the record it read. -/
theorem Invariant.inspected (hs : Invariant s) {code : ℤ} {record : ProcessRecord}
    (htask : s.tasks t = some ⟨.inspect id c code, .returned (.record (some record))⟩)
    (a : Answer) : Invariant (s.goOnWith t a record (.inspect id c code)) := by
  obtain ⟨⟨rfl, hc, hdead⟩, hanswer⟩ := hs.fits t _ htask
  obtain ⟨r, hr, hend⟩ := hanswer nofun
  obtain rfl : record = r := by simpa using hr
  show Invariant (if record.status.terminal then s.cleanup (.waiter id) id
    else s.toThread (.waiter id) (.conclude id c code))
  split
  · rename_i hterminal
    exact hs.cleaned hc hdead (hend hterminal)
  · exact hs.waiting htask rfl ⟨⟨rfl, hc, hdead⟩, fun h => absurd rfl h⟩ fun _ => nofun

/-- The child is spawned. -/
theorem Invariant.goOn_spawning (hs : Invariant s) (answer : DbAnswer)
    (htask : s.tasks t = some ⟨.spawning id, thread⟩) (h : s.HarmlessAt a (.spawning id))
    (hraised : a.raised = false) : Invariant (s.goOn t a answer (.spawning id)) ∧
      s.db.Keeps (s.goOn t a answer (.spawning id)).db := by
  obtain ⟨hresolve, hrest⟩ := h
  obtain ⟨hmark, hend, hquiet⟩ := hrest hraised
  have hwrites := Db.writes_markRunning hend s.nextChild a.now
  show Invariant (s.spawned t id a) ∧ s.db.Keeps (s.spawned t id a).db
  obtain ⟨s', hs'⟩ : ∃ s', s' = s.spawned t id a := ⟨_, rfl⟩
  rw [← hs']
  rw [spawned_eq hresolve hmark] at hs'
  have hdb : s'.db = s.db.markRunning id s.nextChild a.now := by rw [hs']
  rw [← hdb] at hwrites
  exact ⟨hs.spawned htask hquiet hwrites (by rw [hs']) (by rw [hs']) (by rw [hs']) hend
    (by rw [hs']), hwrites.keeps⟩

/-- The section after an await that returned, of every task but a spawning one. -/
theorem Invariant.goOn (hs : Invariant s) (answer : DbAnswer)
    (htask : s.tasks t = some ⟨pc, thread⟩) (hrequested : thread ≠ .requested)
    (hanswer : ∀ answer', thread = .returned answer' → answer' = answer)
    (h : s.HarmlessAt a pc) (hspawning : ∀ id, pc ≠ .spawning id) :
    Invariant (s.goOn t a answer pc) := by
  have hfits := hs.fits t _ htask
  cases pc with
  | spawning id => exact absurd rfl (hspawning id)
  | read id =>
    obtain ⟨⟨stream, rfl⟩, hknown⟩ := hfits
    show Invariant (if a.size = 0 then s.over _ else s.toThread _ (.look id a.size))
    split
    · exact hs.freeOver htask rfl fun _ h => by cases h
    · exact hs.free htask rfl (fun _ h => by cases h) fun _ h =>
        Option.some.inj h ▸ ⟨⟨⟨stream, rfl⟩, hknown⟩, fun _ h => by cases h⟩
  | look id size =>
    obtain ⟨⟨stream, rfl⟩, hknown⟩ := hfits
    have hfailed : Invariant (s.terminate (.reader id stream) id .failed "output_capture_failed"
        false) := hs.terminate htask rfl rfl hknown rfl _ _
    cases answer with
    | record r =>
      cases r with
      | none => exact hfailed
      | some record => exact hs.looked htask rfl hknown size record
    | done => exact hfailed
    | records _ => exact hfailed
  | store id size limitReached =>
    obtain ⟨⟨stream, rfl⟩, hknown⟩ := hfits
    exact hs.captured htask rfl hknown limitReached
  | top id =>
    obtain ⟨rfl, hknown⟩ := hfits
    exact hs.loop htask rfl hknown
  | sleep id =>
    obtain ⟨rfl, hknown⟩ := hfits
    exact hs.free htask rfl (fun _ h => by cases h) fun _ h =>
      Option.some.inj h ▸ ⟨⟨rfl, hknown⟩, fun _ h => by cases h⟩
  | check id =>
    obtain ⟨rfl, hknown⟩ := hfits
    have hover : Invariant (s.over (.watchdog id)) := hs.freeOver htask rfl fun _ h => by cases h
    cases answer with
    | record r =>
      cases r with
      | none => exact hover
      | some record => exact hs.checked htask rfl hknown record a
    | done => exact hover
    | records _ => exact hover
  | begun id =>
    obtain ⟨rfl, -, hlive⟩ := hfits
    obtain ⟨c, hc⟩ := Option.isSome_iff_exists.mp hlive
    have hgo : s.goOn (.waiter id) a answer (.begun id) = s.await (.waiter id) (.exit id c) := by
      simp only [System.goOn, hc]
    rw [hgo]
    exact hs.waiting htask rfl ⟨rfl, rfl, hs.owned id c hc⟩ fun _ h => by cases h
  | slept id =>
    obtain ⟨rfl, -, hlive⟩ := hfits
    obtain ⟨c, hc⟩ := Option.isSome_iff_exists.mp hlive
    have hgo : s.goOn (.waiter id) a answer (.slept id) = s.await (.waiter id) (.exit id c) := by
      simp only [System.goOn, hc]
    rw [hgo]
    exact hs.waiting htask rfl ⟨rfl, rfl, hs.owned id c hc⟩ fun _ h => by cases h
  | exit id c =>
    obtain ⟨rfl, -, hc⟩ := hfits
    show Invariant (if s.isDead c then s.await _ (.drain id c a.exitCode) else s)
    split
    · rename_i hdead
      exact hs.waiting htask rfl ⟨rfl, rfl, hc, hdead⟩ fun _ h => by cases h
    · exact hs
  | drain id c code =>
    obtain ⟨rfl, -, hc, hdead⟩ := hfits
    exact hs.drained (a := a) htask hc hdead
  | inspect id c code =>
    obtain ⟨r, rfl, -⟩ := hfits.2 hrequested
    obtain rfl := hanswer _ rfl
    exact hs.inspected htask a
  | conclude id c code =>
    obtain ⟨⟨rfl, hc, hdead⟩, hend⟩ := hfits
    exact hs.cleaned hc hdead (hend hrequested)
  | settle x => exact hs.signalFor htask hrequested h.2
  | grace x => exact hs.graceOver htask a
  | kill x =>
    obtain ⟨ht, -, -⟩ := hfits
    have hdone : Signalled s ⟨.kill x, thread⟩ := fun _ _ _ _ h => by cases h
    show Invariant (if x.child.all s.isDead then s.over t else s)
    split
    · exact hs.terminated htask rfl ht hdone fun _ h => by cases h
    · exact hs
  | drained id close =>
    obtain ⟨n, rfl⟩ := hfits
    show Invariant (if close then s.await _ (.closing id) else s.toThread _ (.touching id false))
    split
    · exact hs.call htask rfl rfl
    · exact hs.call htask rfl rfl
  | closing id =>
    obtain ⟨n, rfl⟩ := hfits
    exact hs.call htask rfl rfl
  | touching id close =>
    obtain ⟨n, rfl⟩ := hfits
    exact hs.call htask rfl rfl
  | reporting id =>
    obtain ⟨n, rfl⟩ := hfits
    exact hs.freeOver htask rfl fun _ h => by cases h
  | listing runId =>
    obtain ⟨n, rfl⟩ := hfits
    cases answer with
    | records records => exact hs.call htask rfl rfl
    | done => exact hs
    | record r => exact hs
  | gathering targets => exact hs
  | failed => exact hs

/-! ## Records -/

theorem db_terminateRaised (s : System) (t : TaskId) (x : Termination) (cancelled : Bool) :
    (s.terminateRaised t x cancelled).db = s.db := by
  unfold System.terminateRaised System.abort
  split
  · rfl
  · split
    · split <;> rfl
    · rfl

theorem db_signalFor (s : System) (t : TaskId) (x : Termination) (a : Answer) :
    (s.signalFor t x a).db = s.db := by
  unfold System.signalFor
  split
  · rfl
  · split
    · rfl
    · split
      · exact db_terminateRaised ..
      · rfl

theorem db_graceOver (s : System) (t : TaskId) (x : Termination) (a : Answer) :
    (s.graceOver t x a).db = s.db := by
  unfold System.graceOver
  split
  · rfl
  · split
    · rfl
    · split
      · exact db_terminateRaised ..
      · rfl

theorem db_raise (s : System) (t : TaskId) (a : Answer) (hpc : ∀ id, pc ≠ .spawning id) :
    (s.raise t a pc).db = s.db := by
  cases pc with
  | spawning id => exact absurd rfl (hpc id)
  | settle x | grace x | kill x => exact db_terminateRaised ..
  | read id | look id size | store id size limitReached =>
    show (if a.cancelled then s.over t else s.terminate t id .failed _ false).db = s.db
    split <;> rfl
  | _ => rfl

theorem db_goOnWith (s : System) (t : TaskId) (a : Answer) (record : ProcessRecord) :
    (s.goOnWith t a record pc).db = s.db := by
  cases pc with
  | look id size =>
    show (s.looked t id size record).db = s.db
    unfold System.looked System.captured
    dsimp only
    split
    · rfl
    · split <;> rfl
  | check id =>
    show (s.checked t id record a).db = s.db
    unfold System.checked System.loop
    split
    · rfl
    · split
      · rfl
      · split
        · rfl
        · split
          · rfl
          · split <;> rfl
  | inspect id c code =>
    show (if record.status.terminal then s.cleanup t id else s.toThread t _).db = s.db
    split <;> rfl
  | _ => rfl

theorem db_goOn (s : System) (t : TaskId) (a : Answer) (answer : DbAnswer)
    (hpc : ∀ id, pc ≠ .spawning id) : (s.goOn t a answer pc).db = s.db := by
  cases pc with
  | spawning id => exact absurd rfl (hpc id)
  | settle x => exact db_signalFor ..
  | grace x => exact db_graceOver ..
  | look id size | check id | inspect id c code =>
    cases answer with
    | record r =>
      cases r with
      | none => exact db_raise s t _ fun _ => nofun
      | some record => exact db_goOnWith s t a record
    | done => exact db_raise s t _ fun _ => nofun
    | records records => exact db_raise s t _ fun _ => nofun
  | listing runId => cases answer <;> rfl
  | conclude id c code | sleep id | closing id | touching id close | reporting id => rfl
  | gathering targets | failed => rfl
  | read id | store id size limitReached | top id | begun id | slept id =>
    simp only [System.goOn, System.captured, System.loop]
    split <;> rfl
  | exit id c | kill x | drained id close =>
    simp only [System.goOn]
    split <;> rfl
  | drain id c code =>
    simp only [System.goOn]
    split
    · rfl
    · split <;> rfl

/-! ## One event -/

theorem resume_spec (hs : Invariant s) (a : Answer)
    (h : ∀ task, s.tasks t = some task → s.HarmlessAt a task.pc) :
    Invariant (s.resume t a) ∧ s.db.Keeps (s.resume t a).db := by
  unfold System.resume
  -- the section that goes on, with what the worker thread answered
  have hgo : ∀ pc thread answer, s.tasks t = some ⟨pc, thread⟩ → thread ≠ .requested →
      (∀ answer', thread = .returned answer' → answer' = answer) →
      Invariant (if a.raised then s.raise t a pc else s.goOn t a answer pc) ∧
        s.db.Keeps (if a.raised then s.raise t a pc else s.goOn t a answer pc).db := by
    intro pc thread answer htask hrequested hanswer
    have hharmless := h _ htask
    by_cases hspawning : ∃ id, pc = .spawning id
    · obtain ⟨id, rfl⟩ := hspawning
      split
      · refine ⟨hs.spawnFailed htask hharmless.1, ?_⟩
        show s.db.Keeps ((s.over t).spawnFailed id a.resolveRaises a.message a.now).db
        unfold System.spawnFailed
        split
        · exact .refl _
        · exact (s.db.writes_settle ..).keeps
      · rename_i hraised
        exact hs.goOn_spawning answer htask hharmless (Bool.eq_false_iff.mpr hraised)
    · have hpc : ∀ id, pc ≠ .spawning id := fun id h => hspawning ⟨id, h⟩
      split
      · rename_i hraised
        exact ⟨hs.raise htask hharmless hraised, by rw [db_raise s t a hpc]; exact .refl _⟩
      · exact ⟨hs.goOn answer htask hrequested hanswer hharmless hpc,
          by rw [db_goOn s t a answer hpc]; exact .refl _⟩
  cases htask : s.tasks t with
  | none => exact ⟨hs, .refl _⟩
  | some task =>
    obtain ⟨pc, thread⟩ := task
    cases thread with
    | idle => exact hgo pc .idle .done htask nofun fun _ h => (nomatch h)
    | returned answer =>
      exact hgo pc _ answer htask nofun fun answer' h => (Thread.returned.inj h).symm
    | requested =>
      dsimp only
      split
      · rename_i hraised
        have hharmless := h _ htask
        by_cases hspawning : ∃ id, pc = .spawning id
        · obtain ⟨id, rfl⟩ := hspawning
          refine ⟨hs.spawnFailed htask hharmless.1, ?_⟩
          show s.db.Keeps ((s.over t).spawnFailed id a.resolveRaises a.message a.now).db
          unfold System.spawnFailed
          split
          · exact .refl _
          · exact (s.db.writes_settle ..).keeps
        · have hpc : ∀ id, pc ≠ .spawning id := fun id h => hspawning ⟨id, h⟩
          exact ⟨hs.raise htask hharmless hraised, by rw [db_raise s t a hpc]; exact .refl _⟩
      · exact ⟨hs, .refl _⟩

theorem isSome_recoverOrphans {db : Db} {now : Time} (h : ((db.recoverOrphans now).get? id).isSome = true) :
    (db.recoverOrphans now).Ended id := by
  unfold Db.Ended Db.recoverOrphans at *
  rw [Table.get?_update] at h ⊢
  obtain ⟨r, hr⟩ := Option.isSome_iff_exists.mp (Option.isSome_map .. ▸ h)
  rw [hr, Option.map_some]
  refine ⟨_, rfl, ?_⟩
  split
  · rfl
  · rename_i hterminal
    simpa using hterminal

/-- After `startup` every record is settled. -/
theorem invariant_startup (db : Db) (sessionLimit : ℕ) (now : Time) :
    Invariant (System.startup db sessionLimit now) where
  signalled _ _ h := nomatch h
  ended _ h := .inr (.inl (isSome_recoverOrphans h))
  fits _ _ h := nomatch h
  once _ _ _ _ _ h := nomatch h
  fresh _ _ := rfl
  known _ _ h := nomatch h
  single _ _ _ h := by
    obtain ⟨child, h, -⟩ := h
    cases h
  listed _ _ h := nomatch h
  owned _ _ h := nomatch h

theorem gentle_exit (s : System) (c : ChildId) : Gentle s (s.exit c) :=
  gentle_child (fun child => { child with alive := false }) rfl rfl rfl rfl fun _ => ⟨rfl, nofun, id⟩

/-- A child ends; no task moves. -/
theorem Invariant.exit (hs : Invariant s) (c : ChildId) : Invariant (s.exit c) := by
  have htasks : (s.exit c).tasks = Function.update s.tasks (.external 0) (s.tasks (.external 0)) :=
    (Function.update_eq_self ..).symm
  refine hs.move (gentle_exit s c) htasks ⟨?_, ?_, ?_, ?_, ?_⟩ (fun _ _ _ _ h => .inl h)
    fun _ h => .inl h
  · exact fun task h => (gentle_exit s c).fits (hs.fits _ task h)
  · exact fun task id h hpc u task' hu hpc' => hs.once u task' _ task id hu h hpc' hpc
  · exact fun x answer c' child h hx _ _ => .inr ⟨_, _, h, x, answer, rfl, hx⟩
  · exact fun task id h hpc => .inr ⟨task, h, hpc⟩
  · exact fun _ _ _ h => nomatch h

theorem db_cancel (s : System) (t : TaskId) (target : Target) : (s.cancel t target).db = s.db := by
  unfold System.cancel
  split
  · rfl
  · split <;> rfl

theorem db_writeStdin (s : System) (t : TaskId) (target : Target) (size : ℕ) (close : Bool) :
    (s.writeStdin t target size close).db = s.db := by
  unfold System.writeStdin
  split
  · rfl
  · split
    · rfl
    · split
      · rfl
      · split <;> rfl

/-- A new task, if its name is free. -/
theorem enter_spec (hs : Invariant s) {n : ℕ} (begin' : TaskId → System)
    (h : s.tasks (.external n) = none →
      Invariant (begin' (.external n)) ∧ s.db.Keeps (begin' (.external n)).db) :
    Invariant (s.enter n begin') ∧ s.db.Keeps (s.enter n begin').db := by
  unfold System.enter
  split
  · exact h ‹_›
  · exact ⟨hs, .refl _⟩

/-- **One event** that meets the condition keeps the invariant and the settled records. -/
theorem after_spec (hs : Invariant s) (event : Event) (h : s.Harmless event) :
    Invariant (s.after event) ∧ s.db.Keeps (s.after event).db := by
  have hcancel : ∀ n target, Invariant (s.enter n fun t => s.cancel t target) ∧
      s.db.Keeps (s.enter n fun t => s.cancel t target).db := fun n target =>
    enter_spec hs (fun t => s.cancel t target) fun hnone =>
      ⟨hs.cancel hnone target, by rw [db_cancel]; exact .refl _⟩
  cases event with
  | start n input => exact enter_spec hs (fun t => s.start t input) fun hnone => hs.start hnone input h
  | cancel n target => exact hcancel n target
  | cancelRun n runId =>
    exact enter_spec hs (fun t => s.toThread t (.listing runId)) fun hnone =>
      ⟨hs.beginsCall hnone rfl, .refl _⟩
  | writeStdin n target size close =>
    exact enter_spec hs (fun t => s.writeStdin t target size close) fun hnone =>
      ⟨hs.writeStdin hnone target size close, by rw [db_writeStdin]; exact .refl _⟩
  | shutdown n =>
    exact enter_spec hs (fun t => s.shutdown t) fun hnone =>
      ⟨(hs.beginsCall hnone rfl).stop true, .refl _⟩
  | gathered n place m =>
    unfold System.after
    dsimp only
    cases s.gatheredTarget n place with
    | none => exact ⟨hs, .refl _⟩
    | some target => exact hcancel m target
  | worker t now =>
    refine ⟨hs.worker t now, ?_⟩
    show s.db.Keeps (s.worker t now).db
    unfold System.worker
    split
    · exact (writes_work ..).keeps
    · exact .refl _
  | resume t a => exact resume_spec hs a h
  | exit c => exact ⟨hs.exit c, .refl _⟩

theorem run_append (s : System) (xs ys : List Event) : s.run (xs ++ ys) = (s.run xs).run ys :=
  List.foldl_append

/-- A harmless run keeps the invariant, and what was settled before it. -/
theorem run_spec (hs : Invariant s) (events : List Event) (h : s.HarmlessThroughout events) :
    Invariant (s.run events) ∧ s.db.Keeps (s.run events).db := by
  induction events generalizing s with
  | nil => exact ⟨hs, .refl _⟩
  | cons event events ih =>
    obtain ⟨hafter, hkeeps⟩ := after_spec hs event h.1
    obtain ⟨hrun, hkeeps'⟩ := ih hafter h.2
    exact ⟨hrun, hkeeps.trans hkeeps'⟩

theorem harmless_append {xs ys : List Event} (h : s.HarmlessThroughout (xs ++ ys)) :
    s.HarmlessThroughout xs ∧ (s.run xs).HarmlessThroughout ys := by
  induction xs generalizing s with
  | nil => exact ⟨trivial, h⟩
  | cons event xs ih =>
    obtain ⟨hxs, hys⟩ := ih h.2
    exact ⟨⟨h.1, hxs⟩, hys⟩

end AI2Apps.Processes
