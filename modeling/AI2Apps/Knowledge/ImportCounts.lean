import AI2Apps.Knowledge.ImportJobs

/-!
# Import jobs: what every transaction keeps

A transaction rewrites rows in place or adds the rows of a new job, so it is
described by how each entry and each job evolves.  Two things follow for the tables
by themselves: the rows stay linked, and the numbers and the status in a job row
are those of its entries.  Only a retry can break the second, when it leaves an
entry failed.

* `Evolves`: how rows evolve; `Gentle`: the transactions of anyone but the worker
  that holds the entry.
* `ImportDb.Sound`: the rows are linked and counted.
* `sound_*`: every transaction keeps it.
-/

namespace AI2Apps.Knowledge.Imports

/-! ## How rows evolve -/

/-- Every row goes on as one that `R` relates to it, and a new entry has no file. -/
structure Evolves (R : Entry → Entry → Prop) (db db' : ImportDb) : Prop where
  entry : ∀ k e, db.entries.get? k = some e → ∃ e', db'.entries.get? k = some e' ∧ R e e'
  fresh : ∀ k e, db.entries.get? k = none → db'.entries.get? k = some e → e.stagingKey = none
  job : ∀ jobId job, db.jobs.get? jobId = some job → ∃ job', db'.jobs.get? jobId = some job' ∧
    job'.actorUserId = job.actorUserId ∧ job'.bucketId = job.bucketId ∧
    (job.controlState = .cancelled → job'.controlState = .cancelled)

/-- The staging key stays or goes. -/
def KeepsKey (e e' : Entry) : Prop := e'.stagingKey = e.stagingKey ∨ e'.stagingKey = none

/-- The change of an entry that no worker notices: a completed entry stays completed, and
a running one running. -/
def Gentle (e e' : Entry) : Prop :=
  KeepsKey e e' ∧ (e'.status = .completed ↔ e.status = .completed) ∧
    (e.status = .running → e'.status = .running)

theorem KeepsKey.refl (e : Entry) : KeepsKey e e := .inl rfl

theorem Gentle.refl (e : Entry) : Gentle e e := ⟨.refl e, Iff.rfl, id⟩

variable {R : Entry → Entry → Prop} {db db' : ImportDb} {p : Entry → Bool} {f : Entry → Entry} {jobId : Str}

theorem Evolves.mono {S : Entry → Entry → Prop} (h : Evolves R db db') (hRS : ∀ e e', R e e' → S e e') :
    Evolves S db db' where
  entry k e he := by
    obtain ⟨e', he', hR⟩ := h.entry k e he
    exact ⟨e', he', hRS e e' hR⟩
  fresh := h.fresh
  job := h.job

theorem Evolves.refl (hrefl : ∀ e, R e e) (db : ImportDb) :
    Evolves R db db where
  entry _ e he := ⟨e, he, hrefl e⟩
  fresh _ _ he he' := absurd (he.symm.trans he') (by simp)
  job _ job hjob := ⟨job, hjob, rfl, rfl, id⟩

theorem Evolves.of_get? (h : Evolves R db db') {k : Str × ℕ} {e e' : Entry} (he : db.entries.get? k = some e)
    (he' : db'.entries.get? k = some e') : R e e' := by
  obtain ⟨e'', he'', hR⟩ := h.entry k e he
  obtain rfl := Option.some.inj (he'.symm.trans he'')
  exact hR

/-- An entry was there before, or it is new. -/
theorem Evolves.back (h : Evolves R db db') {k : Str × ℕ} {e' : Entry} (he' : db'.entries.get? k = some e') :
    (∃ e, db.entries.get? k = some e ∧ R e e') ∨
      (db.entries.get? k = none ∧ e'.stagingKey = none) := by
  cases he : db.entries.get? k with
  | none => exact .inr ⟨rfl, h.fresh k e' he he'⟩
  | some e =>
    obtain ⟨e'', he'', hR⟩ := h.entry k e he
    obtain rfl : e'' = e' := Option.some.inj (he''.symm.trans he')
    exact .inl ⟨e, rfl, hR⟩

/-- A transaction that updates rows evolves them. -/
theorem Evolves.of_update {p' : Job → Bool} {f' : Job → Job}
    (hentries : db'.entries.rows = db.entries.rows.map fun e => if p e then f e else e)
    (hjobs : db'.jobs.rows = db.jobs.rows.map fun j => if p' j then f' j else j) (hrefl : ∀ e, R e e)
    (hmove : ∀ e ∈ db.entries.rows, p e = true → R e (f e))
    (hjob : ∀ j ∈ db.jobs.rows, p' j = true → (f' j).actorUserId = j.actorUserId ∧
      (f' j).bucketId = j.bucketId ∧
      (j.controlState = .cancelled → (f' j).controlState = .cancelled))
    (hf : ∀ e, (f e).key = e.key := by exact fun _ => rfl)
    (hf' : ∀ j, (f' j).id = j.id := by exact fun _ => rfl) : Evolves R db db' where
  entry k e he := by
    refine ⟨_, by rw [Table.get?_of_rows hentries _ hf, he, Option.map_some], ?_⟩
    split
    · rename_i hp
      exact hmove e (Table.mem_of_get? he) hp
    · exact hrefl e
  fresh k e he he' := by
    rw [Table.get?_of_rows hentries _ hf, he] at he'
    exact absurd he' (by simp)
  job _ job hget := by
    refine ⟨_, by rw [Table.get?_of_rows hjobs _ hf', hget, Option.map_some], ?_⟩
    split
    · rename_i hp
      exact hjob job (Table.mem_of_get? hget) hp
    · exact ⟨rfl, rfl, id⟩

/-- Jobs that no statement selects. -/
theorem jobs_eq_update (db : ImportDb) :
    db.jobs.rows = db.jobs.rows.map fun j => if (fun _ => false) j then id j else j :=
  (List.map_id _).symm

/-- The row of a job after an update of it. -/
theorem updateJob_get? {job : Job} (h : db.jobs.get? jobId = some job) (f : Job → Job)
    (hf : ∀ j, (f j).id = j.id) :
    (db.updateJob jobId f hf).jobs.get? jobId = some (f job) := by
  refine (Table.get?_update _ _ f hf jobId).trans ?_
  rw [h, Option.map_some, if_pos (decide_eq_true (Table.key_of_get? h))]

/-! ## Counts -/

/-- An update that does not move an entry of the job in or out leaves the count. -/
theorem count_update (hentries : db'.entries.rows = db.entries.rows.map fun e => if p e then f e else e)
    {q : EntryStatus → Bool}
    (h : ∀ e ∈ db.entries.rows, p e = true → e.jobId = jobId → q (f e).status = q e.status)
    (hf : ∀ e, (f e).key = e.key := by exact fun _ => rfl) :
    db'.count jobId q = db.count jobId q := by
  unfold ImportDb.count
  rw [hentries, List.countP_map]
  refine List.countP_congr fun e he => ?_
  have hjob : (f e).jobId = e.jobId := congrArg Prod.fst (hf e)
  show (decide ((if p e then f e else e).jobId = jobId) && q (if p e then f e else e).status) = true ↔ _
  split
  · rename_i hp
    rw [hjob]
    by_cases hj : e.jobId = jobId
    · rw [h e he hp hj]
    · simp [hj]
  · rfl

theorem count_eq_zero_iff {q : EntryStatus → Bool} :
    db.count jobId q = 0 ↔ ∀ e ∈ db.entries.rows, e.jobId = jobId → q e.status = false := by
  unfold ImportDb.count
  rw [List.countP_eq_zero]
  refine forall_congr' fun e => forall_congr' fun _ => ?_
  by_cases hj : e.jobId = jobId <;> simp [hj]

/-- The numbers and the status of a job row are those of its entries. -/
structure Job.Agrees (db : ImportDb) (job : Job) : Prop where
  completed : job.completedFiles = db.count job.id (· = .completed)
  failed : job.failedFiles = db.count job.id (· = .failed)
  terminal : job.status.terminal = true ↔ db.count job.id EntryStatus.pending = 0

/-- A job row that stays with its counts agrees as before. -/
theorem Job.Agrees.congr {job : Job} (h : job.Agrees db)
    (hcount : ∀ q, db'.count job.id q = db.count job.id q) : job.Agrees db' where
  completed := by rw [hcount]; exact h.completed
  failed := by rw [hcount]; exact h.failed
  terminal := by rw [hcount]; exact h.terminal

/-! ## Sound tables -/

/-- The rows are linked and counted. -/
structure ImportDb.Sound (db : ImportDb) : Prop where
  job : ∀ k e, db.entries.get? k = some e → ∃ job, db.jobs.get? k.1 = some job
  key : ∀ k e key, db.entries.get? k = some e → e.stagingKey = some key →
    (key.jobId, key.ordinal) = k
  cancelled : ∀ k e job, db.entries.get? k = some e → db.jobs.get? k.1 = some job →
    job.controlState = .cancelled → e.status ≠ .queued
  agrees : ∀ id job, db.jobs.get? id = some job → job.Agrees db

theorem Entry.jobId_of_get? {k : Str × ℕ} {e : Entry} (h : db.entries.get? k = some e) : e.jobId = k.1 :=
  congrArg Prod.fst (Table.key_of_get? h)

/-- What an update of entries and jobs has to show: an entry that it queues is in a job
that is not cancelled, and the jobs agree. -/
theorem ImportDb.Sound.update (hdb : db.Sound) {p' : Job → Bool} {f' : Job → Job}
    (hentries : db'.entries.rows = db.entries.rows.map fun e => if p e then f e else e)
    (hjobs : db'.jobs.rows = db.jobs.rows.map fun j => if p' j then f' j else j)
    (hkey : ∀ e ∈ db.entries.rows, p e = true → ∀ key, (f e).stagingKey = some key →
      (key.jobId, key.ordinal) = e.key)
    (hcancelled : ∀ e ∈ db.entries.rows, ∀ job, db.jobs.get? e.jobId = some job →
      (if p' job then f' job else job).controlState = .cancelled →
      (if p e then f e else e).status ≠ .queued) (hagrees : ∀ job ∈ db.jobs.rows, job.Agrees db →
      (if p' job then f' job else job).Agrees db') (hf : ∀ e, (f e).key = e.key := by exact fun _ => rfl)
    (hf' : ∀ j, (f' j).id = j.id := by exact fun _ => rfl) : db'.Sound where
  job k e he := by
    rw [Table.get?_of_rows hentries _ hf] at he
    obtain ⟨e₀, he₀, -⟩ := Option.map_eq_some_iff.mp he
    obtain ⟨job, hjob⟩ := hdb.job k e₀ he₀
    exact ⟨_, by rw [Table.get?_of_rows hjobs _ hf', hjob, Option.map_some]⟩
  key k e key he hkey' := by
    rw [Table.get?_of_rows hentries _ hf] at he
    obtain ⟨e₀, he₀, rfl⟩ := Option.map_eq_some_iff.mp he
    split at hkey'
    · rename_i hp
      exact (hkey e₀ (Table.mem_of_get? he₀) hp key hkey').trans (Table.key_of_get? he₀)
    · exact hdb.key k e₀ key he₀ hkey'
  cancelled k e job he hjob hc := by
    rw [Table.get?_of_rows hentries _ hf] at he
    rw [Table.get?_of_rows hjobs _ hf'] at hjob
    obtain ⟨e₀, he₀, rfl⟩ := Option.map_eq_some_iff.mp he
    obtain ⟨job₀, hjob₀, rfl⟩ := Option.map_eq_some_iff.mp hjob
    refine hcancelled e₀ (Table.mem_of_get? he₀) job₀ ?_ hc
    rw [Entry.jobId_of_get? he₀]
    exact hjob₀
  agrees id job hjob := by
    rw [Table.get?_of_rows hjobs _ hf'] at hjob
    obtain ⟨job₀, hjob₀, rfl⟩ := Option.map_eq_some_iff.mp hjob
    exact hagrees job₀ (Table.mem_of_get? hjob₀) (hdb.agrees id job₀ hjob₀)

/-- The job of an actor. -/
theorem jobOf_eq_some {actor : Str} {job : Job} (h : db.jobOf actor jobId = some job) :
    db.jobs.get? jobId = some job ∧ job.actorUserId = actor := by
  have := Option.filter_eq_some_iff.mp h
  simpa using this

/-- A row with the id of a job is its row. -/
theorem Job.eq_of_id {job row : Job} (h : db.jobs.get? jobId = some job) (hrow : row ∈ db.jobs.rows)
    (hid : row.id = jobId) :
    row = job := by
  have hget := Table.get?_of_mem hrow
  rw [hid, h] at hget
  exact (Option.some.inj hget).symm

/-- An update of one job leaves the others counted. -/
theorem Job.Agrees.other (hentries : db'.entries.rows = db.entries.rows.map fun e => if p e then f e else e)
    {job : Job} (h : job.Agrees db) (hp : ∀ e ∈ db.entries.rows, p e = true → e.jobId ≠ job.id)
    (hf : ∀ e, (f e).key = e.key := by exact fun _ => rfl) : job.Agrees db' :=
  h.congr fun _ => count_update hentries (fun e he hpe hjob => absurd hjob (hp e he hpe)) hf

/-- An update of entries alone that leaves their status. -/
theorem ImportDb.Sound.updateEntries (hdb : db.Sound)
    (hentries : db'.entries.rows = db.entries.rows.map fun e => if p e then f e else e)
    (hjobs : db'.jobs = db.jobs)
    (hkey : ∀ e ∈ db.entries.rows, p e = true → ∀ key, (f e).stagingKey = some key →
      (key.jobId, key.ordinal) = e.key) (hstatus : ∀ e, (f e).status = e.status)
    (hf : ∀ e, (f e).key = e.key := by exact fun _ => rfl) : db'.Sound := by
  refine hdb.update hentries ((congrArg Table.rows hjobs).trans (jobs_eq_update db)) hkey
    (fun e he job hjob hc => ?_) (fun job _ hagrees => ?_) hf
  · rw [if_neg (by simp)] at hc
    have hold := hdb.cancelled e.key e job (Table.get?_of_mem he) hjob hc
    split
    · rwa [hstatus]
    · exact hold
  · rw [if_neg (by simp)]
    exact hagrees.congr fun q => count_update hentries (fun e _ _ _ => by rw [hstatus]) hf

/-- What a transaction on the entries and the row of one job has to show. -/
theorem ImportDb.Sound.updateOne (hdb : db.Sound) {g : Job → Job}
    (hentries : db'.entries.rows = db.entries.rows.map fun e => if p e then f e else e)
    (hjobs : db'.jobs.rows = db.jobs.rows.map fun j => if decide (j.id = jobId) then g j else j)
    (hp : ∀ e ∈ db.entries.rows, p e = true → e.jobId = jobId)
    (hkey : ∀ e ∈ db.entries.rows, p e = true → ∀ key, (f e).stagingKey = some key →
      (key.jobId, key.ordinal) = e.key)
    (hcancelled : ∀ e ∈ db.entries.rows, e.jobId = jobId → ∀ job, db.jobs.get? jobId = some job →
      (g job).controlState = .cancelled → (if p e then f e else e).status ≠ .queued)
    (hagrees : ∀ job, db.jobs.get? jobId = some job → (g job).Agrees db')
    (hf : ∀ e, (f e).key = e.key := by exact fun _ => rfl)
    (hg : ∀ j, (g j).id = j.id := by exact fun _ => rfl) : db'.Sound := by
  refine hdb.update hentries hjobs hkey (fun e he job hjob hc => ?_)
    (fun job hjob hold => ?_) hf hg
  · by_cases hid : e.jobId = jobId
    · rw [hid] at hjob
      refine hcancelled e he hid job hjob ?_
      rwa [if_pos (decide_eq_true (Table.key_of_get? hjob))] at hc
    · have hne : ¬ decide (job.id = jobId) = true := fun h =>
        hid ((Table.key_of_get? hjob).symm.trans (of_decide_eq_true h))
      rw [if_neg hne] at hc
      rw [if_neg fun h => hid (hp e he h)]
      exact hdb.cancelled e.key e job (Table.get?_of_mem he) hjob hc
  · split
    · rename_i hid
      refine hagrees job ?_
      rw [← of_decide_eq_true hid]
      exact Table.get?_of_mem hjob
    · rename_i hid
      refine hold.other hentries (fun e he hpe hj => hid ?_) hf
      exact decide_eq_true (hj.symm.trans (hp e he hpe))

/-! ## The transactions -/

theorem settledStatus_terminal (completed failed pending : ℕ) :
    (settledStatus completed failed pending).terminal = true ↔ pending = 0 := by
  unfold settledStatus
  split
  · rename_i h
    simpa [JobStatus.terminal] using h
  · rename_i h
    have hzero : pending = 0 := not_not.mp h
    split
    · simp [JobStatus.terminal, hzero]
    · split <;> simp [JobStatus.terminal, hzero]

theorem cancelledStatus_terminal (completed failed running : ℕ) :
    (cancelledStatus completed failed running).terminal = true ↔ running = 0 := by
  unfold cancelledStatus
  split
  · rename_i h
    simpa [JobStatus.terminal] using h
  · rename_i h
    have hzero : running = 0 := not_not.mp h
    split
    · simp [JobStatus.terminal, hzero]
    · split <;> simp [JobStatus.terminal, hzero]

theorem recount_agrees (db : ImportDb) (jobs : Table Job Job.id) (job : Job) :
    (recount db job.id job).Agrees { db with jobs := jobs } where
  completed := rfl
  failed := rfl
  terminal := settledStatus_terminal _ _ _

/-- What `update_import_entry` does when it returns. -/
structure Updated (db db' : ImportDb) (jobId : Str) (ordinal : ℕ) (status : EntryStatus)
    (itemId : Option ItemId) (error : Option Str) : Prop where
  status_ne : status ≠ .queued
  tables : ∃ entries : ImportDb,
    entries = db.updateEntries (fun e => e.key = (jobId, ordinal)) (setEntry status itemId error)
      (fun _ => rfl) ∧
    db' = entries.updateJob jobId (recount entries jobId) fun _ => rfl

section UpdateEntry

variable {db db' : ImportDb} {actor jobId : Str} {ordinal : ℕ} {status : EntryStatus}
  {itemId : Option ItemId} {error : Option Str}

theorem updateImportEntry_ok
    (h : updateImportEntry db actor jobId ordinal status itemId error = .ok db') :
    Updated db db' jobId ordinal status itemId error := by
  unfold updateImportEntry at h
  split at h
  · exact absurd h (by simp)
  rename_i hstatus
  refine ⟨hstatus, _, rfl, ?_⟩
  split at h
  · exact absurd h (by simp)
  split at h
  · exact absurd h (by simp)
  exact (Except.ok.inj h).symm

/-- The job and the entry are there, so `update_import_entry` returns. -/
theorem updateImportEntry_isOk (itemId : Option ItemId) (error : Option Str) {job : Job} {entry : Entry} (hstatus : status ≠ .queued)
    (hjob : db.jobs.get? jobId = some job) (hactor : job.actorUserId = actor)
    (hentry : db.entries.get? (jobId, ordinal) = some entry) :
    ∃ db', updateImportEntry db actor jobId ordinal status itemId error = .ok db' := by
  unfold updateImportEntry ImportDb.jobOf
  rw [if_neg hstatus, hjob, hentry]
  simp [hactor]

/-- The entry gets its status, and no other entry changes. -/
theorem updateImportEntry_entries
    (h : updateImportEntry db actor jobId ordinal status itemId error = .ok db') (k : Str × ℕ) :
    db'.entries.get? k = (db.entries.get? k).map fun e =>
      if k = (jobId, ordinal) then setEntry status itemId error e else e := by
  obtain ⟨-, entries, rfl, rfl⟩ := updateImportEntry_ok h
  refine (Table.get?_of_rows rfl k).trans ?_
  cases he : db.entries.get? k with
  | none => rfl
  | some e => simp [Table.key_of_get? he]

theorem updateImportEntry_evolves
    (h : updateImportEntry db actor jobId ordinal status itemId error = .ok db') :
    Evolves KeepsKey db db' := by
  obtain ⟨-, entries, rfl, rfl⟩ := updateImportEntry_ok h
  exact Evolves.of_update rfl rfl KeepsKey.refl (fun e _ _ => .inl rfl) fun j _ _ => ⟨rfl, rfl, id⟩

theorem updateImportEntry_sound (hdb : db.Sound)
    (h : updateImportEntry db actor jobId ordinal status itemId error = .ok db') : db'.Sound := by
  obtain ⟨hstatus, entries, rfl, rfl⟩ := updateImportEntry_ok h
  refine hdb.update rfl rfl (fun e he _ key hkey => ?_) (fun e he job hjob hc => ?_) fun job hjob hagrees => ?_
  · exact hdb.key _ e key (Table.get?_of_mem he) hkey
  · split
    · exact hstatus
    · refine hdb.cancelled e.key e job (Table.get?_of_mem he) hjob ?_
      split at hc <;> exact hc
  · split
    · rename_i hid
      obtain rfl : job.id = jobId := by simpa using hid
      exact recount_agrees _ _ job
    · rename_i hid
      refine hagrees.other rfl fun e _ hp hj => hid ?_
      have hkey : e.jobId = jobId := congrArg Prod.fst (of_decide_eq_true hp)
      simp [← hj, hkey]

end UpdateEntry

/-! ### Staging -/

theorem recordStaged_ok {actor : Str} {key : StagingKey} (h : recordStaged db actor key = .ok db') :
    (∃ e, db.entries.get? (key.jobId, key.ordinal) = some e ∧ e.status = .queued) ∧
      db' = db.updateEntries (fun e => e.key = (key.jobId, key.ordinal) && e.status = .queued)
        (fun e => { e with stagingKey := some key }) fun _ => rfl := by
  unfold recordStaged at h
  split at h
  · exact absurd h (by simp)
  split at h
  · rename_i hqueued
    exact ⟨by simpa [Option.any_eq_true] using hqueued, (Except.ok.inj h).symm⟩
  · exact absurd h (by simp)

/-- The entry, which is queued, gets the key, and no other entry changes. -/
theorem recordStaged_entries {actor : Str} {key : StagingKey} (h : recordStaged db actor key = .ok db')
    (k : Str × ℕ) :
    db'.entries.get? k = (db.entries.get? k).map fun e =>
      if k = (key.jobId, key.ordinal) then { e with stagingKey := some key } else e := by
  obtain ⟨⟨e, he, hqueued⟩, rfl⟩ := recordStaged_ok h
  refine (Table.get?_of_rows rfl k).trans ?_
  by_cases hk : k = (key.jobId, key.ordinal)
  · simp [hk, he, hqueued, Table.key_of_get? he]
  · cases he : db.entries.get? k with
    | none => rfl
    | some e => simp [Table.key_of_get? he, hk]

theorem recordStaged_jobs {actor : Str} {key : StagingKey} (h : recordStaged db actor key = .ok db') :
    db'.jobs = db.jobs := by
  obtain ⟨-, rfl⟩ := recordStaged_ok h
  rfl

theorem recordStaged_sound {actor : Str} {key : StagingKey} (hdb : db.Sound)
    (h : recordStaged db actor key = .ok db') : db'.Sound := by
  obtain ⟨-, rfl⟩ := recordStaged_ok h
  refine hdb.updateEntries rfl rfl (fun e _ hp sk hsk => ?_) fun _ => rfl
  rw [Bool.and_eq_true, decide_eq_true_eq] at hp
  rw [← Option.some.inj hsk, hp.1]

theorem clearStagingKey_evolves (db : ImportDb) (jobId : Str) (ordinal : ℕ) :
    Evolves Gentle db (clearStagingKey db jobId ordinal) :=
  Evolves.of_update rfl (jobs_eq_update db) Gentle.refl (fun _ _ _ => ⟨.inr rfl, Iff.rfl, id⟩)
    fun _ _ h => absurd h (by simp)

theorem clearStagingKey_sound (hdb : db.Sound) (jobId : Str) (ordinal : ℕ) :
    (clearStagingKey db jobId ordinal).Sound :=
  hdb.updateEntries rfl rfl (fun _ _ _ _ h => absurd h (by simp)) fun _ => rfl

/-! ### Claims, recovery and retries -/

/-- What a claim does that finds an entry. -/
structure Claimed (db db' : ImportDb) (jobId : Str) (entry : Entry) : Prop where
  active : db.activeJob jobId = true
  row : db.entries.get? entry.key = some entry
  job : entry.jobId = jobId
  queued : entry.status = .queued
  tables : db' = (db.updateEntries (fun e => e.key = entry.key)
    (fun e => { e with status := .running, attempts := e.attempts + 1, error := none })
    fun _ => rfl).updateJob jobId (fun job => { job with status := .running }) fun _ => rfl

theorem claimEntry_some {entry : Entry} (h : claimEntry db jobId = some (entry, db')) :
    Claimed db db' jobId entry := by
  unfold claimEntry at h
  split at h
  · exact absurd h (by simp)
  rename_i hactive
  obtain ⟨e, he, heq⟩ := Option.map_eq_some_iff.mp h
  obtain ⟨rfl, rfl⟩ := Prod.mk.inj heq
  have hqueued := List.find?_some he
  unfold queuedIn at hqueued
  rw [Bool.and_eq_true, decide_eq_true_eq, decide_eq_true_eq] at hqueued
  exact ⟨by simpa using hactive, Table.get?_of_mem (List.mem_of_find?_eq_some he), hqueued.1,
    hqueued.2, rfl⟩

/-- The entry that was claimed is running, and no other entry changes. -/
theorem claimEntry_entry {entry : Entry} (h : claimEntry db jobId = some (entry, db')) :
    db'.entries.get? entry.key = some
      { entry with status := .running, attempts := entry.attempts + 1, error := none } := by
  obtain ⟨-, hget, -, -, rfl⟩ := claimEntry_some h
  refine (Table.get?_of_rows rfl _).trans ?_
  rw [hget, Option.map_some, if_pos (decide_eq_true rfl)]

theorem claimEntry_evolves {entry : Entry} (h : claimEntry db jobId = some (entry, db')) :
    Evolves Gentle db db' := by
  obtain ⟨-, hget, -, hqueued, rfl⟩ := claimEntry_some h
  refine Evolves.of_update rfl rfl Gentle.refl (fun e he hp => ?_) fun j _ _ => ⟨rfl, rfl, id⟩
  obtain rfl : e = entry :=
    Table.eq_of_key_eq he (Table.mem_of_get? hget) (of_decide_eq_true hp)
  exact ⟨.inl rfl, by simp [hqueued], fun _ => rfl⟩

theorem claimEntry_sound {entry : Entry} (hdb : db.Sound) (h : claimEntry db jobId = some (entry, db')) :
    db'.Sound := by
  obtain ⟨-, hget, hjobId, hqueued, hdb'⟩ := claimEntry_some h
  have hentry : ∀ e ∈ db.entries.rows, decide (e.key = entry.key) = true → e = entry :=
    fun e he hp => Table.eq_of_key_eq he (Table.mem_of_get? hget) (of_decide_eq_true hp)
  have hcount : ∀ q : EntryStatus → Bool, q .running = q .queued → ∀ jobId,
      db'.count jobId q = db.count jobId q := fun q hq jobId => by
    rw [hdb']
    refine count_update rfl fun e he hp _ => ?_
    rw [hentry e he hp, hqueued]
    exact hq
  subst hdb'
  refine hdb.update rfl rfl (fun e he _ key hkey => ?_) (fun e he job hjob hc => ?_) fun job hjob hagrees => ?_
  · exact hdb.key _ e key (Table.get?_of_mem he) hkey
  · split
    · simp
    · refine hdb.cancelled e.key e job (Table.get?_of_mem he) hjob ?_
      split at hc <;> exact hc
  · have hpending := hcount EntryStatus.pending rfl job.id
    split
    · rename_i hid
      obtain rfl : job.id = jobId := by simpa using hid
      refine ⟨hagrees.completed.trans (hcount _ rfl _).symm,
        hagrees.failed.trans (hcount _ rfl _).symm, iff_of_false (by simp [JobStatus.terminal]) ?_⟩
      rw [hpending, count_eq_zero_iff]
      intro hzero
      have := hzero entry (Table.mem_of_get? hget) hjobId
      rw [hqueued] at this
      exact absurd this (by decide)
    · refine ⟨hagrees.completed.trans (hcount _ rfl _).symm,
        hagrees.failed.trans (hcount _ rfl _).symm, ?_⟩
      rw [hpending]
      exact hagrees.terminal

theorem recoverImportJobs_evolves (db : ImportDb) :
    Evolves (fun e e' => KeepsKey e e' ∧ (e'.status = .completed ↔ e.status = .completed)) db
      (recoverImportJobs db) := by
  refine Evolves.of_update rfl rfl (fun e => ⟨.refl e, Iff.rfl⟩) (fun e _ hp => ⟨.inl rfl, ?_⟩)
    fun j _ _ => ⟨rfl, rfl, id⟩
  rw [Bool.and_eq_true, decide_eq_true_eq] at hp
  simp [hp.1]

theorem recoverImportJobs_sound (hdb : db.Sound) : (recoverImportJobs db).Sound := by
  refine hdb.update rfl rfl (fun e he _ key hkey => ?_) (fun e he job hjob hc => ?_) fun job hjob hagrees => ?_
  · exact hdb.key _ e key (Table.get?_of_mem he) hkey
  · have hcontrol : job.controlState = .cancelled := by split at hc <;> exact hc
    split
    · rename_i hp
      rw [Bool.and_eq_true, ImportDb.activeJob, hjob] at hp
      simp [hcontrol] at hp
    · exact hdb.cancelled e.key e job (Table.get?_of_mem he) hjob hcontrol
  · have hcount : ∀ q : EntryStatus → Bool, q .queued = q .running → ∀ jobId,
        ImportDb.count (recoverImportJobs db) jobId q = db.count jobId q := fun q hq jobId => by
      refine count_update rfl fun e he hp _ => ?_
      rw [Bool.and_eq_true, decide_eq_true_eq] at hp
      rw [hp.1]
      exact hq
    have hpending := hcount EntryStatus.pending rfl job.id
    split
    · rename_i hp
      rw [Bool.and_eq_true, decide_eq_true_eq] at hp
      refine ⟨hagrees.completed.trans (hcount _ rfl _).symm,
        hagrees.failed.trans (hcount _ rfl _).symm, ?_⟩
      rw [hpending, ← hagrees.terminal, hp.1]
      simp [JobStatus.terminal]
    · refine ⟨hagrees.completed.trans (hcount _ rfl _).symm,
        hagrees.failed.trans (hcount _ rfl _).symm, ?_⟩
      rw [hpending]
      exact hagrees.terminal

/-- What `retry_import_job` does when it returns. -/
structure Retried (db db' : ImportDb) (jobId : Str) : Prop where
  job : ∃ job, db.jobs.get? jobId = some job ∧ job.controlState = .active
  entry : ∃ e ∈ db.entries.rows, retryable jobId e = true
  tables : ∃ entries : ImportDb,
    entries = db.updateEntries (retryable jobId) requeueEntry (fun _ => rfl) ∧
    db' = entries.updateJob jobId (retryJob entries jobId) fun _ => rfl

section Retry

variable {db db' : ImportDb} {actor jobId : Str}

theorem retryImportJob_ok (h : retryImportJob db actor jobId = .ok db') : Retried db db' jobId := by
  unfold retryImportJob at h
  split at h
  · exact absurd h (by simp)
  rename_i job hjob
  split at h
  · exact absurd h (by simp)
  rename_i hactive
  split at h
  · exact absurd h (by simp)
  rename_i hany
  exact ⟨⟨job, (jobOf_eq_some hjob).1, not_not.mp hactive⟩, by simpa using hany, _, rfl,
    (Except.ok.inj h).symm⟩

theorem retryable_iff {e : Entry} : retryable jobId e = true ↔
    e.jobId = jobId ∧ e.status = .failed ∧ e.stagingKey.isSome = true := by
  simp [retryable, and_assoc]

theorem retryImportJob_evolves (h : retryImportJob db actor jobId = .ok db') :
    Evolves Gentle db db' := by
  obtain ⟨-, -, entries, rfl, rfl⟩ := retryImportJob_ok h
  refine Evolves.of_update rfl rfl Gentle.refl (fun e _ hp => ?_) fun j _ _ => ⟨rfl, rfl, id⟩
  have hfailed := (retryable_iff.mp hp).2.1
  exact ⟨.inl rfl, by simp [hfailed, requeueEntry], by simp [hfailed]⟩

/-- The row of the job has the numbers of its entries, if no entry stays failed. -/
theorem retryImportJob_sound (hdb : db.Sound) (h : retryImportJob db actor jobId = .ok db')
    (hkeys : ∀ e ∈ db.entries.rows, e.jobId = jobId → e.status = .failed →
      e.stagingKey.isSome = true) : db'.Sound := by
  obtain ⟨⟨job, hget, hactive⟩, ⟨e₀, he₀, hp₀⟩, entries, rfl, rfl⟩ := retryImportJob_ok h
  refine hdb.updateOne rfl rfl (fun e _ hp => (retryable_iff.mp hp).1)
    (fun e he hp key hkey => hdb.key _ e key (Table.get?_of_mem he) hkey)
    (fun e _ _ j hj hc => ?_) fun j hj => ⟨?_, ?_, iff_of_false (by simp [retryJob, JobStatus.terminal]) ?_⟩
  · obtain rfl : job = j := Option.some.inj (hget.symm.trans hj)
    exact absurd (hactive.symm.trans hc) (by simp)
  · obtain rfl : j.id = jobId := Table.key_of_get? hj
    rfl
  · obtain rfl : j.id = jobId := Table.key_of_get? hj
    refine (count_eq_zero_iff.mpr fun e he hjob => ?_).symm
    obtain ⟨e₁, he₁, rfl⟩ := List.mem_map.mp he
    split at hjob
    · rename_i hp
      rw [if_pos hp]
      rfl
    · rename_i hp
      rw [if_neg hp]
      exact decide_eq_false fun hst => hp (retryable_iff.mpr ⟨hjob, hst, hkeys e₁ he₁ hjob hst⟩)
  · obtain rfl : j.id = jobId := Table.key_of_get? hj
    rw [count_eq_zero_iff]
    intro hzero
    exact absurd (hzero (requeueEntry e₀) (List.mem_map.mpr ⟨e₀, he₀, if_pos hp₀⟩)
      (retryable_iff.mp hp₀).1) (by simp [requeueEntry, EntryStatus.pending])

end Retry

/-! ### Control -/

section Control

variable {db db' : ImportDb} {job : Job}

theorem pauseImportJob_ok (h : pauseImportJob db job = .ok db') :
    job.controlState ≠ .cancelled ∧
      db' = db.updateJob job.id (fun job => { job with controlState := .paused }) fun _ => rfl := by
  unfold pauseImportJob at h
  split at h
  · exact absurd h (by simp)
  split at h
  · exact absurd h (by simp)
  rename_i hc
  exact ⟨hc, (Except.ok.inj h).symm⟩

theorem resumeImportJob_ok (h : resumeImportJob db job = .ok db') :
    job.controlState = .paused ∧ db.count job.id (· = .queued) ≠ 0 ∧
      db' = db.updateJob job.id (fun job => { job with status := .queued, controlState := .active })
        fun _ => rfl := by
  unfold resumeImportJob at h
  split at h
  · exact absurd h (by simp)
  rename_i hpaused
  split at h
  · exact absurd h (by simp)
  rename_i hqueued
  exact ⟨not_not.mp hpaused, hqueued, (Except.ok.inj h).symm⟩

theorem cancelImportJob_ok {keys : List StagingKey} (h : cancelImportJob db job = .ok (db', keys)) :
    ∃ entries : ImportDb, entries = db.updateEntries (queuedIn job.id) cancelEntry (fun _ => rfl) ∧
      db' = entries.updateJob job.id (cancelJob entries job.id) (fun _ => rfl) ∧
      keys = cancelledKeys db job.id := by
  unfold cancelImportJob at h
  split at h
  · exact absurd h (by simp)
  obtain ⟨rfl, rfl⟩ := Prod.mk.inj (Except.ok.inj h)
  exact ⟨_, rfl, rfl, rfl⟩

theorem queuedIn_iff {e : Entry} :
    queuedIn jobId e = true ↔ e.jobId = jobId ∧ e.status = .queued := by
  simp [queuedIn]

theorem entries_eq_update (db : ImportDb) :
    db.entries.rows = db.entries.rows.map fun e => if (fun _ => false) e then id e else e :=
  (List.map_id _).symm

theorem pauseImportJob_evolves (hjob : db.jobs.get? job.id = some job)
    (h : pauseImportJob db job = .ok db') : Evolves Gentle db db' := by
  obtain ⟨hc, rfl⟩ := pauseImportJob_ok h
  refine Evolves.of_update (entries_eq_update db) rfl Gentle.refl (fun _ _ hp => absurd hp (by simp))
    fun j hj hid => ⟨rfl, rfl, fun hcancelled => ?_⟩
  rw [Job.eq_of_id hjob hj (of_decide_eq_true hid)] at hcancelled
  exact absurd hcancelled hc

theorem resumeImportJob_evolves (hjob : db.jobs.get? job.id = some job)
    (h : resumeImportJob db job = .ok db') : Evolves Gentle db db' := by
  obtain ⟨hc, -, rfl⟩ := resumeImportJob_ok h
  refine Evolves.of_update (entries_eq_update db) rfl Gentle.refl (fun _ _ hp => absurd hp (by simp))
    fun j hj hid => ⟨rfl, rfl, fun hcancelled => ?_⟩
  rw [Job.eq_of_id hjob hj (of_decide_eq_true hid), hc] at hcancelled
  exact absurd hcancelled (by simp)

theorem cancelImportJob_evolves {keys : List StagingKey}
    (h : cancelImportJob db job = .ok (db', keys)) : Evolves Gentle db db' := by
  obtain ⟨entries, rfl, rfl, -⟩ := cancelImportJob_ok h
  refine Evolves.of_update rfl rfl Gentle.refl (fun e _ hp => ?_) fun j _ _ => ⟨rfl, rfl, fun _ => rfl⟩
  have hqueued := (queuedIn_iff.mp hp).2
  exact ⟨.inr rfl, by simp [hqueued, cancelEntry], by simp [hqueued]⟩

theorem pauseImportJob_sound (hdb : db.Sound) (h : pauseImportJob db job = .ok db') : db'.Sound := by
  obtain ⟨-, rfl⟩ := pauseImportJob_ok h
  refine hdb.updateOne (entries_eq_update db) rfl (fun _ _ hp => absurd hp (by simp))
    (fun _ _ hp => absurd hp (by simp)) (fun e _ _ j _ hc => absurd hc (by simp)) fun j hj => ?_
  have hagrees := hdb.agrees _ j hj
  exact ⟨hagrees.completed, hagrees.failed, hagrees.terminal⟩

theorem resumeImportJob_sound (hdb : db.Sound) (h : resumeImportJob db job = .ok db') : db'.Sound := by
  obtain ⟨-, hqueued, rfl⟩ := resumeImportJob_ok h
  refine hdb.updateOne (entries_eq_update db) rfl (fun _ _ hp => absurd hp (by simp))
    (fun _ _ hp => absurd hp (by simp)) (fun e _ _ j _ hc => absurd hc (by simp)) fun j hj => ?_
  have hagrees := hdb.agrees _ j hj
  refine ⟨hagrees.completed, hagrees.failed, iff_of_false (by simp [JobStatus.terminal]) fun hzero => ?_⟩
  have hzero' : db.count j.id EntryStatus.pending = 0 := hzero
  rw [Table.key_of_get? hj] at hzero'
  refine hqueued (count_eq_zero_iff.mpr fun e he hid => decide_eq_false fun hst => ?_)
  have := count_eq_zero_iff.mp hzero' e he hid
  rw [hst] at this
  exact absurd this (by decide)

theorem cancelImportJob_sound {keys : List StagingKey} (hdb : db.Sound)
    (h : cancelImportJob db job = .ok (db', keys)) : db'.Sound := by
  obtain ⟨entries, hentries, rfl, -⟩ := cancelImportJob_ok h
  have hnone : ∀ e ∈ entries.entries.rows, e.jobId = job.id → e.status ≠ .queued := by
    rw [hentries]
    intro e he hid hst
    obtain ⟨e₁, he₁, rfl⟩ := List.mem_map.mp he
    split at hst
    · exact absurd hst (by simp [cancelEntry])
    · rename_i hp
      rw [if_neg hp] at hid
      exact hp (queuedIn_iff.mpr ⟨hid, hst⟩)
  have hcount : entries.count job.id EntryStatus.pending = entries.count job.id (· = .running) := by
    refine List.countP_congr fun e he => ?_
    by_cases hid : e.jobId = job.id
    · have := hnone e he hid
      cases hst : e.status <;> simp_all [EntryStatus.pending]
    · simp [hid]
  subst hentries
  refine hdb.updateOne rfl rfl (fun e _ hp => (queuedIn_iff.mp hp).1)
    (fun _ _ _ _ hkey => absurd hkey (by simp [cancelEntry])) (fun e he hid j hj _ => ?_) fun j hj => ?_
  · split
    · simp [cancelEntry]
    · rename_i hp
      exact fun hst => hp (queuedIn_iff.mpr ⟨hid, hst⟩)
  · have hid : (cancelJob (db.updateEntries (queuedIn job.id) cancelEntry fun _ => rfl) job.id j).id =
        job.id := (Table.key_of_get? hj : j.id = job.id)
    refine ⟨by rw [hid]; rfl, by rw [hid]; rfl, (cancelledStatus_terminal _ _ _).trans ?_⟩
    rw [← hcount, hid]
    rfl

end Control

/-! ### New jobs -/

/-- What `create_import_job` does when it returns. -/
structure Created (db db' : ImportDb) (actor jobId bucketId : Str) (app : Option Str) (files : ℕ) :
    Prop where
  files_pos : 0 < files
  jobs : db.jobs.insert? ⟨jobId, actor, bucketId, app, .queued, .active, files, 0, 0⟩ = some db'.jobs
  entries : insertEntries db.entries (newEntries jobId files) = some db'.entries

section CreateJob

variable {db db' : ImportDb} {actor jobId bucketId : Str} {app : Option Str} {visible : Bool}
  {files : ℕ}

theorem insertEntries_rows {news : List Entry} : ∀ {t t' : Table Entry Entry.key},
    insertEntries t news = some t' → t'.rows = t.rows ++ news ∧
      ∀ e ∈ news, t.get? e.key = none := by
  induction news with
  | nil =>
    intro t t' h
    obtain rfl := Option.some.inj h
    exact ⟨(List.append_nil _).symm, by simp⟩
  | cons e rest ih =>
    intro t t' h
    obtain ⟨t₁, ht₁, hrest⟩ := Option.bind_eq_some_iff.mp h
    obtain ⟨hrows, hfresh⟩ := Table.rows_insert ht₁
    obtain ⟨hrows', hfresh'⟩ := ih hrest
    refine ⟨by rw [hrows', hrows, List.append_assoc]; rfl, fun e' he' => ?_⟩
    rcases List.mem_cons.mp he' with rfl | he'
    · exact hfresh
    · cases hget : t.get? e'.key with
      | none => rfl
      | some e₀ =>
        have := Table.get?_insert_of_some ht₁ hget
        rw [hfresh' e' he'] at this
        exact absurd this (by simp)

theorem createImportJob_ok (h : createImportJob db actor jobId bucketId app visible files = .ok db') :
    Created db db' actor jobId bucketId app files := by
  unfold createImportJob at h
  split at h
  · exact absurd h (by simp)
  rename_i hfiles
  split at h
  · exact absurd h (by simp)
  split at h
  · rename_i jobs entries hjobs hentries
    obtain rfl := Except.ok.inj h
    refine ⟨?_, hjobs, hentries⟩
    simp only [Bool.or_eq_true, decide_eq_true_eq, not_or] at hfiles
    exact Nat.pos_of_ne_zero hfiles.1
  · exact absurd h (by simp)

theorem mem_newEntries {count : ℕ} {e : Entry} : e ∈ newEntries jobId count ↔
    ∃ ordinal < count, e = ⟨jobId, ordinal, .queued, none, none, none, 0⟩ := by
  unfold newEntries
  rw [List.mem_map]
  refine exists_congr fun ordinal => ?_
  rw [List.mem_range, eq_comm (a := e)]

/-- What an entry of the tables after a creation was. -/
theorem createImportJob_entries
    (h : createImportJob db actor jobId bucketId app visible files = .ok db') {k : Str × ℕ} {e : Entry}
    (he : db'.entries.get? k = some e) : db.entries.get? k = some e ∨ e ∈ newEntries jobId files := by
  obtain ⟨-, -, hentries⟩ := createImportJob_ok h
  have hmem := Table.mem_of_get? he
  rw [(insertEntries_rows hentries).1, List.mem_append] at hmem
  rcases hmem with hold | hnew
  · rw [← Table.key_of_get? he]
    exact .inl (Table.get?_of_mem hold)
  · exact .inr hnew

theorem createImportJob_evolves
    (h : createImportJob db actor jobId bucketId app visible files = .ok db') :
    Evolves Gentle db db' := by
  obtain ⟨-, hjobs, hentries⟩ := createImportJob_ok h
  refine ⟨fun k e he => ⟨e, ?_, .refl e⟩, fun k e he he' => ?_, fun id job hjob => ?_⟩
  · rw [← Table.key_of_get? he]
    refine Table.get?_of_mem ?_
    rw [(insertEntries_rows hentries).1]
    exact List.mem_append_left _ (Table.mem_of_get? he)
  · rcases createImportJob_entries h he' with hold | hnew
    · exact absurd (he.symm.trans hold) (by simp)
    · obtain ⟨ordinal, -, rfl⟩ := mem_newEntries.mp hnew
      rfl
  · exact ⟨job, Table.get?_insert_of_some hjobs hjob, rfl, rfl, fun hc => hc⟩

theorem createImportJob_sound (hdb : db.Sound)
    (h : createImportJob db actor jobId bucketId app visible files = .ok db') : db'.Sound := by
  obtain ⟨hfiles, hjobs, hentries⟩ := createImportJob_ok h
  obtain ⟨hrows, -⟩ := insertEntries_rows hentries
  have hfresh : db.jobs.get? jobId = none := (Table.rows_insert hjobs).2
  have hother : ∀ k e, db.entries.get? k = some e → k.1 ≠ jobId := by
    rintro k e he rfl
    obtain ⟨job, hjob⟩ := hdb.job k e he
    exact absurd (hfresh.symm.trans hjob) (by simp)
  have hnewKey : ∀ k e, db'.entries.get? k = some e → e ∈ newEntries jobId files → k.1 = jobId := by
    intro k e he hnew
    obtain ⟨ordinal, -, rfl⟩ := mem_newEntries.mp hnew
    exact (Entry.jobId_of_get? he).symm
  refine ⟨fun k e he => ?_, fun k e key he hkey => ?_, fun k e job he hjob hc => ?_,
    fun id job hjob => ?_⟩
  · rw [Table.get?_insert hjobs]
    split
    · exact ⟨_, rfl⟩
    · rename_i hne
      rcases createImportJob_entries h he with hold | hnew
      · exact hdb.job k e hold
      · exact absurd (hnewKey k e he hnew).symm hne
  · rcases createImportJob_entries h he with hold | hnew
    · exact hdb.key k e key hold hkey
    · obtain ⟨ordinal, -, rfl⟩ := mem_newEntries.mp hnew
      exact absurd hkey (by simp)
  · rw [Table.get?_insert hjobs] at hjob
    split at hjob
    · obtain rfl := Option.some.inj hjob
      exact absurd hc (by simp)
    · rename_i hne
      rcases createImportJob_entries h he with hold | hnew
      · exact hdb.cancelled k e job hold hjob hc
      · exact absurd (hnewKey k e he hnew).symm hne
  · have hcount : ∀ q, db'.count id q = db.count id q +
        (newEntries jobId files).countP fun e => e.jobId = id && q e.status := by
      intro q
      unfold ImportDb.count
      rw [hrows, List.countP_append]
    rw [Table.get?_insert hjobs] at hjob
    split at hjob
    · rename_i hid
      have hid' : jobId = id := hid
      subst hid'
      obtain rfl := Option.some.inj hjob
      have hold : ∀ q, db.count jobId q = 0 := fun q =>
        count_eq_zero_iff.mpr fun e he hje => absurd hje (hother e.key e (Table.get?_of_mem he))
      have hzero : ∀ q : EntryStatus → Bool, q .queued = false → db'.count jobId q = 0 := by
        intro q hq
        rw [hcount, hold, Nat.zero_add, List.countP_eq_zero]
        intro e he
        obtain ⟨ordinal, -, rfl⟩ := mem_newEntries.mp he
        simp [hq]
      refine ⟨(hzero _ rfl).symm, (hzero _ rfl).symm, iff_of_false (by simp [JobStatus.terminal]) ?_⟩
      show db'.count jobId _ ≠ 0
      rw [hcount, hold, Nat.zero_add]
      refine fun h0 => absurd (List.countP_eq_zero.mp h0 _ (mem_newEntries.mpr ⟨0, hfiles, rfl⟩)) ?_
      simp [EntryStatus.pending]
    · rename_i hne
      refine (hdb.agrees id job hjob).congr fun q => ?_
      rw [Table.key_of_get? hjob, hcount, List.countP_eq_zero.mpr, Nat.add_zero]
      intro e he
      obtain ⟨ordinal, -, rfl⟩ := mem_newEntries.mp he
      have : jobId ≠ id := hne
      simp [this]

end CreateJob

end AI2Apps.Knowledge.Imports
