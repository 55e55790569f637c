import AI2Apps.Lib.Tables
import AI2Apps.Lib.TextOrder

/-!
# Process records

`processes/models.py` and `processes/repository.py`: the statuses, the record of one
execution and the transactions that write it.  The log chunks, the events and the broker's
requests are left out; no transition reads them.  Times are microseconds.

* `ProcessStatus.terminal`: the statuses that settle a record.
* `Db.settle`: guarded against a settled record; `Db.markRunning` is not.
-/

namespace AI2Apps.Processes

abbrev Time := ℕ

inductive ProcessStatus where
  | starting
  | running
  | exited
  | failed
  | cancelled
  | timedOut
  | idleTimeout
  | outputLimit
  | orphaned
  deriving DecidableEq

def ProcessStatus.terminal : ProcessStatus → Bool
  | .starting | .running => false
  | .exited | .failed | .cancelled | .timedOut | .idleTimeout | .outputLimit | .orphaned => true

structure ProcessLimits where
  wallTimeSeconds : ℕ
  idleTimeSeconds : ℕ
  cpuTimeSeconds : ℕ
  memoryBytes : ℕ
  outputBytes : ℕ

structure ErrorInfo where
  code : String
  message : Option Str
  deriving DecidableEq

structure ProcessRecord where
  id : ℕ
  sessionId : Str
  runId : Option Str
  callerId : Str
  status : ProcessStatus
  pid : Option ℕ
  exitCode : Option ℤ
  limits : ProcessLimits
  stdinOpen : Bool
  outputBytes : ℕ
  lastActivityAt : Time
  error : Option ErrorInfo
  createdAt : Time
  updatedAt : Time
  startedAt : Option Time
  finishedAt : Option Time

abbrev Db := Table ProcessRecord ProcessRecord.id

/-- What `create` inserts. -/
def ProcessRecord.fresh (id : ℕ) (sessionId : Str) (runId : Option Str) (callerId : Str)
    (limits : ProcessLimits) (now : Time) : ProcessRecord where
  id := id
  sessionId := sessionId
  runId := runId
  callerId := callerId
  status := .starting
  pid := none
  exitCode := none
  limits := limits
  stdinOpen := true
  outputBytes := 0
  lastActivityAt := now
  error := none
  createdAt := now
  updatedAt := now
  startedAt := none
  finishedAt := none

def ProcessRecord.running (record : ProcessRecord) (pid : ℕ) (now : Time) : ProcessRecord :=
  { record with
    status := .running, pid := some pid, startedAt := some now
    lastActivityAt := now, updatedAt := now }

@[simp] theorem ProcessRecord.id_running (record : ProcessRecord) (pid : ℕ) (now : Time) :
    (record.running pid now).id = record.id := rfl

/-- `mark_running`: whatever the status is. -/
def Db.markRunning (db : Db) (id pid : ℕ) (now : Time) : Db :=
  Table.update db (fun r => r.id = id) (fun r => r.running pid now) fun r => r.id_running pid now

def ProcessRecord.settled (record : ProcessRecord) (status : ProcessStatus) (exitCode : Option ℤ)
    (error : Option ErrorInfo) (now : Time) : ProcessRecord :=
  { record with
    status := status, exitCode := exitCode, stdinOpen := false, error := error
    finishedAt := some now, updatedAt := now }

@[simp] theorem ProcessRecord.id_settled (record : ProcessRecord) (status : ProcessStatus)
    (exitCode : Option ℤ) (error : Option ErrorInfo) (now : Time) :
    (record.settled status exitCode error now).id = record.id := rfl

/-- `settle`: a record with a terminal status stays. -/
def Db.settle (db : Db) (id : ℕ) (status : ProcessStatus) (exitCode : Option ℤ)
    (error : Option ErrorInfo) (now : Time) : Db :=
  Table.update db (fun r => r.id = id && !r.status.terminal)
    (fun r => r.settled status exitCode error now) fun r => r.id_settled status exitCode error now

/-- `append_log`. -/
def Db.appendLog (db : Db) (id byteCount : ℕ) (now : Time) : Db :=
  Table.update db (fun r => r.id = id)
    (fun r => { r with
      outputBytes := r.outputBytes + byteCount, lastActivityAt := now, updatedAt := now })
    fun _ => rfl

/-- `touch` with a value for `stdin_open`. -/
def Db.touch (db : Db) (id : ℕ) (stdinOpen : Bool) (now : Time) : Db :=
  Table.update db (fun r => r.id = id)
    (fun r => { r with stdinOpen := stdinOpen, lastActivityAt := now, updatedAt := now })
    fun _ => rfl

/-- `recover_orphans`. -/
def Db.recoverOrphans (db : Db) (now : Time) : Db :=
  Table.update db (fun r => !r.status.terminal)
    (fun r => { r with
      status := .orphaned, stdinOpen := false, error := some ⟨"runtime_restarted", none⟩
      finishedAt := some now, updatedAt := now })
    fun _ => rfl

/-- The records that `active_count` counts. -/
def Db.active (db : Db) (sessionId : Str) : List ProcessRecord :=
  db.rows.filter fun r => r.sessionId = sessionId && !r.status.terminal

/-- `active_count`: the number that the session limit bounds. -/
def Db.activeCount (db : Db) (sessionId : Str) : ℕ := (db.active sessionId).length

/-- `active_for_run`. -/
def Db.activeForRun (db : Db) (runId : Str) : List ProcessRecord :=
  db.rows.filter fun r => r.runId = some runId && !r.status.terminal

/-! ## Settled records -/

/-- The record has a terminal status. -/
def Db.Ended (db : Db) (id : ℕ) : Prop := ∃ r, db.get? id = some r ∧ r.status.terminal = true

theorem Db.Ended.known {db : Db} {id : ℕ} (h : db.Ended id) : (db.get? id).isSome = true := by
  obtain ⟨r, hr, -⟩ := h
  exact Option.isSome_iff_exists.mpr ⟨r, hr⟩

/-- No record is lost, and a settled one keeps its status and its end. -/
def Db.Keeps (db db' : Db) : Prop :=
  ∀ id r, db.get? id = some r → ∃ r', db'.get? id = some r' ∧
    (r.status.terminal = true → r'.status = r.status ∧ r'.finishedAt = r.finishedAt)

variable {db db' db'' : Db} {id : ℕ}

theorem Db.Keeps.refl (db : Db) : db.Keeps db := fun _ r h => ⟨r, h, fun _ => ⟨rfl, rfl⟩⟩

theorem Db.Keeps.trans (h : db.Keeps db') (h' : db'.Keeps db'') : db.Keeps db'' := by
  intro id r hr
  obtain ⟨r', hr', hkeep⟩ := h id r hr
  obtain ⟨r'', hr'', hkeep'⟩ := h' id r' hr'
  refine ⟨r'', hr'', fun hend => ?_⟩
  obtain ⟨hstatus, hfinished⟩ := hkeep hend
  obtain ⟨hstatus', hfinished'⟩ := hkeep' (hstatus ▸ hend)
  exact ⟨hstatus'.trans hstatus, hfinished'.trans hfinished⟩

theorem Db.Keeps.ended (h : db.Keeps db') (hend : db.Ended id) : db'.Ended id := by
  obtain ⟨r, hr, hstatus⟩ := hend
  obtain ⟨r', hr', hkeep⟩ := h id r hr
  exact ⟨r', hr', (hkeep hstatus).1 ▸ hstatus⟩

/-- A write that adds no record, takes none back and settles at most one. -/
structure Db.Writes (db db' : Db) (settled : Option ℕ) : Prop where
  keeps : db.Keeps db'
  known : ∀ id, (db'.get? id).isSome = true → (db.get? id).isSome = true
  ended : ∀ id, db'.Ended id → db.Ended id ∨ settled = some id

theorem Db.Writes.refl (db : Db) : db.Writes db none :=
  ⟨.refl db, fun _ h => h, fun _ h => .inl h⟩

/-- An update that changes the status and the end of no settled record that it selects. -/
theorem Db.writes_update {p : ProcessRecord → Bool} {f : ProcessRecord → ProcessRecord}
    {settled : Option ℕ} (hf : ∀ r, (f r).id = r.id)
    (hkeep : ∀ r, db.get? r.id = some r → p r = true → r.status.terminal = true →
      (f r).status = r.status ∧ (f r).finishedAt = r.finishedAt)
    (hsettle : ∀ r, p r = true → (f r).status.terminal = true →
      r.status.terminal = true ∨ settled = some r.id) :
    db.Writes (Table.update db p f hf) settled where
  keeps id r hr := by
    rw [Table.get?_update, hr, Option.map_some]
    refine ⟨_, rfl, fun hend => ?_⟩
    split
    · rename_i hp
      exact hkeep r (by rwa [Table.key_of_get? hr]) hp hend
    · exact ⟨rfl, rfl⟩
  known id h := by rwa [Table.get?_update, Option.isSome_map] at h
  ended id h := by
    obtain ⟨r', hr', hend⟩ := h
    rw [Table.get?_update] at hr'
    obtain ⟨r, hr, rfl⟩ := Option.map_eq_some_iff.mp hr'
    split at hend
    · rename_i hp
      rcases hsettle r hp hend with h | h
      · exact .inl ⟨r, hr, h⟩
      · exact .inr (Table.key_of_get? hr ▸ h)
    · exact .inl ⟨r, hr, hend⟩

theorem Db.writes_settle (db : Db) (id : ℕ) (status : ProcessStatus) (exitCode : Option ℤ)
    (error : Option ErrorInfo) (now : Time) :
    db.Writes (db.settle id status exitCode error now) (some id) := by
  refine Db.writes_update _ (fun r _ hp hend => ?_) fun r hp _ => ?_
  · rw [hend] at hp
    simp at hp
  · have hid : r.id = id := of_decide_eq_true (Bool.and_eq_true_iff.mp hp).1
    exact .inr (congrArg some hid.symm)

theorem Db.writes_appendLog (db : Db) (id byteCount : ℕ) (now : Time) :
    db.Writes (db.appendLog id byteCount now) none :=
  Db.writes_update _ (fun _ _ _ _ => ⟨rfl, rfl⟩) fun _ _ h => .inl h

theorem Db.writes_touch (db : Db) (id : ℕ) (stdinOpen : Bool) (now : Time) :
    db.Writes (db.touch id stdinOpen now) none :=
  Db.writes_update _ (fun _ _ _ _ => ⟨rfl, rfl⟩) fun _ _ h => .inl h

/-- `mark_running` takes a settled record back, so it must not be settled. -/
theorem Db.writes_markRunning (h : ¬ db.Ended id) (pid : ℕ) (now : Time) :
    db.Writes (db.markRunning id pid now) none := by
  refine Db.writes_update _ (fun r hr hp hend => ?_) fun r _ hend => nomatch hend
  have hid : r.id = id := by simpa using hp
  exact absurd ⟨r, hid ▸ hr, hend⟩ h

/-- `settle` leaves the record settled. -/
theorem Db.ended_settle {status : ProcessStatus} (hstatus : status.terminal = true)
    (h : (db.get? id).isSome = true) (exitCode : Option ℤ) (error : Option ErrorInfo)
    (now : Time) : (db.settle id status exitCode error now).Ended id := by
  obtain ⟨r, hr⟩ := Option.isSome_iff_exists.mp h
  unfold Db.Ended Db.settle
  rw [Table.get?_update, hr, Option.map_some]
  refine ⟨_, rfl, ?_⟩
  split
  · exact hstatus
  · rename_i hp
    simpa [Table.key_of_get? hr] using hp

/-- An insertion keeps every record; the new one is not settled. -/
theorem Db.keeps_insert {r : ProcessRecord} (h : db.insert? r = some db') : db.Keeps db' := by
  intro id' r' hr'
  refine ⟨r', ?_, fun _ => ⟨rfl, rfl⟩⟩
  rw [Table.get?_insert h, if_neg]
  · exact hr'
  · rintro rfl
    rw [(Table.rows_insert h).2] at hr'
    cases hr'

end AI2Apps.Processes
