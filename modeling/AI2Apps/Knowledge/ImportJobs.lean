import AI2Apps.Lib.Tables
import AI2Apps.Lib.TextOrder
import Mathlib.Data.List.Count
import Mathlib.Data.List.Basic

/-!
# Import jobs: the tables and their transactions

`knowledge/store.py`: a job has one entry for each file, and every operation is one
write transaction over the rows of both tables.  Times, file names and media types
are left out: no transaction reads them.

* `Entry`, `Job`, `ImportDb`: the rows; the entries of a job stand in the order of
  their ordinals.
* `createImportJob`, `updateImportEntry`, `recordStaged`, `recoverImportJobs`,
  `retryImportJob`, `controlImportJob`, `claimEntry`, `clearStagingKey`.
-/

namespace AI2Apps.Knowledge.Imports

inductive EntryStatus where
  | queued
  | running
  | completed
  | failed
  deriving DecidableEq

/-- The status of a job; `partly` is `'partial'`. -/
inductive JobStatus where
  | queued
  | running
  | completed
  | partly
  | failed
  deriving DecidableEq

inductive ControlState where
  | active
  | paused
  | cancelled
  deriving DecidableEq

inductive ControlAction where
  | pause
  | resume
  | cancel
  deriving DecidableEq

/-- `staging/{job_id}/{ordinal}-{digest}`. -/
structure StagingKey where
  jobId : Str
  ordinal : ℕ
  digest : Str
  deriving DecidableEq

/-- The place of an item among the items that were created. -/
abbrev ItemId := ℕ

structure Entry where
  jobId : Str
  ordinal : ℕ
  status : EntryStatus
  itemId : Option ItemId
  error : Option Str
  stagingKey : Option StagingKey
  attempts : ℕ

structure Job where
  id : Str
  actorUserId : Str
  bucketId : Str
  sourceAppId : Option Str
  status : JobStatus
  controlState : ControlState
  totalFiles : ℕ
  completedFiles : ℕ
  failedFiles : ℕ

/-- `PRIMARY KEY(job_id, ordinal)`. -/
def Entry.key (entry : Entry) : Str × ℕ := (entry.jobId, entry.ordinal)

structure ImportDb where
  jobs : Table Job Job.id
  entries : Table Entry Entry.key

/-- The exceptions of the operations, with their texts. -/
inductive ImportError where
  | value (message : Str)
  | notFound (message : Str)
  | conflict (message : Str)

def JobStatus.terminal : JobStatus → Bool
  | .completed | .partly | .failed => true
  | .queued | .running => false

def EntryStatus.pending : EntryStatus → Bool
  | .queued | .running => true
  | .completed | .failed => false

namespace ImportDb

/-- `COUNT(*) ... WHERE job_id=? AND p(status)`. -/
def count (db : ImportDb) (jobId : Str) (p : EntryStatus → Bool) : ℕ :=
  db.entries.rows.countP fun e => e.jobId = jobId && p e.status

/-- `WHERE id=? AND actor_user_id=?`. -/
def jobOf (db : ImportDb) (actor jobId : Str) : Option Job :=
  (db.jobs.get? jobId).filter fun job => job.actorUserId = actor

/-- `UPDATE knowledge_import_job_entries` of one job. -/
def updateEntries (db : ImportDb) (p : Entry → Bool) (f : Entry → Entry)
    (hf : ∀ e, (f e).key = e.key) : ImportDb :=
  { db with entries := db.entries.update p f hf }

def updateJob (db : ImportDb) (jobId : Str) (f : Job → Job) (hf : ∀ j, (f j).id = j.id) : ImportDb :=
  { db with jobs := db.jobs.update (fun job => job.id = jobId) f hf }

end ImportDb

/-! ## The operations -/

/-- The rows of a new job. -/
def newEntries (jobId : Str) (count : ℕ) : List Entry :=
  (List.range count).map fun ordinal => ⟨jobId, ordinal, .queued, none, none, none, 0⟩

/-- `executemany(INSERT ...)`. -/
def insertEntries (t : Table Entry Entry.key) : List Entry → Option (Table Entry Entry.key)
  | [] => some t
  | e :: rest => (t.insert? e).bind fun t => insertEntries t rest

/-- `create_import_job`; a job id that is taken fails the transaction. -/
def createImportJob (db : ImportDb) (actor jobId bucketId : Str) (sourceAppId : Option Str)
    (bucketVisible : Bool) (files : ℕ) : Except ImportError ImportDb :=
  if files = 0 || files > 500 then
    .error (.value (str "an import job requires between 1 and 500 files"))
  else if !bucketVisible then .error (.notFound (str "knowledge bucket not found"))
  else
    match db.jobs.insert? ⟨jobId, actor, bucketId, sourceAppId, .queued, .active, files, 0, 0⟩,
        insertEntries db.entries (newEntries jobId files) with
    | some jobs, some entries => .ok ⟨jobs, entries⟩
    | _, _ => .error (.conflict (str "UNIQUE constraint failed"))

/-- The status `update_import_entry` computes from its counts. -/
def settledStatus (completed failed pending : ℕ) : JobStatus :=
  if pending ≠ 0 then .running
  else if failed = 0 then .completed
  else if completed = 0 then .failed
  else .partly

def setEntry (status : EntryStatus) (itemId : Option ItemId) (error : Option Str) (e : Entry) :
    Entry :=
  { e with status := status, itemId := itemId, error := error,
           attempts := e.attempts + if status = .running then 1 else 0 }

/-- The job row after `update_import_entry`. -/
def recount (db : ImportDb) (jobId : Str) (job : Job) : Job :=
  let completed := db.count jobId (· = .completed)
  let failed := db.count jobId (· = .failed)
  { job with status := settledStatus completed failed (db.count jobId EntryStatus.pending),
             completedFiles := completed, failedFiles := failed }

/-- `update_import_entry`. -/
def updateImportEntry (db : ImportDb) (actor jobId : Str) (ordinal : ℕ) (status : EntryStatus)
    (itemId : Option ItemId) (error : Option Str) : Except ImportError ImportDb :=
  if status = .queued then .error (.value (str "invalid import entry status"))
  else if (db.jobOf actor jobId).isNone then
    .error (.notFound (str "knowledge import job not found"))
  else if (db.entries.get? (jobId, ordinal)).isNone then
    .error (.notFound (str "knowledge import entry not found"))
  else
    let db := db.updateEntries (fun e => e.key = (jobId, ordinal)) (setEntry status itemId error)
      fun _ => rfl
    .ok (db.updateJob jobId (recount db jobId) fun _ => rfl)

/-- The check `stage_import_entry` makes before it reads the stream. -/
def stageable (db : ImportDb) (actor jobId : Str) (ordinal : ℕ) : Bool :=
  (db.jobOf actor jobId).isSome &&
    (db.entries.get? (jobId, ordinal)).any fun e => e.status = .queued

/-- The transaction that ends `stage_import_entry`. -/
def recordStaged (db : ImportDb) (actor : Str) (key : StagingKey) : Except ImportError ImportDb :=
  if (db.jobOf actor key.jobId).isNone then
    .error (.notFound (str "knowledge import job not found"))
  else if (db.entries.get? (key.jobId, key.ordinal)).any fun e => e.status = .queued then
    .ok (db.updateEntries (fun e => e.key = (key.jobId, key.ordinal) && e.status = .queued)
      (fun e => { e with stagingKey := some key }) fun _ => rfl)
  else .error (.conflict (str "knowledge import entry is not stageable"))

/-- The job of an entry is active. -/
def ImportDb.activeJob (db : ImportDb) (jobId : Str) : Bool :=
  (db.jobs.get? jobId).any fun job => job.controlState = .active

/-- `recover_import_jobs`. -/
def recoverImportJobs (db : ImportDb) : ImportDb :=
  { jobs := db.jobs.update (fun job => job.status = .running && job.controlState = .active)
      (fun job => { job with status := .queued }) fun _ => rfl
    entries := db.entries.update (fun e => e.status = .running && db.activeJob e.jobId)
      (fun e => { e with status := .queued, error := some (str "Runtime restarted during import") })
      fun _ => rfl }

/-- A failed entry that can be processed again. -/
def retryable (jobId : Str) (e : Entry) : Bool :=
  e.jobId = jobId && e.status = .failed && e.stagingKey.isSome

def requeueEntry (e : Entry) : Entry :=
  { e with status := .queued, error := none, itemId := none }

/-- The job row after a retry. -/
def retryJob (db : ImportDb) (jobId : Str) (job : Job) : Job :=
  { job with status := .queued, completedFiles := db.count jobId (· = .completed), failedFiles := 0 }

/-- `retry_import_job`. -/
def retryImportJob (db : ImportDb) (actor jobId : Str) : Except ImportError ImportDb :=
  match db.jobOf actor jobId with
  | none => .error (.notFound (str "knowledge import job not found"))
  | some job =>
    if job.controlState ≠ .active then
      .error (.conflict (str "paused or cancelled import jobs cannot be retried"))
    else if !db.entries.rows.any (retryable jobId) then
      .error (.conflict (str "knowledge import job has no retryable files"))
    else
      let db := db.updateEntries (retryable jobId) requeueEntry fun _ => rfl
      .ok (db.updateJob jobId (retryJob db jobId) fun _ => rfl)

/-- `control_import_job(action="pause")`. -/
def pauseImportJob (db : ImportDb) (job : Job) : Except ImportError ImportDb :=
  if job.status.terminal then .error (.conflict (str "completed import jobs cannot be paused"))
  else if job.controlState = .cancelled then
    .error (.conflict (str "cancelled import jobs cannot be paused"))
  else .ok (db.updateJob job.id (fun job => { job with controlState := .paused }) fun _ => rfl)

/-- `control_import_job(action="resume")`. -/
def resumeImportJob (db : ImportDb) (job : Job) : Except ImportError ImportDb :=
  if job.controlState ≠ .paused then
    .error (.conflict (str "only paused import jobs can be resumed"))
  else if db.count job.id (· = .queued) = 0 then
    .error (.conflict (str "import job has no files left to resume"))
  else
    .ok (db.updateJob job.id (fun job => { job with status := .queued, controlState := .active })
      fun _ => rfl)

/-- The status a cancellation computes from its counts. -/
def cancelledStatus (completed failed running : ℕ) : JobStatus :=
  if running ≠ 0 then .running
  else if completed ≠ 0 && failed ≠ 0 then .partly
  else if completed ≠ 0 then .completed
  else .failed

def queuedIn (jobId : Str) (e : Entry) : Bool := e.jobId = jobId && e.status = .queued

/-- The staged files of the entries a cancellation fails. -/
def cancelledKeys (db : ImportDb) (jobId : Str) : List StagingKey :=
  (db.entries.rows.filter (queuedIn jobId)).filterMap Entry.stagingKey

def cancelEntry (e : Entry) : Entry :=
  { e with status := .failed, error := some (str "Cancelled by user"), stagingKey := none }

/-- The job row after a cancellation. -/
def cancelJob (db : ImportDb) (jobId : Str) (job : Job) : Job :=
  let completed := db.count jobId (· = .completed)
  let failed := db.count jobId (· = .failed)
  { job with status := cancelledStatus completed failed (db.count jobId (· = .running))
             controlState := .cancelled, completedFiles := completed, failedFiles := failed }

/-- `control_import_job(action="cancel")`, with the files to remove after the commit. -/
def cancelImportJob (db : ImportDb) (job : Job) : Except ImportError (ImportDb × List StagingKey) :=
  if job.status.terminal && job.controlState ≠ .paused then
    .error (.conflict (str "completed import jobs cannot be cancelled"))
  else
    let db' := db.updateEntries (queuedIn job.id) cancelEntry fun _ => rfl
    .ok (db'.updateJob job.id (cancelJob db' job.id) fun _ => rfl, cancelledKeys db job.id)

/-- The transaction of `control_import_job`. -/
def controlImportJob (db : ImportDb) (actor jobId : Str) (action : ControlAction) :
    Except ImportError (ImportDb × List StagingKey) :=
  match db.jobOf actor jobId with
  | none => .error (.notFound (str "knowledge import job not found"))
  | some job =>
    match action with
    | .pause => (pauseImportJob db job).map fun db => (db, [])
    | .resume => (resumeImportJob db job).map fun db => (db, [])
    | .cancel => cancelImportJob db job

/-- The transaction at the head of the loop of `process_import_job`: it claims the first
queued entry of an active job, or there is nothing to do. -/
def claimEntry (db : ImportDb) (jobId : Str) : Option (Entry × ImportDb) :=
  if !db.activeJob jobId then none
  else
    (db.entries.rows.find? (queuedIn jobId)).map fun entry =>
      (entry, (db.updateEntries (fun e => e.key = entry.key)
        (fun e => { e with status := .running, attempts := e.attempts + 1, error := none })
        fun _ => rfl).updateJob jobId (fun job => { job with status := .running }) fun _ => rfl)

/-- `UPDATE ... SET staging_key=NULL`. -/
def clearStagingKey (db : ImportDb) (jobId : Str) (ordinal : ℕ) : ImportDb :=
  db.updateEntries (fun e => e.key = (jobId, ordinal)) (fun e => { e with stagingKey := none })
    fun _ => rfl

end AI2Apps.Knowledge.Imports
