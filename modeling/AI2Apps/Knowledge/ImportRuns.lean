import AI2Apps.Knowledge.ImportJobs
import AI2Apps.Knowledge.Store
import Mathlib.Logic.Function.Basic

/-!
# Import jobs: workers, uploads and process loss

`process_import_job` and `stage_import_entry` are transactions with file operations
between them, so a call is a program counter and one step of it goes to the next
transaction or file operation.  Any number of calls interleave; a step can raise,
before what it does takes effect or after; and the process can be lost at any point.

* `Pc`, `step`: a worker, from one transaction or file operation to the next.
* `StagePc`, `System.stage`: an upload.
* `Event`, `System.after`, `System.run`: the histories.
-/

namespace AI2Apps.Knowledge.Imports

abbrev Content := List UInt8

/-- What the imports rely on: SHA-256, and the bucket of an actor with its visibility. -/
structure Setup where
  digest : Content → Str
  bucketScope : Str → Str → Option KnowledgeScope

structure KnowledgeItem where
  ownerUserId : Str
  visibility : KnowledgeScope
  /-- The entry whose worker created the item. -/
  producer : Str × ℕ

structure KnowledgeAsset where
  itemId : ItemId
  contentHash : Str

/-- Where a step raises: before what it does takes effect, or after. -/
inductive Fault where
  | before (error : Str)
  | after (error : Str)

def Fault.text : Fault → Str
  | .before error => error
  | .after error => error

/-- Where a worker is. Once it has claimed an entry it carries the row as it read it. -/
inductive Pc where
  | claiming
  /-- `path.is_file()` and `path.open("rb")`. -/
  | opening (entry : Entry)
  /-- `import_stream`, to the query for a duplicate. -/
  | looking (entry : Entry) (content : Content)
  /-- The transaction of `create_text_item`. -/
  | creating (entry : Entry) (content : Content) (visibility : KnowledgeScope)
  /-- The insertion into `knowledge_assets`. -/
  | recording (entry : Entry) (content : Content) (item : ItemId)
  | completing (entry : Entry) (item : ItemId)
  | unlinking (entry : Entry)
  /-- `except Exception`. -/
  | failing (entry : Entry) (error : Str)
  /-- `finally`; an exception of the handler goes on after it. -/
  | checking (entry : Entry) (raising : Bool)
  | discarding (entry : Entry) (raising : Bool)
  | clearing (entry : Entry) (raising : Bool)

structure Worker where
  job : Job
  pc : Pc

inductive StagePc where
  | writing
  | replaced
  | cleanup
  deriving DecidableEq

structure Stager where
  actor : Str
  jobId : Str
  ordinal : ℕ
  content : Content
  maxBytes : ℕ
  pc : StagePc

structure System where
  db : ImportDb
  items : List KnowledgeItem
  assets : List KnowledgeAsset
  /-- The staging directory. -/
  files : StagingKey → Option Content
  workers : ℕ → Option Worker
  stagers : ℕ → Option Stager
  /-- The files that cancellations still have to remove. -/
  unlinks : List StagingKey

def System.empty : System :=
  ⟨⟨.empty, .empty⟩, [], [], fun _ => none, fun _ => none, fun _ => none, []⟩

/-- `unlink(missing_ok=True)`. -/
def System.unlink (s : System) (key : StagingKey) : System :=
  { s with files := Function.update s.files key none }

/-- The staged file of an entry; without a key the path is one that does not exist. -/
def System.unlinkPath (s : System) (entry : Entry) : System :=
  (entry.stagingKey.map s.unlink).getD s

def System.controlState (s : System) (jobId : Str) : Option ControlState :=
  (s.db.jobs.get? jobId).map Job.controlState

/-! ## Workers -/

/-- The item of an asset with this content that the actor sees in this scope. Only
whether there is one matters here. -/
def System.duplicate (s : System) (contentHash actor : Str) (visibility : KnowledgeScope) :
    Option ItemId :=
  (s.assets.find? fun asset => asset.contentHash = contentHash &&
    (s.items[asset.itemId]?).any fun item => item.visibility = visibility &&
      (item.visibility = .installation || item.ownerUserId = actor)).map KnowledgeAsset.itemId

/-- `max_bytes` of `import_stream`. -/
def importLimit : ℕ := 64 * 1024 * 1024

/-- `(error or "")[:2_000] or None`. -/
def errorText (error : Str) : Option Str :=
  if error.take 2000 = [] then none else some (error.take 2000)

def System.createItem (s : System) (item : KnowledgeItem) : System :=
  { s with items := s.items ++ [item] }

def System.createAsset (s : System) (asset : KnowledgeAsset) : System :=
  { s with assets := s.assets ++ [asset] }

def System.setDb (s : System) (db : ImportDb) : System := { s with db := db }

def ImportError.text : ImportError → Str
  | .value message => message
  | .notFound message => message
  | .conflict message => message

/-- The end of an iteration: the next one, or the exception. -/
def nextIteration (raising : Bool) : Option Pc := if raising then none else some .claiming

def claimingStep (s : System) (job : Job) (fault : Option Fault) : System × Option Pc :=
  match fault, claimEntry s.db job.id with
  | none, some (entry, db) => (s.setDb db, some (.opening entry))
  | _, _ => (s, none)

def openingStep (s : System) (entry : Entry) : System × Option Pc :=
  match entry.stagingKey.bind s.files with
  | some content => (s, some (.looking entry content))
  | none => (s, some (.failing entry (str "staged Knowledge upload is unavailable")))

def lookingStep (setup : Setup) (s : System) (job : Job) (entry : Entry) (content : Content) :
    System × Option Pc :=
  match setup.bucketScope job.actorUserId job.bucketId with
  | none => (s, some (.failing entry (str "knowledge bucket not found")))
  | some visibility =>
    if content.length > importLimit then
      (s, some (.failing entry (str "file exceeds the Knowledge import limit")))
    else
      match s.duplicate (setup.digest content) job.actorUserId visibility with
      | some item => (s, some (.completing entry item))
      | none => (s, some (.creating entry content visibility))

def creatingStep (s : System) (job : Job) (entry : Entry) (content : Content)
    (visibility : KnowledgeScope) (fault : Option Fault) : System × Option Pc :=
  let created := s.createItem ⟨job.actorUserId, visibility, (job.id, entry.ordinal)⟩
  match fault with
  | none => (created, some (.recording entry content s.items.length))
  | some (.before error) => (s, some (.failing entry error))
  | some (.after error) => (created, some (.failing entry error))

def recordingStep (setup : Setup) (s : System) (entry : Entry) (content : Content) (item : ItemId)
    (fault : Option Fault) : System × Option Pc :=
  let recorded := s.createAsset ⟨item, setup.digest content⟩
  match fault with
  | none => (recorded, some (.completing entry item))
  | some (.before error) => (s, some (.failing entry error))
  | some (.after error) => (recorded, some (.failing entry error))

def completingStep (s : System) (job : Job) (entry : Entry) (item : ItemId)
    (fault : Option Fault) : System × Option Pc :=
  let update := updateImportEntry s.db job.actorUserId job.id entry.ordinal .completed (some item) none
  match fault, update with
  | some (.before error), _ => (s, some (.failing entry error))
  | _, .error error => (s, some (.failing entry error.text))
  | some (.after error), .ok db => (s.setDb db, some (.failing entry error))
  | none, .ok db => (s.setDb db, some (.unlinking entry))

def unlinkingStep (s : System) (entry : Entry) (fault : Option Fault) : System × Option Pc :=
  match fault with
  | none => (s.unlinkPath entry, some (.checking entry false))
  | some fault => (s, some (.failing entry fault.text))

def failingStep (s : System) (job : Job) (entry : Entry) (error : Str) (fault : Option Fault) :
    System × Option Pc :=
  let update := updateImportEntry s.db job.actorUserId job.id entry.ordinal .failed none (errorText error)
  match fault, update with
  | some (.before _), _ => (s, some (.checking entry true))
  | _, .error _ => (s, some (.checking entry true))
  | some (.after _), .ok db => (s.setDb db, some (.checking entry true))
  | none, .ok db => (s.setDb db, some (.checking entry false))

def checkingStep (s : System) (job : Job) (entry : Entry) (raising : Bool) : System × Option Pc :=
  if s.controlState job.id = some .cancelled then (s, some (.discarding entry raising))
  else (s, nextIteration raising)

/-- One step of `process_import_job`: what becomes of the system, and where the worker
goes on, if it does. -/
def step (setup : Setup) (s : System) (job : Job) (fault : Option Fault) : Pc → System × Option Pc
  | .claiming => claimingStep s job fault
  | .opening entry =>
    match fault with
    | none => openingStep s entry
    | some fault => (s, some (.failing entry fault.text))
  | .looking entry content =>
    match fault with
    | none => lookingStep setup s job entry content
    | some fault => (s, some (.failing entry fault.text))
  | .creating entry content visibility => creatingStep s job entry content visibility fault
  | .recording entry content item => recordingStep setup s entry content item fault
  | .completing entry item => completingStep s job entry item fault
  | .unlinking entry => unlinkingStep s entry fault
  | .failing entry error => failingStep s job entry error fault
  | .checking entry raising =>
    match fault with
    | none => checkingStep s job entry raising
    | some _ => (s, none)
  | .discarding entry raising =>
    match fault with
    | none => (s.unlinkPath entry, some (.clearing entry raising))
    | some _ => (s, none)
  | .clearing entry raising =>
    match fault with
    | none => (s.setDb (clearStagingKey s.db job.id entry.ordinal), nextIteration raising)
    | some _ => (s, none)

def System.setWorker (s : System) (w : ℕ) (worker : Option Worker) : System :=
  { s with workers := Function.update s.workers w worker }

@[simp] theorem System.setWorker_self (s : System) (w : ℕ) (worker : Option Worker) :
    (s.setWorker w worker).workers w = worker := by
  unfold System.setWorker
  exact Function.update_self w _ _

@[simp] theorem System.setWorker_db (s : System) (w : ℕ) (worker : Option Worker) :
    (s.setWorker w worker).db = s.db := rfl

/-- The worker `w` takes a step. -/
def System.work (setup : Setup) (s : System) (w : ℕ) (fault : Option Fault) : System :=
  match s.workers w with
  | none => s
  | some worker =>
    let out := step setup s worker.job fault worker.pc
    out.1.setWorker w (out.2.map (Worker.mk worker.job))

/-- A call of `process_import_job`; without the job it returns at once. -/
def System.process (s : System) (w : ℕ) (jobId : Str) : System :=
  match s.workers w, s.db.jobs.get? jobId with
  | none, some job => s.setWorker w (some ⟨job, .claiming⟩)
  | _, _ => s

/-! ## Uploads -/

def Stager.key (setup : Setup) (stager : Stager) : StagingKey :=
  ⟨stager.jobId, stager.ordinal, setup.digest stager.content⟩

def System.setStager (s : System) (n : ℕ) (stager : Option Stager) : System :=
  { s with stagers := Function.update s.stagers n stager }

/-- A call of `stage_import_entry`, to the check it makes first. -/
def System.stageBegin (s : System) (n : ℕ) (actor jobId : Str) (ordinal : ℕ) (content : Content)
    (maxBytes : ℕ) : System :=
  if (s.stagers n).isNone && stageable s.db actor jobId ordinal then
    s.setStager n (some ⟨actor, jobId, ordinal, content, maxBytes, .writing⟩)
  else s

/-- The upload is written and replaces its destination; when `os.replace` raises, after the upload is
written, the destination is removed. -/
def writingStep (setup : Setup) (s : System) (stager : Stager) (fault : Option Fault) :
    System × Option StagePc :=
  if stager.content.length > stager.maxBytes then (s, none)
  else
    match fault with
    | some (.before _) => (s, none)
    | some (.after _) => (s, some .cleanup)
    | none => ({ s with files := Function.update s.files (stager.key setup) (some stager.content) },
        some .replaced)

/-- The transaction; without its commit the destination is removed. -/
def replacedStep (setup : Setup) (s : System) (stager : Stager) (fault : Option Fault) :
    System × Option StagePc :=
  match fault, recordStaged s.db stager.actor (stager.key setup) with
  | some (.before _), _ => (s, some .cleanup)
  | _, .error _ => (s, some .cleanup)
  | _, .ok db => (s.setDb db, none)

def stageStep (setup : Setup) (s : System) (stager : Stager) (fault : Option Fault) :
    System × Option StagePc :=
  match stager.pc with
  | .writing => writingStep setup s stager fault
  | .replaced => replacedStep setup s stager fault
  | .cleanup => (if fault.isSome then s else s.unlink (stager.key setup), none)

/-- The upload `n` takes a step. -/
def System.stage (setup : Setup) (s : System) (n : ℕ) (fault : Option Fault) : System :=
  match s.stagers n with
  | none => s
  | some stager =>
    let out := stageStep setup s stager fault
    out.1.setStager n (out.2.map fun pc => { stager with pc := pc })

/-! ## Histories -/

inductive Event where
  | createJob (actor jobId bucketId : Str) (sourceAppId : Option Str) (files : ℕ)
  | stageBegin (n : ℕ) (actor jobId : Str) (ordinal : ℕ) (content : Content) (maxBytes : ℕ)
  | stage (n : ℕ) (fault : Option Fault)
  | control (actor jobId : Str) (action : ControlAction)
  /-- A cancellation removes a file, or raises at it and leaves the file. -/
  | unlink (key : StagingKey) (raises : Bool)
  | retry (actor jobId : Str)
  | process (w : ℕ) (jobId : Str)
  | work (w : ℕ) (fault : Option Fault)
  /-- The process is lost, with every call that is under way. -/
  | lose
  | recover

/-- The tables after a transaction; an exception rolls it back. -/
def System.commit (s : System) : Except ImportError ImportDb → System
  | .ok db => s.setDb db
  | .error _ => s

def System.control (s : System) (actor jobId : Str) (action : ControlAction) : System :=
  match controlImportJob s.db actor jobId action with
  | .ok (db, keys) => { s with db := db, unlinks := s.unlinks ++ keys }
  | .error _ => s

def System.cancelUnlink (s : System) (key : StagingKey) (raises : Bool) : System :=
  if key ∈ s.unlinks then
    { (if raises then s else s.unlink key) with unlinks := s.unlinks.erase key }
  else s

def System.lose (s : System) : System :=
  { s with workers := fun _ => none, stagers := fun _ => none, unlinks := [] }

def System.after (setup : Setup) (s : System) : Event → System
  | .createJob actor jobId bucketId app files =>
    s.commit (createImportJob s.db actor jobId bucketId app (setup.bucketScope actor bucketId).isSome files)
  | .stageBegin n actor jobId ordinal content maxBytes =>
    s.stageBegin n actor jobId ordinal content maxBytes
  | .stage n fault => s.stage setup n fault
  | .control actor jobId action => s.control actor jobId action
  | .unlink key raises => s.cancelUnlink key raises
  | .retry actor jobId => s.commit (retryImportJob s.db actor jobId)
  | .process w jobId => s.process w jobId
  | .work w fault => s.work setup w fault
  | .lose => s.lose
  | .recover => s.setDb (recoverImportJobs s.db)

def System.run (setup : Setup) (s : System) (events : List Event) : System :=
  events.foldl (System.after setup) s

/-- Every step of the history meets the condition. -/
def Throughout (setup : Setup) (C : System → Event → Prop) : System → List Event → Prop
  | _, [] => True
  | s, event :: events => C s event ∧ Throughout setup C (s.after setup event) events

/-- `recover_import_jobs` is called when the process starts. -/
def AtStartup (s : System) : Event → Prop
  | .recover => ∀ w, s.workers w = none
  | _ => True

end AI2Apps.Knowledge.Imports
