import AI2Apps.Lib.Programs
import Mathlib.Logic.Function.Basic

/-!
# The App update transaction

`AppUpdateTransaction.execute` replaces the installed App by a copy of a candidate with
moves and removals on one volume, keeps the previous App at the backup path and moves
it back when the new one fails.  It is a program over file operations, in the order of
the source, with its deferred cleanups.

Every operation can fail.  A move is a rename, so it happens or does not; a copy or the
removal of a directory that fails or is cut off leaves an arbitrary remainder.

* `Path`, `Node`, `FileSystem`: the paths the transaction names and what is at them.
* `FileOp`, `semantics`: the operations and what they do.
* `execute`: the transaction.
-/

namespace AI2Apps.AppUpdate

open Programs

/-! ## The file system -/

/-- The paths of a transaction.  `init` lets no two of the three Apps have one path. -/
inductive Path where
  | installedApp
  | candidateApp
  | backupApp
  | lock
  /-- `.AI2Apps.update-<uuid>.app`. -/
  | staged (uuid : String)
  /-- `.AI2Apps.failed-<uuid>.app`. -/
  | failed (uuid : String)
  deriving DecidableEq

/-- What is at a path; the contents of a directory are one value. -/
inductive Node (α : Type) where
  | symbolicLink (resolves : Bool)
  | file
  | directory (contents : α)
  deriving DecidableEq

abbrev FileSystem (α : Type) := Path → Option (Node α)

/-- `isSymbolicLink` and `isDirectory`. -/
structure ResourceValues where
  isSymbolicLink : Bool
  isDirectory : Bool

def Node.resourceValues {α : Type} : Node α → ResourceValues
  | .symbolicLink _ => ⟨true, false⟩
  | .file => ⟨false, false⟩
  | .directory _ => ⟨false, true⟩

/-- `fileExists` follows a link. -/
def Node.reachable {α : Type} : Node α → Bool
  | .symbolicLink resolves => resolves
  | _ => true

/-! ## Errors -/

inductive AppUpdateTransactionError where
  | invalidPath (reason : String)
  | missingApp (name : String)
  | backupAlreadyExists
  | updateInProgress
  | healthCheckFailed
  | rolledBack (reason : String)
  | rollbackFailed (reason : String)
  deriving DecidableEq

def AppUpdateTransactionError.description : AppUpdateTransactionError → String
  | .invalidPath reason => "invalid update path: " ++ reason
  | .missingApp name => "missing " ++ name ++ " App"
  | .backupAlreadyExists => "backup App already exists"
  | .updateInProgress => "another update transaction is in progress"
  | .healthCheckFailed => "updated App failed its health check"
  | .rolledBack reason => "update rolled back: " ++ reason
  | .rollbackFailed reason => "update rollback failed: " ++ reason

/-- What is thrown: an error of the transaction, or one of a file operation, a
validator or the health check. -/
inductive Failure where
  | transaction (error : AppUpdateTransactionError)
  | other (description : String)
  deriving DecidableEq

/-- `String(describing: error)`. -/
def Failure.describing : Failure → String
  | .transaction error => error.description
  | .other description => description

structure AppUpdateResult where
  installedApp : Path
  backupApp : Path
  deriving DecidableEq

/-! ## Operations -/

/-- What `open` with `O_CREAT | O_EXCL` answers. -/
inductive Opened where
  | descriptor
  | exists
  | error (strerror : String)

inductive FileOp (α : Type) where
  | fileExists (path : Path)
  | resourceValues (path : Path)
  | openExclusive (path : Path)
  | uuid
  /-- A copy to the staged path. -/
  | copyItem (source : Path) (uuid : String)
  | moveItem (source destination : Path)
  | removeItem (path : Path)
  | validate (accepts : Node α → Bool) (path : Path)
  | healthCheck (healthy : Node α → Bool) (path : Path)

@[reducible] def FileOp.Answer {α : Type} : FileOp α → Type
  | .fileExists _ => Bool
  | .resourceValues _ => ResourceValues
  | .openExclusive _ => Opened
  | .uuid => String
  | .healthCheck _ _ => Bool
  | _ => Unit

/-- Whether the operation fails and with what error, the identifier that is drawn, and
what a copy and the removal of a directory leave when they do not come to their end. -/
structure Chance (α : Type) where
  fault : Option String
  uuid : String
  debris : Option (Node α)
  remainder : α

structure World (α : Type) where
  files : FileSystem α
  /-- The new App has passed its health check. -/
  passed : Bool
  /-- The lock file could not be removed while an App was installed. -/
  lockLeft : Bool

variable {α : Type}

def World.put (w : World α) (path : Path) (node : Option (Node α)) : World α :=
  { w with files := Function.update w.files path node }

/-- A real directory is at the path. -/
def FileSystem.isApp (files : FileSystem α) (path : Path) : Bool :=
  (files path).any fun node => node.resourceValues.isDirectory

def World.occupied (w : World α) (path : Path) : Bool := (w.files path).isSome

/-- What a removal that fails or is cut off leaves: a directory loses some of its contents. -/
def World.removalCut (w : World α) (path : Path) (remainder : α) : World α :=
  match w.files path with
  | some (.directory _) => w.put path (some (.directory remainder))
  | _ => w

/-- What a copy that fails or is cut off leaves. -/
def World.copyCut (w : World α) (destination : Path) (debris : Option (Node α)) : World α :=
  if w.occupied destination then w else w.put destination debris

def copy (c : Chance α) (source destination : Path) (w : World α) :
    Except Failure Unit × World α :=
  match c.fault with
  | some error => (.error (.other error), w.copyCut destination c.debris)
  | none =>
    if w.occupied source && !w.occupied destination then
      (.ok (), w.put destination (w.files source))
    else (.error (.other "the item could not be copied"), w)

def move (c : Chance α) (source destination : Path) (w : World α) :
    Except Failure Unit × World α :=
  match c.fault with
  | some error => (.error (.other error), w)
  | none =>
    if w.occupied source && !w.occupied destination then
      (.ok (), (w.put destination (w.files source)).put source none)
    else (.error (.other "the item could not be moved"), w)

def remove (c : Chance α) (path : Path) (w : World α) : Except Failure Unit × World α :=
  match c.fault with
  | some error =>
    (.error (.other error), { w.removalCut path c.remainder with
      lockLeft := w.lockLeft || (path = .lock && w.files.isApp .installedApp) })
  | none =>
    if w.occupied path then (.ok (), w.put path none)
    else (.error (.other "the item does not exist"), w)

/-- A check of what is at a path: nothing there is no App. -/
def examine (c : Chance α) (accepts : Node α → Bool) (path : Path) (w : World α) :
    Except Failure Bool :=
  match c.fault with
  | some error => .error (.other error)
  | none => .ok ((w.files path).any accepts)

def readValues (c : Chance α) (path : Path) (w : World α) : Except Failure ResourceValues :=
  match c.fault, w.files path with
  | none, some node => .ok node.resourceValues
  | none, none => .error (.other "the file does not exist")
  | some error, _ => .error (.other error)

def judge (c : Chance α) (accepts : Node α → Bool) (path : Path) (w : World α) :
    Except Failure Unit :=
  match examine c accepts path w with
  | .ok true => .ok ()
  | .ok false => .error (.other "the App was rejected")
  | .error e => .error e

def checkHealth (c : Chance α) (healthy : Node α → Bool) (path : Path) (w : World α) :
    Except Failure Bool × World α :=
  match examine c healthy path w with
  | .ok answer => (.ok answer, { w with passed := answer })
  | .error e => (.error e, w)

def openExclusive (c : Chance α) (path : Path) (w : World α) : Opened × World α :=
  match c.fault with
  | some strerror => (.error strerror, w)
  | none => if w.occupied path then (.exists, w) else (.descriptor, w.put path (some .file))

def perform : (op : FileOp α) → Chance α → World α → Except Failure op.Answer × World α
  | .fileExists path, c, w => (.ok (c.fault.isNone && (w.files path).any Node.reachable), w)
  | .resourceValues path, c, w => (readValues c path w, w)
  | .openExclusive path, c, w => (.ok (openExclusive c path w).1, (openExclusive c path w).2)
  | .uuid, c, w => (.ok c.uuid, w)
  | .copyItem source uuid, c, w => copy c source (.staged uuid) w
  | .moveItem source destination, c, w => move c source destination w
  | .removeItem path, c, w => remove c path w
  | .validate accepts path, c, w => (judge c accepts path w, w)
  | .healthCheck healthy path, c, w => checkHealth c healthy path w

/-- A copy and the removal of a directory can be cut off in their middle. -/
def cut : FileOp α → Chance α → World α → World α
  | .copyItem _ uuid, c, w => w.copyCut (.staged uuid) c.debris
  | .removeItem path, c, w => w.removalCut path c.remainder
  | _, _, w => w

def semantics (α : Type) : Semantics (FileOp α) FileOp.Answer Failure (World α) where
  Chance := Chance α
  perform := perform
  cut := cut

/-! ## The transaction -/

/-- The validators and the health check that the caller passes to `execute`.  They can
also fail on an App they accept. -/
structure Policy (α : Type) where
  installedValidator : Node α → Bool
  candidateValidator : Node α → Bool
  existingBackupValidator : Option (Node α → Bool)
  healthCheck : Node α → Bool

abbrev Transaction (α β : Type) := Program (FileOp α) FileOp.Answer Failure β

def ask (op : FileOp α) : Transaction α op.Answer := .perform op

/-- `throw`, of an error of the transaction. -/
def raise {β : Type} (error : AppUpdateTransactionError) : Transaction α β :=
  .throw (.transaction error)

def fileExists (path : Path) : Transaction α Bool := ask (.fileExists path)

def moveItem (source destination : Path) : Transaction α Unit :=
  ask (.moveItem source destination)

def removeItem (path : Path) : Transaction α Unit := ask (.removeItem path)

def validate (accepts : Node α → Bool) (path : Path) : Transaction α Unit :=
  ask (.validate accepts path)

/-- `guard fileExists(path) else throw missingApp(name)`. -/
def requireApp (path : Path) (name : String) : Transaction α Unit := do
  let found ← fileExists path
  Program.ensure found (.transaction (.missingApp name))

def rejectSymbolicLink (path : Path) : Transaction α Unit := do
  let values : ResourceValues ← ask (.resourceValues path)
  Program.ensure (!values.isSymbolicLink && values.isDirectory)
    (.transaction (.invalidPath "App roots must be real directories"))

def createLock : Transaction α Unit := do
  let opened : Opened ← ask (.openExclusive .lock)
  match opened with
  | .descriptor => pure ()
  | .exists => raise .updateInProgress
  | .error strerror => raise (.invalidPath ("cannot create update lock: " ++ strerror))

/-- An existing backup is removed, once it has been validated. -/
def rotateBackup (policy : Policy α) : Transaction α Unit := do
  let found ← fileExists .backupApp
  match found, policy.existingBackupValidator with
  | false, _ => pure ()
  | true, none => raise .backupAlreadyExists
  | true, some existingBackupValidator => do
    rejectSymbolicLink .backupApp
    validate existingBackupValidator .backupApp
    removeItem .backupApp

/-- The staged App goes to the installed path and is checked there. -/
def install (policy : Policy α) (staged : Path) : Transaction α AppUpdateResult := do
  moveItem staged .installedApp
  validate policy.candidateValidator .installedApp
  let healthy : Bool ← ask (.healthCheck policy.healthCheck .installedApp)
  Program.ensure healthy (.transaction .healthCheckFailed)
  pure ⟨.installedApp, .backupApp⟩

/-- What is at the installed path goes out of the way. -/
def setAside (failed : Path) : Transaction α Unit := do
  let found ← fileExists .installedApp
  if found then moveItem .installedApp failed else pure ()

/-- The previous App goes back. -/
def restore (policy : Policy α) : Transaction α Unit := do
  let uuid : String ← ask .uuid
  setAside (.failed uuid)
  moveItem .backupApp .installedApp
  validate policy.installedValidator .installedApp
  (removeItem (.failed uuid)).attempt

def rollback (policy : Policy α) (error : Failure) : Transaction α AppUpdateResult := do
  (restore policy).tryCatch fun rollbackError =>
    raise (.rollbackFailed rollbackError.describing)
  raise (.rolledBack error.describing)

/-- The part of `execute` that has a staged App to clean up. -/
def replace (policy : Policy α) (uuid : String) : Transaction α AppUpdateResult := do
  ask (.copyItem .candidateApp uuid)
  validate policy.candidateValidator (.staged uuid)
  validate policy.installedValidator .installedApp
  rotateBackup policy
  moveItem .installedApp .backupApp
  (install policy (.staged uuid)).tryCatch (rollback policy)

/-- The part of `execute` that holds the lock. -/
def underLock (policy : Policy α) : Transaction α AppUpdateResult := do
  let uuid : String ← ask .uuid
  Program.defer (removeItem (.staged uuid)) (replace policy uuid)

def execute (policy : Policy α) : Transaction α AppUpdateResult := do
  requireApp .installedApp "installed"
  requireApp .candidateApp "candidate"
  rejectSymbolicLink .installedApp
  rejectSymbolicLink .candidateApp
  createLock
  Program.defer (removeItem .lock) (underLock policy)

end AI2Apps.AppUpdate
