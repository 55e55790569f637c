import AI2Apps.Core.Clock
import AI2Apps.Lib.Json
import AI2Apps.Lib.Tables
import AI2Apps.Lib.Faults

/-!
# The tables of the Agent runtime

The rows that `agents/repository.py` and `capabilities/repository.py` read and
write, and the constraints the database itself enforces on them: primary keys,
the unique indexes, and the trigger that limits how a run's status may change.
JSON columns hold the value they parse to, time columns the time (their canonical
texts, of one width, compare as the times do).

A repository operation is a transaction: an exception rolls it back.

* `statusAllowed`: the transitions the trigger lets through.
* `Db`: the tables; `Tx`: a program on them.
* `updateRuns`, `insertInteraction`, ...: the checked writes.
-/

namespace AI2Apps.Agents

open Clock Faults

inductive RunStatus where
  | queued
  | planning
  | running
  | waitingInput
  | waitingCapability
  | interrupted
  | completed
  | failed
  | cancelled
  deriving DecidableEq

/-- `completed`, `failed` or `cancelled`. -/
def RunStatus.terminal : RunStatus → Bool
  | .completed | .failed | .cancelled => true
  | _ => false

def RunStatus.value : RunStatus → Str
  | .queued => str "queued"
  | .planning => str "planning"
  | .running => str "running"
  | .waitingInput => str "waiting_input"
  | .waitingCapability => str "waiting_capability"
  | .interrupted => str "interrupted"
  | .completed => str "completed"
  | .failed => str "failed"
  | .cancelled => str "cancelled"

inductive StepStatus where
  | pending
  | running
  | completed
  | failed
  | cancelled
  | uncertain
  deriving DecidableEq

inductive StepKind where
  | model
  | tool
  | interaction
  | internal
  deriving DecidableEq

inductive InteractionKind where
  | text
  | menu
  | file
  | form
  | approval
  deriving DecidableEq

inductive InteractionStatus where
  | pending
  | submitted
  | approved
  | denied
  | expired
  | cancelled
  deriving DecidableEq

inductive ResumePolicy where
  | restart
  | fail
  deriving DecidableEq

inductive GrantScope where
  | run
  | session
  | agent
  | app
  deriving DecidableEq

/-! ## Rows -/

structure Session where
  id : Str
  appInstanceId : Str
  active : Bool

/-- An Agent Definition, joined with the limit of its concurrency group. -/
structure Definition where
  id : Str
  agentKey : Str
  packageVersion : Str
  enabled : Bool
  executorKey : Str
  concurrencyGroup : Option Str
  concurrencyLimit : ℕ
  resumePolicy : ResumePolicy
  maxSteps : ℤ
  timeoutSeconds : ℤ
  manifest : Json.Object

structure Run where
  id : Str
  agentDefinitionId : Str
  sessionId : Str
  parentRunId : Option Str
  rootRunId : Str
  depth : ℕ
  delegation : Json.Object
  status : RunStatus
  idempotencyKey : Option Str
  priority : ℤ
  input : Json.Object
  output : Option Json.Object
  error : Option Json.Object
  grantedCapabilities : List Str
  currentStep : ℕ
  cancelRequested : Bool
  deadlineAt : DateTime
  createdAt : DateTime
  updatedAt : DateTime
  startedAt : Option DateTime
  finishedAt : Option DateTime

structure RunStep where
  id : Str
  runId : Str
  sequence : ℕ
  actionKey : Str
  kind : StepKind
  status : StepStatus
  toolName : Option Str
  input : Json.Object
  output : Option Json.Object
  error : Option Json.Object
  createdAt : DateTime
  startedAt : Option DateTime
  finishedAt : Option DateTime

structure Interaction where
  id : Str
  runId : Str
  requestKey : Str
  kind : InteractionKind
  status : InteractionStatus
  prompt : Str
  responseSchema : Json.Object
  uiHints : Json.Object
  request : Json.Object
  response : Option Json.Object
  responseId : Option Str
  deadlineAt : DateTime
  createdAt : DateTime
  updatedAt : DateTime
  resolvedAt : Option DateTime

structure GrantLease where
  id : Str
  scope : GrantScope
  scopeId : Str
  agentDefinitionId : Str
  sessionId : Str
  appInstanceId : Str
  capabilities : List Str
  toolPattern : Str
  toolServiceDigest : Option Str
  resourceSelector : Json
  issuedBy : Str
  evidence : Json.Object
  expiresAt : Option DateTime
  revokedAt : Option DateTime
  revokeReason : Option Str
  createdAt : DateTime
  updatedAt : DateTime

structure ResourceHandle where
  id : Str
  sessionId : Str
  kind : Str
  capabilities : List Str
  revokedAt : Option DateTime
  expiresAt : Option DateTime

/-- A tool that is registered, with the digest of its service's active package. -/
structure ToolService where
  qualifiedName : Str
  activePackageDigest : Option Str

/-- A row of `agent_delegations`. -/
structure Delegation where
  parentRunId : Str
  childRunId : Str
  requestKey : Str
  targetAgentKey : Str
  task : Str
  parameters : Json
  context : Json
  budget : Json
  createdAt : DateTime
  updatedAt : DateTime

inductive PlanStatus where
  | pending
  | inProgress
  | completed
  deriving DecidableEq

structure PlanItem where
  id : Str
  title : Str
  status : PlanStatus
  deriving DecidableEq

/-- The payload of an event `agent.plan.updated`. -/
structure Plan where
  revision : ℕ
  items : List PlanItem

/-- The tables, as far as the Agent runtime reads them. -/
structure Db where
  sessions : List Session
  definitions : List Definition
  tools : List ToolService
  resourceHandles : List ResourceHandle
  runs : Table Run Run.id
  steps : Table RunStep RunStep.id
  interactions : Table Interaction Interaction.id
  leases : Table GrantLease GrantLease.id
  delegations : Table Delegation Delegation.childRunId
  /-- The plans of the runs, the last one first. -/
  plans : List (Str × Plan)
  /-- `agent_deferred_waits`: the run and the step it waits in. -/
  deferredWaits : List (Str × Str)
  /-- `coding_subagents.child_run_id`. -/
  codingSubagents : List Str

/-! ## Programs on the tables -/

inductive Error where
  | notFound (kind id : Str)
  | conflict (message : Str)
  | value (message : Str)
  | type
  | overflow
  | integrity (constraint : Str)
  deriving DecidableEq

/-- A program on the tables that may raise. -/
abbrev Tx (α : Type) := EStateM Error Db α

/-- `connection.execute("SELECT * FROM agent_runs WHERE id = ?")`. -/
def Db.run? (db : Db) (id : Str) : Option Run := db.runs.get? id

def Db.session? (db : Db) (id : Str) : Option Session := db.sessions.find? fun s => s.id = id

def Db.definition? (db : Db) (id : Str) : Option Definition :=
  db.definitions.find? fun d => d.id = id

/-- The digest of the service that provides a tool; a tool nobody registered has none. -/
def Db.toolDigest (db : Db) (toolName : Str) : Option Str :=
  (db.tools.find? fun t => t.qualifiedName = toolName).bind ToolService.activePackageDigest

/-! ## Constraints -/

/-- The trigger `agent_run_status_transition`: the changes of status it lets through. -/
def statusAllowed : RunStatus → RunStatus → Bool
  | .queued, new => new ∈ [.queued, .planning, .interrupted, .cancelled]
  | .planning, new => new ∈ [.planning, .running, .queued, .interrupted, .failed, .cancelled]
  | .running, new => new ∈ [.running, .queued, .waitingInput, .waitingCapability, .interrupted,
      .completed, .failed, .cancelled]
  | .waitingInput, new => new ∈ [.waitingInput, .queued, .failed, .cancelled, .interrupted]
  | .waitingCapability, new => new ∈ [.waitingCapability, .queued, .failed, .cancelled]
  | .interrupted, new => new ∈ [.interrupted, .queued, .failed, .cancelled]
  | old, new => old = new

/-- `UPDATE agent_runs SET ... WHERE p`, under the trigger. -/
def updateRuns (p : Run → Bool) (f : Run → Run) (hf : ∀ r, (f r).id = r.id := by intro _; rfl) :
    Tx Unit := do
  let db ← get
  if db.runs.rows.all fun r => !p r || statusAllowed r.status (f r).status then
    set { db with runs := db.runs.update p f hf }
  else throw (.integrity (str "invalid AgentRun status transition"))

/-- `UPDATE agent_runs SET ... WHERE id = ?`. -/
def updateRun (id : Str) (f : Run → Run) (hf : ∀ r, (f r).id = r.id := by intro _; rfl) :
    Tx Unit :=
  updateRuns (fun r => r.id = id) f hf

/-- `INSERT INTO agent_runs`: the primary key and the idempotency key are unique. -/
def insertRun (run : Run) : Tx Unit := do
  let db ← get
  if run.idempotencyKey.isSome && db.runs.rows.any fun r =>
      r.sessionId = run.sessionId && r.idempotencyKey = run.idempotencyKey then
    throw (.integrity (str "uq_agent_runs_session_idempotency"))
  else
    let runs ← orThrow (.integrity (str "agent_runs.id")) (db.runs.insert? run)
    set { db with runs := runs }

/-- `UPDATE run_steps SET ... WHERE p`: action keys stay unique within a run. -/
def updateSteps (p : RunStep → Bool) (f : RunStep → RunStep)
    (hf : ∀ s, (f s).id = s.id := by intro _; rfl) : Tx Unit := do
  let db ← get
  let steps := db.steps.update p f hf
  if (steps.rows.map fun s => (s.runId, s.actionKey)).Nodup then
    set { db with steps := steps }
  else throw (.integrity (str "run_steps.run_id, run_steps.action_key"))

/-- `INSERT INTO agent_delegations`: a parent names a request once. -/
def insertDelegation (delegation : Delegation) : Tx Unit := do
  let db ← get
  if db.delegations.rows.any fun d => d.parentRunId = delegation.parentRunId &&
      d.requestKey = delegation.requestKey then
    throw (.integrity (str "agent_delegations.parent_run_id, agent_delegations.request_key"))
  else
    let delegations ← orThrow (.integrity (str "agent_delegations.child_run_id"))
      (db.delegations.insert? delegation)
    set { db with delegations := delegations }

/-- `INSERT INTO run_steps`. -/
def insertStep (step : RunStep) : Tx Unit := do
  let db ← get
  if step.actionKey = [] then throw (.integrity (str "length(action_key) > 0"))
  else if db.steps.rows.any fun s =>
      s.runId = step.runId && (s.sequence = step.sequence || s.actionKey = step.actionKey) then
    throw (.integrity (str "run_steps"))
  else
    let steps ← orThrow (.integrity (str "run_steps.id")) (db.steps.insert? step)
    set { db with steps := steps }

/-- `INSERT INTO agent_interactions`: one row for a request key, and one pending row for a run. -/
def insertInteraction (interaction : Interaction) : Tx Unit := do
  let db ← get
  if interaction.requestKey = [] then throw (.integrity (str "length(request_key) > 0"))
  else if db.interactions.rows.any fun i =>
      i.runId = interaction.runId && i.requestKey = interaction.requestKey then
    throw (.integrity (str "agent_interactions.run_id, agent_interactions.request_key"))
  else if db.interactions.rows.any fun i =>
      i.runId = interaction.runId && i.status = .pending then
    throw (.integrity (str "uq_agent_interactions_one_pending"))
  else
    let interactions ← orThrow (.integrity (str "agent_interactions.id"))
      (db.interactions.insert? interaction)
    set { db with interactions := interactions }

/-- `UPDATE agent_interactions SET ... WHERE p`, for updates that open no interaction. -/
def updateInteractions (p : Interaction → Bool) (f : Interaction → Interaction)
    (hf : ∀ i, (f i).id = i.id := by intro _; rfl) : Tx Unit :=
  modify fun db => { db with interactions := db.interactions.update p f hf }

/-- The pair `run_id, response_id` is unique. -/
def checkResponseId (interaction : Interaction) (responseId : Str) : Tx Unit := do
  let db ← get
  if db.interactions.rows.any fun i => i.runId = interaction.runId && i.id ≠ interaction.id &&
      i.responseId = some responseId then
    throw (.integrity (str "agent_interactions.run_id, agent_interactions.response_id"))
  else pure ()

/-- `INSERT INTO grant_leases`. -/
def insertLease (lease : GrantLease) : Tx Unit := do
  let db ← get
  let leases ← orThrow (.integrity (str "grant_leases.id")) (db.leases.insert? lease)
  set { db with leases := leases }

end AI2Apps.Agents
