import AI2Apps.Agents.Records
import AI2Apps.Lib.JsonText
import Mathlib.Data.List.Sort

/-!
# The Agent repository

The operations of `agents/repository.py` on runs, steps and interactions.  Each
is one transaction; the current time and the identifiers it would draw are
arguments.  Status lines and events are written by every operation and read by
none, so they are left out; the last event of a plan is the plan of its run.

* `createRun`, `claimNext`, `transition`, `updatePlan`: the life of a run.
* `createInteraction`, `respondInteraction`, `expireInteractions`: user decisions.
* `requestPause`, `requestCancel`, `resumeInterrupted`, `recoverInterrupted`.
* `createStep`, `settleStep`, `abandonStepForRetry`.
-/

namespace AI2Apps.Agents

open Clock Faults
open JsonText (setMember)

/-- What the operations use of the schema validator and of the text of values. -/
structure Env where
  /-- `Draft202012Validator.check_schema`. -/
  checkSchema : Json.Object → Bool
  /-- `Draft202012Validator(schema).validate(instance)`. -/
  validates : Json.Object → Json.Object → Bool
  /-- `str(value)`. -/
  text : Json → Str

/-- `{"code": code}`. -/
def codeError (code : String) : Json.Object := [(str "code", .str (str code))]

/-- `(error or {}).get("code")`. -/
def errorCode (error : Option Json.Object) : Option Json :=
  error.bind (Json.lookup (str "code"))

/-- Freeze an execution deadline while a durable Run awaits external action. -/
def resumeDeadline (deadline suspendedAt now : DateTime) : Option DateTime :=
  deadline.add (now.micros - suspendedAt.micros)

def selectRun (runId : Str) : Tx Run := do
  let db ← get
  orThrow (.notFound (str "agent_run") runId) (db.run? runId)

/-! ## Runs -/

/-- `isinstance(value, int) and value > 0`; a boolean is an integer. -/
def positive? : Json → Option ℤ
  | .int i => if 0 < i then some i else none
  | .bool true => some 1
  | _ => none

/-- The `budget` argument holds positive integers. -/
def checkBudget (budget : Json.Object) : Tx Unit :=
  ["max_steps", "timeout_seconds", "max_model_tokens"].forM fun key =>
    match Json.lookup (str key) budget with
    | none | some .null => pure ()
    | some value =>
      if (positive? value).isSome then pure ()
      else throw (.value (str "Agent Run budget " ++ str key ++ str " must be a positive integer"))

/-- What a delegated run takes from its parent. -/
structure Lineage where
  rootRunId : Str
  depth : ℕ
  deadline : DateTime
  delegation : Json.Object

def maxDelegationDepth : ℕ := 2

def maxChildRuns : ℕ := 4

/-- The checks on a delegation, in the transaction that inserts the run. -/
def delegated (now : DateTime) (sessionId parentRunId : Str) (definition : Definition)
    (timeoutSeconds : ℤ) (delegation : Json.Object) : Tx Lineage := do
  let db ← get
  let parent ← orThrow (.notFound (str "parent_agent_run") parentRunId) (db.run? parentRunId)
  if parent.sessionId ≠ sessionId then
    throw (.conflict (str "Delegated AgentRun must use its parent's Session"))
  else if parent.status ≠ .planning ∧ parent.status ≠ .running then
    throw (.conflict (str "Delegation requires an active parent AgentRun"))
  else if maxDelegationDepth < parent.depth + 1 then
    throw (.conflict (str "Delegation depth exceeds 2"))
  else if maxChildRuns ≤ (db.runs.rows.filter fun r => r.parentRunId = some parentRunId).length then
    throw (.conflict (str "Parent AgentRun already has 4 children"))
  else
    let budget ← orThrow .type ((Json.lookup (str "budget") delegation).getD (.obj [])).obj?
    let value := (Json.lookup (str "timeout_seconds") budget).getD (.int definition.timeoutSeconds)
    let timeout ← orThrow (.value (str "Delegation timeout_seconds must be positive"))
      (positive? value)
    let deadline ← orThrow .overflow (now.add ((min timeout timeoutSeconds).toNat * 1000000))
    return {
      rootRunId := parent.rootRunId
      depth := parent.depth + 1
      deadline := if deadline.micros ≤ parent.deadlineAt.micros then deadline else parent.deadlineAt
      delegation := setMember (str "depth") (.int (parent.depth + 1))
        (setMember (str "root_run_id") (.str parent.rootRunId)
          (setMember (str "parent_run_id") (.str parent.id) delegation)) }

/-- A delegation names its request. -/
def namesRequest (delegation : Json.Object) : Bool :=
  match Json.lookup (str "request_key") delegation with
  | some (.str (_ :: _)) => true
  | _ => false

/-- A delegation names its task. -/
def namesTask (delegation : Json.Object) : Bool :=
  match Json.lookup (str "task") delegation with
  | some (.str task) => !task.all TextOrder.isWhitespace
  | _ => false

def checkDelegation (delegation : Json.Object) : Tx Unit :=
  if !namesRequest delegation then throw (.value (str "Delegation request_key is required"))
  else if !namesTask delegation then throw (.value (str "Delegation task is required"))
  else pure ()

/-- The text of a member that names something. -/
def textMember (key : Str) (o : Json.Object) : Str :=
  ((Json.lookup key o).bind Json.str?).getD []

/-- The row of a delegation; it is written after the run. -/
def delegationRow (now : DateTime) (runId parentRunId agentKey : Str) (delegation : Json.Object) :
    Delegation where
  parentRunId := parentRunId
  childRunId := runId
  requestKey := textMember (str "request_key") delegation
  targetAgentKey := agentKey
  task := TextOrder.strip (textMember (str "task") delegation)
  parameters := (Json.lookup (str "parameters") delegation).getD (.obj [])
  context := (Json.lookup (str "context") delegation).getD (.obj [])
  budget := (Json.lookup (str "budget") delegation).getD (.obj [])
  createdAt := now
  updatedAt := now

/-- What `create_run` records of a run with a parent. -/
def recordDelegation (now : DateTime) (runId agentKey : Str) (delegation : Json.Object) :
    Option Str → Tx Unit
  | none => pure ()
  | some parentRunId => do
    checkDelegation delegation
    insertDelegation (delegationRow now runId parentRunId agentKey delegation)

/-- Where an invocation says it comes from. -/
def invocationSource (input : Json.Object) : Json :=
  match Json.lookup (str "invocation") input with
  | some (.obj invocation) => (Json.lookup (str "source") invocation).getD (.str (str "api"))
  | _ => .str (str "api")

/-- The input a run records: the caller's, with its parameters, invocation and budget. -/
def normalizeInput (env : Env) (definition : Definition) (parameters budget input : Json.Object) :
    Json.Object :=
  let invocation : Json.Object := [
    (str "agent_definition_id", .str definition.id), (str "agent_key", .str definition.agentKey),
    (str "package_version", .str definition.packageVersion),
    (str "source", .str ((env.text (invocationSource input)).take 64))]
  let named := setMember (str "invocation") (.obj invocation)
    (setMember (str "parameters") (.obj parameters) input)
  if budget = [] then named else setMember (str "run_budget") (.obj budget) named

/-- The seconds a run may take: the Agent's limit, or a smaller budget. -/
def runTimeout (definition : Definition) (budget : Json.Object) : Option ℤ :=
  match Json.lookup (str "timeout_seconds") budget with
  | none => some definition.timeoutSeconds
  | some value => (positive? value).map (min definition.timeoutSeconds)

/-- The lineage of a run: its own root, or what the parent gives. -/
def lineageOf (now : DateTime) (runId sessionId : Str) (definition : Definition) (timeout : ℤ)
    (deadline : DateTime) (delegation : Json.Object) : Option Str → Tx Lineage
  | none => pure { rootRunId := runId, depth := 0, deadline := deadline, delegation := delegation }
  | some parent => delegated now sessionId parent definition timeout delegation

/-- The run that already holds the idempotency key, for the same Agent and input. -/
def reuseRun (existing : Run) (definition : Definition) (input normalized : Json.Object) :
    Tx (Run × Bool) :=
  if existing.agentDefinitionId = definition.id &&
      (Json.sameText (.obj existing.input) (.obj input) ||
        Json.sameText (.obj existing.input) (.obj normalized)) then
    pure (existing, false)
  else throw (.conflict (str "AgentRun idempotency key was reused with different input"))

/-- `create_run`: the run, and whether it is new. -/
def createRun (env : Env) (now : DateTime) (runId sessionId agentKey : Str) (input : Json.Object)
    (idempotencyKey : Option Str) (priority : ℤ) (parentRunId : Option Str)
    (delegation budget : Json.Object) : Tx (Run × Bool) := do
  let db ← get
  let definition ← orThrow (.notFound (str "agent_definition") agentKey)
    (db.definitions.find? fun d => d.id = agentKey || d.agentKey = agentKey)
  if !definition.enabled then throw (.conflict (str "Agent is disabled: " ++ agentKey)) else
  let schema := ((Json.lookup (str "invocation_schema") definition.manifest).bind Json.obj?).getD
    [(str "type", .str (str "object")), (str "properties", .obj [])]
  let parameters ← orThrow (.value (str "Agent parameters must be a JSON object"))
    ((Json.lookup (str "parameters") input).getD (.obj [])).obj?
  if !env.validates schema parameters then throw (.value (str "Agent parameters")) else
  checkBudget budget
  let timeout ← orThrow .type (runTimeout definition budget)
  let deadline ← orThrow .overflow (now.add (timeout.toNat * 1000000))
  let _ ← orThrow (.notFound (str "active_session") sessionId)
    ((db.session? sessionId).filter Session.active)
  let lineage ← lineageOf now runId sessionId definition timeout deadline delegation parentRunId
  let budgeted := normalizeInput env definition parameters budget input
  let normalized := if parentRunId.isNone then budgeted
    else setMember (str "delegation") (.obj lineage.delegation) budgeted
  match idempotencyKey.bind fun key => db.runs.rows.find? fun r =>
      r.sessionId = sessionId && r.idempotencyKey = some key with
  | some existing => reuseRun existing definition input normalized
  | none =>
    let run : Run := {
      id := runId, agentDefinitionId := definition.id, sessionId := sessionId
      parentRunId := parentRunId, rootRunId := lineage.rootRunId, depth := lineage.depth
      delegation := lineage.delegation, status := .queued, idempotencyKey := idempotencyKey
      priority := priority, input := normalized, output := none, error := none
      grantedCapabilities := [], currentStep := 0, cancelRequested := false
      deadlineAt := lineage.deadline, createdAt := now, updatedAt := now
      startedAt := none, finishedAt := none }
    insertRun run
    recordDelegation now runId definition.agentKey lineage.delegation parentRunId
    return (run, true)

/-- `transition`: the run must be in one of the expected states. -/
def transition (now : DateTime) (runId : Str) (expected : List RunStatus) (status : RunStatus)
    (output error : Option Json.Object) : Tx Run := do
  let run ← selectRun runId
  if run.status ∉ expected then
    throw (.conflict (str "AgentRun " ++ runId ++ str " is " ++ run.status.value ++
      str ", expected " ++ List.intercalate (str ", ")
        ((expected.map RunStatus.value).insertionSort (· ≤ ·))))
  else
  updateRun runId fun r => { r with
    status := status
    output := output.or r.output
    error := error.or r.error
    startedAt := if status = .running then r.startedAt.or (some now) else r.startedAt
    finishedAt := if status.terminal then some now else r.finishedAt
    updatedAt := now }
  selectRun runId

/-- A queued run a worker may take. -/
def claimable (db : Db) (now : DateTime) (run : Run) : Bool :=
  match db.definition? run.agentDefinitionId with
  | none => false
  | some d => run.status = .queued && !run.cancelRequested &&
      !(db.deferredWaits.any fun w => w.1 = run.id) &&
      (d.executorKey ≠ str "builtin:coding-child" || run.id ∈ db.codingSubagents) &&
      now.micros < run.deadlineAt.micros && d.enabled

/-- `ORDER BY priority DESC, created_at, id`. -/
def dispatchOrder (r r' : Run) : Prop :=
  r'.priority < r.priority ∨ r.priority = r'.priority ∧
    (r.createdAt.micros < r'.createdAt.micros ∨
      r.createdAt.micros = r'.createdAt.micros ∧ ¬ r'.id < r.id)

instance : DecidableRel dispatchOrder := fun _ _ => by unfold dispatchOrder; infer_instance

/-- The runs of a concurrency group that hold one of its places. -/
def groupActive (db : Db) (group : Str) : List Run :=
  db.runs.rows.filter fun r => (r.status = .planning || r.status = .running) &&
    ((db.definition? r.agentDefinitionId).bind Definition.concurrencyGroup) = some group

/-- A place is free in the concurrency group of the run's Agent. -/
def hasPlace (db : Db) (run : Run) : Bool :=
  match db.definition? run.agentDefinitionId with
  | none => false
  | some d => match d.concurrencyGroup with
    | none => true
    | some group => (groupActive db group).length < d.concurrencyLimit

/-- A queued run that is too late to start is cancelled. -/
def cancelOverdue (now : DateTime) : Tx Unit :=
  updateRuns (fun r => r.status = .queued && r.deadlineAt.micros ≤ now.micros) fun r => { r with
    status := .cancelled
    error := some (codeError "run_deadline_exceeded")
    finishedAt := some now
    updatedAt := now }

/-- `claim_next`: cancel what is too late, then take the first run that may start. -/
def claimNext (now : DateTime) : Tx (Option Run) := do
  cancelOverdue now
  let db ← get
  match ((db.runs.rows.filter (claimable db now)).insertionSort dispatchOrder).find?
      (hasPlace db) with
  | none => return none
  | some selected =>
    updateRuns (fun r => r.id = selected.id && r.status = .queued) fun r => { r with
      status := .planning
      updatedAt := now }
    some <$> selectRun selected.id

/-- `suspend_queued_for_shutdown`. -/
def suspendQueuedForShutdown (now : DateTime) : Tx Unit :=
  updateRuns (fun r => r.status = .queued && !r.cancelRequested && (r.error.isNone ||
      (errorCode r.error).any fun code => !code.isNull && !code.pyEq (.str (str "runtime_stopped"))))
    fun r => { r with error := some (codeError "runtime_stopped"), updatedAt := now }

/-! ## Plans -/

/-- The last plan of a run. -/
def Db.plan (db : Db) (runId : Str) : Plan :=
  ((db.plans.find? fun p => p.1 = runId).map Prod.snd).getD ⟨0, []⟩

/-- What `PLAN_SCHEMA` asks of the items. -/
def planValid (items : List PlanItem) : Bool :=
  items.length ≤ 50 && items.all fun item =>
    1 ≤ item.id.length && item.id.length ≤ 64 && 1 ≤ item.title.length && item.title.length ≤ 300

/-- `update_plan`: the plan the run has then; the same items change nothing. -/
def updatePlan (now : DateTime) (runId : Str) (expectedRevision : ℕ) (items : List PlanItem) :
    Tx Plan := do
  if !planValid items then throw (.value (str "Plan"))
  else if ¬ (items.map PlanItem.id).Nodup then throw (.value (str "Plan item IDs must be unique"))
  else if 1 < (items.filter fun item => item.status = .inProgress).length then
    throw (.value (str "A sequential Run can have only one in_progress plan item"))
  else
  let run ← selectRun runId
  let db ← get
  if (db.session? run.sessionId).isNone then throw (.notFound (str "agent_run") runId)
  else if run.status ≠ .running then throw (.conflict (str "Plan updates require a running Agent"))
  else if items = (db.plan runId).items then return db.plan runId
  else if expectedRevision ≠ (db.plan runId).revision then
    throw (.conflict (str "Plan changed; read the current plan and retry"))
  else
    let plan : Plan := ⟨(db.plan runId).revision + 1, items⟩
    set { db with plans := (runId, plan) :: db.plans }
    updateRun runId fun r => { r with updatedAt := now }
    return plan

/-! ## Steps -/

/-- `create_step`: the step with the action key, and whether it is new. -/
def createStep (now : DateTime) (stepId runId actionKey : Str) (kind : StepKind)
    (input : Json.Object) (toolName : Option Str) : Tx (RunStep × Bool) := do
  let db ← get
  match db.steps.rows.find? fun s => s.runId = runId && s.actionKey = actionKey with
  | some existing => return (existing, false)
  | none =>
    let run ← selectRun runId
    let step : RunStep := {
      id := stepId, runId := runId, sequence := run.currentStep + 1, actionKey := actionKey
      kind := kind, status := .running, toolName := toolName, input := input, output := none
      error := none, createdAt := now, startedAt := some now, finishedAt := none }
    insertStep step
    updateRun runId fun r => { r with currentStep := run.currentStep + 1, updatedAt := now }
    return (step, true)

/-- `settle_step`: a step that is not running stays as it is. -/
def settleStep (now : DateTime) (stepId : Str) (status : StepStatus)
    (output error : Option Json.Object) : Tx RunStep := do
  updateSteps (fun s => s.id = stepId && s.status = .running) fun s => { s with
    status := status, output := output, error := error, finishedAt := some now }
  let db ← get
  orThrow (.notFound (str "run_step") stepId) (db.steps.get? stepId)

/-- `abandon_step_for_retry`: the step gives its action key up. -/
def abandonStepForRetry (now : DateTime) (stepId : Str) (error : Json.Object) : Tx RunStep := do
  let db ← get
  if db.steps.rows.any fun s => s.id = stepId && s.status = .running then
    updateSteps (fun s => s.id = stepId && s.status = .running) fun s => { s with
      status := .cancelled, actionKey := s.actionKey ++ str ":retry:" ++ s.id
      error := some error, finishedAt := some now }
    let db ← get
    orThrow (.notFound (str "run_step") stepId) (db.steps.get? stepId)
  else throw (.conflict (str "RunStep is not running"))

end AI2Apps.Agents
