import AI2Apps.Agents.Repository

/-!
# Interactions, pauses and recovery

The operations of `agents/repository.py` through which a user or a restart moves
a run.  An answer to an interaction resolves it, issues a lease when it approves,
and moves the run; a pause, a cancellation, a resume and a recovery each move
runs that are in the states they name.

* `createInteraction`, `respondInteraction`, `expireInteractions`.
* `requestPause`, `requestCancel`, `resumeInterrupted`, `recoverInterrupted`.
-/

namespace AI2Apps.Agents

open Clock Faults
open JsonText (setMember)

/-! ## Interactions -/

/-- `create_interaction`: the interaction with the request key, new or not. -/
def createInteraction (env : Env) (now : DateTime) (interactionId runId requestKey : Str)
    (kind : InteractionKind) (prompt : Str) (responseSchema uiHints request : Json.Object)
    (timeoutSeconds : ℕ) : Tx Interaction := do
  if !env.checkSchema responseSchema then throw (.value (str "schema")) else
  let deadline ← orThrow .overflow (now.add (timeoutSeconds * 1000000))
  let db ← get
  match db.interactions.rows.find? fun i => i.runId = runId && i.requestKey = requestKey with
  | some existing => return existing
  | none =>
    let _ ← selectRun runId
    let interaction : Interaction := {
      id := interactionId, runId := runId, requestKey := requestKey, kind := kind
      status := .pending, prompt := prompt, responseSchema := responseSchema, uiHints := uiHints
      request := request, response := none, responseId := none, deadlineAt := deadline
      createdAt := now, updatedAt := now, resolvedAt := none }
    insertInteraction interaction
    updateRuns (fun r => r.id = runId && r.status = .running) fun r => { r with
      status := if kind = .approval then .waitingCapability else .waitingInput
      updatedAt := now }
    return interaction

/-- A file interaction returns one readable handle of the run's Session. -/
def checkHandle (now : DateTime) (runId : Str) (response : Json.Object) : Tx Unit := do
  let uri := str "resource://"
  match response.filterMap fun member =>
      (member.2.str?).filter fun value => value.take uri.length = uri with
  | [value] =>
    let run ← selectRun runId
    let db ← get
    if db.resourceHandles.any fun h => h.id = value.drop uri.length &&
        h.sessionId = run.sessionId && h.revokedAt.isNone &&
        (h.kind = str "file" || h.kind = str "artifact") && str "read" ∈ h.capabilities &&
        h.expiresAt.all fun t => now.micros < t.micros then
      pure ()
    else throw (.conflict (str "ResourceHandle is unavailable in this Session"))
  | _ => throw (.conflict (str "File interaction must return one ResourceHandle URI"))

/-- What an answer makes of an interaction: only an approval is approved or denied. -/
def resolvedStatus (kind : InteractionKind) (response : Json.Object) : InteractionStatus :=
  if kind = .approval && Json.memberEq response (str "decision") (.str (str "approve")) then .approved
  else if kind = .approval && Json.memberEq response (str "decision") (.str (str "deny")) then .denied
  else .submitted

/-- `tuple(value)`, for a value that holds texts. -/
def texts? : Json → Option (List Str)
  | .arr items => items.mapM Json.str?
  | .obj members => some (Json.keys members)
  | .str s => some (s.map fun c => [c])
  | _ => none

/-- `sorted(set(values))`. -/
def sortedSet (values : List Str) : List Str := values.dedup.insertionSort (· ≤ ·)

/-- `GrantScope(value)`. -/
def grantScope? (value : Json) : Option GrantScope :=
  match value with
  | .str s =>
    if s = str "run" then some .run
    else if s = str "session" then some .session
    else if s = str "agent" then some .agent
    else if s = str "app" then some .app
    else none
  | _ => none

def GrantScope.value : GrantScope → Str
  | .run => str "run"
  | .session => str "session"
  | .agent => str "agent"
  | .app => str "app"

/-- The scope the user chose; once is one call within the run. -/
def requestedScope (response : Json.Object) : Json :=
  (Json.lookup (str "scope") response).getD (.str (str "once"))

/-- The capabilities an approval asks for. -/
def approvedCapabilities (request : Json.Object) : Option (List Str) :=
  texts? ((Json.lookup (str "capabilities") request).getD (.arr []))

/-- The lease an approval issues. -/
def issueLease (now : DateTime) (leaseId responseId : Str) (interaction : Interaction) (run : Run)
    (session : Session) (deadline : DateTime) (response : Json.Object) : Tx Unit := do
  let db ← get
  let approved ← orThrow .type (approvedCapabilities interaction.request)
  let requested := requestedScope response
  let singleUse := requested.pyEq (.str (str "once"))
  let scope ← orThrow (.value (str "GrantScope"))
    (if singleUse then some .run else grantScope? requested)
  let toolName ← orThrow .type
    ((Json.lookup (str "tool_name") interaction.request).getD (.str (str "*"))).str?
  insertLease {
    id := leaseId
    scope := scope
    scopeId := match scope with
      | .run => run.id
      | .session => run.sessionId
      | .agent => run.agentDefinitionId
      | .app => session.appInstanceId
    agentDefinitionId := run.agentDefinitionId
    sessionId := run.sessionId
    appInstanceId := session.appInstanceId
    capabilities := sortedSet approved
    toolPattern := toolName
    toolServiceDigest := db.toolDigest toolName
    resourceSelector := (Json.lookup (str "resource_selector") interaction.request).getD (.obj [])
    issuedBy := str "user"
    evidence := [
      (str "interaction_id", .str interaction.id), (str "response_id", .str responseId),
      (str "decision", .str (str "approve")), (str "scope", .str scope.value),
      (str "requested_scope", requested), (str "single_use", .bool singleUse)]
    expiresAt := if scope = .run then some deadline else none
    revokedAt := none
    revokeReason := none
    createdAt := now
    updatedAt := now }

/-- How an answer moves the run: a denial fails it, anything else queues it. -/
def moveAnswered (now : DateTime) (interaction : Interaction) (status : InteractionStatus)
    (grants : List Str) (deadline : DateTime) : Tx Unit :=
  if status = .denied then
    updateRun interaction.runId fun r => { r with
      status := .failed
      error := some [(str "code", .str (str "approval_denied")),
        (str "interaction_id", .str interaction.id)]
      finishedAt := some now
      updatedAt := now }
  else
    updateRun interaction.runId fun r => { r with
      status := .queued
      grantedCapabilities := grants
      deadlineAt := deadline
      updatedAt := now }

/-- `respond_interaction` for an interaction that is pending. -/
def resolveInteraction (env : Env) (now : DateTime) (leaseId responseId : Str)
    (interaction : Interaction) (response : Json.Object) : Tx Unit := do
  if interaction.deadlineAt.micros ≤ now.micros then
    throw (.conflict (str "Interaction deadline has expired"))
  else if !env.validates interaction.responseSchema response then
    throw (.conflict (str "Interaction response is invalid"))
  else
  only (interaction.kind = .file) (checkHandle now interaction.runId response)
  let status := resolvedStatus interaction.kind response
  checkResponseId interaction responseId
  updateInteractions (fun i => i.id = interaction.id) fun i => { i with
    status := status, response := some response, responseId := some responseId
    resolvedAt := some now, updatedAt := now }
  let run ← selectRun interaction.runId
  let deadline ← orThrow .overflow (resumeDeadline run.deadlineAt run.updatedAt now)
  let db ← get
  let session ← orThrow (.integrity (str "sessions")) (db.session? run.sessionId)
  only (status = .approved) (issueLease now leaseId responseId interaction run session deadline
    response)
  let granted := if status = .approved then
      run.grantedCapabilities ++ (approvedCapabilities interaction.request).getD []
    else run.grantedCapabilities
  moveAnswered now interaction status (sortedSet granted) deadline

/-- `respond_interaction`. -/
def respondInteraction (env : Env) (now : DateTime) (leaseId runId interactionId : Str)
    (response : Json.Object) (responseId : Str) : Tx Interaction := do
  let db ← get
  let interaction ← orThrow (.notFound (str "agent_interaction") interactionId)
    ((db.interactions.get? interactionId).filter fun i => i.runId = runId)
  if interaction.status ≠ .pending then
    if interaction.responseId = some responseId &&
        interaction.response.any fun r => Json.sameText (.obj r) (.obj response) then
      return interaction
    else throw (.conflict (str "Interaction has already been resolved"))
  else
    resolveInteraction env now leaseId responseId interaction response
    let db ← get
    orThrow (.integrity (str "agent_interactions")) (db.interactions.get? interactionId)

/-- One interaction that nobody answered in time. -/
def expireInteraction (now : DateTime) (interaction : Interaction) : Tx Unit := do
  updateInteractions (fun i => i.id = interaction.id) fun i => { i with
    status := .expired, resolvedAt := some now, updatedAt := now }
  updateRuns (fun r => r.id = interaction.runId &&
      (r.status = .waitingInput || r.status = .waitingCapability)) fun r => { r with
    status := .failed
    error := some [(str "code", .str (str "interaction_expired")),
      (str "interaction_id", .str interaction.id)]
    finishedAt := some now
    updatedAt := now }

/-- `expire_interactions`: how many expired. -/
def expireInteractions (now : DateTime) : Tx ℕ := do
  let db ← get
  let rows := db.interactions.rows.filter fun i =>
    i.status = .pending && i.deadlineAt.micros ≤ now.micros
  forM rows (expireInteraction now)
  return rows.length

/-! ## Pause, cancellation, resume -/

/-- `request_pause`. -/
def requestPause (now : DateTime) (runId : Str) : Tx Run := do
  let run ← selectRun runId
  if run.status = .interrupted then return run
  else if run.status ∉ [.queued, .planning, .running, .waitingInput] then
    throw (.conflict (str "Only a queued, planning, running, or waiting AgentRun can pause"))
  else
    let deadline ← orThrow .overflow (if run.status = .waitingInput then
        resumeDeadline run.deadlineAt run.updatedAt now
      else some run.deadlineAt)
    updateRun runId fun r => { r with
      status := .interrupted
      error := some (codeError "user_paused")
      updatedAt := now
      deadlineAt := deadline }
    selectRun runId

/-- `request_cancel`: the open interactions of the run are closed with it. -/
def requestCancel (now : DateTime) (runId : Str) : Tx Run := do
  let run ← selectRun runId
  if run.status.terminal then return run
  else
    updateRun runId fun r => { r with
      status := .cancelled
      cancelRequested := true
      finishedAt := some now
      updatedAt := now }
    updateInteractions (fun i => i.runId = runId && i.status = .pending) fun i => { i with
      status := .cancelled, resolvedAt := some now, updatedAt := now }
    selectRun runId

/-- How the user settles the steps whose effect is unknown. -/
inductive UncertainResolution where
  | retry
  | assumeCompleted
  deriving DecidableEq

/-- The steps whose effect is unknown, as the user settles them; unsettled they block a resume. -/
def settleUncertain (now : DateTime) (runId : Str) (uncertain : List RunStep) :
    Option UncertainResolution → Tx Unit
  | none =>
    if uncertain.isEmpty then pure ()
    else throw (.conflict (str "Uncertain Tool effects require retry or assume_completed"))
  | some .retry => updateSteps (fun s => s.runId = runId && s.status = .uncertain) fun s => { s with
      status := .failed, actionKey := s.actionKey ++ str ":uncertain:" ++ s.id
      error := some (codeError "uncertain_effect_retry_authorized"), finishedAt := some now }
  | some .assumeCompleted => updateSteps (fun s => s.runId = runId && s.status = .uncertain) fun s =>
      { s with
        status := .completed
        output := some [(str "assumed_completed", .bool true), (str "user_resolved", .bool true)]
        finishedAt := some now }

/-- `resume_interrupted`. -/
def resumeInterrupted (now : DateTime) (runId : Str) (resolution : Option UncertainResolution) :
    Tx Run := do
  let run ← selectRun runId
  if run.status ≠ .interrupted then
    throw (.conflict (str "Only an interrupted AgentRun can resume"))
  else
  let deadline ← orThrow .overflow (resumeDeadline run.deadlineAt run.updatedAt now)
  let db ← get
  settleUncertain now runId
    (db.steps.rows.filter fun s => s.runId = runId && s.status = .uncertain) resolution
  updateRun runId fun r => { r with
    status := .queued
    error := none
    cancelRequested := false
    deadlineAt := deadline
    updatedAt := now }
  selectRun runId

/-! ## Recovery after a process loss -/

/-- A queued run that a shutdown suspended: the time offline does not count. -/
def recoverSuspended (now : DateTime) (run : Run) : Tx Unit := do
  let deadline ← orThrow .overflow (resumeDeadline run.deadlineAt run.updatedAt now)
  updateRun run.id fun r => { r with deadlineAt := deadline, error := none, updatedAt := now }

/-- A run that a process loss left planning or running. -/
def recoverRun (now : DateTime) (run : Run) : Tx Unit := do
  let db ← get
  let policy := ((db.definition? run.agentDefinitionId).map Definition.resumePolicy).getD .fail
  let uncertain := db.steps.rows.any fun s =>
    s.runId = run.id && s.kind = .tool && s.status = .running
  only (uncertain = true) (updateSteps (fun s => s.runId = run.id && s.status = .running) fun s =>
    { s with status := .uncertain })
  -- the abandoned model call gives its action key up
  only (uncertain = false ∧ policy = .restart)
    (updateSteps (fun s => s.runId = run.id && s.kind = .model && s.status = .running) fun s =>
      { s with
        status := .cancelled, actionKey := s.actionKey ++ str ":retry:" ++ s.id
        error := some (codeError "process_interrupted_during_model"), finishedAt := some now })
  let target : RunStatus := if uncertain then .interrupted
    else if policy = .restart then .queued else .failed
  let error := if uncertain then some (codeError "uncertain_tool_side_effect")
    else if policy = .restart then none else some (codeError "run_interrupted")
  let deadline ← orThrow .overflow (if target = .failed then some run.deadlineAt
    else resumeDeadline run.deadlineAt run.updatedAt now)
  updateRun run.id fun r => { r with
    status := target
    error := error
    deadlineAt := deadline
    finishedAt := if target = .failed then some now else none
    updatedAt := now }

/-- `recover_interrupted`. -/
def recoverInterrupted (now : DateTime) : Tx Unit := do
  let db ← get
  forM (db.runs.rows.filter fun r => r.status = .queued &&
    (errorCode r.error).any fun code => code.pyEq (.str (str "runtime_stopped")))
    (recoverSuspended now)
  let db ← get
  forM (db.runs.rows.filter fun r => r.status = .planning || r.status = .running) (recoverRun now)

end AI2Apps.Agents
