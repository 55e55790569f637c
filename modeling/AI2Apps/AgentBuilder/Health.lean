import AI2Apps.Agents.Records
import AI2Apps.Capabilities.Risk
import AI2Apps.ModelSharing.Jobs

/-!
# The health of an Agent's capabilities

`agent_builder/reliability.py` keeps one row for each capability of a draft: how
its runs ended, how many failed in a row, and until when its circuit is open.  The
runtime notifies it of a run that is over, sometimes twice; a repair marks the row
and clears it when it is activated.

The state of the visited sites, which a completed run commits first, is left out:
it decides nothing here, and it may raise.

* `classifyFailure`: the class of a failure, by the words of its code.
* `recordTerminalRun`, `requireCircuitClosed`: the two operations on a row.
* `createRepairHealth`, `activateRepairHealth`: what a repair writes.
* `recordTerminalRun_spec`: what a notification leaves.
-/

namespace AI2Apps.AgentBuilder

open Clock Faults
open Agents (Run RunStatus)
open Capabilities (lower)
open ModelSharing (truthy)

/-! ## Rows -/

inductive AgentHealthStatus where
  | unknown
  | healthy
  | suspect
  | drifted
  | repairing
  | localPatched
  | needsUser
  | degraded
  | failed
  deriving DecidableEq

inductive ErrorClass where
  | needsUser
  | transient
  | structural
  | policy
  | execution
  deriving DecidableEq

/-- `UNIQUE(owner_user_id, draft_id, capability_name)`. -/
structure HealthKey where
  ownerUserId : Str
  draftId : Str
  capabilityName : Str
  deriving DecidableEq

/-- A row of `agent_capability_health`. -/
structure Health where
  key : HealthKey
  status : AgentHealthStatus
  consecutiveFailures : ℕ
  successCount : ℕ
  failureCount : ℕ
  lastErrorClass : Option ErrorClass
  lastError : Option Json.Object
  structureFingerprint : Str
  circuitOpenUntil : Option DateTime
  lastRunId : Option Str
  lastSuccessAt : Option DateTime
  updatedAt : DateTime

abbrev Healths := Table Health Health.key

inductive Error where
  | conflict (message : Str)
  | overflow
  | encoding
  | database
  deriving DecidableEq

/-- What the module asks of the language's printer and digests. -/
structure Env where
  /-- `str` of a value that is no text. -/
  repr : Json → Str
  /-- `_digest`: a lone surrogate has no encoding. -/
  digest : Json → Option Str

/-! ## Classes of failures -/

def structuralErrors : List Str := [
  str "browser_agent_output_invalid", str "browser_agent_step_failed",
  str "browser_agent_unknown_step", str "selector_not_found", str "validation_failed",
  str "pipeline_drift"]

def userErrors : List Str := [
  str "browser_agent_needs_user", str "login_required", str "captcha_required",
  str "terms_consent_required", str "access_restricted", str "paywall_detected"]

def transientErrors : List Str := [
  str "network_error", str "dns_error", str "tls_error", str "navigation_timeout",
  str "render_timeout", str "browser_context_unavailable", str "service_unavailable"]

/-- `str(value or default)`. -/
def textOr (env : Env) (default : Str) : Option Json → Str
  | some (.str s) => if s = [] then default else s
  | some value => if truthy value then env.repr value else default
  | none => default

/-- `any(token in code for token in tokens)`. -/
def mentions (code : Str) (tokens : List Str) : Bool := tokens.any fun token => token <:+: code

def classifyFailure (env : Env) (error : Option Json.Object) : ErrorClass :=
  let code := lower (textOr env (str "unknown_error") (Json.lookup (str "code") (error.getD [])))
  if code ∈ userErrors || mentions code [str "captcha", str "login", str "paywall", str "consent"] then
    .needsUser
  else if code ∈ transientErrors ||
      mentions code [str "network", str "timeout", str "unavailable", str "5xx"] then .transient
  else if code ∈ structuralErrors ||
      mentions code [str "selector", str "schema", str "validation", str "drift"] then .structural
  else if mentions code [str "permission", str "capability"] then .policy
  else .execution

/-! ## Runs that are over -/

/-- `AgentReliabilityService.CIRCUIT_FAILURES`. -/
def circuitFailures : ℕ := 3

/-- `AgentReliabilityService.CIRCUIT_COOLDOWN`, in microseconds. -/
def circuitCooldown : ℕ := 3600 * 1000000

/-- The row a run belongs to; a run without a draft, a generation or an owner has none. -/
def runKey (env : Env) (run : Run) : Option HealthKey := do
  let parameters ← (Json.lookup (str "parameters") run.input).bind Json.obj?
  let field (name default : Str) : Str := textOr env default (Json.lookup name parameters)
  let key : HealthKey :=
    { ownerUserId := field (str "owner_user_id") []
      draftId := field (str "draft_id") []
      capabilityName := field (str "capability_name") (str "site.run") }
  if key.draftId = [] ∨ field (str "generation_id") [] = [] ∨ key.ownerUserId = [] then none
  else some key

/-- `_result`: the result of a run's output, or the output. -/
def runResult (run : Run) : Json.Object :=
  let output := run.output.getD []
  ((Json.lookup (str "result") output).bind Json.obj?).getD output

/-- What is digested where a result brings no fingerprint. -/
def structureOf (result : Json.Object) : Json :=
  let items := (Json.lookup (str "items") result).bind Json.arr?
  .obj [(str "keys", .arr (((Json.keys result).mergeSort fun a b => a ≤ b).map .str)),
    (str "items", items.elim .null fun items => .int items.length)]

def structureFingerprint (env : Env) (result : Json.Object) : Option Str :=
  let given := textOr env [] (Json.lookup (str "structure_fingerprint") result)
  if given = [] then env.digest (structureOf result) else some given

/-- The class of the failure a run ended with; a completed run has none. -/
def runFailure (env : Env) (run : Run) : Option ErrorClass :=
  if run.status = .completed then none else some (classifyFailure env run.error)

/-- The status and the circuit a run leaves. -/
def verdict (now : DateTime) (failures : ℕ) :
    Option ErrorClass → Option (AgentHealthStatus × Option DateTime)
  | none => some (.healthy, none)
  | some .needsUser => some (.needsUser, none)
  | some .structural =>
    if circuitFailures ≤ failures then (now.add circuitCooldown).map fun u => (.drifted, some u)
    else some (.suspect, none)
  | some .transient => some (.degraded, none)
  | some .policy | some .execution => some (.failed, none)

/-- The row of a capability nothing was recorded for. -/
def Health.blank (key : HealthKey) (now : DateTime) : Health :=
  { key := key
    status := .unknown
    consecutiveFailures := 0
    successCount := 0
    failureCount := 0
    lastErrorClass := none
    lastError := none
    structureFingerprint := []
    circuitOpenUntil := none
    lastRunId := none
    lastSuccessAt := none
    updatedAt := now }

/-- The values a run writes over a row. -/
def Health.recorded (env : Env) (now : DateTime) (run : Run) (fingerprint : Str)
    (verdict : AgentHealthStatus × Option DateTime) (row : Health) : Health :=
  let success := run.status = .completed
  { row with
    status := verdict.1
    consecutiveFailures := if success then 0 else row.consecutiveFailures + 1
    successCount := row.successCount + if success then 1 else 0
    failureCount := row.failureCount + if success then 0 else 1
    lastErrorClass := runFailure env run
    lastError := if success then none else some (run.error.getD [])
    structureFingerprint := fingerprint
    circuitOpenUntil := verdict.2
    lastRunId := some run.id
    lastSuccessAt := if success then some now else row.lastSuccessAt
    updatedAt := now }

/-- Write over the row of a key, or insert one. -/
def upsert (key : HealthKey) (now : DateTime) (f : Health → Health)
    (hf : ∀ r, (f r).key = r.key := by intro _; rfl) : EStateM Error Healths Unit := do
  let healths ← get
  if (healths.get? key).isSome then set (healths.update (fun r => r.key = key) f hf)
  else
    let healths ← orThrow .database (healths.insert? (f (.blank key now)))
    set healths

/-- The transaction that writes a run's outcome; `write` is a failure of the database. -/
def writeOutcome (env : Env) (now : DateTime) (write : Option Error) (run : Run) (key : HealthKey)
    (fingerprint : Str) : EStateM Error Healths (Option Health) :=
  transaction do
    let row := ((← get).get? key).getD (.blank key now)
    let failures := if run.status = .completed then 0 else row.consecutiveFailures + 1
    let verdict ← orThrow .overflow (verdict now failures (runFailure env run))
    upsert key now (Health.recorded env now run fingerprint verdict)
    fault write
    return (← get).get? key

/-- A run whose outcome is not the last one recorded. -/
def recordOutcome (env : Env) (now : DateTime) (commitState write : Option Error) (run : Run)
    (key : HealthKey) : EStateM Error Healths (Option Health) := do
  let fingerprint ← orThrow .encoding (structureFingerprint env (runResult run))
  only (run.status = .completed) (fault commitState)
  writeOutcome env now write run key fingerprint

/-- `AgentReliabilityService.record_terminal_run`; `commitState` is what committing the
state of the visited site raises. -/
def recordTerminalRun (env : Env) (now : DateTime) (commitState write : Option Error) (run : Run) :
    EStateM Error Healths (Option Health) :=
  match runKey env run with
  | none => pure none
  | some key => do
    let existing := (← get).get? key
    if existing.bind Health.lastRunId = some run.id then return existing
    else recordOutcome env now commitState write run key

/-- `AgentReliabilityService.require_circuit_closed`. -/
def requireCircuitClosed (now : DateTime) (key : HealthKey) (healths : Healths) :
    Except Error Unit :=
  match (healths.get? key).bind Health.circuitOpenUntil with
  | none => .ok ()
  | some u =>
    if now.micros < u.micros then
      .error (.conflict (str "Agent capability circuit is open until " ++ formatUtc u))
    else .ok ()

/-! ## Repairs -/

/-- What `create_repair` writes of the row. -/
def createRepairHealth (now : DateTime) (write : Option Error) (key : HealthKey) :
    EStateM Error Healths Unit :=
  transaction do
    upsert key now fun row => { row with status := .repairing, updatedAt := now }
    fault write

/-- What `activate_repair` writes of the row. -/
def activateRepairHealth (now : DateTime) (write : Option Error) (key : HealthKey) :
    EStateM Error Healths Unit :=
  transaction do
    modify fun healths => healths.update (fun r => r.key = key)
      (fun row => { row with
        status := .localPatched
        consecutiveFailures := 0
        circuitOpenUntil := none
        updatedAt := now }) fun _ => rfl
    fault write

/-! ## What an operation leaves -/

section Specs

variable {env : Env} {now : DateTime} {key : HealthKey} {healths : Healths} {run : Run}

/-- **Only a structural failure opens a circuit**, from the third in a row on. -/
theorem circuit_of_verdict {failures : ℕ} {failure : Option ErrorClass}
    {v : AgentHealthStatus × Option DateTime} {u : DateTime}
    (h : verdict now failures failure = some v) (hu : v.2 = some u) :
    failure = some .structural ∧ circuitFailures ≤ failures ∧
      u.micros = now.micros + circuitCooldown := by
  unfold verdict at h
  split at h
  case h_3 =>
    split_ifs at h with hcount
    · obtain ⟨w, hw, rfl⟩ := Option.map_eq_some_iff.mp h
      obtain rfl : w = u := Option.some.inj hu
      unfold DateTime.add at hw
      split_ifs at hw
      rw [← Option.some.inj hw]
      exact ⟨rfl, hcount, rfl⟩
    · rw [← Option.some.inj h] at hu
      cases hu
  all_goals
    rw [← Option.some.inj h] at hu
    cases hu

/-- A structural failure opens the circuit, from the third in a row on. -/
theorem verdict_structural {failures : ℕ} {v : AgentHealthStatus × Option DateTime}
    (hcount : circuitFailures ≤ failures) (h : verdict now failures (some .structural) = some v) :
    ∃ u, v.2 = some u := by
  unfold verdict at h
  dsimp only at h
  rw [if_pos hcount] at h
  obtain ⟨u, -, rfl⟩ := Option.map_eq_some_iff.mp h
  exact ⟨u, rfl⟩

/-- The row of a key, or the one it would start with. -/
def rowOf (healths : Healths) (key : HealthKey) (now : DateTime) : Health :=
  (healths.get? key).getD (.blank key now)

/-- The tables agree on every key but one, which has the given row. -/
def Writes (healths : Healths) (key : HealthKey) (row : Health) (healths' : Healths) : Prop :=
  ∀ k, healths'.get? k = if key = k then some row else healths.get? k

theorem Writes.get? {row : Health} {healths' : Healths} (h : Writes healths key row healths') :
    healths'.get? key = some row := by
  rw [h key, if_pos rfl]

theorem Writes.get?_of_ne {row : Health} {healths' : Healths} {k : HealthKey}
    (h : Writes healths key row healths') (hk : key ≠ k) : healths'.get? k = healths.get? k := by
  rw [h k, if_neg hk]

/-- **What an update or insertion leaves.** -/
theorem upsert_spec (f : Health → Health) (hf : ∀ r, (f r).key = r.key) :
    wp (upsert key now f hf)
      (fun _ s => Writes healths key (f (rowOf healths key now)) s) (fun _ _ => True) healths := by
  unfold upsert rowOf
  rw [wp_bind, wp_get]
  cases hrow : healths.get? key with
  | some row =>
    show wp (set _) _ _ _
    rw [wp_set]
    intro k
    rw [Table.get?_update]
    by_cases hk : key = k
    · subst hk
      rw [if_pos rfl, hrow, Option.map_some, Table.key_of_get? hrow]
      simp
    · rw [if_neg hk]
      cases hother : healths.get? k with
      | none => rfl
      | some r =>
        rw [Option.map_some, Table.key_of_get? hother, if_neg]
        simpa using fun h => hk h.symm
  | none =>
    rw [if_neg (by simp), wp_bind, wp_orThrow]
    refine ⟨fun healths' hinsert k => ?_, fun _ => trivial⟩
    rw [Table.get?_insert hinsert, hf]
    rfl

/-- What a recorded outcome is: the written row, returned. -/
structure Recorded (env : Env) (now : DateTime) (run : Run) (key : HealthKey) (healths : Healths)
    (row : Health) (healths' : Healths) : Prop where
  writes : Writes healths key row healths'
  row : ∃ fingerprint v, row = Health.recorded env now run fingerprint v (rowOf healths key now) ∧
    verdict now (if run.status = .completed then 0
      else (rowOf healths key now).consecutiveFailures + 1) (runFailure env run) = some v

theorem writeOutcome_spec (write : Option Error) (fingerprint : Str) :
    wp (writeOutcome env now write run key fingerprint)
      (fun out s => ∃ row, out = some row ∧ Recorded env now run key healths row s)
      (fun _ s => s = healths) healths := by
  unfold writeOutcome
  rw [wp_transaction, wp_bind, wp_get, wp_bind, wp_orThrow]
  refine ⟨fun v hv => ?_, fun _ => rfl⟩
  rw [wp_bind]
  refine wp_mono (upsert_spec _ _) (fun _ s hs => ?_) fun _ _ _ => rfl
  rw [wp_bind]
  cases write with
  | some e => exact rfl
  | none => exact ⟨_, hs.get?, hs, fingerprint, v, rfl, hv⟩

theorem recordOutcome_spec (commitState write : Option Error) :
    wp (recordOutcome env now commitState write run key)
      (fun out s => ∃ row, out = some row ∧ Recorded env now run key healths row s)
      (fun _ s => s = healths) healths := by
  unfold recordOutcome
  rw [wp_bind, wp_orThrow]
  refine ⟨fun fingerprint _ => ?_, fun _ => rfl⟩
  rw [wp_bind]
  by_cases hdone : run.status = .completed
  · rw [wp_only_pos hdone]
    cases commitState with
    | none => exact writeOutcome_spec write fingerprint
    | some e => exact rfl
  · rw [wp_only_neg hdone]
    exact writeOutcome_spec write fingerprint

/-- **What a notification leaves**: nothing for a run without a key or the last one
recorded, a written row for any other. -/
theorem recordTerminalRun_spec (commitState write : Option Error) :
    wp (recordTerminalRun env now commitState write run)
      (fun out s =>
        (runKey env run = none ∧ out = none ∧ s = healths) ∨
        (∃ key row, runKey env run = some key ∧ out = some row ∧
          healths.get? key = some row ∧ row.lastRunId = some run.id ∧ s = healths) ∨
        ∃ key row, runKey env run = some key ∧ out = some row ∧
          (healths.get? key).bind Health.lastRunId ≠ some run.id ∧
          Recorded env now run key healths row s)
      (fun _ s => s = healths) healths := by
  unfold recordTerminalRun
  cases hkey : runKey env run with
  | none => exact .inl ⟨rfl, rfl, rfl⟩
  | some key =>
    show wp (_ >>= _) _ _ _
    rw [wp_bind, wp_get]
    by_cases hlast : (healths.get? key).bind Health.lastRunId = some run.id
    · rw [if_pos hlast, wp_pure]
      obtain ⟨row, hrow, hid⟩ := Option.bind_eq_some_iff.mp hlast
      exact .inr (.inl ⟨key, row, rfl, hrow, hrow, hid, rfl⟩)
    · rw [if_neg hlast]
      refine wp_mono (recordOutcome_spec commitState write) (fun out s h => ?_) fun _ _ h => h
      obtain ⟨row, hout, hrecorded⟩ := h
      exact .inr (.inr ⟨key, row, rfl, hout, hlast, hrecorded⟩)

theorem createRepairHealth_spec (write : Option Error) :
    wp (createRepairHealth now write key)
      (fun _ s => Writes healths key
        { rowOf healths key now with status := .repairing, updatedAt := now } s)
      (fun _ s => s = healths) healths := by
  unfold createRepairHealth
  rw [wp_transaction, wp_bind]
  refine wp_mono (upsert_spec _ _) (fun _ s hs => ?_) fun _ _ _ => rfl
  cases write with
  | some e => exact rfl
  | none => exact hs

/-- An activated repair clears the row of its capability, where there is one. -/
theorem activateRepairHealth_spec (write : Option Error) :
    wp (activateRepairHealth now write key)
      (fun _ s => ∀ k, s.get? k = (healths.get? k).map fun row =>
        if key = k then { row with
          status := .localPatched
          consecutiveFailures := 0
          circuitOpenUntil := none
          updatedAt := now }
        else row)
      (fun _ s => s = healths) healths := by
  unfold activateRepairHealth
  rw [wp_transaction, wp_bind, wp_modify]
  cases write with
  | some e => exact rfl
  | none =>
    intro k
    rw [Table.get?_update]
    cases hrow : healths.get? k with
    | none => rfl
    | some row =>
      rw [Option.map_some, Option.map_some, Table.key_of_get? hrow]
      by_cases hk : key = k
      · simp [hk]
      · simp [hk, Ne.symm hk]

end Specs

end AI2Apps.AgentBuilder
