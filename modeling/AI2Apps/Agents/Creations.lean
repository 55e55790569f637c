import AI2Apps.Agents.PausedTrees

/-!
# Creations and retries, transaction by transaction

`create_run` reads the Agent Definition in one transaction and writes the run in
another; `retry_run` reads the run, counts its retries and creates the next in
transactions of their own.  Between two of them anything may happen: other
creations and retries, calls of the runtime, installed packages, closed sessions.

* `createRunWith`: `create_run` once the definition is read; `createRun_eq`.
* `Call`: a creation or a retry between two of its transactions.
* `System`: the tables and the calls under way; `Label`: what may happen next.
* `Admitted`: what `create_run` asks of a call before it looks for the key.
* `event_retains`: no other call touches what identifies a run.
-/

namespace AI2Apps.Agents

open Clock Faults
open JsonText (setMember)

/-! ## `create_run` in two transactions -/

/-- The arguments of `create_run`. -/
structure CreateArgs where
  sessionId : Str
  agentKey : Str
  input : Json.Object
  idempotencyKey : Option Str
  priority : ℤ
  parentRunId : Option Str
  delegation : Json.Object
  budget : Json.Object

/-- `get_definition`. -/
def getDefinition (agentKey : Str) : Tx Definition := do
  let db ← get
  orThrow (.notFound (str "agent_definition") agentKey)
    (db.definitions.find? fun d => d.id = agentKey || d.agentKey = agentKey)

/-- The schema the parameters of an Agent must meet. -/
def invocationSchema (definition : Definition) : Json.Object :=
  ((Json.lookup (str "invocation_schema") definition.manifest).bind Json.obj?).getD
    [(str "type", .str (str "object")), (str "properties", .obj [])]

/-- `input.get("parameters", {})`, when it is an object. -/
def parametersOf (input : Json.Object) : Option Json.Object :=
  ((Json.lookup (str "parameters") input).getD (.obj [])).obj?

/-- The run of a Session that holds an idempotency key. -/
def Db.keyed? (db : Db) (sessionId : Str) (key : Option Str) : Option Run :=
  key.bind fun key => db.runs.rows.find? fun r =>
    r.sessionId = sessionId && r.idempotencyKey = some key

/-- The input of a run, with the delegation when it has a parent. -/
def recordedInput (env : Env) (definition : Definition) (args : CreateArgs)
    (parameters delegation : Json.Object) : Json.Object :=
  let budgeted := normalizeInput env definition parameters args.budget args.input
  if args.parentRunId.isNone then budgeted
  else setMember (str "delegation") (.obj delegation) budgeted

/-- The row `create_run` inserts. -/
def newRun (now : DateTime) (runId : Str) (definition : Definition) (args : CreateArgs)
    (lineage : Lineage) (input : Json.Object) : Run where
  id := runId
  agentDefinitionId := definition.id
  sessionId := args.sessionId
  parentRunId := args.parentRunId
  rootRunId := lineage.rootRunId
  depth := lineage.depth
  delegation := lineage.delegation
  status := .queued
  idempotencyKey := args.idempotencyKey
  priority := args.priority
  input := input
  output := none
  error := none
  grantedCapabilities := []
  currentStep := 0
  cancelRequested := false
  deadlineAt := lineage.deadline
  createdAt := now
  updatedAt := now
  startedAt := none
  finishedAt := none

/-- The end of `create_run`: the run that holds the key, or a new one. -/
def reuseOrInsert (now : DateTime) (runId : Str) (definition : Definition) (args : CreateArgs)
    (lineage : Lineage) (input : Json.Object) : Option Run → Tx (Run × Bool)
  | some existing => reuseRun existing definition args.input input
  | none => do
    let run := newRun now runId definition args lineage input
    insertRun run
    recordDelegation now runId definition.agentKey lineage.delegation args.parentRunId
    return (run, true)

/-- `create_run` with the definition it has read. -/
def createRunWith (env : Env) (definition : Definition) (now : DateTime) (runId : Str)
    (args : CreateArgs) : Tx (Run × Bool) := do
  let db ← get
  if !definition.enabled then throw (.conflict (str "Agent is disabled: " ++ args.agentKey)) else
  let parameters ← orThrow (.value (str "Agent parameters must be a JSON object"))
    (parametersOf args.input)
  if !env.validates (invocationSchema definition) parameters then
    throw (.value (str "Agent parameters"))
  else
  checkBudget args.budget
  let timeout ← orThrow .type (runTimeout definition args.budget)
  let deadline ← orThrow .overflow (now.add (timeout.toNat * 1000000))
  let _ ← orThrow (.notFound (str "active_session") args.sessionId)
    ((db.session? args.sessionId).filter Session.active)
  let lineage ← lineageOf now runId args.sessionId definition timeout deadline args.delegation
    args.parentRunId
  reuseOrInsert now runId definition args lineage
    (recordedInput env definition args parameters lineage.delegation)
    (db.keyed? args.sessionId args.idempotencyKey)

/-- A program that begins with a read may make it in a transaction before. -/
theorem read_before {α δ : Type} (e : Error) (f : Db → Option δ) (F : Db → δ → Tx α) :
    (do
      let db ← get
      let d ← orThrow e (f db)
      F db d) =
    (do
      let d ← (do
        let db ← get
        orThrow e (f db) : Tx δ)
      let db ← get
      F db d) := by
  funext db
  show EStateM.bind (orThrow e (f db)) (F db) db =
    EStateM.bind (fun s => orThrow e (f s) s) (fun d s => F s d s) db
  unfold EStateM.bind
  dsimp only
  cases f db <;> rfl

/-- **`create_run` in one go** is the reading of the definition and the rest. -/
theorem createRun_eq (env : Env) (now : DateTime) (runId : Str) (args : CreateArgs) :
    createRun env now runId args.sessionId args.agentKey args.input args.idempotencyKey args.priority
      args.parentRunId args.delegation args.budget =
    (do
      let definition ← getDefinition args.agentKey
      createRunWith env definition now runId args) := by
  refine Eq.trans ?_ (read_before _ _ _)
  unfold createRun reuseOrInsert
  rfl

/-! ## `retry_run` -/

def maxRunRetries : ℕ := 3

/-- A value of the database. -/
inductive SqlValue where
  | null
  | number (f : FloatVal)
  | text (s : Str)
  deriving DecidableEq

/-- What the two calls use beside the tables. -/
structure Host extends Env where
  /-- The text of an array or an object inside a JSON column. -/
  jsonText : Json → Str

/-- `json_extract` of a value. -/
def Host.extracted (env : Host) : Json → SqlValue
  | .null => .null
  | .bool b => .number (.finite b.toNat)
  | .int i => .number (.finite i)
  | .float f => .number f
  | .str s => .text s
  | value => .text (env.jsonText value)

/-- A value as the parameter of a statement: an array, an object and an integer of more than 64 bits
are refused. -/
def Host.bound (env : Host) : Json → Option SqlValue
  | .arr _ | .obj _ => none
  | .int i => if -2 ^ 63 ≤ i ∧ i < 2 ^ 63 then some (.number (.finite i)) else none
  | value => some (env.extracted value)

/-- `input.get("retry")`, when it is an object. -/
def retryMetadata (input : Json.Object) : Option Json.Object :=
  (Json.lookup (str "retry") input).bind Json.obj?

/-- `json_extract(input_json, '$.retry.root_attempt_run_id')`. -/
def Host.rootAttempt (env : Host) (input : Json.Object) : SqlValue :=
  match (retryMetadata input).bind (Json.lookup (str "root_attempt_run_id")) with
  | some value => env.extracted value
  | none => .null

/-- The retries of a root attempt; nothing equals `NULL`. -/
def Host.retries (env : Host) (db : Db) (sessionId : Str) (root : SqlValue) : List Run :=
  db.runs.rows.filter fun r => r.sessionId = sessionId && root ≠ .null && env.rootAttempt r.input = root

/-- The root attempt a run is a retry of, or the run itself. -/
def rootAttemptRunId (original : Run) : Json :=
  match retryMetadata original.input with
  | some retry => (Json.lookup (str "root_attempt_run_id") retry).getD (.str original.id)
  | none => .str original.id

/-- What `retry_run` creates after `previous` attempts. -/
def retryArgs (original : Run) (definition : Definition) (idempotencyKey : Option Str)
    (previous : ℕ) : CreateArgs where
  sessionId := original.sessionId
  agentKey := definition.agentKey
  input := setMember (str "retry") (.obj [
      (str "attempt", .int (previous + 1)), (str "retry_of_run_id", .str original.id),
      (str "root_attempt_run_id", rootAttemptRunId original)])
    (original.input.filter fun member => member.1 ≠ str "invocation" && member.1 ≠ str "delegation")
  idempotencyKey := idempotencyKey
  priority := original.priority
  parentRunId := none
  delegation := []
  budget := []

/-- A call of `create_run` or `retry_run`, between two transactions. -/
inductive Call where
  | idle
  /-- `create_run` begins; `retry_run` has counted this many attempts. -/
  | create (args : CreateArgs) (attempts : Option ℕ)
  /-- The definition is read. -/
  | checked (args : CreateArgs) (definition : Definition) (attempts : Option ℕ)
  | retry (runId : Str) (idempotencyKey : Option Str)
  /-- The run that failed is read. -/
  | retrying (original : Run) (idempotencyKey : Option Str)
  /-- Its retries are counted. -/
  | counted (original : Run) (idempotencyKey : Option Str) (previous : ℕ)
  /-- `create_run` returned a run, and whether it is new. -/
  | returned (args : CreateArgs) (run : Run) (new : Bool)
  /-- `retry_run` returned the run that holds its key. -/
  | reused (run : Run)
  | refused (e : Error)

/-- The transaction of `retry_run` that looks for the key and counts the retries. -/
def countRetries (env : Host) (original : Run) (idempotencyKey : Option Str) : Tx Call := do
  let db ← get
  match db.keyed? original.sessionId idempotencyKey with
  | some existing =>
    let retry ← orThrow .type ((Json.lookup (str "retry") existing.input).getD (.obj [])).obj?
    if Json.memberEq retry (str "retry_of_run_id") (.str original.id) then return .reused existing
    else throw (.conflict (str "AgentRun retry idempotency key was reused"))
  | none =>
    let root ← orThrow .type (env.bound (rootAttemptRunId original))
    return .counted original idempotencyKey (env.retries db original.sessionId root).length

/-- The next transaction of a call. -/
def Call.advance (env : Host) (now : DateTime) (runId : Str) : Call → Tx Call
  | .create args attempts => do
    let definition ← getDefinition args.agentKey
    return .checked args definition attempts
  | .checked args definition _ => do
    let (run, new) ← createRunWith env.toEnv definition now runId args
    return .returned args run new
  | .retry runId idempotencyKey => do
    let original ← selectRun runId
    if original.status ≠ .failed ∧ original.status ≠ .cancelled then
      throw (.conflict (str "Only a failed or cancelled AgentRun can be retried"))
    else return .retrying original idempotencyKey
  | .retrying original idempotencyKey => countRetries env original idempotencyKey
  | .counted original idempotencyKey previous =>
    if maxRunRetries < previous + 1 then throw (.conflict (str "AgentRun retry limit reached (3)"))
    else do
      let definition ← getDefinition original.agentDefinitionId
      return .create (retryArgs original definition idempotencyKey previous) (some previous)
  | call => pure call

/-! ## The system -/

/-- The tables and the calls under way. -/
structure System where
  db : Db
  calls : ℕ → Call

/-- What may happen next. -/
inductive Label where
  /-- A call of the runtime, or a step of a wait. -/
  | event (event : Event)
  /-- Packages are installed, Agents switched, Sessions opened or closed. -/
  | catalog (definitions : List Definition) (sessions : List Session)
  | createRun (i : ℕ) (args : CreateArgs)
  | retryRun (i : ℕ) (runId : Str) (idempotencyKey : Option Str)
  /-- A call makes its next transaction. -/
  | advance (i : ℕ) (now : DateTime) (runId : Str)

/-- The event is a `create_run`, which is a call here. -/
def Event.isCreation : Event → Bool
  | .call (.createRun ..) => true
  | _ => false

/-- A call after its transaction. -/
def System.landed (s : System) (i : ℕ) : EStateM.Result Error Db Call → System
  | .ok call db => ⟨db, Function.update s.calls i call⟩
  | .error e db => ⟨db, Function.update s.calls i (.refused e)⟩

def System.next (env : Host) (s : System) : Label → System
  | .event event => if event.isCreation then s else { s with db := s.db.next env.toEnv event }
  | .catalog definitions sessions =>
    { s with db := { s.db with definitions := definitions, sessions := sessions } }
  | .createRun i args => { s with calls := Function.update s.calls i (.create args none) }
  | .retryRun i runId idempotencyKey =>
    { s with calls := Function.update s.calls i (.retry runId idempotencyKey) }
  | .advance i now runId => s.landed i ((transaction ((s.calls i).advance env now runId)).run s.db)

def System.run (env : Host) (s : System) (labels : List Label) : System :=
  labels.foldl (System.next env) s

/-- Tables without runs, and no call. -/
def System.start (db : Db) : System := ⟨{ db with runs := .empty }, fun _ => .idle⟩

/-! ## When a creation is admitted -/

/-- The budget holds positive integers. -/
def BudgetOk (budget : Json.Object) : Prop :=
  ∀ key ∈ ["max_steps", "timeout_seconds", "max_model_tokens"],
    match Json.lookup (str key) budget with
    | none | some .null => True
    | some value => (positive? value).isSome = true

/-- The parent takes another child. -/
structure ParentAdmits (db : Db) (now : DateTime) (sessionId : Str) (definition : Definition)
    (timeout : ℤ) (delegation : Json.Object) (parentRunId : Str) (parent : Run) : Prop where
  known : db.run? parentRunId = some parent
  session : parent.sessionId = sessionId
  active : parent.status = .planning ∨ parent.status = .running
  depth : parent.depth + 1 ≤ maxDelegationDepth
  children : (db.runs.rows.filter fun r => r.parentRunId = some parentRunId).length < maxChildRuns
  budget : ∃ budget seconds, ((Json.lookup (str "budget") delegation).getD (.obj [])).obj? = some budget ∧
    positive? ((Json.lookup (str "timeout_seconds") budget).getD (.int definition.timeoutSeconds)) =
      some seconds ∧ (now.add ((min seconds timeout).toNat * 1000000)).isSome = true

/-- The delegation a child records. -/
def inheritedDelegation (parent : Run) (delegation : Json.Object) : Json.Object :=
  setMember (str "depth") (.int (parent.depth + 1))
    (setMember (str "root_run_id") (.str parent.rootRunId)
      (setMember (str "parent_run_id") (.str parent.id) delegation))

/-- The parent, if one is named, takes the run; the delegation is the one that is recorded. -/
def Descends (db : Db) (now : DateTime) (sessionId : Str) (definition : Definition) (timeout : ℤ)
    (given delegation : Json.Object) : Option Str → Prop
  | none => delegation = given
  | some parentRunId => ∃ parent, ParentAdmits db now sessionId definition timeout given parentRunId
      parent ∧ delegation = inheritedDelegation parent given

/-- `create_run` refuses nothing about the call before it looks for the key. -/
structure Admitted (env : Env) (db : Db) (now : DateTime) (definition : Definition)
    (args : CreateArgs) (parameters delegation : Json.Object) : Prop where
  enabled : definition.enabled = true
  object : parametersOf args.input = some parameters
  valid : env.validates (invocationSchema definition) parameters = true
  budget : BudgetOk args.budget
  session : ∃ session, db.session? args.sessionId = some session ∧ session.active = true
  descends : ∃ timeout, runTimeout definition args.budget = some timeout ∧
    (now.add (timeout.toNat * 1000000)).isSome = true ∧
    Descends db now args.sessionId definition timeout args.delegation delegation args.parentRunId

section Admission

variable {env : Env} {db : Db} {now : DateTime} {definition : Definition} {args : CreateArgs}
  {p p' d d' : Json.Object}

theorem Descends.unique {sessionId : Str} {timeout : ℤ} {given : Json.Object} {parent : Option Str}
    (h : Descends db now sessionId definition timeout given d parent)
    (h' : Descends db now sessionId definition timeout given d' parent) : d = d' := by
  cases parent with
  | none => exact Eq.trans h (Eq.symm h')
  | some parentRunId =>
    obtain ⟨r, hr, rfl⟩ := h
    obtain ⟨r', hr', rfl⟩ := h'
    rw [Option.some.inj (hr.known.symm.trans hr'.known)]

/-- What a creation records does not depend on how it is admitted. -/
theorem Admitted.unique (h : Admitted env db now definition args p d)
    (h' : Admitted env db now definition args p' d') : p = p' ∧ d = d' := by
  obtain ⟨timeout, htimeout, -, hdescends⟩ := h.descends
  obtain ⟨timeout', htimeout', -, hdescends'⟩ := h'.descends
  obtain rfl := Option.some.inj (htimeout.symm.trans htimeout')
  exact ⟨Option.some.inj (h.object.symm.trans h'.object), hdescends.unique hdescends'⟩

theorem checkBudget_spec (budget : Json.Object) :
    wp (checkBudget budget) (fun _ s => s = db ∧ BudgetOk budget) (fun _ s => s = db ∧ ¬ BudgetOk budget)
      db := by
  have hone : ∀ key, wp (match Json.lookup (str key) budget with
      | none | some .null => (pure () : Tx Unit)
      | some value => if (positive? value).isSome then pure ()
        else throw (.value (str "Agent Run budget " ++ str key ++ str " must be a positive integer")))
      (fun _ s => s = db ∧ match Json.lookup (str key) budget with
        | none | some .null => True
        | some value => (positive? value).isSome = true)
      (fun _ s => s = db ∧ ¬ match Json.lookup (str key) budget with
        | none | some .null => True
        | some value => (positive? value).isSome = true) db := by
    intro key
    split
    · exact ⟨rfl, trivial⟩
    · exact ⟨rfl, trivial⟩
    · split
      · exact ⟨rfl, ‹_›⟩
      · exact ⟨rfl, ‹_›⟩
  unfold checkBudget
  refine wp_mono (wp_forM (I := fun done s => s = db ∧ ∀ key ∈ done,
      match Json.lookup (str key) budget with
      | none | some .null => True
      | some value => (positive? value).isSome = true)
    (E := fun _ s => s = db ∧ ¬ BudgetOk budget) (fun done key rest s heq hs => ?_)
    ⟨rfl, fun _ h => (nomatch h)⟩) (fun _ _ hs => hs) fun _ _ h => h
  obtain ⟨rfl, hdone⟩ := hs
  refine wp_mono (hone key) (fun _ t ht => ⟨ht.1, fun key' hkey' => ?_⟩) fun _ t ht => ⟨ht.1, fun hok => ?_⟩
  · rcases List.mem_append.mp hkey' with h | h
    · exact hdone key' h
    · rw [List.mem_singleton.mp h]
      exact ht.2
  · exact ht.2 (hok key (heq ▸ by simp))

/-- **Exactly when a parent takes a run.** -/
theorem delegated_admits (now : DateTime) (sessionId parentRunId : Str) (definition : Definition)
    (timeout : ℤ) (delegation : Json.Object) :
    wp (delegated now sessionId parentRunId definition timeout delegation)
      (fun lineage s => s = db ∧ ∃ parent, ParentAdmits db now sessionId definition timeout delegation
        parentRunId parent ∧ lineage.delegation = inheritedDelegation parent delegation)
      (fun _ s => s = db ∧ ∀ parent, ¬ ParentAdmits db now sessionId definition timeout delegation
        parentRunId parent) db := by
  unfold delegated
  rw [wp_bind, wp_get, wp_bind, wp_orThrow]
  refine ⟨fun parent hparent => ?_, fun hnone => ⟨rfl, fun r hr => ?_⟩⟩
  swap
  · exact absurd (hnone.symm.trans hr.known) nofun
  have hsame : ∀ {r}, ParentAdmits db now sessionId definition timeout delegation parentRunId r →
      r = parent := fun hr => Option.some.inj (hr.known.symm.trans hparent)
  split
  · rename_i hsession
    exact ⟨rfl, fun r hr => hsession (hsame hr ▸ hr.session)⟩
  rename_i hsession
  split
  · rename_i hactive
    refine ⟨rfl, fun r hr => ?_⟩
    obtain rfl := hsame hr
    exact hr.active.elim hactive.1 hactive.2
  rename_i hactive
  split
  · rename_i hdepth
    exact ⟨rfl, fun r hr => absurd (hsame hr ▸ hr.depth) (not_le.mpr hdepth)⟩
  rename_i hdepth
  split
  · rename_i hchildren
    exact ⟨rfl, fun r hr => absurd hr.children (not_lt.mpr hchildren)⟩
  rename_i hchildren
  rw [wp_bind, wp_orThrow]
  refine ⟨fun budget hbudget => ?_, fun hnone => ⟨rfl, fun r hr => ?_⟩⟩
  swap
  · obtain ⟨budget, _, hbudget, -⟩ := hr.budget
    exact absurd (hnone.symm.trans hbudget) nofun
  dsimp only
  rw [wp_bind, wp_orThrow]
  refine ⟨fun seconds hseconds => ?_, fun hnone => ⟨rfl, fun r hr => ?_⟩⟩
  swap
  · obtain ⟨budget', seconds, hbudget', hseconds, -⟩ := hr.budget
    obtain rfl := Option.some.inj (hbudget.symm.trans hbudget')
    exact absurd (hnone.symm.trans hseconds) nofun
  rw [wp_bind, wp_orThrow]
  refine ⟨fun deadline hdeadline => ?_, fun hnone => ⟨rfl, fun r hr => ?_⟩⟩
  swap
  · obtain ⟨budget', seconds', hbudget', hseconds', hdeadline⟩ := hr.budget
    obtain rfl := Option.some.inj (hbudget.symm.trans hbudget')
    obtain rfl := Option.some.inj (hseconds.symm.trans hseconds')
    rw [hnone] at hdeadline
    exact absurd hdeadline (by decide)
  refine ⟨rfl, parent, ⟨hparent, not_not.mp hsession, ?_, not_lt.mp hdepth, not_le.mp hchildren,
    budget, seconds, hbudget, hseconds, by rw [hdeadline]; rfl⟩, rfl⟩
  simpa only [ne_eq, not_and_or, not_not] using hactive

theorem lineageOf_descends (now : DateTime) (runId sessionId : Str) (definition : Definition)
    (timeout : ℤ) (deadline : DateTime) (delegation : Json.Object) (parent : Option Str) :
    wp (lineageOf now runId sessionId definition timeout deadline delegation parent)
      (fun lineage s => s = db ∧
        Descends db now sessionId definition timeout delegation lineage.delegation parent)
      (fun _ s => s = db ∧ ∀ d, ¬ Descends db now sessionId definition timeout delegation d parent)
      db := by
  cases parent with
  | none => exact ⟨rfl, rfl⟩
  | some parentRunId =>
    refine wp_mono (delegated_admits now sessionId parentRunId definition timeout delegation)
      (fun _ _ hs => hs) fun _ s hs => ⟨hs.1, fun d hd => ?_⟩
    obtain ⟨parent, hparent, -⟩ := hd
    exact hs.2 parent hparent

/-- **`create_run` up to the search for the key.** -/
theorem createRunWith_wp {runId : Str} {Q : Run × Bool → Db → Prop} {E : Error → Db → Prop}
    (hrefused : (∀ p d, ¬ Admitted env db now definition args p d) → ∀ e, E e db)
    (hadmitted : ∀ p lineage, Admitted env db now definition args p lineage.delegation →
      wp (reuseOrInsert now runId definition args lineage
        (recordedInput env definition args p lineage.delegation)
        (db.keyed? args.sessionId args.idempotencyKey)) Q E db) :
    wp (createRunWith env definition now runId args) Q E db := by
  unfold createRunWith
  rw [wp_bind, wp_get]
  split
  · rename_i hdisabled
    refine hrefused (fun p d h => ?_) _
    rw [h.enabled] at hdisabled
    exact absurd hdisabled (by decide)
  rename_i henabled
  rw [wp_bind, wp_orThrow]
  refine ⟨fun p hobject => ?_, fun hnone => hrefused (fun p d h => ?_) _⟩
  swap
  · exact absurd (hnone.symm.trans h.object) nofun
  split
  · rename_i hinvalid
    refine hrefused (fun p' d h => ?_) _
    obtain rfl := Option.some.inj (hobject.symm.trans h.object)
    rw [h.valid] at hinvalid
    exact absurd hinvalid (by decide)
  rename_i hvalid
  rw [wp_bind]
  refine wp_mono (checkBudget_spec args.budget) (fun _ s hs => ?_) fun e s hs => ?_
  swap
  · obtain ⟨rfl, hbudget⟩ := hs
    exact hrefused (fun p d h => hbudget h.budget) _
  obtain ⟨rfl, hbudget⟩ := hs
  rw [wp_bind, wp_orThrow]
  refine ⟨fun timeout htimeout => ?_, fun hnone => hrefused (fun p d h => ?_) _⟩
  swap
  · obtain ⟨timeout, htimeout, -⟩ := h.descends
    exact absurd (hnone.symm.trans htimeout) nofun
  have hsame : ∀ {timeout'}, runTimeout definition args.budget = some timeout' → timeout' = timeout :=
    fun h => Option.some.inj (h.symm.trans htimeout)
  rw [wp_bind, wp_orThrow]
  refine ⟨fun deadline hdeadline => ?_, fun hnone => hrefused (fun p d h => ?_) _⟩
  swap
  · obtain ⟨timeout', htimeout', hdeadline, -⟩ := h.descends
    rw [hsame htimeout', hnone] at hdeadline
    exact absurd hdeadline (by decide)
  rw [wp_bind, wp_orThrow]
  refine ⟨fun session hsession => ?_, fun hnone => hrefused (fun p d h => ?_) _⟩
  swap
  · obtain ⟨session, hsession, hactive⟩ := h.session
    rw [hsession, Option.filter_some_pos hactive] at hnone
    exact absurd hnone nofun
  obtain ⟨hsession, hactive⟩ := Option.filter_eq_some_iff.mp hsession
  rw [wp_bind]
  refine wp_mono (lineageOf_descends now runId args.sessionId definition timeout deadline args.delegation
    args.parentRunId) (fun lineage t ht => ?_) fun e t ht => ?_
  swap
  · obtain ⟨rfl, hnone⟩ := ht
    refine hrefused (fun p d h => ?_) _
    obtain ⟨timeout', htimeout', -, hdescends⟩ := h.descends
    exact hnone d (hsame htimeout' ▸ hdescends)
  obtain ⟨rfl, hdescends⟩ := ht
  refine hadmitted p lineage ⟨?_, hobject, ?_, hbudget, ⟨session, hsession, hactive⟩, timeout, htimeout,
    ?_, hdescends⟩
  · simpa using henabled
  · simpa using hvalid
  · rw [hdeadline]
    rfl

end Admission

/-! ## What identifies a run -/

/-- The columns that a call is compared with, as the run's own or as its parent's. -/
structure SameIdentity (r r' : Run) : Prop where
  id : r'.id = r.id
  agentDefinitionId : r'.agentDefinitionId = r.agentDefinitionId
  sessionId : r'.sessionId = r.sessionId
  rootRunId : r'.rootRunId = r.rootRunId
  depth : r'.depth = r.depth
  idempotencyKey : r'.idempotencyKey = r.idempotencyKey
  input : r'.input = r.input

theorem SameIdentity.refl (r : Run) : SameIdentity r r := ⟨rfl, rfl, rfl, rfl, rfl, rfl, rfl⟩

theorem SameIdentity.trans {a b c : Run} (h : SameIdentity a b) (h' : SameIdentity b c) :
    SameIdentity a c where
  id := h'.id.trans h.id
  agentDefinitionId := h'.agentDefinitionId.trans h.agentDefinitionId
  sessionId := h'.sessionId.trans h.sessionId
  rootRunId := h'.rootRunId.trans h.rootRunId
  depth := h'.depth.trans h.depth
  idempotencyKey := h'.idempotencyKey.trans h.idempotencyKey
  input := h'.input.trans h.input

/-- No call changes what identifies a run. -/
theorem Moved.identity {env : Env} {db : Db} {op : Op} {r r' : Run} (h : Moved env db op r r') :
    SameIdentity r r' := by
  cases h <;> exact ⟨rfl, rfl, rfl, rfl, rfl, rfl, rfl⟩

/-- The runs of `db` are in `s`, each with its identity. -/
def Retains (db s : Db) : Prop :=
  ∀ id r, db.run? id = some r → ∃ r', s.run? id = some r' ∧ SameIdentity r r'

theorem Retains.of_runs_eq {db s : Db} (h : s.runs = db.runs) : Retains db s :=
  fun id r hr => ⟨r, by rw [Db.run?, h]; exact hr, .refl r⟩

theorem Retains.trans {a b c : Db} (h : Retains a b) (h' : Retains b c) : Retains a c := by
  intro id r hr
  obtain ⟨s, hs, hrs⟩ := h id r hr
  obtain ⟨t, ht, hst⟩ := h' id s hs
  exact ⟨t, ht, hrs.trans hst⟩

/-- Every run of `s` is one of `db`, with its identity. -/
def NoneNew (db s : Db) : Prop :=
  ∀ r' ∈ s.runs.rows, ∃ r ∈ db.runs.rows, SameIdentity r r'

/-- Two runs of one Session do not share a key. -/
def KeysUnique (db : Db) : Prop :=
  ∀ r ∈ db.runs.rows, ∀ r' ∈ db.runs.rows, r.sessionId = r'.sessionId → r.idempotencyKey ≠ none →
    r.idempotencyKey = r'.idempotencyKey → r.id = r'.id

theorem KeysUnique.of_noneNew {db s : Db} (h : KeysUnique db) (hnew : NoneNew db s) :
    KeysUnique s := by
  intro r hr r' hr' hsession hkey hsame
  obtain ⟨q, hq, hid⟩ := hnew r hr
  obtain ⟨q', hq', hid'⟩ := hnew r' hr'
  rw [hid.idempotencyKey] at hkey hsame
  rw [hid.sessionId, hid'.sessionId] at hsession
  rw [hid.id, hid'.id]
  exact h q hq q' hq' hsession hkey (hsame.trans hid'.idempotencyKey)

theorem keyed_eq_some_iff {db : Db} (h : KeysUnique db) {sessionId key : Str} {r : Run} :
    db.keyed? sessionId (some key) = some r ↔
      r ∈ db.runs.rows ∧ r.sessionId = sessionId ∧ r.idempotencyKey = some key := by
  unfold Db.keyed?
  rw [Option.bind_some]
  constructor
  · intro hfind
    have hp := List.find?_some hfind
    simp only [Bool.and_eq_true, decide_eq_true_eq] at hp
    exact ⟨List.mem_of_find?_eq_some hfind, hp⟩
  · rintro ⟨hr, hsession, hkey⟩
    cases hfind : db.runs.rows.find? fun r => r.sessionId = sessionId && r.idempotencyKey = some key with
    | none =>
      have hnot := List.find?_eq_none.mp hfind r hr
      simp [hsession, hkey] at hnot
    | some r' =>
      have hp := List.find?_some hfind
      simp only [Bool.and_eq_true, decide_eq_true_eq] at hp
      have hmem := List.mem_of_find?_eq_some hfind
      have hid := h r hr r' hmem (hsession.trans hp.1.symm) (by rw [hkey]; exact nofun)
        (hkey.trans hp.2.symm)
      rw [Table.eq_of_key_eq hr hmem hid]

section Events

variable {env : Env} {db s : Db}

theorem retains_of_tracks {M : Run → Run → Prop} (h : Tracks M db s)
    (hM : ∀ r r', M r r' → SameIdentity r r') : Retains db s ∧ NoneNew db s := by
  constructor
  · intro id r hr
    obtain ⟨r', hr', hmoved⟩ := h.old id r hr
    exact ⟨r', hr', hM r r' hmoved⟩
  · intro r' hr'
    obtain ⟨r, hr, hmoved⟩ := h.source (Table.get?_of_mem hr')
    exact ⟨r, Table.mem_of_get? hr, hM r r' hmoved⟩

/-- An event that creates nothing. -/
theorem event_retains {event : Event} (hcreation : event.isCreation = false) :
    Retains db (db.next env event) ∧ NoneNew db (db.next env event) := by
  cases event with
  | call op =>
    have heffect : Effect env op db (db.next env (.call op)) := after_effect op
    have hnone : ∀ r, ¬ op.Creates db r := by
      cases op <;> first | exact fun _ h => h | exact nomatch hcreation
    refine retains_of_tracks (M := Moved env db op) ⟨heffect.old, fun id hid => ?_⟩ fun _ _ h => h.identity
    cases hr' : (db.next env (.call op)).run? id with
    | none => rfl
    | some r' => exact absurd (heffect.new id r' hid hr') (hnone r')
  | registerWait now stepId runId actionKey toolName input maxSteps =>
    have hwp : wp (transaction ((Event.registerWait now stepId runId actionKey toolName input
        maxSteps).exec env)) (fun _ => Tracks (Waits now runId) db) (fun _ => Tracks (Waits now runId) db)
        db := by
      rw [wp_transaction]
      unfold Event.exec
      rw [wp_bind]
      exact wp_mono (registerWait_spec now stepId runId actionKey toolName input maxSteps)
        (fun _ _ hs => hs) fun _ _ _ => .of_runs_eq .stay rfl
    refine retains_of_tracks (wp_final.mp hwp) fun r r' hM => ?_
    cases hM with
    | stay => exact .refl r
    | waits => exact ⟨rfl, rfl, rfl, rfl, rfl, rfl, rfl⟩
  | releaseWait runId =>
    exact retains_of_tracks (M := fun r r' => r = r') (.of_runs_eq (fun _ => rfl) rfl)
      fun r r' h => h ▸ .refl r

end Events

end AI2Apps.Agents
