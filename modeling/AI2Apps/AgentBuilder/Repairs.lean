import AI2Apps.AgentBuilder.CompiledAgents
import AI2Apps.Lib.Tables
import AI2Apps.Lib.TaskTable

/-!
# Repairs of Site Agents

A repair is a candidate source for a draft that has an active generation.  When it is
created the candidate is held against the draft's source, compiled and stored; when it is
activated its source replaces the draft's and its generation becomes the active one.  Both
calls are several transactions, and anything may happen between two of them.

* `validateRepairBoundary`: what a candidate may not change.
* `updateDraft`, `createGeneration`, `activateGeneration`: the repository's transactions.
* `Call`: a call between two of its transactions; `Event`: what may happen next.
* `System.step`, `System.run`: what happens then.
-/

namespace AI2Apps.AgentBuilder.Repairs

open TextOrder (strip)

/-! ## The boundary -/

inductive RepairError where
  | conflict (message : Str)
  | notFound (kind id : Str)
  | value (message : Str)
  /-- What the language raises. -/
  | raised

/-- `for item in data.get(key, [])`. -/
def itemsOf : Option Json → Option (List Json)
  | none => some []
  | some (.arr items) => some items
  | some (.str s) => some (s.map fun c => .str [c])
  | some (.obj members) => some (members.map fun m => .str m.1)
  | some _ => none

/-- The items that are objects. -/
def objectsOf (items : List Json) : List Json.Object := items.filterMap Json.obj?

/-- A value that a set may hold. -/
def hashable : Json → Bool
  | .arr _ | .obj _ => false
  | _ => true

/-- `set(value or [])`, as a list. -/
def setOf (value : Option Json) : Option (List Json) :=
  (listOf value).bind fun items => if items.all hashable then some items else none

/-- Two sets are equal. -/
def sameSet (xs ys : List Json) : Bool :=
  xs.all (fun x => ys.any fun y => Json.pyEq x y) && ys.all fun y => xs.any fun x => Json.pyEq y x

/-- `str(item.get("id") or "")`. -/
def rawId (env : Env) (capability : Json.Object) : Str :=
  textOr env [] (Json.lookup (str "id") capability)

/-- The capabilities of a source by their ids; of two with one id the later one. -/
def boundaryCapabilities (env : Env) (source : Json.Object) : Option (Dict Str Json.Object) :=
  (itemsOf (Json.lookup (str "capabilities") source)).map fun items =>
    Dict.empty.merge ((objectsOf items).map fun item => (rawId env item, item))

/-- `str(step.get("effect") or "read")`. -/
def declaredEffect (env : Env) (step : Json.Object) : Str :=
  textOr env (str "read") (Json.lookup (str "effect") step)

/-- The effects the author of a capability declares, step by step. -/
def declaredEffects (env : Env) (capability : Json.Object) : Option (List Str) :=
  (itemsOf (Json.lookup (str "steps") capability)).map fun steps =>
    (objectsOf steps).map (declaredEffect env)

/-- `effect_rank.get(effect, 99)`. -/
def effectRank (effect : Str) : ℕ :=
  if effect = str "read" then 0
  else if effect = str "interact" then 1
  else if effect = str "transfer" then 2
  else if effect = str "commit" then 3
  else if effect = str "restricted" then 4
  else 99

/-- `max((effect_rank.get(value, 99) for value in effects), default=0)`. -/
def maxRank (effects : List Str) : ℕ := (effects.map effectRank).foldr max 0

/-- An effect the base declares, or one that is no higher. -/
def effectAllowed (base : List Str) (effect : Str) : Bool :=
  effect ∈ base || effectRank effect ≤ maxRank base

/-- The effects of one capability after another. -/
def checkEffects (env : Env) (base : Dict Str Json.Object) :
    List (Str × Json.Object) → Except RepairError Unit
  | [] => .ok ()
  | (id, item) :: rest =>
    match (base.get? id).bind (declaredEffects env), declaredEffects env item with
    | some baseEffects, some effects =>
      if effects.all (effectAllowed baseEffects) then checkEffects env base rest
      else .error (.conflict (str "Repair cannot increase effect level"))
    | _, _ => .error .raised

/-- `_validate_repair_boundary`. -/
def validateRepairBoundary (env : Env) (base candidate : Json.Object) : Except RepairError Unit :=
  match setOf (Json.lookup (str "site_scope") base), setOf (Json.lookup (str "site_scope") candidate) with
  | some baseScope, some scope =>
    if !sameSet baseScope scope then
      .error (.conflict (str "Repair cannot expand or change Site scope"))
    else
      match boundaryCapabilities env base, boundaryCapabilities env candidate with
      | some baseItems, some items =>
        if !(baseItems.entries.all (fun e => (items.get? e.1).isSome) &&
            items.entries.all fun e => (baseItems.get? e.1).isSome) then
          .error (.conflict (str "Repair cannot add or remove Capabilities"))
        else checkEffects env baseItems items.entries
      | _, _ => .error .raised
  | _, _ => .error .raised

/-! ## The tables -/

inductive DraftStatus where
  | editing
  | compiled
  | active
  | archived
  deriving DecidableEq

structure Draft where
  id : Str
  owner : Str
  name : Str
  siteScope : List Json
  source : Json.Object
  status : DraftStatus
  activeGeneration : Option Str
  revision : ℕ

inductive GenerationStatus where
  | validated
  | failed
  | active
  deriving DecidableEq

structure Generation where
  id : Str
  draftId : Str
  sourceRevision : ℕ
  result : CompileResult
  status : GenerationStatus

inductive RepairStatus where
  | validated
  | failed
  | activated
  deriving DecidableEq

structure Repair where
  id : Str
  owner : Str
  draftId : Str
  capabilityName : Str
  baseGeneration : Str
  candidateGeneration : Str
  strategy : Str
  source : Json.Object
  status : RepairStatus

structure Tables where
  drafts : Table Draft Draft.id
  generations : Table Generation Generation.id
  repairs : Table Repair Repair.id

/-- `get_draft`. -/
def Tables.getDraft (db : Tables) (id owner : Str) : Option Draft :=
  (db.drafts.get? id).filter fun d => d.owner = owner

/-- One draft is replaced. -/
def Tables.setDraft (db : Tables) (id : Str) (f : Draft → Draft) (hf : ∀ d, (f d).id = d.id) : Tables :=
  { db with drafts := db.drafts.update (fun d => d.id = id) f hf }

/-- The `CHECK` on the name of a draft; `length` stops at the first NUL. -/
def nameFits (name : Str) : Bool :=
  let characters := name.takeWhile (· ≠ 0)
  1 ≤ characters.length && characters.length ≤ 160

/-- `create_draft`. -/
def createDraft (id owner name : Str) (siteScope : List Json) (source : Json.Object) (db : Tables) :
    Option Tables :=
  if strip name = [] then none
  else if ¬ nameFits (strip name) then none
  else (db.drafts.insert?
    { id := id
      owner := owner
      name := strip name
      siteScope := siteScope
      source := source
      status := .editing
      activeGeneration := none
      revision := 1 }).map fun drafts => { db with drafts := drafts }

/-- What an update of a draft may change. -/
structure DraftChange where
  name : Option Str
  siteScope : Option (List Json)
  source : Option Json.Object

/-- A draft after an update. -/
def Draft.changed (change : DraftChange) (d : Draft) : Draft :=
  { d with
    name := (change.name.map strip).getD d.name
    siteScope := change.siteScope.getD d.siteScope
    source := change.source.getD d.source
    status := if d.activeGeneration.isNone then .editing else .active
    revision := d.revision + 1 }

/-- `update_draft`. -/
def updateDraft (id owner : Str) (expectedRevision : ℕ) (change : DraftChange) (db : Tables) :
    Option Tables :=
  (db.getDraft id owner).bind fun d =>
    if d.revision ≠ expectedRevision then none
    else if (change.name.map strip).getD d.name = [] then none
    else if ¬ nameFits (Draft.changed change d).name then none
    else some (db.setDraft id (Draft.changed change) fun _ => rfl)

/-- `archive_draft`. -/
def archiveDraft (id owner : Str) (expectedRevision : ℕ) (db : Tables) : Option Tables :=
  (db.getDraft id owner).bind fun d =>
    if d.revision ≠ expectedRevision then none
    else some (db.setDraft id (fun d => { d with status := .archived, revision := d.revision + 1 })
      fun _ => rfl)

/-- What `reconcile_site_agents` writes for one site: the source and the scopes it merged,
and the drafts it archives. -/
def reconcileSite (primary : Str) (source : Json.Object) (siteScope : List Json)
    (duplicates : List Str) (db : Tables) : Tables :=
  { db with
    drafts := (db.drafts.update (fun d => d.id ∈ duplicates)
        (fun d => { d with status := .archived, revision := d.revision + 1 }) fun _ => rfl).update
      (fun d => d.id = primary)
      (fun d => { d with source := source, siteScope := siteScope, revision := d.revision + 1 })
      fun _ => rfl }

/-- `create_generation`, for the draft that was read. -/
def createGeneration (draft : Draft) (generationId : Str) (result : CompileResult) (db : Tables) :
    Option Tables :=
  (db.generations.insert?
    { id := generationId
      draftId := draft.id
      sourceRevision := draft.revision
      result := result
      status := if result.valid then .validated else .failed }).map fun generations =>
    let db := { db with generations := generations }
    if result.valid then
      db.setDraft draft.id (fun d => { d with status := .compiled, revision := d.revision + 1 })
        fun _ => rfl
    else db

/-- `activate_generation`. -/
def activateGeneration (draftId generationId owner : Str) (db : Tables) : Option Tables :=
  ((db.generations.get? generationId).filter fun g => g.draftId = draftId).bind fun g =>
    (db.getDraft draftId owner).bind fun _ =>
      if g.status = .failed then none
      else
        let demoted := db.generations.update
          (fun g => g.draftId = draftId && g.status = .active)
          (fun g => { g with status := .validated }) fun _ => rfl
        let generations := demoted.update (fun g => g.id = generationId)
          (fun g => { g with status := .active }) fun _ => rfl
        let db : Tables := { db with generations := generations }
        some (db.setDraft draftId (fun d =>
          { d with
            status := .active
            activeGeneration := some generationId
            revision := d.revision + 1 }) fun _ => rfl)

/-! ## Calls, transaction by transaction -/

/-- `draft.active_generation_id`, unless it is empty. -/
def Draft.activeGeneration? (d : Draft) : Option Str := d.activeGeneration.filter fun id => id ≠ []

def strategies : List Str := [str "deterministic", str "lightweight", str "advanced", str "manual"]

/-- What a repair is asked for. -/
structure RepairArgs where
  owner : Str
  draftId : Str
  capabilityName : Str
  source : Json.Object
  strategy : Str

/-- A call between two of its transactions: what it has read and computed. -/
inductive Call where
  /-- `compile_draft` has compiled the draft it read. -/
  | compiling (draft : Draft) (result : CompileResult)
  /-- `create_repair` has compiled the candidate. -/
  | checked (args : RepairArgs) (draft : Draft) (base : Str) (result : CompileResult)
  /-- It has stored the candidate's generation. -/
  | stored (args : RepairArgs) (draft : Draft) (base : Str) (result : CompileResult)
      (generationId : Str)
  /-- `activate_repair` has read the repair. -/
  | activating (repair : Repair)
  /-- It has read the draft. -/
  | updating (repair : Repair) (draft : Draft)
  /-- It has replaced the draft's source. -/
  | switching (repair : Repair)
  /-- It has activated the candidate's generation. -/
  | finishing (repair : Repair)

/-- `create_repair` up to its first write. -/
def createRepair (host : CompileHost) (args : RepairArgs) (db : Tables) : Except RepairError Call :=
  if args.strategy ∉ strategies then .error (.value (str "Invalid repair strategy"))
  else
    match db.getDraft args.draftId args.owner with
    | none => .error (.notFound (str "agent_draft") args.draftId)
    | some draft =>
      match draft.activeGeneration? with
      | none => .error (.conflict (str "Agent has no active generation to repair"))
      | some base =>
        match validateRepairBoundary host.toEnv draft.source args.source with
        | .error e => .error e
        | .ok () =>
          match compileSource host args.source with
          | none => .error .raised
          | some result => .ok (.checked args draft base result)

/-- The end of `create_repair`. -/
def insertRepair (args : RepairArgs) (draft : Draft) (base : Str) (result : CompileResult)
    (generationId repairId : Str) (db : Tables) : Option Tables :=
  (db.repairs.insert?
    { id := repairId
      owner := args.owner
      draftId := draft.id
      capabilityName := args.capabilityName
      baseGeneration := base
      candidateGeneration := generationId
      strategy := args.strategy
      source := args.source
      status := if result.valid then .validated else .failed }).map fun repairs =>
    { db with repairs := repairs }

/-- `activate_repair` up to its first write: `get_repair` and the status it asks for. -/
def readRepair (repairId owner : Str) (db : Tables) : Except RepairError Call :=
  match (db.repairs.get? repairId).filter fun r => r.owner = owner with
  | none => .error (.notFound (str "agent_repair") repairId)
  | some repair =>
    if repair.status ≠ .validated ∨ repair.candidateGeneration = [] then
      .error (.conflict (str "Only a validated repair can activate"))
    else .ok (.activating repair)

/-- `list(source.get("site_scope") or draft.site_scope)`. -/
def repairedScope (source : Json.Object) (draft : Draft) : Option (List Json) :=
  match Json.lookup (str "site_scope") source with
  | some v => if ModelSharing.truthy v then listOf (some v) else some draft.siteScope
  | none => some draft.siteScope

/-! ## What may happen -/

inductive Event where
  | createDraft (id owner name : Str) (siteScope : List Json) (source : Json.Object)
  | updateDraft (id owner : Str) (expectedRevision : ℕ) (change : DraftChange)
  | archiveDraft (id owner : Str) (expectedRevision : ℕ)
  | reconcileSite (primary : Str) (source : Json.Object) (siteScope : List Json)
      (duplicates : List Str)
  | activateGeneration (draftId generationId owner : Str)
  /-- A call begins, under a number of its own. -/
  | compileDraft (t : ℕ) (id owner : Str)
  | createRepair (t : ℕ) (args : RepairArgs)
  | activateRepair (t : ℕ) (repairId owner : Str)
  /-- A call goes on; what it writes gets an id. -/
  | next (t : ℕ) (id : Str)

/-- An activation of a repair: the active generation of its draft just before. -/
structure Activation where
  repairId : Str
  activeBefore : Option Str
  deriving DecidableEq

/-- The tables and the calls under way; for the record, the source each repair was held
against and what was activated. -/
structure System extends Tables where
  calls : ℕ → Option Call
  bases : Table (Str × Json.Object) Prod.fst
  activations : List Activation

def System.initial : System where
  drafts := .empty
  generations := .empty
  repairs := .empty
  calls _ := none
  bases := .empty
  activations := []

/-- A transaction; when it raises nothing is written. -/
def System.write (s : System) (db : Option Tables) : System := { s with toTables := db.getD s.toTables }

/-- A call is where it was left, or over. -/
def System.setCall (s : System) (t : ℕ) (call : Option Call) : System :=
  { s with calls := Function.update s.calls t call }

/-- A transaction of a call; when it raises the call is over. -/
def System.writeCall (s : System) (t : ℕ) (db : Option Tables) (call : Option Call) : System :=
  (s.write db).setCall t (if db.isSome then call else none)

/-- A call begins, unless its number is taken or it raises. -/
def System.begin (s : System) (t : ℕ) (call : Except RepairError Call) : System :=
  match s.calls t, call with
  | none, .ok call => s.setCall t (some call)
  | _, _ => s

/-- The next transaction of a call. -/
def System.continue (s : System) (t : ℕ) (id : Str) : Call → System
  | .compiling draft result => s.writeCall t (createGeneration draft id result s.toTables) none
  | .checked args draft base result =>
    s.writeCall t (createGeneration draft id result s.toTables)
      (some (.stored args draft base result id))
  | .stored args draft base result generationId =>
    match insertRepair args draft base result generationId id s.toTables,
        s.bases.insert? (id, draft.source) with
    | some db, some bases => { s.writeCall t (some db) none with bases := bases }
    | _, _ => s.setCall t none
  | .activating repair =>
    s.setCall t ((s.getDraft repair.draftId repair.owner).map (.updating repair))
  | .updating repair draft =>
    match repairedScope repair.source draft with
    | none => s.setCall t none
    | some siteScope =>
      s.writeCall t (updateDraft draft.id repair.owner draft.revision
        ⟨none, some siteScope, some repair.source⟩ s.toTables) (some (.switching repair))
  | .switching repair =>
    match activateGeneration repair.draftId repair.candidateGeneration repair.owner s.toTables with
    | none => s.setCall t none
    | some db =>
      { s.writeCall t (some db) (some (.finishing repair)) with
        activations := s.activations ++
          [⟨repair.id, (s.drafts.get? repair.draftId).bind Draft.activeGeneration⟩] }
  | .finishing repair =>
    s.writeCall t (some { s.toTables with
      repairs := s.repairs.update (fun r => r.id = repair.id)
        (fun r => { r with status := .activated }) fun _ => rfl }) none

/-- What happens at an event. -/
def System.step (host : CompileHost) (s : System) : Event → System
  | .createDraft id owner name siteScope source =>
    s.write (Repairs.createDraft id owner name siteScope source s.toTables)
  | .updateDraft id owner expectedRevision change =>
    s.write (Repairs.updateDraft id owner expectedRevision change s.toTables)
  | .archiveDraft id owner expectedRevision =>
    s.write (Repairs.archiveDraft id owner expectedRevision s.toTables)
  | .reconcileSite primary source siteScope duplicates =>
    s.write (some (Repairs.reconcileSite primary source siteScope duplicates s.toTables))
  | .activateGeneration draftId generationId owner =>
    s.write (Repairs.activateGeneration draftId generationId owner s.toTables)
  | .compileDraft t id owner =>
    s.begin t (match (s.getDraft id owner).bind fun d => (compileSource host d.source).map (d, ·) with
      | some (draft, result) => .ok (.compiling draft result)
      | none => .error .raised)
  | .createRepair t args => s.begin t (Repairs.createRepair host args s.toTables)
  | .activateRepair t repairId owner => s.begin t (readRepair repairId owner s.toTables)
  | .next t id =>
    match s.calls t with
    | some call => s.continue t id call
    | none => s

def System.run (host : CompileHost) (s : System) : List Event → System
  | [] => s
  | e :: events => (s.step host e).run host events

end AI2Apps.AgentBuilder.Repairs
