import AI2Apps.Lib.Dict
import AI2Apps.Lib.Json
import AI2Apps.Lib.Tables
import Mathlib.Data.List.Sort

/-!
# Sharing capabilities with the local network

`sharing/manager.py` on its three tables, and what it reads of the tool registry
(`services/repository.py`).  A row is written or found by one statement each; the
lists that SQL orders are sorted here by the same columns.

An export of a service is narrowed to the methods that are enabled and safe each
time it is used.  An export of a tool was checked once, when it was created.

* `Registry`, `Db`: the tables.
* `validateExport`, `createExport`, `setExportStatus`: the exports.
* `createGrant`, `rotateGrant`, `revokeGrant`, `authenticate`: the grants.
* `toolsForExport`, `findToolExport`: what a grant covers.
-/

namespace AI2Apps.Sharing

/-- The texts of a `SharingError`. -/
structure SharingError where
  code : String
  message : Str
  statusCode : ℕ := 400

inductive Raised where
  | sharing (error : SharingError)
  /-- `ResourceNotFoundError`. -/
  | notFound (resource : String) (id : Str)
  /-- `sqlite3.IntegrityError`. -/
  | integrity

/-- `length(...)` of a text column stops at the first NUL. -/
def sqlLength (s : Str) : ℕ := (s.takeWhile (· ≠ 0)).length

/-! ## The registry of services and tools -/

inductive ServiceStatus where
  | enabled
  | disabled
  deriving DecidableEq

structure ServiceDescriptor where
  id : Str
  serviceKey : Str
  status : ServiceStatus

structure ToolDescriptor where
  id : Str
  serviceId : Str
  qualifiedName : Str
  effects : List Str
  requiredCapabilities : List Str
  capabilityRules : List Json.Object
  enabled : Bool

/-- `_safe_tool`. -/
def ToolDescriptor.safe (tool : ToolDescriptor) : Bool :=
  tool.effects.isEmpty && tool.requiredCapabilities.isEmpty && tool.capabilityRules.isEmpty

/-- The tables of descriptors, with their unique columns. -/
structure Registry where
  services : List ServiceDescriptor
  tools : List ToolDescriptor
  serviceIds : (services.map ServiceDescriptor.id).Nodup
  serviceKeys : (services.map ServiceDescriptor.serviceKey).Nodup
  toolIds : (tools.map ToolDescriptor.id).Nodup
  toolNames : (tools.map ToolDescriptor.qualifiedName).Nodup

namespace Registry

def empty : Registry := ⟨[], [], List.nodup_nil, List.nodup_nil, List.nodup_nil, List.nodup_nil⟩

/-- `get_service`: by id or key. -/
def getService (registry : Registry) (key : Str) : Except Raised ServiceDescriptor :=
  match registry.services.find? fun service => service.id = key || service.serviceKey = key with
  | some service => .ok service
  | none => .error (.notFound "service" key)

/-- `get_tool`: by id or qualified name. -/
def getTool (registry : Registry) (name : Str) : Except Raised ToolDescriptor :=
  match registry.tools.find? fun tool => tool.id = name || tool.qualifiedName = name with
  | some tool => .ok tool
  | none => .error (.notFound "tool" name)

/-- `list_tools`: the enabled ones, by name. -/
def listTools (registry : Registry) : List ToolDescriptor :=
  (registry.tools.filter ToolDescriptor.enabled).insertionSort
    fun a b => a.qualifiedName ≤ b.qualifiedName

/-- The methods of a service that an export of it covers. -/
def safeMethods (registry : Registry) (service : ServiceDescriptor) : List ToolDescriptor :=
  registry.listTools.filter fun item => item.serviceId = service.id && item.enabled && item.safe

end Registry

/-! ## The sharing tables -/

inductive CapabilityKind where
  | model
  | tool
  | service
  | agent
  deriving DecidableEq

inductive ExportStatus where
  | active
  | paused
  | revoked
  deriving DecidableEq

def ExportStatus.ofText? (status : Str) : Option ExportStatus :=
  if status = str "active" then some .active
  else if status = str "paused" then some .paused
  else if status = str "revoked" then some .revoked
  else none

structure CapabilityExport where
  id : Str
  kind : CapabilityKind
  targetId : Str
  displayName : Str
  protocols : List Str
  status : ExportStatus
  createdByUserId : Str
  createdAt : ℤ
  deriving DecidableEq

inductive GrantStatus where
  | active
  | revoked
  deriving DecidableEq

/-- A row of `capability_share_grants`. -/
structure GrantRow where
  id : Str
  label : Str
  tokenDigest : Str
  status : GrantStatus
  maxConcurrency : ℤ
  maxRequests : Option ℤ
  expiresAt : Option ℤ
  requestCount : ℤ

structure Db where
  exports : Table CapabilityExport CapabilityExport.id
  grants : Table GrantRow GrantRow.id
  /-- `capability_share_grant_exports`. -/
  grantExports : List (Str × Str)

def Db.empty : Db := ⟨.empty, .empty, []⟩

/-- A grant as it was read. -/
structure ShareGrant where
  id : Str
  status : GrantStatus
  maxConcurrency : ℤ
  maxRequests : Option ℤ
  expiresAt : Option ℤ
  requestCount : ℤ
  exports : List CapabilityExport

/-- `ORDER BY e.created_at, e.id`. -/
def earlier (a b : CapabilityExport) : Prop :=
  a.createdAt < b.createdAt ∨ a.createdAt = b.createdAt ∧ a.id ≤ b.id

instance decidableEarlier : DecidableRel earlier := fun _ _ => inferInstanceAs (Decidable (_ ∨ _))

/-- `_grant`. -/
def Db.grant (db : Db) (row : GrantRow) : ShareGrant where
  id := row.id
  status := row.status
  maxConcurrency := row.maxConcurrency
  maxRequests := row.maxRequests
  expiresAt := row.expiresAt
  requestCount := row.requestCount
  exports := (db.exports.rows.filter fun e => (row.id, e.id) ∈ db.grantExports).insertionSort earlier

/-! ## Exports -/

structure AgentDefinition where
  agentKey : Str
  enabled : Bool
  /-- `bool` of the manifest's entry, when there is one. -/
  discoverable : Option Bool

/-- What the manager was bound to. -/
structure Bindings where
  modelSourceResolver : Option (Str → Str)
  /-- `agents.get_definition`. -/
  agents : Option (Str → Option AgentDefinition)

def modelSource (bindings : Bindings) (modelId : Str) : Str :=
  match bindings.modelSourceResolver with
  | some resolver => resolver modelId
  | none =>
    if (str "gateway/").isPrefixOf modelId then str "upstream_gateway"
    else if (str "cloud/").isPrefixOf modelId then str "ai2apps_cloud"
    else str "local_runtime"

def validateExport (bindings : Bindings) (registry : Registry) (targetId : Str) :
    CapabilityKind → Except Raised (List Str)
  | .model =>
    if modelSource bindings targetId = str "ai2apps_cloud" then
      .error (.sharing ⟨"cloud_model_not_shareable",
        str "AI2Apps Cloud models cannot be shared by the LAN gateway.", 403⟩)
    else if modelSource bindings targetId = str "upstream_gateway" then
      .error (.sharing ⟨"upstream_model_not_shareable",
        str "Models received from another gateway cannot be re-exported.", 403⟩)
    else .ok [str "openai"]
  | .agent =>
    match bindings.agents with
    | none =>
      .error (.sharing ⟨"agent_runtime_unavailable", str "Agent runtime is unavailable.", 503⟩)
    | some getDefinition =>
      match getDefinition targetId with
      | none => .error (.sharing ⟨"agent_not_found", str "Agent not found: " ++ targetId, 404⟩)
      | some agent =>
        if agent.enabled &&
            agent.discoverable.getD (agent.agentKey ≠ str "ai2apps.diagnostic-agent") then
          .ok [str "mcp"]
        else
          .error (.sharing ⟨"agent_not_shareable",
            str "Only enabled, discoverable Agents can be shared.", 403⟩)
  | .service =>
    match registry.getService targetId with
    | .error _ =>
      .error (.sharing ⟨"service_not_found", str "Service not found: " ++ targetId, 404⟩)
    | .ok service =>
      if service.status ≠ .enabled ∨ (registry.safeMethods service).isEmpty then
        .error (.sharing ⟨"service_not_shareable",
          str "The Service has no enabled, effect-free MCP methods.", 403⟩)
      else .ok [str "mcp"]
  | .tool =>
    match registry.getTool targetId with
    | .error _ => .error (.sharing ⟨"tool_not_found", str "Tool not found: " ++ targetId, 404⟩)
    | .ok tool =>
      -- whether the tool is enabled is not asked
      if tool.safe then .ok [str "mcp", str "endpoint"]
      else
        .error (.sharing ⟨"unsafe_tool_not_shareable",
          str "The LAN MVP only exports Tools with no effects or required capabilities.", 403⟩)

def exportExists : Raised :=
  .sharing ⟨"export_exists", str "That capability is already exported.", 409⟩

/-- The row of a new export, when the table takes it. -/
def createExport (bindings : Bindings) (registry : Registry) (db : Db) (kind : CapabilityKind)
    (targetId displayName createdByUserId exportId : Str) (now : ℤ) : Except Raised Db := do
  let protocols ← validateExport bindings registry targetId kind
  if ¬ (1 ≤ sqlLength targetId ∧ sqlLength targetId ≤ 500 ∧ 1 ≤ sqlLength displayName ∧
      sqlLength displayName ≤ 200 ∧ 1 ≤ sqlLength createdByUserId ∧
      sqlLength createdByUserId ≤ 200) then
    throw .integrity
  if db.exports.rows.any fun e => e.kind = kind && e.targetId = targetId && e.status ≠ .revoked then
    throw exportExists
  match db.exports.insert?
      ⟨exportId, kind, targetId, displayName, protocols, .active, createdByUserId, now⟩ with
  | some exports => return { db with exports }
  | none => throw exportExists

def setExportStatus (db : Db) (exportId status : Str) : Except Raised Db :=
  match ExportStatus.ofText? status with
  | none => .error (.sharing ⟨"invalid_status", str "Invalid export status.", 400⟩)
  | some status =>
    if db.exports.rows.any fun e => e.id = exportId && e.status ≠ .revoked then
      .ok { db with
        exports := db.exports.update (fun e => e.id = exportId && e.status ≠ .revoked)
          (fun e => { e with status }) fun _ => rfl }
    else .error (.sharing ⟨"export_not_found", str "Active export not found.", 404⟩)

/-! ## Grants -/

/-- A new grant; `token` and `grantId` are the drawn ones. -/
def createGrant (digest : Str → Str) (db : Db) (label : Str) (exportIds : List Str)
    (maxConcurrency : ℤ) (expiresInSeconds : Option ℤ) (createdByUserId : Str)
    (maxRequests : Option ℤ) (token grantId : Str) (now : ℤ) : Except Raised Db := do
  if exportIds = [] then
    throw (.sharing ⟨"empty_grant", str "Select at least one export.", 400⟩)
  if ¬ (1 ≤ maxConcurrency ∧ maxConcurrency ≤ 100) then
    throw (.sharing ⟨"invalid_concurrency", str "max_concurrency must be between 1 and 100.", 400⟩)
  if maxRequests.any fun m : ℤ => ¬ (1 ≤ m ∧ m ≤ 1000000) then
    throw (.sharing ⟨"invalid_request_budget",
      str "max_requests must be between 1 and 1000000.", 400⟩)
  if ¬ exportIds.all fun id => db.exports.rows.any fun e => e.id = id && e.status = .active then
    throw (.sharing ⟨"export_not_available", str "One or more exports are unavailable.", 409⟩)
  if ¬ (1 ≤ sqlLength label ∧ sqlLength label ≤ 200 ∧ 1 ≤ sqlLength createdByUserId ∧
      sqlLength createdByUserId ≤ 200) then
    throw .integrity
  if db.grants.rows.any fun g => g.tokenDigest = digest token then throw .integrity
  match db.grants.insert?
      { id := grantId
        label
        tokenDigest := digest token
        status := .active
        maxConcurrency
        maxRequests
        expiresAt := expiresInSeconds.map fun seconds => now + seconds * 1000000
        requestCount := 0 } with
  | some grants =>
    return { db with
      grants
      grantExports := db.grantExports ++ exportIds.eraseDups.map fun id => (grantId, id) }
  | none => throw .integrity

/-- The row of an active grant. -/
def isActiveGrant (grantId : Str) (g : GrantRow) : Bool := g.id = grantId && g.status = .active

def grantNotFound : Raised := .sharing ⟨"grant_not_found", str "Active grant not found.", 404⟩

def rotateGrant (digest : Str → Str) (db : Db) (grantId token : Str) : Except Raised Db :=
  if ¬ db.grants.rows.any (isActiveGrant grantId) then .error grantNotFound
  else if db.grants.rows.any fun g => g.id ≠ grantId && g.tokenDigest = digest token then
    .error .integrity
  else
    .ok { db with
      grants := db.grants.update (isActiveGrant grantId)
        (fun g => { g with tokenDigest := digest token }) fun _ => rfl }

def revokeGrant (db : Db) (grantId : Str) : Except Raised Db :=
  if db.grants.rows.any (isActiveGrant grantId) then
    .ok { db with
      grants := db.grants.update (isActiveGrant grantId)
        (fun g => { g with status := .revoked }) fun _ => rfl }
  else .error grantNotFound

def authenticate (digest : Str → Str) (db : Db) (grantId token : Str) (now : ℤ) :
    Except Raised ShareGrant :=
  if token = [] then
    .error (.sharing ⟨"share_token_required", str "Share token required.", 401⟩)
  else
    match (db.grants.get? grantId).filter fun row => row.tokenDigest = digest token with
    | none => .error (.sharing ⟨"invalid_share_token", str "Invalid share token.", 401⟩)
    | some row =>
      if row.status ≠ .active then
        .error (.sharing ⟨"share_revoked", str "Share grant is revoked.", 401⟩)
      else if row.expiresAt.any fun t : ℤ => t ≤ now then
        .error (.sharing ⟨"share_expired", str "Share grant has expired.", 401⟩)
      else if row.maxRequests.any fun m : ℤ => m ≤ row.requestCount then
        .error (.sharing ⟨"share_request_limit", str "Share grant request budget reached.", 429⟩)
      else .ok (db.grant row)

/-- The rows that the statement of `acquire` counts a request on. -/
def admits (grantId : Str) (g : GrantRow) : Bool :=
  isActiveGrant grantId g && g.maxRequests.all fun m : ℤ => g.requestCount < m

/-! ## What a grant covers -/

def toolsForExport (registry : Registry) (e : CapabilityExport) :
    Except Raised (List ToolDescriptor) :=
  match e.kind with
  | .tool => return [← registry.getTool e.targetId]
  | .service => return registry.safeMethods (← registry.getService e.targetId)
  | _ => return []

/-- `find_tool_export`: the first active export that has a tool of the name. -/
def findToolExport (registry : Registry) (qualifiedName : Str) :
    List CapabilityExport → Except Raised CapabilityExport
  | [] =>
    .error (.sharing ⟨"capability_not_shared", str "Tool is not included in this grant.", 403⟩)
  | e :: rest =>
    if e.status ≠ .active ∨ e.kind ≠ .tool ∧ e.kind ≠ .service then
      findToolExport registry qualifiedName rest
    else do
      let items ← toolsForExport registry e
      if items.any fun item => item.qualifiedName = qualifiedName then return e
      else findToolExport registry qualifiedName rest

/-- `invoke_tool` up to the gateway's own lookup: the tool that is handed over. -/
def invokeTool (registry : Registry) (grant : ShareGrant) (qualifiedName : Str) :
    Except Raised ToolDescriptor := do
  let _ ← findToolExport registry qualifiedName grant.exports
  -- the audit row
  if 200 < sqlLength (str "tool:" ++ qualifiedName) then throw .integrity
  registry.getTool qualifiedName

end AI2Apps.Sharing
