import AI2Apps.Agents.Interactions
import AI2Apps.Capabilities.Risk
import AI2Apps.Lib.Glob
import Mathlib.Data.List.Dedup

/-!
# Grant leases and the policy engine

`capabilities/repository.py` and `capabilities/policy.py`: the leases that count
for a call of a tool, and the decision on a call.  A lease counts when it is in
force for the run, was issued for the version of the tool that is active, its
tool pattern matches, and the call's arguments have the values its selector
names.

* `activeLeasesForRun`, `activeLeases_spec`: the leases that count.
* `evaluate`, `evaluate_spec`: a call whose capabilities are all leased is allowed.
-/

namespace AI2Apps.Capabilities

open Clock Faults Agents

/-! ## Leases -/

/-- `revoke_lease`. -/
def revokeLease (now : DateTime) (reason leaseId : Str) : Tx Unit := do
  let db ← get
  let lease ← orThrow (.notFound (str "grant_lease") leaseId) (db.leases.get? leaseId)
  if lease.revokedAt.isSome then
    if lease.revokeReason = some reason then pure ()
    else throw (.conflict (str "GrantLease is already revoked"))
  else
    let leases := db.leases.update (fun l => l.id = leaseId)
      (fun l => { l with revokedAt := some now, revokeReason := some reason, updatedAt := now })
      fun _ => rfl
    set { db with leases := leases }

/-- `not value`. -/
def falsy : Json → Bool
  | .null => true
  | .bool b => !b
  | .int i => i = 0
  | .float f => f = .finite 0
  | .str s => s.isEmpty
  | .arr items => items.isEmpty
  | .obj members => members.isEmpty

/-- The arguments a selector names; a selector of another shape cannot be read. -/
def exactArguments : Json → Option Json.Object
  | .obj selector =>
    match Json.lookup (str "arguments") selector with
    | none => some []
    | some (.obj exact) => some exact
    | some value => if falsy value then some [] else none
  | _ => none

/-- Every named argument has its value in the call; a missing one is null. -/
def resourceMatches (exact supplied : Json.Object) : Bool :=
  exact.all fun p => Json.memberEq supplied p.1 p.2

/-- The scope of a lease covers the run. -/
def inScope (lease : GrantLease) (run : Run) (session : Session) : Bool :=
  lease.agentDefinitionId = run.agentDefinitionId &&
    lease.scopeId = match lease.scope with
      | .run => run.id
      | .session => run.sessionId
      | .agent => run.agentDefinitionId
      | .app => session.appInstanceId

/-- The lease is in force for the run. -/
def inForce (now : DateTime) (lease : GrantLease) (run : Run) (session : Session) : Bool :=
  lease.revokedAt.isNone && lease.expiresAt.all (fun t => now.micros < t.micros) &&
    inScope lease run session

/-- The lease was issued for another version of the tool. -/
def stale (currentDigest : Option Str) (lease : GrantLease) : Bool :=
  lease.toolServiceDigest.isSome && lease.toolServiceDigest ≠ currentDigest

/-- `active_leases_for_run`: stale leases are revoked on the way. -/
def activeLeasesForRun (now : DateTime) (runId toolName : Str) (arguments : Json.Object) :
    Tx (List GrantLease) := do
  let db ← get
  let run ← orThrow (.notFound (str "agent_run") runId) (db.run? runId)
  let session ← orThrow (.notFound (str "agent_run") runId) (db.session? run.sessionId)
  let rows := (db.leases.rows.filter fun l => inForce now l run session).insertionSort
    fun l l' => l.createdAt.micros ≤ l'.createdAt.micros
  let digest := db.toolDigest toolName
  forM (rows.filter (stale digest)) fun l => revokeLease now (str "tool-version-changed") l.id
  let candidates := rows.filter fun l => !stale digest l && Glob.fnmatchcase toolName l.toolPattern
  if candidates.any fun l => (exactArguments l.resourceSelector).isNone then throw .type
  else return candidates.filter fun l =>
    (exactArguments l.resourceSelector).any fun exact => resourceMatches exact arguments

/-! ## The policy engine -/

inductive PolicyEffect where
  | allow
  | deny
  | requireApproval
  deriving DecidableEq

structure Policy where
  id : Str
  policyKey : Str
  effect : PolicyEffect
  capabilityPattern : Str
  agentPattern : Str
  toolPattern : Str
  priority : ℤ
  enabled : Bool

structure AuditRequest where
  runId : Str
  agentKey : Str
  toolName : Str
  capabilities : List Str
  effects : List Str
  arguments : Json

/-- The policies in force and the auditor; an auditor that raises or returns no effect
gives none. -/
structure Engine where
  policies : List Policy
  auditor : Option (AuditRequest → Option PolicyEffect)

structure CapabilityDecision where
  effect : PolicyEffect
  source : Str
  capabilities : List Str
  allowedCapabilities : List Str
  matchedPolicyIds : List Str
  matchedLeaseIds : List Str

/-- `matching_policies`, the highest priority first. -/
def matchingPolicies (engine : Engine) (agentKey toolName capability : Str) : List Policy :=
  (engine.policies.insertionSort fun p q =>
      q.priority < p.priority ∨ p.priority = q.priority ∧ p.policyKey ≤ q.policyKey).filter fun p =>
    p.enabled && Glob.fnmatchcase agentKey p.agentPattern &&
      Glob.fnmatchcase toolName p.toolPattern && Glob.fnmatchcase capability p.capabilityPattern

/-- The matching policies of the highest priority. -/
def topPolicies (engine : Engine) (agentKey toolName capability : Str) : List Policy :=
  match matchingPolicies engine agentKey toolName capability with
  | [] => []
  | first :: rest => (first :: rest).filter fun p => p.priority = first.priority

/-- A deny wins, then an explicit approval. -/
def strongest (effects : List PolicyEffect) : PolicyEffect :=
  if .deny ∈ effects then .deny
  else if .requireApproval ∈ effects then .requireApproval
  else .allow

/-- What the policies say of one capability. -/
def capabilityEffect (top : List Policy) : PolicyEffect :=
  if top = [] then .requireApproval else strongest (top.map Policy.effect)

/-- `evaluate`. -/
def evaluate (engine : Engine) (now : DateTime) (runId agentKey toolName : Str)
    (capabilities effects : List Str) (arguments : Json.Object) : Tx CapabilityDecision := do
  let leases ← activeLeasesForRun now runId toolName arguments
  let leased := (leases.flatMap GrantLease.capabilities).filter fun c => c ∈ capabilities
  let unresolved := sortedSet (capabilities.filter fun c => c ∉ leased)
  let leaseIds := leases.map GrantLease.id
  if unresolved = [] then
    return {
      effect := .allow, source := str "grant_lease", capabilities := capabilities
      allowedCapabilities := sortedSet leased, matchedPolicyIds := [], matchedLeaseIds := leaseIds }
  else
    let top := unresolved.map (topPolicies engine agentKey toolName)
    let effect := strongest (top.map capabilityEffect)
    let audited := if effect = .requireApproval then
        engine.auditor.bind fun auditor => auditor {
          runId := runId, agentKey := agentKey, toolName := toolName, capabilities := unresolved
          effects := effects, arguments := sanitize (.obj arguments) }
      else none
    let final := audited.getD effect
    return {
      effect := final
      source := if audited.isSome then str "ai_auditor" else str "policy"
      capabilities := capabilities
      allowedCapabilities := sortedSet (leased ++ if final = .allow then unresolved else [])
      matchedPolicyIds := (top.flatten.map Policy.id).eraseDups
      matchedLeaseIds := leaseIds }

/-! ## What they return -/

/-- Revoking a lease that is not revoked leaves every other as it is. -/
theorem revokeLease_spec {db : Db} {lease : GrantLease} (now : DateTime) (reason : Str)
    (hget : db.leases.get? lease.id = some lease) (hlease : lease.revokedAt = none) :
    wp (revokeLease now reason lease.id)
      (fun _ s => ∀ id, id ≠ lease.id → s.leases.get? id = db.leases.get? id)
      (fun _ _ => False) db := by
  unfold revokeLease
  rw [wp_bind, wp_get, wp_bind, hget, wp_orThrow_some, hlease]
  intro id hid
  refine Table.get?_update_of_not (t := db.leases) ?_ fun other hother => ?_
  · exact fun _ => rfl
  · rw [Table.key_of_get? hother]
    exact decide_eq_false hid

theorem mem_sortedSet {values : List Str} {v : Str} : v ∈ sortedSet values ↔ v ∈ values := by
  rw [sortedSet, List.mem_insertionSort, List.mem_dedup]

/-- A lease in force for the run, issued for the active version of a tool its pattern matches. -/
structure Candidate (db : Db) (now : DateTime) (run : Run) (session : Session) (toolName : Str)
    (lease : GrantLease) : Prop where
  present : lease ∈ db.leases.rows
  inForce : inForce now lease run session = true
  current : stale (db.toolDigest toolName) lease = false
  tool : Glob.fnmatchcase toolName lease.toolPattern = true

/-- A lease counts for a call. -/
structure Counts (db : Db) (now : DateTime) (run : Run) (session : Session) (toolName : Str)
    (arguments : Json.Object) (lease : GrantLease) : Prop where
  candidate : Candidate db now run session toolName lease
  resources : ∃ exact, exactArguments lease.resourceSelector = some exact ∧
    resourceMatches exact arguments = true

/-- The selectors the matching comes to have the shape it reads. -/
def Readable (db : Db) (now : DateTime) (run : Run) (session : Session) (toolName : Str) : Prop :=
  ∀ l, Candidate db now run session toolName l → (exactArguments l.resourceSelector).isSome = true

section Spec

variable {db : Db} {run : Run} {session : Session} (hrun : db.run? run.id = some run)
  (hsession : db.session? run.sessionId = some session)

include hrun hsession

/-- **The leases that count are returned**; a selector that cannot be read raises. -/
theorem activeLeases_spec (now : DateTime) (toolName : Str) (arguments : Json.Object) :
    wp (activeLeasesForRun now run.id toolName arguments)
      (fun leases _ => Readable db now run session toolName ∧
        ∀ l, l ∈ leases ↔ Counts db now run session toolName arguments l)
      (fun _ _ => ¬ Readable db now run session toolName) db := by
  unfold activeLeasesForRun
  rw [wp_bind, wp_get, wp_bind, hrun, wp_orThrow_some, wp_bind, hsession, wp_orThrow_some]
  dsimp only
  generalize hrows : (db.leases.rows.filter fun l => Capabilities.inForce now l run session).insertionSort
    (fun l l' => l.createdAt.micros ≤ l'.createdAt.micros) = rows
  have hmem : ∀ l, l ∈ rows ↔ l ∈ db.leases.rows ∧ Capabilities.inForce now l run session = true :=
    fun l => by rw [← hrows, List.mem_insertionSort, List.mem_filter]
  have hnodup : rows.Nodup := by
    rw [← hrows]
    exact (List.perm_insertionSort _ _).nodup_iff.mpr
      ((List.Nodup.of_map _ db.leases.nodup).filter _)
  have hcandidate : ∀ l, (l ∈ rows.filter fun l =>
      !stale (db.toolDigest toolName) l && Glob.fnmatchcase toolName l.toolPattern) ↔
        Candidate db now run session toolName l := by
    intro l
    rw [List.mem_filter, hmem, Bool.and_eq_true, Bool.not_eq_true']
    exact ⟨fun ⟨⟨hdb, hforce⟩, hcurrent, htool⟩ => ⟨hdb, hforce, hcurrent, htool⟩,
      fun ⟨hdb, hforce, hcurrent, htool⟩ => ⟨⟨hdb, hforce⟩, hcurrent, htool⟩⟩
  rw [wp_bind]
  refine wp_mono (wp_forM_each (P := fun l s => s.leases.get? l.id = some l) (J := fun _ => True)
    (E := fun _ _ => False)
    (hnodup.filter _) (fun l hl s _ hget => ?_) trivial fun l hl => ?_) (fun _ s _ => ?_)
    fun _ _ h => False.elim h
  · have hl' := (hmem l).mp (List.mem_filter.mp hl).1
    have hopen : l.revokedAt = none := by
      have := hl'.2
      simp only [Capabilities.inForce, Bool.and_eq_true] at this
      exact Option.isNone_iff_eq_none.mp this.1.1
    refine wp_mono (revokeLease_spec now _ hget hopen)
      (fun _ t ht => ⟨trivial, fun other hother hne hothers => ?_⟩) fun _ _ h => h
    rw [ht other.id, hothers]
    exact fun hid => hne (Table.eq_of_key_eq ((hmem other).mp (List.mem_filter.mp hother).1).1 hl'.1 hid)
  · exact Table.get?_of_mem ((hmem l).mp (List.mem_filter.mp hl).1).1
  · split
    · rename_i hany
      obtain ⟨l, hl, hnone⟩ := List.any_eq_true.mp hany
      intro hreadable
      have := hreadable l ((hcandidate l).mp hl)
      rw [Option.isNone_iff_eq_none.mp hnone] at this
      exact absurd this (by decide)
    · rename_i hany
      refine ⟨fun l hl => ?_, fun l => ?_⟩
      · rw [List.any_eq_true, not_exists] at hany
        cases hexact : exactArguments l.resourceSelector with
        | none => exact absurd ⟨(hcandidate l).mpr hl, by rw [hexact]; rfl⟩ (hany l)
        | some exact => rfl
      rw [List.mem_filter, hcandidate]
      constructor
      · rintro ⟨hl, hresources⟩
        refine ⟨hl, ?_⟩
        cases hexact : exactArguments l.resourceSelector with
        | none => rw [hexact] at hresources; exact Bool.noConfusion hresources
        | some exact => rw [hexact] at hresources; exact ⟨exact, rfl, hresources⟩
      · rintro ⟨hl, exact, hexact, hmatches⟩
        refine ⟨hl, ?_⟩
        rw [hexact]
        exact hmatches

/-- **A call whose capabilities are all leased is allowed**, with every lease that counts. -/
theorem evaluate_spec (engine : Engine) (now : DateTime) (agentKey toolName : Str)
    (capabilities effects : List Str) (arguments : Json.Object) :
    wp (evaluate engine now run.id agentKey toolName capabilities effects arguments)
      (fun decision _ => Readable db now run session toolName ∧
        (∀ id, id ∈ decision.matchedLeaseIds ↔ ∃ l, l.id = id ∧
          Counts db now run session toolName arguments l) ∧
        ((∀ c ∈ capabilities, ∃ l, Counts db now run session toolName arguments l ∧
          c ∈ l.capabilities) → decision.effect = .allow))
      (fun _ _ => ¬ Readable db now run session toolName) db := by
  unfold evaluate
  rw [wp_bind]
  refine wp_mono (activeLeases_spec hrun hsession now toolName arguments)
    (fun leases s hspec => ?_) fun _ _ h => h
  obtain ⟨hreadable, hleases⟩ := hspec
  dsimp only
  have hids : ∀ id, id ∈ leases.map GrantLease.id ↔ ∃ l, l.id = id ∧
      Counts db now run session toolName arguments l := by
    intro id
    rw [List.mem_map]
    exact exists_congr fun l => by rw [hleases, and_comm]
  split
  · exact ⟨hreadable, hids, fun _ => rfl⟩
  · rename_i hunresolved
    refine ⟨hreadable, hids, fun hall => absurd ?_ hunresolved⟩
    rw [List.eq_nil_iff_forall_not_mem]
    intro c hc
    rw [mem_sortedSet, List.mem_filter, decide_eq_true_eq] at hc
    obtain ⟨l, hl, hcl⟩ := hall c hc.1
    refine hc.2 (List.mem_filter.mpr ⟨List.mem_flatMap.mpr ⟨l, (hleases l).mpr hl, hcl⟩, ?_⟩)
    exact decide_eq_true hc.1

end Spec

end AI2Apps.Capabilities
