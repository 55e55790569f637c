import AI2Apps.Capabilities.Leases
import AI2Apps.Agents.TerminalRuns

/-!
# What a granted approval covers

An approval shows the call's resource arguments as `sanitize` leaves them, and the
lease it issues is bound to the values that were shown: a later call must have, for
each resource key of the approved call, a value equal to the shown one.  The
approved call and the later one are compared raw against shown, and only over the
keys the approved call had.

* `Granted`: the lease is what a granted approval of the call issued.
* `counts_iff`: the calls a lease covers.
* `Decides`: what has to hold of the approved call and a later one.
* `consentExact_iff`: when the lease covers a later call exactly if that has the same
  resource arguments, and when it allows the approved call again.
-/

namespace AI2Apps.Capabilities

open Clock Faults Agents

/-- The request of the approval for a call (`_run_claimed`). -/
def approvalRequest (toolName : Str) (effects capabilities : List Str) (arguments : Json.Object) :
    Json.Object :=
  let preview := actionPreview toolName effects arguments
  [(str "tool_name", .str toolName),
    (str "arguments", preview.arguments),
    (str "capabilities", .arr (capabilities.map .str)),
    (str "effects", .arr (effects.map .str)),
    (str "action_preview", .obj preview.object),
    (str "resource_selector", .obj preview.resourceSelector)]

/-- A call's arguments: no key twice, at any depth. -/
structure Arguments where
  members : Json.Object
  distinct : DistinctMembers members

/-- The call was approved: the answer went through, and the lease is the one it issued. -/
structure Granted (env : Env) (toolName : Str) (effects capabilities : List Str)
    (arguments : Json.Object) (lease : GrantLease) : Prop where
  granted : ∃ (now : DateTime) (runId interactionId responseId : Str) (response : Json.Object)
      (before after : Db) (pending answered : Interaction),
    before.interactions.get? interactionId = some pending ∧
      pending.request = approvalRequest toolName effects capabilities arguments ∧
      before.leases.get? lease.id = none ∧
      (respondInteraction env now lease.id runId interactionId response responseId).run before =
        .ok answered after ∧
      after.leases.get? lease.id = some lease

/-- The lease is in force for a later run, and the tool is the version it was issued for. -/
structure Applies (db : Db) (now : DateTime) (run : Run) (session : Session) (toolName : Str)
    (lease : GrantLease) : Prop where
  runFound : db.run? run.id = some run
  sessionFound : db.session? run.sessionId = some session
  present : lease ∈ db.leases.rows
  force : inForce now lease run session = true
  digest : lease.toolServiceDigest = db.toolDigest toolName

/-- The same resource keys are there, with equal values. -/
def SameResources (approved later : Json.Object) : Prop :=
  ∀ key ∈ resourceKeys,
    match Json.lookup key approved, Json.lookup key later with
    | none, none => True
    | some v, some w => Json.pyEq w v = true
    | _, _ => False

/-- A later call is given the lease if and only if it has the resources of the approved one. -/
def ConsentExact (db : Db) (now : DateTime) (run : Run) (toolName : Str)
    (approved later : Arguments) (lease : GrantLease) : Prop :=
  wp (activeLeasesForRun now run.id toolName later.members)
    (fun leases _ => lease ∈ leases ↔ SameResources approved.members later.members)
    (fun _ _ => False) db

/-- The approved call, made again, is allowed by the lease: what it needs beyond the approved
capabilities was leased before. -/
def AllowedAgain (engine : Engine) (db : Db) (now : DateTime) (run : Run) (session : Session)
    (toolName agentKey : Str) (effects capabilities : List Str) (approved : Arguments)
    (lease : GrantLease) : Prop :=
  ∀ needed, (∀ c ∈ needed, c ∈ capabilities ∨
      ∃ l, Counts db now run session toolName approved.members l ∧ c ∈ l.capabilities) →
    wp (evaluate engine now run.id agentKey toolName needed effects approved.members)
      (fun decision _ => decision.effect = .allow ∧ lease.id ∈ decision.matchedLeaseIds)
      (fun _ _ => False) db

/-- The resource values of a call are shown as they are. -/
def WholeResources (approved : Json.Object) : Prop :=
  ∀ key ∈ resourceKeys, ∀ v, Json.lookup key approved = some v → Whole v

/-- For some resource of the approved call, the later one has another value than was shown; a
missing value is null. -/
def ToldApart (approved later : Json.Object) : Prop :=
  ∃ key ∈ resourceKeys, ∃ v, Json.lookup key approved = some v ∧
    Json.memberEq later key (sanitize v) = false

/-- When a lease tells a later call rightly: one with the same resources by their being shown
whole, another by a value that was shown. -/
def Decides (toolName : Str) (approved later : Json.Object) : Prop :=
  (SameResources approved later →
    Glob.fnmatchcase toolName toolName = true ∧ WholeResources approved) ∧
  (¬ SameResources approved later →
    Glob.fnmatchcase toolName toolName = false ∨ ToldApart approved later)

/-! ## The lease an approval issues -/

/-- A write to the runs leaves the leases. -/
theorem preserves_leases_updateRuns {leases : Table GrantLease GrantLease.id} (p : Run → Bool)
    (f : Run → Run) (hf : ∀ r, (f r).id = r.id) :
    Preserves (fun s : Db => s.leases = leases) (updateRuns p f hf) := by
  intro db hdb
  unfold updateRuns
  rw [wp_bind, wp_get]
  split <;> exact hdb

theorem preserves_leases_updateInteractions {leases : Table GrantLease GrantLease.id}
    (q : Interaction → Bool) (g : Interaction → Interaction) (hg : ∀ i, (g i).id = i.id) :
    Preserves (fun s : Db => s.leases = leases) (updateInteractions q g hg) :=
  .modify fun _ hs => hs

theorem preserves_leases_moveAnswered {leases : Table GrantLease GrantLease.id} (now : DateTime)
    (interaction : Interaction) (status : InteractionStatus) (grants : List Str)
    (deadline : DateTime) : Preserves (fun s : Db => s.leases = leases)
      (moveAnswered now interaction status grants deadline) :=
  .ite _ (fun _ => preserves_leases_updateRuns _ _ _) fun _ => preserves_leases_updateRuns _ _ _

/-- What of a lease the approved call decides. -/
structure BoundTo (toolName : Str) (capabilities : List Str) (arguments : Json.Object)
    (lease : GrantLease) : Prop where
  toolPattern : lease.toolPattern = toolName
  capabilities : lease.capabilities = sortedSet capabilities
  resourceSelector : lease.resourceSelector = .obj (Capabilities.resourceSelector arguments)

theorem mapM_str (values : List Str) : (values.map Json.str).mapM Json.str? = some values := by
  induction values with
  | nil => rfl
  | cons v values ih =>
    rw [List.map_cons, List.mapM_cons, ih]
    rfl

theorem approvedCapabilities_request (toolName : Str) (effects capabilities : List Str)
    (arguments : Json.Object) :
    approvedCapabilities (approvalRequest toolName effects capabilities arguments) =
      some capabilities := by
  have hlookup : Json.lookup (str "capabilities")
      (approvalRequest toolName effects capabilities arguments) =
        some (.arr (capabilities.map .str)) := rfl
  rw [approvedCapabilities, hlookup]
  exact mapM_str capabilities

/-- **The lease is bound to the approved call.** -/
theorem issueLease_bound {db : Db} {interaction : Interaction} {toolName : Str}
    {effects capabilities : List Str} {arguments : Json.Object} {leaseId : Str}
    (hrequest : interaction.request = approvalRequest toolName effects capabilities arguments)
    (now : DateTime) (responseId : Str) (run : Run) (session : Session) (deadline : DateTime)
    (response : Json.Object) :
    wp (issueLease now leaseId responseId interaction run session deadline response)
      (fun _ s => ∀ lease, s.leases.get? leaseId = some lease →
        BoundTo toolName capabilities arguments lease) (fun _ _ => True) db := by
  have htool : Json.lookup (str "tool_name") interaction.request = some (.str toolName) := by
    rw [hrequest]
    rfl
  have hselector : Json.lookup (str "resource_selector") interaction.request =
      some (.obj (Capabilities.resourceSelector arguments)) := by
    rw [hrequest]
    rfl
  unfold issueLease
  rw [wp_bind, wp_get, wp_bind, hrequest, approvedCapabilities_request, wp_orThrow_some]
  dsimp only
  rw [wp_bind, wp_orThrow]
  refine ⟨fun scope _ => ?_, fun _ => trivial⟩
  rw [← hrequest, htool, hselector, wp_bind, wp_orThrow]
  refine ⟨fun tool htool' => ?_, fun _ => trivial⟩
  obtain rfl : toolName = tool := Option.some.inj htool'
  unfold insertLease
  rw [wp_bind, wp_get, wp_bind, wp_orThrow]
  refine ⟨fun leases hinsert => ?_, fun _ => trivial⟩
  intro lease hlease
  have hget := Table.get?_insert hinsert leaseId
  rw [if_pos rfl] at hget
  obtain rfl := Option.some.inj (hget.symm.trans hlease)
  exact ⟨rfl, rfl, rfl⟩

theorem resolveInteraction_bound {env : Env} {db : Db} {now : DateTime}
    {leaseId responseId toolName : Str} {response arguments : Json.Object}
    {effects capabilities : List Str} {pending : Interaction}
    (hrequest : pending.request = approvalRequest toolName effects capabilities arguments)
    (hfresh : db.leases.get? leaseId = none) :
    wp (resolveInteraction env now leaseId responseId pending response)
      (fun _ s => ∀ lease, s.leases.get? leaseId = some lease →
        BoundTo toolName capabilities arguments lease) (fun _ _ => True) db := by
  have hkept : ∀ s : Db, s.leases = db.leases → ∀ lease, s.leases.get? leaseId = some lease →
      BoundTo toolName capabilities arguments lease := by
    intro s hs lease hlease
    rw [hs, hfresh] at hlease
    exact absurd hlease.symm (Option.some_ne_none _)
  unfold resolveInteraction
  split_ifs
  · trivial
  · trivial
  refine (Preserves.only _ (preserves_checkHandle now _ response)).wp_bind
    (I := fun s : Db => s.leases = db.leases) rfl (fun _ s hs => ?_) fun _ _ _ => trivial
  refine (preserves_checkResponseId pending responseId).wp_bind
    (I := fun s : Db => s.leases = db.leases) hs (fun _ s hs => ?_)
    fun _ _ _ => trivial
  refine (preserves_leases_updateInteractions _ _ _).wp_bind hs (fun _ s hs => ?_)
    fun _ _ _ => trivial
  refine (preserves_selectRun _).wp_bind (I := fun s : Db => s.leases = db.leases) hs (fun run s hs => ?_) fun _ _ _ => trivial
  refine (Preserves.orThrow _ _).wp_bind (I := fun s : Db => s.leases = db.leases) hs (fun deadline s hs => ?_) fun _ _ _ => trivial
  refine Preserves.get.wp_bind (I := fun s : Db => s.leases = db.leases) hs (fun current s hs => ?_) fun _ _ _ => trivial
  refine (Preserves.orThrow _ _).wp_bind (I := fun s : Db => s.leases = db.leases) hs (fun session s hs => ?_) fun _ _ _ => trivial
  rw [wp_bind]
  have hmoved : ∀ (status : InteractionStatus) (grants : List Str) (t : Db),
      (∀ lease, t.leases.get? leaseId = some lease →
        BoundTo toolName capabilities arguments lease) →
      wp (moveAnswered now pending status grants deadline)
        (fun _ s => ∀ lease, s.leases.get? leaseId = some lease →
          BoundTo toolName capabilities arguments lease) (fun _ _ => True) t := by
    intro status grants t ht
    refine wp_mono (preserves_leases_moveAnswered now pending status grants deadline t rfl)
      (fun _ u hu => ?_) fun _ _ _ => trivial
    rw [hu]
    exact ht
  by_cases happroved : resolvedStatus pending.kind response = .approved
  · rw [wp_only_pos happroved]
    exact wp_mono (issueLease_bound hrequest now responseId run session deadline response)
      (fun _ t ht => hmoved _ _ t ht) fun _ _ h => h
  · rw [wp_only_neg happroved]
    exact hmoved _ _ s (hkept s hs)

theorem respondInteraction_bound (env : Env) {db : Db} (now : DateTime)
    {leaseId interactionId toolName : Str} (runId responseId : Str) {arguments : Json.Object}
    (response : Json.Object) {effects capabilities : List Str} {pending : Interaction}
    (hpending : db.interactions.get? interactionId = some pending)
    (hrequest : pending.request = approvalRequest toolName effects capabilities arguments)
    (hfresh : db.leases.get? leaseId = none) :
    wp (respondInteraction env now leaseId runId interactionId response responseId)
      (fun _ s => ∀ lease, s.leases.get? leaseId = some lease →
        BoundTo toolName capabilities arguments lease) (fun _ _ => True) db := by
  unfold respondInteraction
  rw [wp_bind, wp_get, wp_bind, wp_orThrow]
  refine ⟨fun interaction hfound => ?_, fun _ => trivial⟩
  rw [hpending, Option.filter_eq_some_iff] at hfound
  obtain rfl := Option.some.inj hfound.1
  split_ifs
  · intro lease hlease
    rw [hfresh] at hlease
    exact absurd hlease.symm (Option.some_ne_none _)
  · trivial
  rw [wp_bind]
  refine wp_mono (resolveInteraction_bound hrequest hfresh) (fun _ s hs => ?_) fun _ _ h => h
  rw [wp_bind, wp_get, wp_orThrow]
  exact ⟨fun _ _ => hs, fun _ => trivial⟩

/-- **A granted lease is bound to the call as it was shown.** -/
theorem Granted.boundTo {env : Env} {toolName : Str} {effects capabilities : List Str}
    {arguments : Json.Object} {lease : GrantLease}
    (h : Granted env toolName effects capabilities arguments lease) :
    BoundTo toolName capabilities arguments lease := by
  obtain ⟨now, runId, interactionId, responseId, response, before, after, pending, answered,
    hpending, hrequest, hfresh, hrun, hlease⟩ := h.granted
  exact (wp_of_ok hrun).mp (respondInteraction_bound env now runId responseId response hpending hrequest
    hfresh)
    lease hlease

/-! ## The calls a lease covers -/

theorem exactArguments_resourceSelector (arguments : Json.Object) :
    exactArguments (.obj (resourceSelector arguments)) = some (selectedArguments arguments) := by
  unfold resourceSelector
  dsimp only
  split_ifs with h
  · rw [h]
    rfl
  · rfl

/-- What of a resource key is in the selector. -/
theorem mem_selectedArguments {arguments : Json.Object} {p : Str × Json} :
    p ∈ selectedArguments arguments ↔ p.1 ∈ resourceKeys ∧
      ∃ v, Json.lookup p.1 arguments = some v ∧ p.2 = sanitize v := by
  rw [selectedArguments, List.mem_filterMap]
  constructor
  · rintro ⟨key, hkey, hp⟩
    rw [resourceKeys_plain key hkey] at hp
    obtain ⟨v, hv, rfl⟩ := Option.map_eq_some_iff.mp hp
    exact ⟨hkey, v, hv, sanitizeValue_resource hkey v⟩
  · rintro ⟨hkey, v, hv, hp⟩
    refine ⟨p.1, hkey, ?_⟩
    rw [resourceKeys_plain p.1 hkey, hv]
    exact congrArg some (Prod.ext rfl ((sanitizeValue_resource hkey v).trans hp.symm))

/-- **The later call has the values that were shown**, for the keys the approved call had. -/
theorem resourceMatches_selected {approved later : Json.Object} :
    resourceMatches (selectedArguments approved) later = true ↔
      ∀ key ∈ resourceKeys, ∀ v, Json.lookup key approved = some v →
        Json.memberEq later key (sanitize v) = true := by
  rw [resourceMatches, List.all_eq_true]
  constructor
  · intro h key hkey v hv
    exact h (key, sanitize v) (mem_selectedArguments.mpr ⟨hkey, v, hv, rfl⟩)
  · intro h p hp
    obtain ⟨hkey, v, hv, hp⟩ := mem_selectedArguments.mp hp
    rw [hp]
    exact h p.1 hkey v hv

/-- The later call has the shown values of the approved one, a missing value being null. -/
def ShownIn (approved later : Json.Object) : Prop :=
  ∀ key ∈ resourceKeys, ∀ v, Json.lookup key approved = some v →
    Json.memberEq later key (sanitize v) = true

/-- A value of a call has distinct keys in it too. -/
theorem Arguments.distinct_of_lookup (arguments : Arguments) {key : Str} {v : Json}
    (h : Json.lookup key arguments.members = some v) : Distinct v :=
  (distinctMembers_iff.mp arguments.distinct).2 _ (Json.mem_of_lookup h)

theorem toldApart_iff {approved later : Json.Object} :
    ToldApart approved later ↔ ¬ ShownIn approved later := by
  simp only [ToldApart, ShownIn, not_forall, exists_prop, Bool.not_eq_true]

/-- A call is as it is shown when its resource values are whole. -/
theorem shownIn_self_iff (approved : Arguments) :
    ShownIn approved.members approved.members ↔ WholeResources approved.members := by
  have hvalue : ∀ key v, Json.lookup key approved.members = some v →
      (Json.memberEq approved.members key (sanitize v) = true ↔ Whole v) := by
    intro key v hv
    rw [Json.memberEq, hv]
    exact pyEq_sanitize_iff (approved.distinct_of_lookup hv)
  exact ⟨fun h key hkey v hv => (hvalue key v hv).mp (h key hkey v hv),
    fun h key hkey v hv => (hvalue key v hv).mpr (h key hkey v hv)⟩

/-- **A call with the same resources** is shown in the approved one when these are whole. -/
theorem shownIn_of_sameResources {approved later : Arguments}
    (h : SameResources approved.members later.members) :
    ShownIn approved.members later.members ↔ WholeResources approved.members := by
  refine forall₂_congr fun key hkey => forall₂_congr fun v hv => ?_
  have hsame := h key hkey
  rw [hv] at hsame
  cases hw : Json.lookup key later.members with
  | none =>
    rw [hw] at hsame
    exact hsame.elim
  | some w =>
    rw [hw] at hsame
    rw [Json.memberEq, hw, Option.getD_some]
    exact pyEq_sanitize_of_agrees (later.distinct_of_lookup hw) (approved.distinct_of_lookup hv)
      hsame

/-- The lease tells the calls rightly exactly when being covered is having the same resources. -/
theorem decides_iff {toolName : Str} {approved later : Arguments} :
    Decides toolName approved.members later.members ↔
      (Glob.fnmatchcase toolName toolName = true ∧ ShownIn approved.members later.members ↔
        SameResources approved.members later.members) := by
  rw [Decides, toldApart_iff]
  by_cases h : SameResources approved.members later.members
  · rw [shownIn_of_sameResources h]
    exact ⟨fun hd => ⟨fun _ => h, hd.1⟩, fun hd => ⟨hd.mpr, fun hn => absurd h hn⟩⟩
  · rw [iff_false_right h, not_and_or, Bool.not_eq_true]
    exact ⟨fun hd => hd.2 h, fun hd => ⟨fun hs => absurd hs h, fun _ => hd⟩⟩

section Applied

variable {env : Env} {db : Db} {now : DateTime} {run : Run} {session : Session}
  {toolName : Str} {effects capabilities : List Str} {approved : Json.Object} {lease : GrantLease}

/-- **The calls a granted lease counts for.** -/
theorem counts_iff (hgranted : Granted env toolName effects capabilities approved lease)
    (happlies : Applies db now run session toolName lease) (later : Json.Object) :
    Counts db now run session toolName later lease ↔
      Glob.fnmatchcase toolName toolName = true ∧ ShownIn approved later := by
  have hbound := hgranted.boundTo
  have hexact : exactArguments lease.resourceSelector = some (selectedArguments approved) := by
    rw [hbound.resourceSelector]
    exact exactArguments_resourceSelector approved
  have hcurrent : stale (db.toolDigest toolName) lease = false := by
    rw [stale, happlies.digest]
    simp
  rw [ShownIn, ← resourceMatches_selected]
  constructor
  · rintro ⟨hcandidate, exact, hexact', hmatches⟩
    obtain rfl := Option.some.inj (hexact.symm.trans hexact')
    refine ⟨?_, hmatches⟩
    rw [← hcandidate.tool, hbound.toolPattern]
  · rintro ⟨htool, hmatches⟩
    refine ⟨⟨happlies.present, happlies.force, hcurrent, ?_⟩, _, hexact, hmatches⟩
    rw [hbound.toolPattern]
    exact htool

end Applied

/-- **When the consent is exact**: for a later call, when the matching can read every selector
it comes to and the lease tells the two calls rightly; and the approved call is allowed again
when the tool's name matches itself as a pattern and its resources are shown as they are. -/
theorem consentExact_iff {env : Env} {engine : Engine} {db : Db} {now : DateTime} {run : Run}
    {session : Session} {toolName agentKey : Str} {effects capabilities : List Str}
    {approved : Arguments} {lease : GrantLease}
    (hgranted : Granted env toolName effects capabilities approved.members lease)
    (happlies : Applies db now run session toolName lease) :
    (∀ later, ConsentExact db now run toolName approved later lease ↔
      Readable db now run session toolName ∧ Decides toolName approved.members later.members) ∧
    (AllowedAgain engine db now run session toolName agentKey effects capabilities approved lease ↔
      Readable db now run session toolName ∧ Glob.fnmatchcase toolName toolName = true ∧
        WholeResources approved.members) := by
  have hcounts := counts_iff hgranted happlies
  refine ⟨fun later => ?_, ?_⟩
  · rw [decides_iff, ← hcounts]
    have hactive := activeLeases_spec happlies.runFound happlies.sessionFound now toolName
      later.members
    constructor
    · intro hexact
      exact wp_elim (wp_and hactive hexact)
        (fun leases _ h => ⟨h.1.1, (h.1.2 lease).symm.trans h.2⟩) fun _ _ h => h.2.elim
    · rintro ⟨hreadable, hdecides⟩
      exact wp_mono hactive (fun leases _ h => (h.2 lease).trans hdecides)
        fun _ _ h => absurd hreadable h
  have hevaluate := evaluate_spec happlies.runFound happlies.sessionFound engine now agentKey
    toolName
  rw [← shownIn_self_iff, ← hcounts]
  constructor
  · intro hallowed
    obtain ⟨hreadable, l, hl, hself⟩ := wp_elim
      (wp_and (hevaluate [] effects approved.members)
        (hallowed [] fun c hc => absurd hc List.not_mem_nil))
      (fun decision _ h => (⟨h.1.1, (h.1.2.1 lease.id).mp h.2.2⟩ :
        Readable db now run session toolName ∧
          ∃ l, l.id = lease.id ∧ Counts db now run session toolName approved.members l))
      fun _ _ h => h.2.elim
    obtain rfl : l = lease :=
      Table.eq_of_key_eq hself.candidate.present happlies.present hl
    exact ⟨hreadable, hself⟩
  · rintro ⟨hreadable, hself⟩ needed hneeded
    refine wp_mono (hevaluate needed effects approved.members) (fun decision _ h => ?_)
      fun _ _ h => absurd hreadable h
    refine ⟨h.2.2 fun c hc => ?_, (h.2.1 _).mpr ⟨lease, rfl, hself⟩⟩
    rcases hneeded c hc with hc | hc
    · refine ⟨lease, hself, ?_⟩
      rw [hgranted.boundTo.capabilities, mem_sortedSet]
      exact hc
    · exact hc

namespace ConsentSample

open DenialSample (env second runId interactionId start answerSchema)

def toolName : Str := str "files.write"

def effects : List Str := [str "write-host"]

def capabilities : List Str := [str "files.write"]

def leaseId : Str := str "lease_1"

/-- A run that asks for an approval of the call. -/
def asked (arguments : Json.Object) : Db :=
  start.run env [
    .createRun (second 0) runId (str "ses_1") (str "writer") [] none 0 none [] [],
    .claimNext (second 1),
    .transition (second 2) runId .start,
    .createInteraction (second 3) interactionId runId (str "capability:call-1") .approval
      (str "Allow files.write?") answerSchema []
      (approvalRequest toolName effects capabilities arguments) 86400]

def answer : Json.Object :=
  [(str "decision", .str (str "approve")), (str "scope", .str (str "session"))]

/-- The user approves for the Session. -/
def respond : Tx Interaction :=
  respondInteraction env (second 4) leaseId runId interactionId answer (str "response-1")

def answered (arguments : Json.Object) : Db := final respond (asked arguments)

theorem leased (arguments : Json.Object) :
    ((answered arguments).leases.get? leaseId).isSome = true := by
  exact id rfl

def lease (arguments : Json.Object) : GrantLease :=
  ((answered arguments).leases.get? leaseId).get (leased arguments)

theorem found (arguments : Json.Object) : ((answered arguments).run? runId).isSome = true := by
  exact id rfl

def run (arguments : Json.Object) : Run := ((answered arguments).run? runId).get (found arguments)

def session : Session := ⟨str "ses_1", str "app_1", true⟩

theorem granted (arguments : Json.Object) :
    Granted env toolName effects capabilities arguments (lease arguments) := by
  have hrequest : ((asked arguments).interactions.get? interactionId).map Interaction.request =
      some (approvalRequest toolName effects capabilities arguments) := rfl
  obtain ⟨pending, hpending, hrequest⟩ := Option.map_eq_some_iff.mp hrequest
  have hlease : (answered arguments).leases.get? leaseId = some (lease arguments) :=
    (Option.some_get _).symm
  have hid : (lease arguments).id = leaseId := Table.key_of_get? hlease
  have hfresh : (asked arguments).leases.get? (lease arguments).id = none := by
    rw [hid]
    rfl
  have hok : wp respond (fun _ s => s = answered arguments) (fun _ _ => False)
    (asked arguments) := by
    exact id rfl
  unfold wp at hok
  cases hrun : respond.run (asked arguments) with
  | error e s =>
    rw [hrun] at hok
    exact hok.elim
  | ok answered s =>
    rw [hrun] at hok
    refine ⟨second 4, runId, interactionId, str "response-1", answer, asked arguments, s, pending,
      answered, hpending, hrequest, hfresh, ?_, ?_⟩
    · rw [hid]
      exact hrun
    · rw [hid, hok]
      exact hlease

theorem applies (arguments : Json.Object) :
    Applies (answered arguments) (second 5) (run arguments) session toolName (lease arguments) where
  runFound := by
    exact id rfl
  sessionFound := by
    exact id rfl
  present := Table.mem_of_get? (Option.some_get _).symm
  force := by
    exact id rfl
  digest := by
    exact id rfl

theorem distinct_pair {key key' value value' : Str} (h : key ∉ [key']) :
    DistinctMembers [(key, .str value), (key', .str value')] := by
  simp only [DistinctMembers, Distinct, Json.keys, and_true]
  exact ⟨h, trivial, List.not_mem_nil⟩

/-- A call with one resource, a short path. -/
def notes : Arguments where
  members := [(str "path", .str (str "notes.txt")), (str "mode", .str (str "append"))]
  distinct := distinct_pair (by decide +kernel)

/-- The same resource, and something else that is no resource. -/
def again : Arguments where
  members := [(str "mode", .str (str "truncate")), (str "path", .str (str "notes.txt"))]
  distinct := distinct_pair (by decide +kernel)

/-- A path one character longer than what is shown. -/
def long : Arguments where
  members := [(str "path", .str (List.replicate 241 97))]
  distinct := by simp [DistinctMembers, Distinct, Json.keys]

def engine : Engine := ⟨[], none⟩

end ConsentSample

open ConsentSample in
/-- A short path is approved: the lease tells any later call as `Decides` says, another call on
the same path is covered, and the approved one is allowed again. -/
theorem consentExact_notes :
    ConsentExact (answered notes.members) (DenialSample.second 5) (run notes.members) toolName
        notes again (lease notes.members) ∧
      AllowedAgain engine (answered notes.members) (DenialSample.second 5) (run notes.members)
        session toolName (str "writer") effects capabilities notes (lease notes.members) := by
  have hreadable : Readable (answered notes.members) (DenialSample.second 5) (run notes.members)
      session toolName := by
    have hrows : ∀ l ∈ (answered notes.members).leases.rows,
        (exactArguments l.resourceSelector).isSome = true := by decide +kernel
    exact fun l hl => hrows l hl.present
  have hname : Glob.fnmatchcase toolName toolName = true := by decide +kernel
  have hwhole : WholeResources notes.members := by
    intro key _ v hv
    have hmem := Json.mem_of_lookup hv
    simp only [notes, List.mem_cons, Prod.mk.injEq, List.not_mem_nil, or_false] at hmem
    rcases hmem with ⟨-, rfl⟩ | ⟨-, rfl⟩
    · rw [Whole]
      exact Or.inr (by decide)
    · rw [Whole]
      exact Or.inr (by decide)
  have hsame : SameResources notes.members again.members := by
    intro key hkey
    have hmode : str "mode" ≠ key := fun h => absurd (h ▸ hkey) (by decide +kernel)
    by_cases hpath : str "path" = key
    · subst hpath
      exact Json.pyEq_str_iff.mpr rfl
    · simp only [notes, again, Json.lookup, if_neg hpath, if_neg hmode]
  obtain ⟨hpair, hallowed⟩ := @consentExact_iff _ engine _ _ _ _ _ (str "writer") _ _ _ _
    (granted notes.members) (applies notes.members)
  exact ⟨(hpair again).mpr ⟨hreadable, fun _ => ⟨hname, hwhole⟩, fun h => absurd hsame h⟩,
    hallowed.mpr ⟨hreadable, hname, hwhole⟩⟩

open ConsentSample in
/-- **An approved call is not covered by its own approval**: the path is shown cut, and
the policy engine asks again. -/
theorem long_path_asked_again :
    Granted DenialSample.env toolName effects capabilities long.members (lease long.members) ∧
      Applies (answered long.members) (DenialSample.second 5) (run long.members) session toolName
        (lease long.members) ∧
      SameResources long.members long.members ∧
      wp (activeLeasesForRun (DenialSample.second 5) (run long.members).id toolName long.members)
        (fun leases _ => leases = []) (fun _ _ => False) (answered long.members) ∧
      wp (evaluate engine (DenialSample.second 5) (run long.members).id (str "writer") toolName
          capabilities effects long.members)
        (fun decision _ => decision.effect = .requireApproval) (fun _ _ => False)
        (answered long.members) := by
  refine ⟨granted long.members, applies long.members, fun key _ => ?_, ?_, ?_⟩
  · cases hv : Json.lookup key long.members with
    | none => trivial
    | some v =>
      obtain ⟨-, rfl⟩ := Prod.mk.inj (List.mem_singleton.mp (Json.mem_of_lookup hv))
      exact Json.pyEq_str_iff.mpr rfl
  · decide +kernel
  · decide +kernel

end AI2Apps.Capabilities
