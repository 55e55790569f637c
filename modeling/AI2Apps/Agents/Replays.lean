import AI2Apps.Agents.Creations

/-!
# Replays

A second `create_run` with a key that is taken finds the run only after every
check that a new run must pass, and compares the input it stores with the
caller's and with one made of the definition of the moment.  What the first call
was admitted with is still there; what is left is what others may change: the
Agent's definition, the Session, the parent's status and the number of its
children, the clock.

* `Replays`: the checks and the comparison, as `create_run` makes them.
* `createRunWith_keyed`: a creation whose key is taken, exactly.
* `createRunWith_taken`: a creation whose request its parent has named before.
* `Persists`: what must not have changed since.
* `Replays.persists_iff`: after a first call, the two say the same.
-/

namespace AI2Apps.Agents

open Clock Faults
open JsonText (setMember lookup_setMember_self lookup_setMember_of_ne)

/-! ## What `create_run` compares -/

/-- The call is admitted, names the Agent of the run, and its input is the one the run records: as
it is given, or as it is recorded under the definition it has read. -/
def Replays (env : Env) (db : Db) (now : DateTime) (definition : Definition) (args : CreateArgs)
    (run : Run) : Prop :=
  definition.id = run.agentDefinitionId ∧ ∃ parameters delegation,
    Admitted env db now definition args parameters delegation ∧
    (Json.sameText (.obj run.input) (.obj args.input) = true ∨
      Json.sameText (.obj run.input) (.obj (recordedInput env definition args parameters delegation)) =
        true)

section Keyed

variable {env : Env} {db : Db} {now : DateTime} {definition : Definition} {args : CreateArgs}

/-- **A creation whose key is taken**, exactly. -/
theorem createRunWith_keyed {runId : Str} {r : Run}
    (hkey : db.keyed? args.sessionId args.idempotencyKey = some r) :
    wp (createRunWith env definition now runId args)
      (fun out s => out = (r, false) ∧ s = db ∧ Replays env db now definition args r)
      (fun _ _ => ¬ Replays env db now definition args r) db := by
  refine createRunWith_wp (fun hnot _ hreplays => ?_) fun p lineage hadmitted => ?_
  · obtain ⟨-, p, d, hadmitted, -⟩ := hreplays
    exact hnot p d hadmitted
  rw [hkey]
  show wp (reuseRun r definition args.input _) _ _ db
  unfold reuseRun
  split_ifs with hsame
  · simp only [Bool.and_eq_true, decide_eq_true_eq, Bool.or_eq_true] at hsame
    exact ⟨rfl, rfl, hsame.1.symm, p, lineage.delegation, hadmitted, hsame.2⟩
  · rintro ⟨hdefinition, p', d, hadmitted', htext⟩
    obtain ⟨rfl, rfl⟩ := hadmitted.unique hadmitted'
    refine hsame ?_
    simp only [Bool.and_eq_true, decide_eq_true_eq, Bool.or_eq_true]
    exact ⟨hdefinition.symm, htext⟩

theorem Replays.congr {r r' : Run} (h : SameIdentity r r') :
    Replays env db now definition args r' ↔ Replays env db now definition args r := by
  unfold Replays
  rw [h.agentDefinitionId, h.input]

end Keyed

/-! ## Requests of a parent -/

section Requests

variable {env : Env} {db : Db} {now : DateTime} {definition : Definition} {args : CreateArgs}

theorem preserves_insertRun_delegations {delegations : Table Delegation Delegation.childRunId}
    (run : Run) : Preserves (fun s => s.delegations = delegations) (insertRun run) := by
  intro s hs
  unfold insertRun
  rw [wp_bind, wp_get]
  split
  · exact hs
  · rw [wp_bind, wp_orThrow]
    exact ⟨fun _ _ => hs, fun _ => hs⟩

theorem insertDelegation_taken {delegation : Delegation}
    (h : ∃ d ∈ db.delegations.rows, d.parentRunId = delegation.parentRunId ∧
      d.requestKey = delegation.requestKey) :
    wp (insertDelegation delegation) (fun _ _ => False) (fun _ _ => True) db := by
  obtain ⟨d, hd, hparent, hkey⟩ := h
  unfold insertDelegation
  rw [wp_bind, wp_get, if_pos (List.any_eq_true.mpr ⟨d, hd, by simp [hparent, hkey]⟩)]
  trivial

/-- The key of a request is not touched by what the child records of its parent. -/
theorem textMember_inherited (parent : Run) (delegation : Json.Object) :
    textMember (str "request_key") (inheritedDelegation parent delegation) =
      textMember (str "request_key") delegation := by
  have hdepth : str "depth" ≠ str "request_key" := by decide
  have hroot : str "root_run_id" ≠ str "request_key" := by decide
  have hparent : str "parent_run_id" ≠ str "request_key" := by decide
  unfold textMember inheritedDelegation
  rw [lookup_setMember_of_ne hdepth, lookup_setMember_of_ne hroot, lookup_setMember_of_ne hparent]

/-- **A parent names a request once**: a creation that names it again inserts nothing. -/
theorem createRunWith_taken {runId parentRunId : Str} (hparent : args.parentRunId = some parentRunId)
    (hkey : db.keyed? args.sessionId args.idempotencyKey = none)
    (htaken : ∃ d ∈ db.delegations.rows, d.parentRunId = parentRunId ∧
      d.requestKey = textMember (str "request_key") args.delegation) :
    wp (createRunWith env definition now runId args) (fun _ _ => False) (fun _ _ => True) db := by
  refine createRunWith_wp (fun _ _ => trivial) fun p lineage hadmitted => ?_
  obtain ⟨timeout, -, -, hdescends⟩ := hadmitted.descends
  rw [hparent] at hdescends
  obtain ⟨parent, -, hdelegation⟩ := hdescends
  rw [hkey]
  unfold reuseOrInsert
  rw [wp_bind]
  refine wp_mono (preserves_insertRun_delegations _ db rfl) (fun _ s hs => ?_) fun _ _ _ => trivial
  rw [hparent, recordDelegation, wp_bind, wp_bind]
  refine wp_mono (preserves_checkDelegation (I := fun t => t.delegations = db.delegations) _ s hs)
    (fun _ t ht => ?_) fun _ _ _ => trivial
  refine wp_mono (insertDelegation_taken ?_) (fun _ _ h => h.elim) fun _ _ h => h
  obtain ⟨d, hd, hsame, hrequest⟩ := htaken
  refine ⟨d, ht ▸ hd, hsame, ?_⟩
  rw [hrequest, ← textMember_inherited parent, ← hdelegation]
  rfl

end Requests

/-! ## What a run says of its Agent -/

/-- The invocation `create_run` records. -/
def invocationOf (env : Env) (definition : Definition) (input : Json.Object) : Json.Object := [
  (str "agent_definition_id", .str definition.id), (str "agent_key", .str definition.agentKey),
  (str "package_version", .str definition.packageVersion),
  (str "source", .str ((env.text (invocationSource input)).take 64))]

/-- The run records this key and this version of its Agent. -/
def Run.Records (run : Run) (definition : Definition) : Prop :=
  ∃ invocation, Json.lookup (str "invocation") run.input = some (.obj invocation) ∧
    Json.lookup (str "agent_key") invocation = some (.str definition.agentKey) ∧
    Json.lookup (str "package_version") invocation = some (.str definition.packageVersion)

section Texts

variable {env : Env} {definition definition' : Definition} {args : CreateArgs} {p d : Json.Object}

theorem lookup_invocation_recordedInput :
    Json.lookup (str "invocation") (recordedInput env definition args p d) =
      some (.obj (invocationOf env definition args.input)) := by
  have hbudget : str "run_budget" ≠ str "invocation" := by decide
  have hdelegation : str "delegation" ≠ str "invocation" := by decide
  unfold recordedInput normalizeInput
  dsimp only
  split_ifs <;> simp only [lookup_setMember_of_ne hbudget, lookup_setMember_of_ne hdelegation,
    lookup_setMember_self] <;> rfl

/-- A definition enters the recorded input through its identifier, key and version alone. -/
theorem recordedInput_congr (hid : definition.id = definition'.id)
    (hkey : definition.agentKey = definition'.agentKey)
    (hversion : definition.packageVersion = definition'.packageVersion) :
    recordedInput env definition args p d = recordedInput env definition' args p d := by
  unfold recordedInput normalizeInput
  rw [hid, hkey, hversion]

theorem sameTextMembers_lookup {seen : List Str} {xs ys : Json.Object}
    (h : Json.sameTextMembers seen xs ys = true) {k : Str} {v : Json} (hseen : k ∉ seen)
    (hlookup : Json.lookup k xs = some v) :
    ∃ w, Json.lookup k ys = some w ∧ Json.sameText v w = true := by
  induction xs generalizing seen with
  | nil => exact nomatch hlookup
  | cons member rest ih =>
    obtain ⟨k', v'⟩ := member
    rw [Json.sameTextMembers, Bool.and_eq_true, Bool.or_eq_true, decide_eq_true_eq] at h
    rw [Json.lookup] at hlookup
    split at hlookup
    · rename_i hk
      subst hk
      obtain rfl := Option.some.inj hlookup
      have hsame := h.1.resolve_left hseen
      cases hw : Json.lookup k' ys with
      | none => rw [hw] at hsame; exact nomatch hsame
      | some w => rw [hw] at hsame; exact ⟨w, rfl, hsame⟩
    · rename_i hk
      exact ih h.2 (List.not_mem_cons_of_ne_of_not_mem (Ne.symm hk) hseen) hlookup

/-- Objects with one text have members with one text. -/
theorem sameText_lookup {xs ys : Json.Object} (h : Json.sameText (.obj xs) (.obj ys) = true) {k : Str}
    {v : Json} (hlookup : Json.lookup k xs = some v) :
    ∃ w, Json.lookup k ys = some w ∧ Json.sameText v w = true := by
  rw [Json.sameText, Bool.and_eq_true] at h
  exact sameTextMembers_lookup h.2 List.not_mem_nil hlookup

theorem sameText_lookup_str {xs ys : Json.Object} (h : Json.sameText (.obj xs) (.obj ys) = true)
    {k s : Str} (hlookup : Json.lookup k xs = some (.str s)) : Json.lookup k ys = some (.str s) := by
  obtain ⟨w, hw, hsame⟩ := sameText_lookup h hlookup
  cases w with
  | str t => rw [Json.sameText, beq_iff_eq] at hsame; rw [hw, hsame]
  | _ => exact nomatch hsame

/-- An input was recorded under a definition. -/
def Recorded (env : Env) (input : Json.Object) : Prop :=
  ∃ definition args p d, input = recordedInput env definition args p d

/-- What has the text of a recorded input names its Agent as the definition does. -/
theorem Recorded.records {run : Run} (h : Recorded env run.input)
    (htext : Json.sameText (.obj run.input) (.obj (recordedInput env definition args p d)) = true) :
    run.Records definition := by
  obtain ⟨definition', args', p', d', hinput⟩ := h
  have hlookup : Json.lookup (str "invocation") run.input =
      some (.obj (invocationOf env definition' args'.input)) := by
    rw [hinput, lookup_invocation_recordedInput]
  obtain ⟨w, hw, hsame⟩ := sameText_lookup htext hlookup
  rw [lookup_invocation_recordedInput] at hw
  obtain rfl := Option.some.inj hw
  have hkey : definition.agentKey = definition'.agentKey := by
    have h : some (Json.str definition.agentKey) = _ := sameText_lookup_str hsame (k := str "agent_key") rfl
    exact Json.str.inj (Option.some.inj h)
  have hversion : definition.packageVersion = definition'.packageVersion := by
    have h : some (Json.str definition.packageVersion) = _ :=
      sameText_lookup_str hsame (k := str "package_version") rfl
    exact Json.str.inj (Option.some.inj h)
  exact ⟨_, hlookup, congrArg (fun key => some (Json.str key)) hkey.symm,
    congrArg (fun version => some (Json.str version)) hversion.symm⟩

/-- Two definitions of one Agent that a recorded input names alike. -/
theorem Run.Records.names {run : Run} (h : run.Records definition)
    (htext : Json.sameText (.obj run.input) (.obj (recordedInput env definition' args p d)) = true) :
    definition'.agentKey = definition.agentKey ∧ definition'.packageVersion = definition.packageVersion := by
  obtain ⟨invocation, hlookup, hkey, hversion⟩ := h
  obtain ⟨w, hw, hsame⟩ := sameText_lookup htext hlookup
  rw [lookup_invocation_recordedInput] at hw
  obtain rfl := Option.some.inj hw
  have hkey' : some (Json.str definition'.agentKey) = _ := sameText_lookup_str hsame hkey
  have hversion' : some (Json.str definition'.packageVersion) = _ := sameText_lookup_str hsame hversion
  exact ⟨Json.str.inj (Option.some.inj hkey'), Json.str.inj (Option.some.inj hversion')⟩

end Texts

/-! ## What others may change -/

/-- The delegation sets a time of its own. -/
def setsTimeout (delegation : Json.Object) : Bool :=
  (((Json.lookup (str "budget") delegation).bind Json.obj?).bind
    (Json.lookup (str "timeout_seconds"))).isSome

/-- The parent is still at work, and has room for the run that it has already. -/
structure ParentPersists (db : Db) (definition : Definition) (delegation : Json.Object)
    (parentRunId : Str) : Prop where
  active : ∃ parent, db.run? parentRunId = some parent ∧
    (parent.status = .planning ∨ parent.status = .running)
  children : (db.runs.rows.filter fun r => r.parentRunId = some parentRunId).length < maxChildRuns
  timeout : setsTimeout delegation = false → 0 < definition.timeoutSeconds

/-- What must hold at a second call with the key, beside what the first was admitted with. -/
structure Persists (env : Env) (db : Db) (now : DateTime) (definition : Definition) (args : CreateArgs)
    (run : Run) : Prop where
  agent : definition.id = run.agentDefinitionId
  enabled : definition.enabled = true
  /-- The Agent has the key and the version it had, unless the call hands over a recorded input. -/
  version : Json.sameText (.obj run.input) (.obj args.input) = true ∨ run.Records definition
  schema : ∀ parameters, parametersOf args.input = some parameters →
    env.validates (invocationSchema definition) parameters = true
  session : ∃ session, db.session? args.sessionId = some session ∧ session.active = true
  deadline : ∀ timeout, runTimeout definition args.budget = some timeout →
    (now.add (timeout.toNat * 1000000)).isSome = true
  parent : ∀ parentRunId, args.parentRunId = some parentRunId →
    ParentPersists db definition args.delegation parentRunId

theorem isSome_runTimeout (definition definition' : Definition) {budget : Json.Object}
    (h : (runTimeout definition budget).isSome = true) :
    (runTimeout definition' budget).isSome = true := by
  unfold runTimeout at h ⊢
  cases hvalue : Json.lookup (str "timeout_seconds") budget with
  | none => rfl
  | some value =>
    rw [hvalue] at h
    simpa using h

theorem isSome_add_of_le {now : DateTime} {m n : ℕ} (h : (now.add n).isSome = true) (hle : m ≤ n) :
    (now.add m).isSome = true := by
  unfold DateTime.add at h ⊢
  split at h
  · rename_i hn
    rw [dif_pos (by omega)]
    rfl
  · exact absurd h Bool.false_ne_true

section Persistence

variable {env : Env} {db₀ db : Db} {now₀ now : DateTime} {definition₀ definition : Definition}
  {args : CreateArgs} {run : Run} {p d : Json.Object}

/-- The parent a run was given to takes it again exactly when it persists. -/
theorem ParentAdmits.persists_iff {timeout₀ timeout : ℤ} {parentRunId : Str} {parent₀ parent : Run}
    (h : ParentAdmits db₀ now₀ args.sessionId definition₀ timeout₀ args.delegation parentRunId parent₀)
    (hparent : db.run? parentRunId = some parent) (hsame : SameIdentity parent₀ parent)
    (hdeadline : (now.add (timeout.toNat * 1000000)).isSome = true) :
    ParentAdmits db now args.sessionId definition timeout args.delegation parentRunId parent ↔
      ParentPersists db definition args.delegation parentRunId := by
  obtain ⟨budget, seconds₀, hbudget, hseconds₀, -⟩ := h.budget
  have hsets : setsTimeout args.delegation = (Json.lookup (str "timeout_seconds") budget).isSome := by
    unfold setsTimeout
    cases hlookup : Json.lookup (str "budget") args.delegation with
    | none =>
      rw [hlookup] at hbudget
      obtain rfl : [] = budget := Option.some.inj hbudget
      rfl
    | some value =>
      rw [hlookup] at hbudget
      rw [Option.bind_some, show value.obj? = some budget from hbudget, Option.bind_some]
  constructor
  · intro hadmits
    refine ⟨⟨parent, hparent, hadmits.active⟩, hadmits.children, fun hnone => ?_⟩
    obtain ⟨budget', seconds, hbudget', hseconds, -⟩ := hadmits.budget
    obtain rfl := Option.some.inj (hbudget.symm.trans hbudget')
    rw [hsets, Option.isSome_eq_false_iff, Option.isNone_iff_eq_none] at hnone
    rw [hnone, Option.getD_none, positive?] at hseconds
    split at hseconds
    · assumption
    · exact nomatch hseconds
  · intro hpersists
    obtain ⟨parent', hparent', hactive⟩ := hpersists.active
    obtain rfl := Option.some.inj (hparent.symm.trans hparent')
    have hseconds : ∃ seconds, positive? ((Json.lookup (str "timeout_seconds") budget).getD
        (.int definition.timeoutSeconds)) = some seconds := by
      cases hlookup : Json.lookup (str "timeout_seconds") budget with
      | none =>
        rw [hlookup] at hsets
        exact ⟨_, if_pos (hpersists.timeout hsets)⟩
      | some value =>
        rw [hlookup] at hseconds₀
        exact ⟨seconds₀, hseconds₀⟩
    obtain ⟨seconds, hseconds⟩ := hseconds
    refine ⟨hparent, hsame.sessionId.trans h.session, hactive, ?_, hpersists.children, budget, seconds,
      hbudget, hseconds, isSome_add_of_le hdeadline ?_⟩
    · rw [hsame.depth]
      exact h.depth
    · exact Nat.mul_le_mul_right _ (Int.toNat_le_toNat (min_le_right _ _))

/-- What the child records of its parent does not change. -/
theorem inheritedDelegation_congr {parent₀ parent : Run} (h : SameIdentity parent₀ parent)
    (delegation : Json.Object) :
    inheritedDelegation parent delegation = inheritedDelegation parent₀ delegation := by
  unfold inheritedDelegation
  rw [h.id, h.rootRunId, h.depth]

/-- An admitted call records what it recorded when it was admitted before. -/
theorem Admitted.inherits {p' d' : Json.Object} (h : Admitted env db₀ now₀ definition₀ args p d)
    (hretains : Retains db₀ db) (h' : Admitted env db now definition args p' d') : d = d' := by
  obtain ⟨timeout₀, -, -, hdescends₀⟩ := h.descends
  obtain ⟨timeout, -, -, hdescends⟩ := h'.descends
  generalize args.parentRunId = q at hdescends₀ hdescends
  cases q with
  | none => exact Eq.trans hdescends₀ (Eq.symm hdescends)
  | some parentRunId =>
    obtain ⟨parent₀, hadmits₀, rfl⟩ := hdescends₀
    obtain ⟨parent', hadmits, rfl⟩ := hdescends
    obtain ⟨parent, hparent, hsame⟩ := hretains _ _ hadmits₀.known
    obtain rfl := Option.some.inj (hparent.symm.trans hadmits.known)
    exact (inheritedDelegation_congr hsame _).symm

/-- A call that was admitted once is admitted again, exactly. -/
theorem Admitted.again_iff (h : Admitted env db₀ now₀ definition₀ args p d) (hretains : Retains db₀ db) :
    Admitted env db now definition args p d ↔
      definition.enabled = true ∧ env.validates (invocationSchema definition) p = true ∧
      (∃ session, db.session? args.sessionId = some session ∧ session.active = true) ∧
      (∀ timeout, runTimeout definition args.budget = some timeout →
        (now.add (timeout.toNat * 1000000)).isSome = true) ∧
      ∀ parentRunId, args.parentRunId = some parentRunId →
        ParentPersists db definition args.delegation parentRunId := by
  obtain ⟨timeout₀, htimeout₀, -, hdescends₀⟩ := h.descends
  have hsome := isSome_runTimeout definition₀ definition (by rw [htimeout₀]; rfl)
  obtain ⟨timeout, htimeout⟩ := Option.isSome_iff_exists.mp hsome
  have honly : ∀ {t}, runTimeout definition args.budget = some t → t = timeout :=
    fun ht => Option.some.inj (ht.symm.trans htimeout)
  have hparent : (now.add (timeout.toNat * 1000000)).isSome = true →
      (Descends db now args.sessionId definition timeout args.delegation d args.parentRunId ↔
        ∀ parentRunId, args.parentRunId = some parentRunId →
          ParentPersists db definition args.delegation parentRunId) := by
    intro hdeadline
    generalize args.parentRunId = q at hdescends₀ ⊢
    cases q with
    | none => exact iff_of_true hdescends₀ nofun
    | some parentRunId =>
      obtain ⟨parent₀, hadmits₀, hd⟩ := hdescends₀
      obtain ⟨parent, hparent, hsame⟩ := hretains _ _ hadmits₀.known
      have hiff : _ ↔ ParentPersists db definition args.delegation parentRunId :=
        hadmits₀.persists_iff hparent hsame hdeadline
      constructor
      · rintro ⟨parent', hadmits, -⟩ q hq
        obtain rfl := Option.some.inj hq
        obtain rfl := Option.some.inj (hparent.symm.trans hadmits.known)
        exact hiff.mp hadmits
      · intro hpersists
        exact ⟨parent, hiff.mpr (hpersists _ rfl), hd.trans (inheritedDelegation_congr hsame _).symm⟩
  constructor
  · intro hagain
    obtain ⟨t, ht, hdeadline, hdescends⟩ := hagain.descends
    obtain rfl := honly ht
    exact ⟨hagain.enabled, hagain.valid, hagain.session, fun t' ht' => honly ht' ▸ hdeadline,
      (hparent hdeadline).mp hdescends⟩
  · rintro ⟨henabled, hvalid, hsession, hdeadline, hpersists⟩
    exact ⟨henabled, h.object, hvalid, h.budget, hsession, timeout, htimeout, hdeadline _ htimeout,
      (hparent (hdeadline _ htimeout)).mpr hpersists⟩

/-- **A call that has returned the run finds it again exactly when this persists.** -/
theorem Replays.persists_iff (h : Replays env db₀ now₀ definition₀ args run) (hretains : Retains db₀ db)
    (hrecorded : Recorded env run.input) :
    Replays env db now definition args run ↔ Persists env db now definition args run := by
  obtain ⟨hagent₀, p, d, hadmitted₀, htext₀⟩ := h
  have hagain : Admitted env db now definition args p d ↔ _ := hadmitted₀.again_iff hretains
  constructor
  · rintro ⟨hagent, p', d', hadmitted, htext⟩
    obtain rfl := Option.some.inj (hadmitted₀.object.symm.trans hadmitted.object)
    obtain rfl := hadmitted₀.inherits hretains hadmitted
    obtain ⟨henabled, hvalid, hsession, hdeadline, hparent⟩ := hagain.mp hadmitted
    refine ⟨hagent, henabled, htext.imp_right hrecorded.records, fun p' hp' => ?_, hsession, hdeadline,
      hparent⟩
    exact Option.some.inj (hadmitted₀.object.symm.trans hp') ▸ hvalid
  · intro hpersists
    refine ⟨hpersists.agent, p, d, hagain.mpr ⟨hpersists.enabled,
      hpersists.schema p hadmitted₀.object, hpersists.session, hpersists.deadline, hpersists.parent⟩, ?_⟩
    rcases hpersists.version with htext | hrecords
    · exact .inl htext
    refine htext₀.imp_right fun htext => ?_
    obtain ⟨hkey, hversion⟩ := hrecords.names htext
    rwa [recordedInput_congr (hagent₀.trans hpersists.agent.symm) hkey hversion] at htext

end Persistence

end AI2Apps.Agents
