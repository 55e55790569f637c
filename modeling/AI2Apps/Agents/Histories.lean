import AI2Apps.Agents.Interactions

/-!
# Histories of calls

`Op` is one call of the repository with what it draws, and a history is a list of calls, each
rolled back when it raises.

* `updateRuns_spec`, `forM_runs`: what an update and a loop leave in the runs.
* `OnRuns`: what the writes to the other tables keep.
* `Op.exec`, `Db.run`, `Throughout`: calls, histories, and conditions along them.
-/

namespace AI2Apps.Agents

open Clock Faults

/-! ## The runs -/

section Runs

variable {db : Db} {p : Run → Bool} {f : Run → Run} {hf : ∀ r, (f r).id = r.id}

/-- What an update leaves: each selected row is rewritten, or nothing is. -/
theorem updateRuns_spec : wp (updateRuns p f hf)
    (fun _ s => ∀ id, s.run? id = (db.run? id).map fun r => if p r then f r else r)
    (fun _ s => s = db) db := by
  unfold updateRuns
  rw [wp_bind, wp_get]
  split
  · exact fun id => Table.get?_update db.runs p f hf id
  · rfl

end Runs

/-! ## Writes to the other tables -/

/-- A property of the runs alone. -/
def OnRuns (I : Db → Prop) : Prop := ∀ ⦃a b : Db⦄, I a → b.runs = a.runs → I b

theorem onRuns_runs (runs : Table Run Run.id) : OnRuns fun s => s.runs = runs :=
  fun _ _ h hruns => hruns.trans h

section Elsewhere

variable {I : Db → Prop}

theorem preserves_selectRun (runId : Str) : Preserves I (selectRun runId) :=
  .bind .get fun _ => .orThrow _ _

theorem preserves_updateSteps (hI : OnRuns I) (q : RunStep → Bool) (g : RunStep → RunStep)
    (hg : ∀ s, (g s).id = s.id) : Preserves I (updateSteps q g hg) := by
  intro db hdb
  unfold updateSteps
  rw [wp_bind, wp_get]
  dsimp only
  split
  · exact hI hdb rfl
  · exact hdb

theorem preserves_insertStep (hI : OnRuns I) (step : RunStep) : Preserves I (insertStep step) := by
  intro db hdb
  unfold insertStep
  rw [wp_bind, wp_get]
  split
  · exact hdb
  split
  · exact hdb
  rw [wp_bind, wp_orThrow]
  exact ⟨fun steps _ => hI hdb rfl, fun _ => hdb⟩

theorem preserves_insertInteraction (hI : OnRuns I) (interaction : Interaction) :
    Preserves I (insertInteraction interaction) := by
  intro db hdb
  unfold insertInteraction
  rw [wp_bind, wp_get]
  split
  · exact hdb
  split
  · exact hdb
  split
  · exact hdb
  rw [wp_bind, wp_orThrow]
  exact ⟨fun interactions _ => hI hdb rfl, fun _ => hdb⟩

theorem preserves_updateInteractions (hI : OnRuns I) (q : Interaction → Bool)
    (g : Interaction → Interaction) (hg : ∀ i, (g i).id = i.id) :
    Preserves I (updateInteractions q g hg) :=
  .modify fun _ hdb => hI hdb rfl

theorem preserves_insertLease (hI : OnRuns I) (lease : GrantLease) :
    Preserves I (insertLease lease) := by
  intro db hdb
  unfold insertLease
  rw [wp_bind, wp_get, wp_bind, wp_orThrow]
  exact ⟨fun leases _ => hI hdb rfl, fun _ => hdb⟩

theorem preserves_checkHandle (now : DateTime) (runId : Str) (response : Json.Object) :
    Preserves I (checkHandle now runId response) := by
  unfold checkHandle
  dsimp only
  split
  · refine .bind (preserves_selectRun _) fun run => .bind .get fun db => ?_
    exact .ite _ (fun _ => .pure ()) fun _ => .throw _
  · exact .throw _

theorem preserves_checkResponseId (interaction : Interaction) (responseId : Str) :
    Preserves I (checkResponseId interaction responseId) :=
  .bind .get fun _ => .ite _ (fun _ => .throw _) fun _ => .pure ()

theorem preserves_issueLease (hI : OnRuns I) (now : DateTime) (leaseId responseId : Str)
    (interaction : Interaction) (run : Run) (session : Session) (deadline : DateTime)
    (response : Json.Object) :
    Preserves I (issueLease now leaseId responseId interaction run session deadline response) := by
  refine .bind .get fun db => .bind (.orThrow _ _) fun approved => ?_
  refine .bind (.orThrow _ _) fun scope => .bind (.orThrow _ _) fun toolName => ?_
  exact preserves_insertLease hI _

theorem preserves_checkBudget (budget : Json.Object) : Preserves I (checkBudget budget) := by
  refine Preserves.forM fun key => ?_
  split
  · exact .pure ()
  · exact .pure ()
  · exact .ite _ (fun _ => .pure ()) fun _ => .throw _

theorem preserves_checkDelegation (delegation : Json.Object) :
    Preserves I (checkDelegation delegation) :=
  .ite _ (fun _ => .throw _) fun _ => .ite _ (fun _ => .throw _) fun _ => .pure ()

theorem preserves_insertDelegation (hI : OnRuns I) (delegation : Delegation) :
    Preserves I (insertDelegation delegation) := by
  intro db hdb
  unfold insertDelegation
  rw [wp_bind, wp_get]
  split
  · exact hdb
  rw [wp_bind, wp_orThrow]
  exact ⟨fun delegations _ => hI hdb rfl, fun _ => hdb⟩

theorem preserves_recordDelegation (hI : OnRuns I) (now : DateTime) (runId agentKey : Str)
    (delegation : Json.Object) (parentRunId : Option Str) :
    Preserves I (recordDelegation now runId agentKey delegation parentRunId) := by
  cases parentRunId with
  | none => exact .pure ()
  | some parent =>
    exact .bind (preserves_checkDelegation _) fun _ => preserves_insertDelegation hI _

theorem preserves_settleUncertain (hI : OnRuns I) (now : DateTime) (runId : Str)
    (uncertain : List RunStep) (resolution : Option UncertainResolution) :
    Preserves I (settleUncertain now runId uncertain resolution) := by
  rcases resolution with _ | _ | _
  · exact .ite _ (fun _ => .pure ()) fun _ => .throw _
  · exact preserves_updateSteps hI _ _ _
  · exact preserves_updateSteps hI _ _ _

theorem preserves_settleStep (hI : OnRuns I) (now : DateTime) (stepId : Str) (status : StepStatus)
    (output error : Option Json.Object) :
    Preserves I (settleStep now stepId status output error) :=
  .bind (preserves_updateSteps hI _ _ _) fun _ => .bind .get fun _ => .orThrow _ _

theorem preserves_abandonStepForRetry (hI : OnRuns I) (now : DateTime) (stepId : Str) (error : Json.Object) :
    Preserves I (abandonStepForRetry now stepId error) := by
  refine .bind .get fun db => .ite _ (fun _ => ?_) fun _ => .throw _
  exact .bind (preserves_updateSteps hI _ _ _) fun _ => .bind .get fun _ => .orThrow _ _

end Elsewhere

/-! ## Reads and loops -/

/-- What a read of a run that is there gives. -/
theorem wp_selectRun_of_some {Q : Run → Db → Prop} {E : Error → Db → Prop} {db : Db} {runId : Str}
    {run : Run} (h : db.run? runId = some run) : wp (selectRun runId) Q E db ↔ Q run db := by
  unfold selectRun
  rw [wp_bind, wp_get, h, wp_orThrow_some]

theorem wp_selectRun_of_none {Q : Run → Db → Prop} {E : Error → Db → Prop} {db : Db} {runId : Str}
    (h : db.run? runId = none) :
    wp (selectRun runId) Q E db ↔ E (.notFound (str "agent_run") runId) db := by
  unfold selectRun
  rw [wp_bind, wp_get, h, wp_orThrow_none]

/-- The run that is read has the identifier that was asked for. -/
theorem selectRun_id (runId : Str) (db : Db) :
    wp (selectRun runId) (fun run _ => run.id = runId) (fun _ _ => True) db := by
  unfold selectRun
  rw [wp_bind, wp_get, wp_orThrow]
  exact ⟨fun run hrun => Table.key_of_get? hrun, fun _ => trivial⟩

/-- **A loop over selected runs**: the rows it was given are still as it read them when
it reaches them, because the work on one run touches no other. -/
theorem forM_runs {I : Db → Prop} {E : Error → Db → Prop} {db : Db} {p : Run → Bool}
    {body : Run → Tx Unit}
    (hbody : ∀ r s, I s → s.run? r.id = some r → p r = true →
      wp (body r) (fun _ t => I t ∧ ∀ id, id ≠ r.id → t.run? id = s.run? id) E s) (hI : I db) :
    wp (forM (db.runs.rows.filter p) body) (fun _ => I) E db := by
  refine wp_forM_each (P := fun r s => s.run? r.id = some r)
    ((List.Nodup.of_map _ db.runs.nodup).filter _) (fun r hr s hs hrun => ?_) hI
    fun r hr => Table.get?_of_mem (List.mem_filter.mp hr).1
  refine wp_mono (hbody r s hs hrun (List.mem_filter.mp hr).2)
    (fun _ t ht => ⟨ht.1, fun other hother hne hget => ?_⟩) fun _ _ h => h
  rw [ht.2 other.id, hget]
  exact fun hid => hne (Table.eq_of_key_eq (List.mem_filter.mp hother).1 (List.mem_filter.mp hr).1 hid)

/-- **An answer up to the move of the run**: nothing touches the runs before it. -/
theorem resolveInteraction_moves {env : Env} {db : Db} {interaction : Interaction}
    {response : Json.Object} {now : DateTime} {leaseId responseId : Str} {Q : Unit → Db → Prop}
    {E : Error → Db → Prop} (hraise : ∀ e s, s.runs = db.runs → E e s)
    (hmove : now.micros < interaction.deadlineAt.micros →
      env.validates interaction.responseSchema response = true →
      ∀ s run deadline grants, s.runs = db.runs → db.run? interaction.runId = some run →
        resumeDeadline run.deadlineAt run.updatedAt now = some deadline →
        wp (moveAnswered now interaction (resolvedStatus interaction.kind response) grants deadline)
          Q E s) :
    wp (resolveInteraction env now leaseId responseId interaction response) Q E db := by
  have hI := onRuns_runs db.runs
  unfold resolveInteraction
  split
  · exact hraise _ _ rfl
  rename_i hintime
  split
  · exact hraise _ _ rfl
  rename_i hvalid
  rw [wp_bind]
  refine wp_mono ((Preserves.only _ (preserves_checkHandle (I := fun s => s.runs = db.runs) _ _ _))
    db rfl) (fun _ s₁ h₁ => ?_) hraise
  dsimp only
  rw [wp_bind]
  refine wp_mono (preserves_checkResponseId _ _ s₁ h₁) (fun _ s₂ h₂ => ?_) hraise
  rw [wp_bind]
  refine wp_mono (preserves_updateInteractions hI _ _ _ s₂ h₂) (fun _ s₃ h₃ => ?_) hraise
  rw [wp_bind]
  have hrun? : s₃.run? interaction.runId = db.run? interaction.runId := by rw [Db.run?, h₃, Db.run?]
  cases hrun : db.run? interaction.runId with
  | none =>
    rw [wp_selectRun_of_none (hrun?.trans hrun)]
    exact hraise _ _ h₃
  | some run =>
    rw [wp_selectRun_of_some (hrun?.trans hrun), wp_bind, wp_orThrow]
    refine ⟨fun deadline hdeadline => ?_, fun _ => hraise _ _ h₃⟩
    rw [wp_bind, wp_get, wp_bind, wp_orThrow]
    refine ⟨fun session _ => ?_, fun _ => hraise _ _ h₃⟩
    rw [wp_bind]
    refine wp_mono ((Preserves.only _ (preserves_issueLease hI _ _ _ _ _ _ _ _)) s₃ h₃)
      (fun _ s₄ h₄ => ?_) hraise
    exact hmove (not_le.mp hintime) (by simpa using hvalid) s₄ run deadline _ h₄ hrun hdeadline

theorem queued_of_claimable {db : Db} {now : DateTime} {run : Run}
    (h : claimable db now run = true) : run.status = .queued := by
  unfold claimable at h
  split at h
  · exact absurd h (by decide)
  · simp only [Bool.and_eq_true, decide_eq_true_eq] at h
    exact h.1.1.1.1.1

/-- A run that is queued after the late ones were cancelled was queued before. -/
theorem cancelOverdue_queued (db : Db) (now : DateTime) :
    wp (cancelOverdue now) (fun _ s => ∀ run, s.run? run.id = some run → run.status = .queued →
      db.run? run.id = some run ∧ run.status = .queued) (fun _ _ => True) db := by
  refine wp_mono updateRuns_spec (fun _ s hs run hrun hq => ⟨?_, hq⟩) fun _ _ _ => trivial
  rw [hs run.id] at hrun
  obtain ⟨before, hbefore, heq⟩ := Option.map_eq_some_iff.mp hrun
  split at heq
  · rw [← heq] at hq
    exact RunStatus.noConfusion hq
  · rw [hbefore, heq]

/-! ## Histories -/

/-- The transitions the runtime asks for, each with the states it expects. -/
inductive RuntimeMove where
  /-- `_run_claimed` starts: `{PLANNING}`. -/
  | start
  | complete (output : Json.Object)
  /-- `_requeue`. -/
  | requeue
  /-- A step whose effect is unknown was met again. -/
  | uncertain
  /-- The activation was cancelled by a shutdown; `interrupted` after a tool with effects. -/
  | stopped (interrupted : Bool)
  /-- `_fail`: it expects the state it read, which has not ended. -/
  | fail (current : {status : RunStatus // status.terminal = false}) (code message : Str)
      (retryable : Bool)

def RuntimeMove.expected : RuntimeMove → List RunStatus
  | .start => [.planning]
  | .complete _ | .requeue | .uncertain => [.running]
  | .stopped _ => [.running, .planning]
  | .fail current _ _ _ => [current]

def RuntimeMove.status : RuntimeMove → RunStatus
  | .start => .running
  | .complete _ => .completed
  | .requeue | .stopped false => .queued
  | .uncertain | .stopped true => .interrupted
  | .fail .. => .failed

def RuntimeMove.output : RuntimeMove → Option Json.Object
  | .complete output => some output
  | _ => none

def RuntimeMove.error : RuntimeMove → Option Json.Object
  | .uncertain | .stopped true => some (codeError "uncertain_tool_side_effect")
  | .stopped false => some (codeError "runtime_stopped")
  | .fail _ code message retryable => some [(str "code", .str code), (str "message", .str message),
      (str "retryable", .bool retryable)]
  | _ => none

/-- One call of the repository, with what it draws. -/
inductive Op where
  | createRun (now : DateTime) (runId sessionId agentKey : Str) (input : Json.Object)
      (idempotencyKey : Option Str) (priority : ℤ) (parentRunId : Option Str)
      (delegation budget : Json.Object)
  | claimNext (now : DateTime)
  | transition (now : DateTime) (runId : Str) (move : RuntimeMove)
  | createInteraction (now : DateTime) (interactionId runId requestKey : Str)
      (kind : InteractionKind) (prompt : Str) (responseSchema uiHints request : Json.Object)
      (timeoutSeconds : ℕ)
  | respondInteraction (now : DateTime) (leaseId runId interactionId : Str)
      (response : Json.Object) (responseId : Str)
  | expireInteractions (now : DateTime)
  | requestPause (now : DateTime) (runId : Str)
  | requestCancel (now : DateTime) (runId : Str)
  | resumeInterrupted (now : DateTime) (runId : Str) (resolution : Option UncertainResolution)
  | recoverInterrupted (now : DateTime)
  | suspendQueuedForShutdown (now : DateTime)
  | createStep (now : DateTime) (stepId runId actionKey : Str) (kind : StepKind)
      (input : Json.Object) (toolName : Option Str)
  | settleStep (now : DateTime) (stepId : Str) (status : StepStatus)
      (output error : Option Json.Object)
  | abandonStepForRetry (now : DateTime) (stepId : Str) (error : Json.Object)
  | updatePlan (now : DateTime) (runId : Str) (expectedRevision : ℕ) (items : List PlanItem)

/-- The call itself; it returns the run it claimed, when it claimed one. -/
def Op.exec (env : Env) : Op → Tx (Option Run)
  | .createRun now runId sessionId agentKey input idempotencyKey priority parentRunId delegation
      budget => do
    let _ ← Agents.createRun env now runId sessionId agentKey input idempotencyKey priority
      parentRunId delegation budget
    return none
  | .claimNext now => Agents.claimNext now
  | .transition now runId move => do
    let _ ← Agents.transition now runId move.expected move.status move.output move.error
    return none
  | .createInteraction now interactionId runId requestKey kind prompt responseSchema uiHints request
      timeoutSeconds => do
    let _ ← Agents.createInteraction env now interactionId runId requestKey kind prompt
      responseSchema uiHints request timeoutSeconds
    return none
  | .respondInteraction now leaseId runId interactionId response responseId => do
    let _ ← Agents.respondInteraction env now leaseId runId interactionId response responseId
    return none
  | .expireInteractions now => do
    let _ ← Agents.expireInteractions now
    return none
  | .requestPause now runId => do
    let _ ← Agents.requestPause now runId
    return none
  | .requestCancel now runId => do
    let _ ← Agents.requestCancel now runId
    return none
  | .resumeInterrupted now runId resolution => do
    let _ ← Agents.resumeInterrupted now runId resolution
    return none
  | .recoverInterrupted now => do
    Agents.recoverInterrupted now
    return none
  | .suspendQueuedForShutdown now => do
    Agents.suspendQueuedForShutdown now
    return none
  | .createStep now stepId runId actionKey kind input toolName => do
    let _ ← Agents.createStep now stepId runId actionKey kind input toolName
    return none
  | .settleStep now stepId status output error => do
    let _ ← Agents.settleStep now stepId status output error
    return none
  | .abandonStepForRetry now stepId error => do
    let _ ← Agents.abandonStepForRetry now stepId error
    return none
  | .updatePlan now runId expectedRevision items => do
    let _ ← Agents.updatePlan now runId expectedRevision items
    return none

/-- The tables after one call: an exception rolls it back. -/
def Db.after (env : Env) (db : Db) (op : Op) : Db := final (transaction (op.exec env)) db

/-- The tables after a history of calls. -/
def Db.run (env : Env) (db : Db) (ops : List Op) : Db := ops.foldl (Db.after env) db

/-- The run a call claims in a state. -/
def Op.claims (env : Env) (db : Db) (op : Op) : Option Run :=
  match (transaction (op.exec env)).run db with
  | .ok claimed _ => claimed
  | .error _ _ => none

/-- Every call of the history meets a condition on the state it finds. -/
def Throughout (env : Env) (C : Db → Op → Prop) : Db → List Op → Prop
  | _, [] => True
  | db, op :: ops => C db op ∧ Throughout env C (db.after env op) ops

end AI2Apps.Agents
