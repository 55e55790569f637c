import AI2Apps.Agents.RunMoves

/-!
# What a terminal run keeps

Ten operations write `agent_runs.status`.  Those that end a run check first that
it has not ended, and the trigger stops the rest; one is left: a denied answer
sets `failed` whatever the run's state, which the trigger lets through when the
run has failed already.  An approval that is still pending then rewrites the
error and the time of a failed run.

* `SameOutcome`: what a terminal run keeps.
* `Moved.sameOutcome`: what one call does to a terminal run.
* `terminal_stays`: over every history without such a denial, a terminal run
  keeps its outcome and is never claimed.
-/

namespace AI2Apps.Agents

open Clock Faults

/-! ## Outcomes -/

/-- What a terminal run must keep. -/
structure SameOutcome (r r' : Run) : Prop where
  status : r'.status = r.status
  output : r'.output = r.output
  error : r'.error = r.error
  finishedAt : r'.finishedAt = r.finishedAt

theorem SameOutcome.refl (r : Run) : SameOutcome r r := ⟨rfl, rfl, rfl, rfl⟩

theorem SameOutcome.trans {r s t : Run} (h : SameOutcome r s) (h' : SameOutcome s t) :
    SameOutcome r t where
  status := h'.status.trans h.status
  output := h'.output.trans h.output
  error := h'.error.trans h.error
  finishedAt := h'.finishedAt.trans h.finishedAt

/-- The trigger keeps the status of a terminal run. -/
theorem eq_of_statusAllowed {old new : RunStatus} (ht : old.terminal = true)
    (h : statusAllowed old new = true) : new = old := by
  cases old <;> cases ht <;> exact (of_decide_eq_true h).symm

theorem RuntimeMove.expected_open (move : RuntimeMove) : ∀ s ∈ move.expected, s.terminal = false := by
  intro s hs
  cases move with
  | fail current code message retryable =>
    rw [List.mem_singleton.mp hs]
    exact current.2
  | stopped interrupted => rcases List.mem_pair.mp hs with rfl | rfl <;> rfl
  | start | complete output | requeue | uncertain => rw [List.mem_singleton.mp hs]; rfl

/-- An answer that denies a failed run's approval: the only one that moves nothing
and rewrites the outcome. -/
def DeniesFailed (db : Db) (interaction : Interaction) (status : InteractionStatus) : Prop :=
  status = .denied ∧ ∃ run, db.run? interaction.runId = some run ∧ run.status = .failed

/-- The call is a valid answer, in time, that denies a pending approval of a run that
has failed. -/
def Op.deniesFailed (env : Env) (db : Db) : Op → Prop
  | .respondInteraction now _ runId interactionId response _ =>
    ∃ interaction, db.interactions.get? interactionId = some interaction ∧
      interaction.runId = runId ∧ interaction.status = .pending ∧
      now.micros < interaction.deadlineAt.micros ∧
      env.validates interaction.responseSchema response = true ∧
      DeniesFailed db interaction (resolvedStatus interaction.kind response)
  | _ => False

/-! ## Calls and histories -/

/-- **What one call leaves of a run that has ended**: its outcome, unless it denies a failed one. -/
theorem Moved.sameOutcome {env : Env} {db : Db} {op : Op} {r r' : Run} (h : Moved env db op r r')
    (hr : db.run? r.id = some r) (ht : r.status.terminal = true) (hop : ¬ op.deniesFailed env db) :
    SameOutcome r r' := by
  have hended : ∀ {s : RunStatus}, s.terminal = false → r.status ≠ s := by
    rintro s hs rfl
    rw [hs] at ht
    exact absurd ht (by decide)
  cases h with
  | stay => exact .refl r
  | stepped => exact ⟨rfl, rfl, rfl, rfl⟩
  | denied hdenies hallowed =>
    obtain ⟨interaction, hget, hrun, hpending, hintime, hvalid, hdenied⟩ := hdenies
    exact absurd ⟨interaction, hget, hrun, hpending, hintime, hvalid, hdenied, r, hrun ▸ hr,
      (eq_of_statusAllowed ht hallowed).symm⟩ hop
  | answered _ hallowed => exact absurd (eq_of_statusAllowed ht hallowed).symm (hended rfl)
  | transition hstatus => exact absurd rfl (hended (RuntimeMove.expected_open _ _ hstatus))
  | cancelled hstatus => exact absurd rfl (hended hstatus)
  | expired hstatus => exact hstatus.elim (absurd · (hended rfl)) (absurd · (hended rfl))
  | recovered hstatus => exact hstatus.elim (absurd · (hended rfl)) (absurd · (hended rfl))
  | paused hstatus =>
    simp only [List.mem_cons, List.not_mem_nil, or_false] at hstatus
    rcases hstatus with hstatus | hstatus | hstatus <;> exact absurd hstatus (hended rfl)
  | overdue hstatus | claimed hstatus | asked hstatus | pausedWaiting hstatus | resumed hstatus
  | restored hstatus | suspended hstatus | planned hstatus => exact absurd hstatus (hended rfl)

/-- **Terminal runs stay terminal**: in every history without a denial of a failed
run's approval, a run that has ended keeps its outcome, and no call claims it. -/
theorem terminal_stays {env : Env} {db : Db} {ops : List Op}
    (h : Throughout env (fun db op => ¬ op.deniesFailed env db) db ops) {id : Str} {run : Run}
    (hrun : db.run? id = some run) (ht : run.status.terminal = true) :
    (∃ run', (db.run env ops).run? id = some run' ∧ SameOutcome run run') ∧
      Throughout env (fun db op => ∀ claimed, op.claims env db = some claimed → claimed.id ≠ id)
        db ops := by
  induction ops generalizing db run with
  | nil => exact ⟨⟨run, hrun, SameOutcome.refl run⟩, trivial⟩
  | cons op ops ih =>
    obtain ⟨hop, hops⟩ := h
    obtain ⟨next, hnext, hmoved⟩ := (after_effect op).old id run hrun
    have hsame := hmoved.sameOutcome ((Table.key_of_get? hrun).symm ▸ hrun) ht hop
    obtain ⟨⟨last, hlast, hsame'⟩, hclaims⟩ := ih hops hnext (hsame.status ▸ ht)
    refine ⟨⟨last, hlast, hsame.trans hsame'⟩, fun claimed hclaimed hid => ?_, hclaims⟩
    obtain ⟨before, hbefore, hqueued, -⟩ := claims_queued hclaimed
    rw [hid, hrun] at hbefore
    rw [Option.some.inj hbefore, hqueued] at ht
    exact absurd ht (by decide)

namespace DenialSample

instance neZeroSeconds : NeZero 1000 := ⟨by decide⟩

/-- The given second of the sample's clock. -/
def second (n : Fin 1000) : DateTime := ⟨n * 1000000, by omega⟩

def env : Env where
  checkSchema _ := true
  validates _ _ := true
  text _ := str "api"

def runId : Str := str "run_1"

def interactionId : Str := str "int_1"

/-- One Session and one Agent. -/
def start : Db where
  sessions := [⟨str "ses_1", str "app_1", true⟩]
  definitions := [⟨str "agt_1", str "writer", str "1.0.0", true, str "builtin:general-agent", none, 0,
    .restart, 20, 300, []⟩]
  tools := []
  resourceHandles := []
  runs := .empty
  steps := .empty
  interactions := .empty
  leases := .empty
  delegations := .empty
  plans := []
  deferredWaits := []
  codingSubagents := []

/-- The schema of an approval's answer. -/
def answerSchema : Json.Object := [
  (str "type", .str (str "object")),
  (str "properties", .obj [
    (str "decision", .obj [(str "type", .str (str "string")),
      (str "enum", .arr [.str (str "approve"), .str (str "deny")])])]),
  (str "required", .arr [.str (str "decision")])]

/-- The run is paused while its activation is asking for an approval, resumed, and
fails; the approval is still pending. -/
def history : List Op := [
  .createRun (second 0) runId (str "ses_1") (str "writer") [] none 0 none [] [],
  .claimNext (second 1),
  .transition (second 2) runId .start,
  .requestPause (second 3) runId,
  .createInteraction (second 4) interactionId runId (str "capability:call-1") .approval
    (str "Allow files.write?") answerSchema [] [] 86400,
  .resumeInterrupted (second 5) runId none,
  .claimNext (second 6),
  .transition (second 7) runId .start,
  .transition (second 8) runId
    (.fail ⟨.running, rfl⟩ (str "agent_runtime_error") (str "boom") false)]

/-- The user denies what nobody waits for any more. -/
def denial : Op :=
  .respondInteraction (second 9) (str "lease_1") runId interactionId
    [(str "decision", .str (str "deny"))] (str "response-1")

/-- What the run shows of its end. -/
def ending (db : Db) : Option (RunStatus × Option DateTime) :=
  (db.run? runId).map fun run => (run.status, run.finishedAt)

theorem failed_isSome : ((start.run env history).run? runId).isSome = true := by decide +kernel

def failedRun : Run := ((start.run env history).run? runId).get failed_isSome

end DenialSample

open DenialSample in
/-- A failed run under a claim and a cancellation. -/
theorem terminal_stays_failed :
    (∃ run', ((start.run env history).run env [.claimNext (second 9), .requestCancel (second 10) runId]).run?
        runId = some run' ∧ SameOutcome failedRun run') ∧
      Throughout env (fun db op => ∀ claimed, op.claims env db = some claimed → claimed.id ≠ runId)
        (start.run env history) [.claimNext (second 9), .requestCancel (second 10) runId] := by
  have hopen : Throughout env (fun db op => ¬ op.deniesFailed env db) (start.run env history)
      [.claimNext (second 9), .requestCancel (second 10) runId] := ⟨id, id, trivial⟩
  exact terminal_stays hopen (Option.some_get failed_isSome).symm (by decide +kernel)

open DenialSample in
/-- **A failed run ends a second time**: a denied answer rewrites when and why it failed. -/
theorem failed_run_rewritten :
    ending (start.run env history) = some (.failed, some (second 8)) ∧
      ending (start.run env (history ++ [denial])) = some (.failed, some (second 9)) := by
  decide +kernel

end AI2Apps.Agents
