import AI2Apps.Agents.Histories

/-!
# What one call does to one run

Every operation of the repository rewrites the rows of `agent_runs` in a few
ways, each from states it names.  They are listed once, as the constructors of
`Moved`; what holds of runs over histories is read off that list, without
opening an operation again.

* `Moved`: what a call may do to a run that is there.
* `Created`: what the one call that inserts a run puts there.
* `after_effect`: the two together say what the table holds next.
* `claims_queued`: what a claim takes was queued and in time.
-/

namespace AI2Apps.Agents

open Clock Faults

/-- The call is a valid answer, in time, that resolves an open interaction. -/
def Op.Resolves (env : Env) (db : Db) (p : InteractionStatus → Prop) : Op → Prop
  | .respondInteraction now _ runId interactionId response _ =>
    ∃ interaction, db.interactions.get? interactionId = some interaction ∧
      interaction.runId = runId ∧ interaction.status = .pending ∧
      now.micros < interaction.deadlineAt.micros ∧
      env.validates interaction.responseSchema response = true ∧
      p (resolvedStatus interaction.kind response)
  | _ => False

/-- The answer denies nothing. -/
def Op.Accepts (env : Env) (db : Db) (op : Op) : Prop := op.Resolves env db (· ≠ .denied)

/-- The answer is a denial. -/
def Op.Denies (env : Env) (db : Db) (op : Op) : Prop := op.Resolves env db (· = .denied)

/-- What a call may do to a run. -/
inductive Moved (env : Env) (db : Db) : Op → Run → Run → Prop
  | stay (op : Op) (r : Run) : Moved env db op r r
  | overdue {now : DateTime} {r : Run} (hstatus : r.status = .queued)
      (hlate : r.deadlineAt.micros ≤ now.micros) : Moved env db (.claimNext now) r { r with
        status := .cancelled, error := some (codeError "run_deadline_exceeded")
        finishedAt := some now, updatedAt := now }
  | claimed {now : DateTime} {r : Run} (hstatus : r.status = .queued) :
      Moved env db (.claimNext now) r { r with status := .planning, updatedAt := now }
  | transition {now : DateTime} {r : Run} {move : RuntimeMove} (hstatus : r.status ∈ move.expected) :
      Moved env db (.transition now r.id move) r { r with
        status := move.status, output := move.output.or r.output, error := move.error.or r.error
        startedAt := if move.status = .running then r.startedAt.or (some now) else r.startedAt
        finishedAt := if move.status.terminal then some now else r.finishedAt
        updatedAt := now }
  | asked {now : DateTime} {interactionId requestKey : Str} {kind : InteractionKind} {prompt : Str}
      {schema uiHints request : Json.Object} {timeout : ℕ} {r : Run} (hstatus : r.status = .running) :
      Moved env db (.createInteraction now interactionId r.id requestKey kind prompt schema uiHints
        request timeout) r { r with
          status := if kind = .approval then .waitingCapability else .waitingInput
          updatedAt := now }
  | denied {now : DateTime} {leaseId interactionId responseId : Str} {response : Json.Object} {r : Run}
      (hdenies : (Op.respondInteraction now leaseId r.id interactionId response
        responseId).Denies env db)
      (hstatus : statusAllowed r.status .failed = true) :
      Moved env db (.respondInteraction now leaseId r.id interactionId response responseId) r { r with
        status := .failed
        error := some [(str "code", .str (str "approval_denied")),
          (str "interaction_id", .str interactionId)]
        finishedAt := some now, updatedAt := now }
  | answered {now : DateTime} {leaseId interactionId responseId : Str} {response : Json.Object}
      {r : Run} (haccepts : (Op.respondInteraction now leaseId r.id interactionId response
        responseId).Accepts env db)
      (hstatus : statusAllowed r.status .queued = true) (grants : List Str) {deadline : DateTime}
      (hdeadline : resumeDeadline r.deadlineAt r.updatedAt now = some deadline) :
      Moved env db (.respondInteraction now leaseId r.id interactionId response responseId) r { r with
        status := .queued, grantedCapabilities := grants, deadlineAt := deadline, updatedAt := now }
  | expired {now : DateTime} {r : Run} (hstatus : r.status = .waitingInput ∨ r.status = .waitingCapability)
      (hoverdue : ∃ i ∈ db.interactions.rows, i.runId = r.id ∧ i.status = .pending ∧
        i.deadlineAt.micros ≤ now.micros) (interactionId : Str) : Moved env db (.expireInteractions now) r { r with
        status := .failed
        error := some [(str "code", .str (str "interaction_expired")),
          (str "interaction_id", .str interactionId)]
        finishedAt := some now, updatedAt := now }
  | paused {now : DateTime} {r : Run} (hstatus : r.status ∈ [RunStatus.queued, .planning, .running]) :
      Moved env db (.requestPause now r.id) r { r with
        status := .interrupted, error := some (codeError "user_paused"), updatedAt := now }
  | pausedWaiting {now : DateTime} {r : Run} (hstatus : r.status = .waitingInput) {deadline : DateTime}
      (hdeadline : resumeDeadline r.deadlineAt r.updatedAt now = some deadline) :
      Moved env db (.requestPause now r.id) r { r with
        status := .interrupted, error := some (codeError "user_paused"), updatedAt := now
        deadlineAt := deadline }
  | cancelled {now : DateTime} {r : Run} (hstatus : r.status.terminal = false) :
      Moved env db (.requestCancel now r.id) r { r with
        status := .cancelled, cancelRequested := true, finishedAt := some now, updatedAt := now }
  | resumed {now : DateTime} {resolution : Option UncertainResolution} {r : Run}
      (hstatus : r.status = .interrupted) {deadline : DateTime}
      (hdeadline : resumeDeadline r.deadlineAt r.updatedAt now = some deadline) :
      Moved env db (.resumeInterrupted now r.id resolution) r { r with
        status := .queued, error := none, cancelRequested := false, deadlineAt := deadline
        updatedAt := now }
  | restored {now : DateTime} {r : Run} (hstatus : r.status = .queued)
      (herror : (errorCode r.error).any (fun code => code.pyEq (.str (str "runtime_stopped"))) = true)
      {deadline : DateTime} (hdeadline : resumeDeadline r.deadlineAt r.updatedAt now = some deadline) :
      Moved env db (.recoverInterrupted now) r { r with
        deadlineAt := deadline, error := none, updatedAt := now }
  | recovered {now : DateTime} {r : Run} (hstatus : r.status = .planning ∨ r.status = .running)
      {target : RunStatus} (htarget : target ∈ [RunStatus.interrupted, .queued, .failed])
      {error : Option Json.Object} (herror : target = .queued → error = none) {deadline : DateTime}
      (hdeadline : (if target = .failed then some r.deadlineAt
        else resumeDeadline r.deadlineAt r.updatedAt now) = some deadline) :
      Moved env db (.recoverInterrupted now) r { r with
        status := target, error := error, deadlineAt := deadline
        finishedAt := if target = .failed then some now else none
        updatedAt := now }
  | suspended {now : DateTime} {r : Run} (hstatus : r.status = .queued)
      (hcancel : r.cancelRequested = false) : Moved env db (.suspendQueuedForShutdown now) r { r with
        error := some (codeError "runtime_stopped"), updatedAt := now }
  | stepped {now : DateTime} {stepId actionKey : Str} {kind : StepKind} {input : Json.Object}
      {toolName : Option Str} {r : Run} (currentStep : ℕ) :
      Moved env db (.createStep now stepId r.id actionKey kind input toolName) r { r with
        currentStep := currentStep, updatedAt := now }
  | planned {now : DateTime} {expectedRevision : ℕ} {items : List PlanItem} {r : Run}
      (hstatus : r.status = .running) :
      Moved env db (.updatePlan now r.id expectedRevision items) r { r with updatedAt := now }

/-! ## Tables of moved runs -/

/-- The runs of `db₀` are in `db`, each changed as `M` allows, and no other run is there. -/
structure Tracks (M : Run → Run → Prop) (db₀ db : Db) : Prop where
  old : ∀ id r, db₀.run? id = some r → ∃ r', db.run? id = some r' ∧ M r r'
  new : ∀ id, db₀.run? id = none → db.run? id = none

section Tracks

variable {M : Run → Run → Prop} {db₀ db : Db} {p : Run → Bool} {f : Run → Run}
  {hf : ∀ r, (f r).id = r.id}

theorem onRuns_tracks (M : Run → Run → Prop) (db₀ : Db) : OnRuns (Tracks M db₀) :=
  fun a b h hruns => by
    have hrun? : ∀ id, b.run? id = a.run? id := fun id => by rw [Db.run?, hruns, Db.run?]
    exact ⟨fun id r hr => by rw [hrun?]; exact h.old id r hr,
      fun id hid => by rw [hrun?]; exact h.new id hid⟩

theorem Tracks.of_runs_eq (hM : ∀ r, M r r) (h : db.runs = db₀.runs) : Tracks M db₀ db :=
  onRuns_tracks M db₀ ⟨fun _ r hr => ⟨r, hr, hM r⟩, fun _ hid => hid⟩ h

/-- Where a run that is found now comes from. -/
theorem Tracks.source (h : Tracks M db₀ db) {id : Str} {r' : Run} (hr' : db.run? id = some r') :
    ∃ r, db₀.run? id = some r ∧ M r r' := by
  cases hr : db₀.run? id with
  | none => rw [h.new id hr] at hr'; exact absurd hr' nofun
  | some r =>
    obtain ⟨s, hs, hM⟩ := h.old id r hr
    rw [hr'] at hs
    exact ⟨r, rfl, Option.some.inj hs ▸ hM⟩

/-- **An update continues the moves** when each row it selects may move on. -/
theorem updateRuns_tracks (h : Tracks M db₀ db)
    (hmove : ∀ r₀ r, db₀.run? r.id = some r₀ → db.run? r.id = some r → M r₀ r → p r = true →
      statusAllowed r.status (f r).status = true → M r₀ (f r)) :
    wp (updateRuns p f hf) (fun _ => Tracks M db₀) (fun _ s => s = db) db := by
  unfold updateRuns
  rw [wp_bind, wp_get]
  split
  · rename_i hallowed
    have hget : ∀ id, ({ db with runs := db.runs.update p f hf } : Db).run? id =
        (db.run? id).map fun r => if p r then f r else r := fun id => Table.get?_update db.runs p f hf id
    refine ⟨fun id r₀ hr₀ => ?_, fun id hid => by rw [hget, h.new id hid]; rfl⟩
    obtain ⟨r, hr, hM⟩ := h.old id r₀ hr₀
    rw [hget, hr]
    refine ⟨_, rfl, ?_⟩
    have hid : r.id = id := Table.key_of_get? hr
    subst hid
    show M r₀ (if p r = true then f r else r)
    split
    · rename_i hp
      have hstatus := List.all_eq_true.mp hallowed r (Table.mem_of_get? hr)
      rw [hp, Bool.not_true, Bool.false_or] at hstatus
      exact hmove r₀ r hr₀ hr hM hp hstatus
    · exact hM
  · rfl

/-- The first update of an operation. -/
theorem updateRuns_moves (hM : ∀ r, M r r) (h : db.runs = db₀.runs)
    (hmove : ∀ r, db₀.run? r.id = some r → p r = true →
      statusAllowed r.status (f r).status = true → M r (f r)) :
    wp (updateRuns p f hf) (fun _ => Tracks M db₀) (fun _ s => s = db) db := by
  refine updateRuns_tracks (.of_runs_eq hM h) fun r₀ r hr₀ hr _ hp hstatus => ?_
  rw [Db.run?, h] at hr
  obtain rfl := Option.some.inj (hr₀.symm.trans hr)
  exact hmove r₀ hr hp hstatus

/-- An update of one run, which the operation has read. -/
theorem updateRun_moves {run : Run} {runId : Str} (hM : ∀ r, M r r) (h : db.runs = db₀.runs)
    (hrun : db₀.run? runId = some run)
    (hmove : statusAllowed run.status (f run).status = true → M run (f run)) :
    wp (updateRun runId f hf) (fun _ => Tracks M db₀) (fun _ s => s = db) db := by
  refine updateRuns_moves hM h fun r hr hp hstatus => ?_
  rw [of_decide_eq_true hp, hrun] at hr
  obtain rfl := Option.some.inj hr
  exact hmove hstatus

end Tracks

/-! ## The operations -/

section Operations

variable {env : Env} {db : Db}

/-- A call that leaves the runs. -/
theorem moved_of_runs_eq {op : Op} {α : Type} {x : Tx α}
    (h : Preserves (fun s => s.runs = db.runs) x) :
    wp x (fun _ => Tracks (Moved env db op) db) (fun _ _ => True) db :=
  wp_mono (h db rfl) (fun _ _ hs => .of_runs_eq (.stay op) hs) fun _ _ _ => trivial

/-- What reads the run again keeps what holds of the runs. -/
theorem moved_selectRun {M : Run → Run → Prop} {s : Db} (h : Tracks M db s) (runId : Str) :
    wp (selectRun runId) (fun _ => Tracks M db) (fun _ _ => True) s :=
  wp_mono (preserves_selectRun runId s h) (fun _ _ h => h) fun _ _ _ => trivial

theorem transition_moved (now : DateTime) (runId : Str) (move : RuntimeMove) :
    wp (transition now runId move.expected move.status move.output move.error)
      (fun _ => Tracks (Moved env db (.transition now runId move)) db) (fun _ _ => True) db := by
  unfold transition
  rw [wp_bind]
  cases hrun : db.run? runId with
  | none => rw [wp_selectRun_of_none hrun]; trivial
  | some run =>
    obtain rfl := Table.key_of_get? hrun
    rw [wp_selectRun_of_some hrun]
    split
    · trivial
    · rename_i hexpected
      rw [wp_bind]
      refine wp_mono (updateRun_moves (.stay _) rfl hrun fun _ => .transition (not_not.mp hexpected))
        (fun _ s hs => moved_selectRun hs _) fun _ _ _ => trivial

theorem claimNext_moved (now : DateTime) :
    wp (claimNext now) (fun claimed s => Tracks (Moved env db (.claimNext now)) db s ∧
      ∀ run, claimed = some run → ∃ before, db.run? run.id = some before ∧
        before.status = .queued ∧ now.micros < before.deadlineAt.micros)
      (fun _ _ => True) db := by
  unfold claimNext
  rw [wp_bind]
  refine wp_mono (wp_and (updateRuns_moves (M := Moved env db (.claimNext now)) (.stay _) rfl
    fun r _ hp _ => ?_) (cancelOverdue_queued db now)) (fun _ s hs => ?_) fun _ _ _ => trivial
  · simp only [Bool.and_eq_true, decide_eq_true_eq] at hp
    exact .overdue hp.1 hp.2
  obtain ⟨htracks, hqueued⟩ := hs
  rw [wp_bind, wp_get]
  split
  · exact ⟨htracks, fun _ h => (nomatch h)⟩
  · rename_i selected hfind
    have hrow := List.mem_of_find?_eq_some hfind
    rw [List.mem_insertionSort, List.mem_filter] at hrow
    obtain ⟨hmem, hclaim⟩ := hrow
    have hbefore := hqueued selected (Table.get?_of_mem hmem) (queued_of_claimable hclaim)
    rw [wp_bind]
    refine wp_mono (updateRuns_tracks htracks fun r₀ r hr₀ hr hM hp _ => ?_) (fun _ t ht => ?_)
      fun _ _ _ => trivial
    · -- the row that is taken is queued, so the first update left it
      simp only [Bool.and_eq_true, decide_eq_true_eq] at hp
      have hsame := (hqueued r hr hp.2).1
      obtain rfl := Option.some.inj (hr₀.symm.trans hsame)
      exact .claimed hp.2
    · rw [wp_map]
      refine wp_mono (wp_and (preserves_selectRun _ t ht) (selectRun_id selected.id t))
        (fun run u hu => ⟨hu.1, fun run' hrun' => ?_⟩) fun _ _ _ => trivial
      obtain rfl := Option.some.inj hrun'
      refine ⟨selected, hu.2 ▸ hbefore.1, hbefore.2, ?_⟩
      unfold claimable at hclaim
      split at hclaim
      · exact absurd hclaim (by decide)
      · simp only [Bool.and_eq_true, decide_eq_true_eq] at hclaim
        exact hclaim.1.2

theorem createInteraction_moved (now : DateTime) (interactionId runId requestKey : Str)
    (kind : InteractionKind) (prompt : Str) (responseSchema uiHints request : Json.Object)
    (timeoutSeconds : ℕ) :
    wp (createInteraction env now interactionId runId requestKey kind prompt responseSchema uiHints
        request timeoutSeconds) (fun _ => Tracks (Moved env db (.createInteraction now interactionId runId
          requestKey kind prompt responseSchema uiHints request timeoutSeconds)) db)
      (fun _ _ => True) db := by
  unfold createInteraction
  split
  · trivial
  rw [wp_bind, wp_orThrow]
  refine ⟨fun deadline _ => ?_, fun _ => trivial⟩
  rw [wp_bind, wp_get]
  split
  · exact .of_runs_eq (.stay _) rfl
  rw [wp_bind]
  refine wp_mono (preserves_selectRun (I := fun s => s.runs = db.runs) runId db rfl)
    (fun _ s hs => ?_) fun _ _ _ => trivial
  rw [wp_bind]
  refine wp_mono (preserves_insertInteraction (onRuns_runs _) _ s hs) (fun _ s hs => ?_)
    fun _ _ _ => trivial
  rw [wp_bind]
  refine wp_mono (updateRuns_moves (.stay _) hs fun r _ hp _ => ?_) (fun _ _ hs => hs)
    fun _ _ _ => trivial
  simp only [Bool.and_eq_true, decide_eq_true_eq] at hp
  obtain ⟨rfl, hrunning⟩ := hp
  exact .asked hrunning

theorem expireInteractions_moved (now : DateTime) :
    wp (expireInteractions now) (fun _ => Tracks (Moved env db (.expireInteractions now)) db)
      (fun _ _ => True) db := by
  unfold expireInteractions
  rw [wp_bind, wp_get, wp_bind]
  refine wp_mono (wp_forM (I := fun _ s => Tracks (Moved env db (.expireInteractions now)) db s)
    (E := fun _ _ => True) (fun done interaction rest s heq hs => ?_) (.of_runs_eq (.stay _) rfl))
    (fun _ _ hs => hs) fun _ _ _ => trivial
  have hmem : interaction ∈ db.interactions.rows.filter fun i =>
      i.status = .pending && i.deadlineAt.micros ≤ now.micros := heq ▸ by simp
  simp only [List.mem_filter, Bool.and_eq_true, decide_eq_true_eq] at hmem
  unfold expireInteraction
  rw [wp_bind]
  refine wp_mono (preserves_updateInteractions (onRuns_tracks _ _) _ _ _ s hs) (fun _ s hs => ?_)
    fun _ _ _ => trivial
  refine wp_mono (updateRuns_tracks hs fun r₀ r hr₀ hr hM hp _ => ?_) (fun _ _ hs => hs)
    fun _ _ _ => trivial
  simp only [Bool.and_eq_true, Bool.or_eq_true, decide_eq_true_eq] at hp
  have hoverdue : ∃ i ∈ db.interactions.rows, i.runId = r.id ∧ i.status = .pending ∧
      i.deadlineAt.micros ≤ now.micros := ⟨interaction, hmem.1, hp.1.symm, hmem.2⟩
  -- a run that is still waiting has not been expired by an earlier interaction
  cases hM with
  | stay => exact .expired hp.2 hoverdue interaction.id
  | expired hstatus => exact .expired hstatus hoverdue interaction.id

theorem requestPause_moved (now : DateTime) (runId : Str) :
    wp (requestPause now runId) (fun _ => Tracks (Moved env db (.requestPause now runId)) db)
      (fun _ _ => True) db := by
  unfold requestPause
  rw [wp_bind]
  cases hrun : db.run? runId with
  | none => rw [wp_selectRun_of_none hrun]; trivial
  | some run =>
    obtain rfl := Table.key_of_get? hrun
    rw [wp_selectRun_of_some hrun]
    split
    · exact .of_runs_eq (.stay _) rfl
    split
    · trivial
    rename_i hpausable
    rw [wp_bind, wp_orThrow]
    refine ⟨fun deadline hdeadline => ?_, fun _ => trivial⟩
    rw [wp_bind]
    refine wp_mono (updateRun_moves (.stay _) rfl hrun fun _ => ?_)
      (fun _ s hs => moved_selectRun hs _) fun _ _ _ => trivial
    split at hdeadline
    · exact .pausedWaiting ‹_› hdeadline
    · rename_i hwaiting
      obtain rfl := Option.some.inj hdeadline
      have hmem := not_not.mp hpausable
      simp only [List.mem_cons, hwaiting, List.not_mem_nil, or_false] at hmem
      exact .paused (by simpa using hmem)

theorem requestCancel_moved (now : DateTime) (runId : Str) :
    wp (requestCancel now runId) (fun _ => Tracks (Moved env db (.requestCancel now runId)) db)
      (fun _ _ => True) db := by
  unfold requestCancel
  rw [wp_bind]
  cases hrun : db.run? runId with
  | none => rw [wp_selectRun_of_none hrun]; trivial
  | some run =>
    obtain rfl := Table.key_of_get? hrun
    rw [wp_selectRun_of_some hrun]
    split
    · exact .of_runs_eq (.stay _) rfl
    rename_i hopen
    rw [wp_bind]
    refine wp_mono (updateRun_moves (M := Moved env db (.requestCancel now run.id)) (.stay _) rfl hrun
      fun _ => .cancelled (by simpa using hopen))
      (fun _ s hs => ?_) fun _ _ _ => trivial
    rw [wp_bind]
    exact wp_mono (preserves_updateInteractions (onRuns_tracks _ _) _ _ _ s hs)
      (fun _ s hs => moved_selectRun hs _) fun _ _ _ => trivial

theorem resumeInterrupted_moved (now : DateTime) (runId : Str)
    (resolution : Option UncertainResolution) :
    wp (resumeInterrupted now runId resolution)
      (fun _ => Tracks (Moved env db (.resumeInterrupted now runId resolution)) db)
      (fun _ _ => True) db := by
  unfold resumeInterrupted
  rw [wp_bind]
  cases hrun : db.run? runId with
  | none => rw [wp_selectRun_of_none hrun]; trivial
  | some run =>
    obtain rfl := Table.key_of_get? hrun
    rw [wp_selectRun_of_some hrun]
    split
    · trivial
    rename_i hinterrupted
    rw [wp_bind, wp_orThrow]
    refine ⟨fun deadline hdeadline => ?_, fun _ => trivial⟩
    rw [wp_bind, wp_get, wp_bind]
    refine wp_mono (preserves_settleUncertain (onRuns_runs db.runs) now run.id _ resolution db rfl) (fun _ s hs => ?_)
      fun _ _ _ => trivial
    rw [wp_bind]
    exact wp_mono (updateRun_moves (.stay _) hs hrun fun _ => .resumed (not_not.mp hinterrupted) hdeadline)
      (fun _ s hs => moved_selectRun hs _) fun _ _ _ => trivial

theorem respondInteraction_moved (now : DateTime) (leaseId runId interactionId : Str)
    (response : Json.Object) (responseId : Str) :
    wp (respondInteraction env now leaseId runId interactionId response responseId)
      (fun _ => Tracks (Moved env db (.respondInteraction now leaseId runId interactionId response
        responseId)) db) (fun _ _ => True) db := by
  unfold respondInteraction
  rw [wp_bind, wp_get, wp_bind, wp_orThrow]
  refine ⟨fun interaction hget => ?_, fun _ => trivial⟩
  obtain ⟨hfound, hrun⟩ := Option.filter_eq_some_iff.mp hget
  obtain rfl : interaction.runId = runId := of_decide_eq_true hrun
  obtain rfl : interaction.id = interactionId := Table.key_of_get? hfound
  split
  · split
    · exact .of_runs_eq (.stay _) rfl
    · trivial
  rename_i hpending
  have hresolve : wp (resolveInteraction env now leaseId responseId interaction response)
      (fun _ => Tracks (Moved env db (.respondInteraction now leaseId interaction.runId interaction.id
        response responseId)) db) (fun _ _ => True) db := by
    refine resolveInteraction_moves (fun _ _ _ => trivial)
      fun hintime hvalid s run deadline grants hs hrun hdeadline => ?_
    have hid : run.id = interaction.runId := Table.key_of_get? hrun
    unfold moveAnswered
    split
    · rename_i hdenied
      refine wp_mono (updateRun_moves (.stay _) hs hrun fun hstatus => ?_) (fun _ _ h => h)
        fun _ _ _ => trivial
      rw [← hid]
      exact .denied ⟨interaction, hfound, hid.symm, not_not.mp hpending, hintime, hvalid, hdenied⟩ hstatus
    · rename_i hdenied
      refine wp_mono (updateRun_moves (.stay _) hs hrun fun hstatus => ?_) (fun _ _ h => h)
        fun _ _ _ => trivial
      rw [← hid]
      refine .answered ⟨interaction, hfound, hid.symm, not_not.mp hpending, hintime, hvalid, hdenied⟩
        hstatus grants hdeadline
  rw [wp_bind]
  refine wp_mono hresolve (fun _ s hs => ?_) fun _ _ _ => trivial
  rw [wp_bind, wp_get, wp_orThrow]
  exact ⟨fun _ _ => hs, fun _ => trivial⟩

theorem createStep_moved (now : DateTime) (stepId runId actionKey : Str) (kind : StepKind)
    (input : Json.Object) (toolName : Option Str) :
    wp (createStep now stepId runId actionKey kind input toolName)
      (fun _ => Tracks (Moved env db (.createStep now stepId runId actionKey kind input toolName)) db)
      (fun _ _ => True) db := by
  unfold createStep
  rw [wp_bind, wp_get]
  split
  · exact .of_runs_eq (.stay _) rfl
  rw [wp_bind]
  cases hrun : db.run? runId with
  | none => rw [wp_selectRun_of_none hrun]; trivial
  | some run =>
    obtain rfl := Table.key_of_get? hrun
    rw [wp_selectRun_of_some hrun]
    dsimp only
    rw [wp_bind]
    refine wp_mono (preserves_insertStep (onRuns_runs db.runs) _ db rfl) (fun _ s hs => ?_)
      fun _ _ _ => trivial
    rw [wp_bind]
    exact wp_mono (updateRun_moves (.stay _) hs hrun fun _ => .stepped _) (fun _ _ hs => hs)
      fun _ _ _ => trivial

theorem updatePlan_moved (now : DateTime) (runId : Str) (expectedRevision : ℕ)
    (items : List PlanItem) :
    wp (updatePlan now runId expectedRevision items)
      (fun _ => Tracks (Moved env db (.updatePlan now runId expectedRevision items)) db)
      (fun _ _ => True) db := by
  unfold updatePlan
  split
  · trivial
  split
  · trivial
  split
  · trivial
  rw [wp_bind]
  cases hrun : db.run? runId with
  | none => rw [wp_selectRun_of_none hrun]; trivial
  | some run =>
    obtain rfl := Table.key_of_get? hrun
    rw [wp_selectRun_of_some hrun, wp_bind, wp_get]
    split
    · trivial
    split
    · trivial
    rename_i hrunning
    split
    · exact .of_runs_eq (.stay _) rfl
    split
    · trivial
    rw [wp_bind, wp_set, wp_bind]
    exact wp_mono (updateRun_moves (.stay _) (show _ = db.runs from rfl) hrun
      fun _ => .planned (not_not.mp hrunning)) (fun _ _ hs => hs) fun _ _ _ => trivial

theorem suspendQueuedForShutdown_moved (now : DateTime) :
    wp (suspendQueuedForShutdown now)
      (fun _ => Tracks (Moved env db (.suspendQueuedForShutdown now)) db) (fun _ _ => True) db := by
  refine wp_mono (updateRuns_moves (.stay _) rfl fun r _ hp _ => ?_) (fun _ _ h => h)
    fun _ _ _ => trivial
  simp only [Bool.and_eq_true, decide_eq_true_eq, Bool.not_eq_true'] at hp
  exact .suspended hp.1.1 hp.1.2

/-! ### Recovery -/

/-- The work on one run of a recovery: it moves that run and touches no other. -/
theorem updateRun_recovers {M : Run → Run → Prop} {s : Db} {run : Run} {f : Run → Run}
    {hf : ∀ r, (f r).id = r.id} (h : Tracks M db s) (hrun : s.run? run.id = some run)
    (hmove : ∀ r₀, db.run? run.id = some r₀ → M r₀ run → M r₀ (f run)) :
    wp (updateRun run.id f hf)
      (fun _ t => Tracks M db t ∧ ∀ id, id ≠ run.id → t.run? id = s.run? id) (fun _ _ => True) s := by
  refine wp_mono (wp_and (updateRuns_tracks h fun r₀ r hr₀ hr hM hp _ => ?_) updateRuns_spec)
    (fun _ t ht => ⟨ht.1, fun id hid => ?_⟩) fun _ _ _ => trivial
  · have hid : r.id = run.id := of_decide_eq_true hp
    rw [hid, hrun] at hr
    obtain rfl := Option.some.inj hr
    exact hmove r₀ hr₀ hM
  · rw [ht.2 id]
    cases hget : s.run? id with
    | none => rfl
    | some r =>
      have hne : r.id ≠ run.id := by
        rw [Table.key_of_get? hget]
        exact hid
      simp [hne]

theorem recoverSuspended_moved {now : DateTime} {s : Db} {run : Run}
    (h : Tracks (Moved env db (.recoverInterrupted now)) db s) (hrun : s.run? run.id = some run)
    (hqueued : run.status = .queued)
    (herror : (errorCode run.error).any (fun code => code.pyEq (.str (str "runtime_stopped"))) = true) :
    wp (recoverSuspended now run) (fun _ t => Tracks (Moved env db (.recoverInterrupted now)) db t ∧
      ∀ id, id ≠ run.id → t.run? id = s.run? id) (fun _ _ => True) s := by
  unfold recoverSuspended
  rw [wp_bind, wp_orThrow]
  refine ⟨fun deadline hdeadline => ?_, fun _ => trivial⟩
  refine updateRun_recovers h hrun fun r₀ _ hM => ?_
  -- a restored run has no error left, a recovered one does not say that the runtime stopped
  cases hM with
  | stay => exact .restored hqueued herror hdeadline
  | restored => exact absurd herror (by simp [errorCode])
  | recovered _ _ hnone => rw [hnone hqueued] at herror; exact absurd herror (by simp [errorCode])

theorem recoverRun_moved {now : DateTime} {s : Db} {run : Run}
    (h : Tracks (Moved env db (.recoverInterrupted now)) db s) (hrun : s.run? run.id = some run)
    (hactive : run.status = .planning ∨ run.status = .running) :
    wp (recoverRun now run) (fun _ t => Tracks (Moved env db (.recoverInterrupted now)) db t ∧
      ∀ id, id ≠ run.id → t.run? id = s.run? id) (fun _ _ => True) s := by
  unfold recoverRun
  rw [wp_bind, wp_get]
  dsimp only
  rw [wp_bind]
  refine wp_mono ((Preserves.only _ (preserves_updateSteps (onRuns_runs s.runs) _ _ _)) s rfl)
    (fun _ s₁ h₁ => ?_) fun _ _ _ => trivial
  rw [wp_bind]
  refine wp_mono ((Preserves.only _ (preserves_updateSteps (onRuns_runs s.runs) _ _ _)) s₁ h₁)
    (fun _ s₂ h₂ => ?_) fun _ _ _ => trivial
  have hrun? : ∀ id, s₂.run? id = s.run? id := fun id => by rw [Db.run?, h₂, Db.run?]
  rw [wp_bind, wp_orThrow]
  refine ⟨fun deadline hdeadline => ?_, fun _ => trivial⟩
  refine wp_mono (updateRun_recovers (onRuns_tracks _ _ h h₂) ((hrun? _).trans hrun)
    fun r₀ _ hM => ?_) (fun _ t ht => ⟨ht.1, fun id hid => (ht.2 id hid).trans (hrun? id)⟩)
    fun _ _ _ => trivial
  -- what the recovery has moved already is neither planning nor running
  have hidle : run.status ∉ [RunStatus.interrupted, .queued, .failed] := by
    rcases hactive with h | h <;> rw [h] <;> decide
  cases hM with
  | stay => refine .recovered hactive ?_ ?_ hdeadline <;> split_ifs <;> simp
  | restored hqueued => exact absurd (by simp [hqueued]) hidle
  | recovered _ htarget => exact absurd htarget hidle

theorem recoverInterrupted_moved (now : DateTime) :
    wp (recoverInterrupted now) (fun _ => Tracks (Moved env db (.recoverInterrupted now)) db)
      (fun _ _ => True) db := by
  unfold recoverInterrupted
  rw [wp_bind, wp_get, wp_bind]
  refine wp_mono (forM_runs (E := fun _ _ => True)
    (I := Tracks (Moved env db (.recoverInterrupted now)) db) (fun r s hs hrun hr => ?_)
    (.of_runs_eq (.stay _) rfl)) (fun _ s hs => ?_) fun _ _ _ => trivial
  · simp only [Bool.and_eq_true, decide_eq_true_eq] at hr
    exact recoverSuspended_moved hs hrun hr.1 hr.2
  · rw [wp_bind, wp_get]
    refine forM_runs (fun r s hs hrun hr => ?_) hs
    simp only [Bool.or_eq_true, decide_eq_true_eq] at hr
    exact recoverRun_moved hs hrun hr

end Operations

/-! ## New runs -/

/-- What an insertion puts there; a delegated run has an active parent. -/
structure Created (db : Db) (now : DateTime) (parentId : Option Str) (r : Run) : Prop where
  status : r.status = .queued
  error : r.error = none
  cancelRequested : r.cancelRequested = false
  updatedAt : r.updatedAt = now
  parentRunId : r.parentRunId = parentId
  active : ∀ p, parentId = some p → ∃ parent, db.run? p = some parent ∧
    (parent.status = .planning ∨ parent.status = .running) ∧ r.depth = parent.depth + 1

/-- The call inserts the run. -/
def Op.Creates (db : Db) (r : Run) : Op → Prop
  | .createRun now runId _ _ _ _ _ parentRunId _ _ => r.id = runId ∧ Created db now parentRunId r
  | _ => False

section Creation

variable {env : Env} {db : Db}

theorem delegated_spec (now : DateTime) (sessionId parentRunId : Str) (definition : Definition)
    (timeoutSeconds : ℤ) (delegation : Json.Object) :
    wp (delegated now sessionId parentRunId definition timeoutSeconds delegation)
      (fun lineage s => s = db ∧ ∃ parent, db.run? parentRunId = some parent ∧
        (parent.status = .planning ∨ parent.status = .running) ∧ lineage.depth = parent.depth + 1)
      (fun _ _ => True) db := by
  unfold delegated
  rw [wp_bind, wp_get, wp_bind, wp_orThrow]
  refine ⟨fun parent hparent => ?_, fun _ => trivial⟩
  split
  · trivial
  split
  · trivial
  rename_i hactive
  split
  · trivial
  split
  · trivial
  rw [wp_bind, wp_orThrow]
  refine ⟨fun budget _ => ?_, fun _ => trivial⟩
  dsimp only
  rw [wp_bind, wp_orThrow]
  refine ⟨fun timeout _ => ?_, fun _ => trivial⟩
  rw [wp_bind, wp_orThrow]
  refine ⟨fun deadline _ => ⟨rfl, parent, hparent, ?_, rfl⟩, fun _ => trivial⟩
  simpa only [ne_eq, not_and_or, not_not] using hactive

theorem lineageOf_spec (now : DateTime) (runId sessionId : Str) (definition : Definition) (timeout : ℤ)
    (deadline : DateTime) (delegation : Json.Object) (parentRunId : Option Str) :
    wp (lineageOf now runId sessionId definition timeout deadline delegation parentRunId)
      (fun lineage s => s = db ∧ ∀ p, parentRunId = some p → ∃ parent, db.run? p = some parent ∧
        (parent.status = .planning ∨ parent.status = .running) ∧ lineage.depth = parent.depth + 1)
      (fun _ _ => True) db := by
  cases parentRunId with
  | none => exact ⟨rfl, fun _ h => (nomatch h)⟩
  | some parent =>
    refine wp_mono (delegated_spec now sessionId parent definition timeout delegation)
      (fun lineage s hs => ⟨hs.1, fun p hp => ?_⟩) fun _ _ _ => trivial
    obtain rfl := Option.some.inj hp
    exact hs.2

theorem insertRun_spec (run : Run) :
    wp (insertRun run) (fun _ s => db.runs.insert? run = some s.runs) (fun _ _ => True) db := by
  unfold insertRun
  rw [wp_bind, wp_get]
  split
  · trivial
  rw [wp_bind, wp_orThrow]
  exact ⟨fun runs hinsert => hinsert, fun _ => trivial⟩

theorem preserves_reuseRun {I : Db → Prop} (existing : Run) (definition : Definition)
    (input normalized : Json.Object) : Preserves I (reuseRun existing definition input normalized) :=
  .ite _ (fun _ => .pure _) fun _ => .throw _

/-- **A creation** returns a run that is there, or inserts one. -/
theorem createRun_spec (now : DateTime) (runId sessionId agentKey : Str) (input : Json.Object)
    (idempotencyKey : Option Str) (priority : ℤ) (parentRunId : Option Str)
    (delegation budget : Json.Object) :
    wp (createRun env now runId sessionId agentKey input idempotencyKey priority parentRunId
        delegation budget)
      (fun out s => s.runs = db.runs ∨ (out.1.id = runId ∧ Created db now parentRunId out.1 ∧
        db.runs.insert? out.1 = some s.runs)) (fun _ _ => True) db := by
  unfold createRun
  rw [wp_bind, wp_get, wp_bind, wp_orThrow]
  refine ⟨fun definition _ => ?_, fun _ => trivial⟩
  split
  · trivial
  dsimp only
  rw [wp_bind, wp_orThrow]
  refine ⟨fun parameters _ => ?_, fun _ => trivial⟩
  split
  · trivial
  rw [wp_bind]
  refine wp_mono (preserves_checkBudget (I := fun s => s = db) budget db rfl) (fun _ s hs => ?_)
    fun _ _ _ => trivial
  subst hs
  rw [wp_bind, wp_orThrow]
  refine ⟨fun timeout _ => ?_, fun _ => trivial⟩
  rw [wp_bind, wp_orThrow]
  refine ⟨fun deadline _ => ?_, fun _ => trivial⟩
  rw [wp_bind, wp_orThrow]
  refine ⟨fun session _ => ?_, fun _ => trivial⟩
  rw [wp_bind]
  refine wp_mono (lineageOf_spec now runId sessionId definition timeout deadline delegation parentRunId)
    (fun lineage t ht => ?_) fun _ _ _ => trivial
  obtain ⟨rfl, hparent⟩ := ht
  split
  · exact wp_mono (preserves_reuseRun (I := fun s => s.runs = t.runs) _ _ _ _ t rfl)
      (fun _ _ h => .inl h) fun _ _ _ => trivial
  · rw [wp_bind]
    refine wp_mono (insertRun_spec _) (fun _ u hinsert => ?_) fun _ _ _ => trivial
    rw [wp_bind]
    refine wp_mono (preserves_recordDelegation (onRuns_runs u.runs) _ _ _ _ _ u rfl)
      (fun _ v hv => .inr ⟨rfl, ⟨rfl, rfl, rfl, rfl, rfl, hparent⟩, ?_⟩) fun _ _ _ => trivial
    rw [hinsert, hv]

end Creation

/-! ## One call -/

/-- The time a call reads. -/
def Op.now : Op → DateTime
  | .createRun now .. | .claimNext now | .transition now .. | .createInteraction now ..
  | .respondInteraction now .. | .expireInteractions now | .requestPause now _ | .requestCancel now _
  | .resumeInterrupted now .. | .recoverInterrupted now | .suspendQueuedForShutdown now
  | .createStep now .. | .settleStep now .. | .abandonStepForRetry now .. | .updatePlan now .. => now

/-- What one call does to the runs: each is moved or left, and one that appears was created. -/
structure Effect (env : Env) (op : Op) (db s : Db) : Prop where
  old : ∀ id r, db.run? id = some r → ∃ r', s.run? id = some r' ∧ Moved env db op r r'
  new : ∀ id r', db.run? id = none → s.run? id = some r' → op.Creates db r'

section Calls

variable {env : Env} {db : Db}

theorem Tracks.effect {op : Op} {s : Db} (h : Tracks (Moved env db op) db s) : Effect env op db s where
  old := h.old
  new id r' hid hr' := by rw [h.new id hid] at hr'; exact absurd hr' nofun

theorem Effect.refl (op : Op) (db : Db) : Effect env op db db where
  old _ r hr := ⟨r, hr, .stay op r⟩
  new id r' hid hr' := by rw [hid] at hr'; exact absurd hr' nofun

/-- A call that claims nothing. -/
theorem effect_of_moved {op : Op} {α : Type} {x : Tx α}
    (h : wp x (fun _ => Tracks (Moved env db op) db) (fun _ _ => True) db) :
    wp (do let _ ← x; return none : Tx (Option Run)) (fun claimed s => Effect env op db s ∧
      ∀ run, claimed = some run → ∃ before, db.run? run.id = some before ∧
        before.status = .queued ∧ op.now.micros < before.deadlineAt.micros) (fun _ _ => True) db := by
  rw [wp_bind]
  exact wp_mono h (fun _ _ hs => ⟨hs.effect, fun _ h => (nomatch h)⟩) fun _ _ _ => trivial

/-- **What one call does.** -/
theorem exec_effect (op : Op) :
    wp (op.exec env) (fun claimed s => Effect env op db s ∧
      ∀ run, claimed = some run → ∃ before, db.run? run.id = some before ∧
        before.status = .queued ∧ op.now.micros < before.deadlineAt.micros) (fun _ _ => True) db := by
  cases op with
  | createRun now runId sessionId agentKey input key priority parentRunId delegation budget =>
    unfold Op.exec
    rw [wp_bind]
    refine wp_mono (createRun_spec now runId sessionId agentKey input key priority parentRunId
      delegation budget) (fun out s hs => ⟨?_, fun _ h => (nomatch h)⟩) fun _ _ _ => trivial
    rcases hs with hs | ⟨hid, hcreated, hinsert⟩
    · exact (Tracks.of_runs_eq (.stay _) hs).effect
    · refine ⟨fun id r hr => ⟨r, Table.get?_insert_of_some hinsert hr, .stay _ r⟩,
        fun id r' hnone hr' => ?_⟩
      rw [Db.run?, Table.get?_insert hinsert, show db.runs.get? id = none from hnone] at hr'
      split at hr'
      · exact Option.some.inj hr' ▸ ⟨hid, hcreated⟩
      · exact absurd hr' nofun
  | claimNext now =>
    exact wp_mono (claimNext_moved now) (fun _ _ hs => ⟨hs.1.effect, hs.2⟩) fun _ _ _ => trivial
  | transition now runId move => exact effect_of_moved (transition_moved now runId move)
  | createInteraction => exact effect_of_moved (createInteraction_moved _ _ _ _ _ _ _ _ _ _)
  | respondInteraction => exact effect_of_moved (respondInteraction_moved _ _ _ _ _ _)
  | expireInteractions now => exact effect_of_moved (expireInteractions_moved now)
  | requestPause now runId => exact effect_of_moved (requestPause_moved now runId)
  | requestCancel now runId => exact effect_of_moved (requestCancel_moved now runId)
  | resumeInterrupted now runId resolution =>
    exact effect_of_moved (resumeInterrupted_moved now runId resolution)
  | recoverInterrupted now => exact effect_of_moved (recoverInterrupted_moved now)
  | suspendQueuedForShutdown now => exact effect_of_moved (suspendQueuedForShutdown_moved now)
  | createStep => exact effect_of_moved (createStep_moved _ _ _ _ _ _ _)
  | settleStep => exact effect_of_moved (moved_of_runs_eq (preserves_settleStep (onRuns_runs _) _ _ _ _ _))
  | abandonStepForRetry =>
    exact effect_of_moved (moved_of_runs_eq (preserves_abandonStepForRetry (onRuns_runs _) _ _ _))
  | updatePlan => exact effect_of_moved (updatePlan_moved _ _ _ _)

/-- The tables after one call. -/
theorem after_effect (op : Op) : Effect env op db (db.after env op) := by
  refine wp_final.mp ?_
  rw [wp_transaction]
  exact wp_mono (exec_effect op) (fun _ _ h => h.1) fun _ _ _ => .refl op db

/-- What a claim takes was queued and in time. -/
theorem claims_queued {op : Op} {run : Run} (hrun : op.claims env db = some run) :
    ∃ before, db.run? run.id = some before ∧ before.status = .queued ∧
      op.now.micros < before.deadlineAt.micros := by
  have hwp : wp (transaction (op.exec env)) (fun claimed s => Effect env op db s ∧
      ∀ run, claimed = some run → ∃ before, db.run? run.id = some before ∧
        before.status = .queued ∧ op.now.micros < before.deadlineAt.micros) (fun _ _ => True) db := by
    rw [wp_transaction]
    exact exec_effect op
  unfold Op.claims at hrun
  unfold wp at hwp
  cases hexec : (transaction (op.exec env)).run db with
  | ok claimed s =>
    rw [hexec] at hrun hwp
    exact hwp.2 run hrun
  | error e s =>
    rw [hexec] at hrun
    exact nomatch hrun

end Calls

end AI2Apps.Agents
