import AI2Apps.Agents.TreeCommands

/-!
# A paused tree until its resume

After a pause no run of the tree is queued, planning or running, and none of the
calls makes it so again, with two exceptions: a resume, and an answer that is
accepted, which queues a waiting descendant, and a paused run too.  A parent that
is not active gets no new child, so the tree does not grow either.

* `Event`: the calls of the repository and the waits for child runs.
* `QuietTree`: no run of the tree is queued, planning or running.
* `tree_commands`: when the commands are atomic, and what keeps a paused tree idle.
-/

namespace AI2Apps.Agents

open Clock Faults

/-! ## Waits for child runs -/

/-- `INSERT INTO agent_deferred_waits`: one wait for a run. -/
def insertWait (runId stepId : Str) : Tx Unit := do
  let db ← get
  if db.deferredWaits.any fun w => w.1 = runId then throw (.integrity (str "agent_deferred_waits.run_id"))
  else set { db with deferredWaits := db.deferredWaits ++ [(runId, stepId)] }

/-- `register_wait`: a running run is queued until the child runs it names have ended. -/
def registerWait (now : DateTime) (stepId runId actionKey toolName : Str) (input : Json.Object)
    (maxSteps : ℤ) : Tx Unit := do
  let run ← selectRun runId
  if run.status ≠ .running ∨ maxSteps ≤ run.currentStep then
    throw (.value (str "Parent cannot register a wait."))
  else
  insertStep {
    id := stepId, runId := runId, sequence := run.currentStep + 1, actionKey := actionKey
    kind := .tool, status := .running, toolName := some toolName, input := input, output := none
    error := none, createdAt := now, startedAt := some now, finishedAt := none }
  insertWait runId stepId
  updateRun runId fun r => { r with
    status := .queued, currentStep := r.currentStep + 1, updatedAt := now }

/-- What registering a wait does to a run. -/
inductive Waits (now : DateTime) (runId : Str) : Run → Run → Prop
  | stay (r : Run) : Waits now runId r r
  | waits {r : Run} (hid : r.id = runId) (hstatus : r.status = .running) : Waits now runId r { r with
      status := .queued, currentStep := r.currentStep + 1, updatedAt := now }

/-- `DELETE FROM agent_deferred_waits WHERE run_id = ?`: the wait is over. -/
def releaseWait (runId : Str) : Tx Unit :=
  modify fun db => { db with deferredWaits := db.deferredWaits.filter fun w => w.1 ≠ runId }

/-- What happens to the tables: a call, or a step of a wait. -/
inductive Event where
  | call (op : Op)
  | registerWait (now : DateTime) (stepId runId actionKey toolName : Str) (input : Json.Object)
      (maxSteps : ℤ)
  | releaseWait (runId : Str)

def Event.exec (env : Env) : Event → Tx (Option Run)
  | .call op => op.exec env
  | .registerWait now stepId runId actionKey toolName input maxSteps => do
    Agents.registerWait now stepId runId actionKey toolName input maxSteps
    return none
  | .releaseWait runId => do
    Agents.releaseWait runId
    return none

/-- The tables after an event: an exception rolls it back. -/
def Db.next (env : Env) (db : Db) (event : Event) : Db := final (transaction (event.exec env)) db

/-- The run an event claims in a state. -/
def Event.claims (env : Env) (db : Db) : Event → Option Run
  | .call op => op.claims env db
  | _ => none

/-- Every event of the history meets a condition on the state it finds. -/
def EveryEvent (env : Env) (C : Db → Event → Prop) : Db → List Event → Prop
  | _, [] => True
  | db, event :: events => C db event ∧ EveryEvent env C (db.next env event) events

/-- The event resumes a run of the tree, or answers one: the answer is accepted and denies nothing. -/
def Event.Restarts (env : Env) (db : Db) (root : Str) : Event → Prop
  | .call op => match op with
    | .resumeInterrupted _ runId _ => InTree db root runId
    | .respondInteraction now leaseId runId interactionId response responseId => InTree db root runId ∧
        (Op.respondInteraction now leaseId runId interactionId response responseId).Accepts env db
    | _ => False
  | _ => False

/-! ## Quiet trees -/

/-- No run of the tree is queued, planning or running. -/
structure QuietTree (db : Db) (root : Str) : Prop where
  forest : Forest db
  known : (db.run? root).isSome = true
  quiet : ∀ r ∈ db.runs.rows, InTree db root r.id → ¬ r.status.dispatching

section Quiet

variable {env : Env} {db s : Db} {root : Str}

/-- A tree that gains no child keeps its runs. -/
theorem inTree_of_inTree (hstep : ∀ r' ∈ s.runs.rows, ∀ p, r'.parentRunId = some p → InTree db root p →
      ∃ r ∈ db.runs.rows, r.id = r'.id ∧ r.parentRunId = some p) {id : Str} (hid : InTree s root id) :
    InTree db root id := by
  rcases hid with rfl | hbelow
  · exact .inl rfl
  · induction hbelow with
    | child hr hparent =>
      obtain ⟨r, hr, hid, hparent⟩ := hstep _ hr _ hparent (.inl rfl)
      exact .inr (hid ▸ .child hr hparent)
    | descend _ hr hparent ih =>
      obtain ⟨r, hr, hid, hparent'⟩ := hstep _ hr _ hparent ih
      rcases ih with rfl | hp
      · exact .inr (hid ▸ .child hr hparent')
      · exact .inr (hid ▸ .descend hp hr hparent')

/-- **What keeps a tree quiet**: no run in it is woken, and no inactive run gets a child. -/
theorem QuietTree.step (h : QuietTree db root) (hforest : Forest s)
    (hold : ∀ id r, db.run? id = some r → ∃ r', s.run? id = some r' ∧
      r'.parentRunId = r.parentRunId ∧
      (InTree db root id → ¬ r.status.dispatching → ¬ r'.status.dispatching))
    (hnew : ∀ id r', db.run? id = none → s.run? id = some r' → ∀ p, r'.parentRunId = some p →
      ∃ parent, db.run? p = some parent ∧ parent.status.dispatching) : QuietTree s root where
  forest := hforest
  known := by
    obtain ⟨r, hr⟩ := Option.isSome_iff_exists.mp h.known
    obtain ⟨r', hr', -⟩ := hold root r hr
    rw [hr']
    rfl
  quiet r' hr' hin := by
    have hget : s.run? r'.id = some r' := Table.get?_of_mem hr'
    -- a child of the tree was there before, for a quiet run gets none
    have hin' : InTree db root r'.id := by
      refine inTree_of_inTree (fun c hc p hp hin => ?_) hin
      have hget : s.run? c.id = some c := Table.get?_of_mem hc
      cases hr : db.run? c.id with
      | none =>
        obtain ⟨parent, hparent, hactive⟩ := hnew _ c hr hget p hp
        have hkey : parent.id = p := Table.key_of_get? hparent
        exact absurd hactive (h.quiet parent (Table.mem_of_get? hparent) (hkey ▸ hin))
      | some r =>
        obtain ⟨r'', hr'', hparent, -⟩ := hold _ r hr
        obtain rfl := Option.some.inj (hget.symm.trans hr'')
        exact ⟨r, Table.mem_of_get? hr, Table.key_of_get? hr, hparent ▸ hp⟩
    cases hr : db.run? r'.id with
    | some r =>
      obtain ⟨r'', hr'', -, hquiet⟩ := hold _ r hr
      obtain rfl := Option.some.inj (hget.symm.trans hr'')
      have hkey : r.id = r'.id := Table.key_of_get? hr
      exact hquiet hin' (h.quiet r (Table.mem_of_get? hr) (hkey ▸ hin'))
    | none =>
      rcases hin' with heq | hbelow
      · rw [heq] at hr
        exact absurd h.known (by rw [hr]; decide)
      · obtain ⟨n, r, hlevel, hid⟩ := hbelow.level
        rw [← hid, show db.run? r.id = some r from Table.get?_of_mem hlevel.mem] at hr
        exact absurd hr nofun

/-- No call wakes a run of the tree that it does not restart. -/
theorem Moved.quiet {op : Op} {r r' : Run} (h : Moved env db op r r') (hin : InTree db root r.id)
    (hrestart : ¬ (Event.call op).Restarts env db root) (hquiet : ¬ r.status.dispatching) :
    ¬ r'.status.dispatching := by
  have hqueued : r.status ≠ .queued := fun h => hquiet (by rw [h]; decide)
  have hplanning : r.status ≠ .planning := fun h => hquiet (by rw [h]; decide)
  have hrunning : r.status ≠ .running := fun h => hquiet (by rw [h]; decide)
  cases h with
  | stay => exact hquiet
  | overdue hstatus => exact absurd hstatus hqueued
  | claimed hstatus => exact absurd hstatus hqueued
  | @transition _ _ move hstatus =>
    cases move with
    | fail => exact (by decide : ¬ RunStatus.failed.dispatching)
    | start => exact absurd (List.mem_singleton.mp hstatus) hplanning
    | stopped =>
      rcases List.mem_pair.mp hstatus with h | h
      · exact absurd h hrunning
      · exact absurd h hplanning
    | complete | requeue | uncertain => exact absurd (List.mem_singleton.mp hstatus) hrunning
  | asked hstatus => exact absurd hstatus hrunning
  | denied | expired => exact (by decide : ¬ RunStatus.failed.dispatching)
  | answered haccepts => exact absurd ⟨hin, haccepts⟩ hrestart
  | paused | pausedWaiting => exact (by decide : ¬ RunStatus.interrupted.dispatching)
  | cancelled => exact (by decide : ¬ RunStatus.cancelled.dispatching)
  | resumed => exact absurd hin hrestart
  | restored hstatus => exact absurd hstatus hqueued
  | recovered hstatus => exact absurd hstatus (not_or.mpr ⟨hplanning, hrunning⟩)
  | suspended hstatus => exact absurd hstatus hqueued
  | stepped => exact hquiet
  | planned hstatus => exact absurd hstatus hrunning

/-- A new run has an active parent, or none. -/
theorem Op.Creates.parent {op : Op} {r : Run} (h : op.Creates db r) {p : Str}
    (hp : r.parentRunId = some p) : ∃ parent, db.run? p = some parent ∧ parent.status.dispatching := by
  cases op with
  | createRun now runId sessionId agentKey input key priority parentRunId delegation budget =>
    obtain ⟨-, hcreated⟩ := h
    obtain ⟨parent, hparent, hactive, -⟩ := hcreated.active p (hcreated.parentRunId ▸ hp)
    refine ⟨parent, hparent, ?_⟩
    rcases hactive with h | h <;> rw [h] <;> decide
  | _ => exact h.elim

/-- What registering a wait does to the runs. -/
theorem registerWait_spec (now : DateTime) (stepId runId actionKey toolName : Str)
    (input : Json.Object) (maxSteps : ℤ) :
    wp (registerWait now stepId runId actionKey toolName input maxSteps)
      (fun _ => Tracks (Waits now runId) db) (fun _ _ => True) db := by
  unfold registerWait
  rw [wp_bind]
  cases hrun : db.run? runId with
  | none => rw [wp_selectRun_of_none hrun]; trivial
  | some run =>
    rw [wp_selectRun_of_some hrun]
    split
    · trivial
    rename_i hactive
    have hrunning : run.status = .running := not_not.mp fun h => hactive (.inl h)
    rw [wp_bind]
    refine wp_mono (preserves_insertStep (onRuns_runs db.runs) _ db rfl) (fun _ s hs => ?_)
      fun _ _ _ => trivial
    rw [wp_bind]
    unfold insertWait
    rw [wp_bind, wp_get]
    split
    · trivial
    rw [wp_set]
    refine wp_mono (updateRun_moves (M := Waits now runId) .stay hs hrun fun _ => ?_)
      (fun _ _ h => h) fun _ _ _ => trivial
    exact .waits (Table.key_of_get? hrun) hrunning

/-- An update of the runs that keeps parents and depths keeps the forest. -/
theorem Tracks.forest {M : Run → Run → Prop} (h : Tracks M db s) (hforest : Forest db)
    (hM : ∀ r r', M r r' → r'.parentRunId = r.parentRunId ∧ r'.depth = r.depth) : Forest s := by
  intro r' hr' p hp
  obtain ⟨r, hr, hmoved⟩ := h.source (Table.get?_of_mem hr')
  obtain ⟨parent, hparent, hdepth⟩ := hforest r (Table.mem_of_get? hr) p ((hM r r' hmoved).1 ▸ hp)
  obtain ⟨parent', hparent', hmoved'⟩ := h.old p parent hparent
  exact ⟨parent', hparent', by rw [(hM r r' hmoved).2, hdepth, (hM parent parent' hmoved').2]⟩

theorem QuietTree.of_tracks {M : Run → Run → Prop} (h : QuietTree db root) (hs : Tracks M db s)
    (hM : ∀ r r', M r r' → r'.parentRunId = r.parentRunId ∧ r'.depth = r.depth ∧
      (r.status.dispatching ∨ r' = r)) : QuietTree s root := by
  refine h.step (hs.forest h.forest fun r r' hr => ⟨(hM r r' hr).1, (hM r r' hr).2.1⟩)
    (fun id r hr => ?_) fun id r' hid hr' => ?_
  · obtain ⟨r', hr', hmoved⟩ := hs.old id r hr
    refine ⟨r', hr', (hM r r' hmoved).1, fun _ hquiet => ?_⟩
    rw [(hM r r' hmoved).2.2.resolve_left hquiet]
    exact hquiet
  · rw [hs.new id hid] at hr'
    exact absurd hr' nofun

/-- **Every event but a restart keeps the tree quiet.** -/
theorem quiet_next {event : Event} (h : QuietTree db root) (hrestart : ¬ event.Restarts env db root) :
    QuietTree (db.next env event) root := by
  cases event with
  | call op =>
    have heffect : Effect env op db (db.next env (.call op)) := after_effect op
    refine h.step (forest_after op h.forest) (fun id r hr => ?_)
      fun id r' hid hr' p hp => (heffect.new id r' hid hr').parent hp
    obtain ⟨r', hr', hmoved⟩ := heffect.old id r hr
    have hkey : r.id = id := Table.key_of_get? hr
    exact ⟨r', hr', hmoved.lineage.2.1, fun hin hquiet => hmoved.quiet (hkey ▸ hin) hrestart hquiet⟩
  | registerWait now stepId runId actionKey toolName input maxSteps =>
    refine (wp_final (P := fun s => QuietTree s root)).mp ?_
    rw [wp_transaction]
    unfold Event.exec
    rw [wp_bind]
    refine wp_mono (registerWait_spec now stepId runId actionKey toolName input maxSteps)
      (fun _ _ hs => h.of_tracks hs fun r r' hM => ?_) fun _ _ _ => h
    cases hM with
    | stay => exact ⟨rfl, rfl, .inr rfl⟩
    | waits _ hstatus => exact ⟨rfl, rfl, .inl (by rw [hstatus]; decide)⟩
  | releaseWait runId =>
    have hs : Tracks (fun r r' => r' = r) db (db.next env (.releaseWait runId)) :=
      .of_runs_eq (fun _ => rfl) rfl
    exact h.of_tracks hs fun r r' hM => ⟨by rw [hM], by rw [hM], .inr hM⟩

/-- A quiet tree is not claimed. -/
theorem not_claimed {event : Event} (h : QuietTree db root) {claimed : Run}
    (hclaimed : event.claims env db = some claimed) : ¬ InTree db root claimed.id := by
  intro hin
  cases event with
  | call op =>
    obtain ⟨before, hbefore, hqueued, -⟩ := claims_queued hclaimed
    have hkey : before.id = claimed.id := Table.key_of_get? hbefore
    refine h.quiet before (Table.mem_of_get? hbefore) (hkey ▸ hin) ?_
    rw [hqueued]
    decide
  | registerWait | releaseWait => exact absurd hclaimed nofun

/-- **No run of a quiet tree is claimed** in a history that restarts none of them. -/
theorem quiet_history {events : List Event} (h : QuietTree db root)
    (hevents : EveryEvent env (fun s event => ¬ event.Restarts env s root) db events) :
    EveryEvent env (fun s event => ∀ claimed, event.claims env s = some claimed →
      ¬ InTree s root claimed.id) db events := by
  induction events generalizing db with
  | nil => trivial
  | cons event events ih =>
    obtain ⟨hevent, hevents⟩ := hevents
    exact ⟨fun claimed hclaimed => not_claimed h hclaimed, ih (quiet_next h hevent) hevents⟩

/-- **A pause that succeeds leaves the tree quiet.** -/
theorem quiet_of_pause (hforest : Forest db) {clock : Str → DateTime} {run : Run}
    (hpause : (pause clock root).run db = .ok run s) : QuietTree s root := by
  obtain ⟨_, t, hloop, ht⟩ := returns_of_wp (@pauseChildren_spec db clock root hforest)
  have hrest : (transaction (requestPause (clock root) root)).run t = .ok run s := by
    have hwp : wp (pause clock root) (fun a u => a = run ∧ u = s) (fun _ _ => False) db := by
      rw [wp_of_ok hpause]
      exact ⟨rfl, rfl⟩
    unfold pause at hwp
    rw [wp_bind, wp_get, wp_bind, wp_of_ok hloop] at hwp
    obtain ⟨a, u, hrun, rfl, rfl⟩ := returns_of_wp hwp
    exact hrun
  have hroot : t.run? root = db.run? root := ht.keepsRoot hforest (List.append_nil _).symm
  -- the root could be paused, for the command returned
  have hpausable : ∃ r, t.run? root = some r ∧ r.Pausable (clock root) := by
    by_contra hnot
    have hrefused := @requestPause_refused t (clock root) root fun r hr h => hnot ⟨r, hr, h⟩
    have hwp : wp (transaction (requestPause (clock root) root)) (fun _ _ => False) (fun _ _ => True) t :=
      (wp_transaction _).mpr hrefused
    exact (wp_of_ok hrest).mp hwp
  obtain ⟨r, hr, hallowed⟩ := hpausable
  have hpaused : wp (transaction (requestPause (clock root) root)) (fun _ u =>
      (∀ id', id' ≠ root → u.run? id' = t.run? id') ∧
      ∃ r', u.run? root = some r' ∧ r'.status = .interrupted) (fun _ _ => True) t :=
    (wp_transaction _).mpr (wp_mono (requestPause_pausable hr hallowed) (fun _ _ h => h) fun _ _ h => h.elim)
  obtain ⟨hothers, top, htop, hinterrupted⟩ := (wp_of_ok hrest).mp hpaused
  have hmoved : Tracks (Moved ⟨fun _ => true, fun _ _ => true, fun _ => []⟩ t
      (.requestPause (clock root) root)) t s := by
    have hwp := @requestPause_moved ⟨fun _ => true, fun _ _ => true, fun _ => []⟩ t (clock root) root
    exact (wp_of_ok hrest).mp ((wp_transaction (E := fun _ _ => True) _).mpr hwp)
  have htracks : Tracks (fun r r' => r'.parentRunId = r.parentRunId ∧ r'.depth = r.depth) db s := by
    refine ⟨fun id r hr => ?_, fun id hid => hmoved.new id (by rw [ht.runs, hid]; rfl)⟩
    have hwalked := ht.runs id
    rw [hr, Option.map_some] at hwalked
    obtain ⟨r', hr', hmove⟩ := hmoved.old id _ hwalked
    refine ⟨r', hr', ?_⟩
    rw [hmove.lineage.2.1, hmove.lineage.2.2]
    unfold walkedIn
    split <;> exact ⟨rfl, rfl⟩
  refine ⟨htracks.forest hforest fun _ _ h => h, by rw [htop]; rfl, fun r' hr' hin => ?_⟩
  have hget : s.run? r'.id = some r' := Table.get?_of_mem hr'
  by_cases hid : r'.id = root
  · rw [hid, htop] at hget
    rw [← Option.some.inj hget, hinterrupted]
    decide
  · rw [hothers _ hid, ht.runs] at hget
    obtain ⟨r₀, hr₀, heq⟩ := Option.map_eq_some_iff.mp hget
    have hbelow : Below db root r'.id := by
      refine (inTree_of_inTree (fun c hc p hp _ => ?_) hin).resolve_left hid
      obtain ⟨c₀, hc₀, hlineage⟩ := htracks.source (Table.get?_of_mem hc)
      exact ⟨c₀, Table.mem_of_get? hc₀, Table.key_of_get? hc₀, hlineage.1 ▸ hp⟩
    rw [← heq]
    unfold walkedIn
    split
    · exact (by decide : ¬ RunStatus.interrupted.dispatching)
    · rename_i hnot
      exact fun hstatus => hnot ⟨(mem_ids_listDescendants hforest hr₀).mpr hbelow, hstatus⟩

end Quiet

/-- **The commands on a tree.**  A refused pause changes nothing exactly when the root could be
paused after all or nothing below it is queued, planning or running; a refused resume, when it
resumed no descendant before; and a paused tree is not claimed in a history that neither resumes
it nor answers one of its runs. -/
theorem tree_commands (env : Env) {db : Db} (hforest : Forest db) (clock : Str → DateTime)
    (root : Str) :
    (PauseAtomic clock db root ↔ (∃ r, db.run? root = some r ∧ r.Pausable (clock root)) ∨
      ∀ r ∈ listDescendants db root, ¬ r.status.dispatching) ∧
    (∀ resolution, ResumeAtomic clock db root resolution ↔
      resumedDescendants db root = [] ∨
      (∃ r rest, resumedDescendants db root = r :: rest ∧ r.Overflows (clock r.id)) ∨
      (∀ r ∈ resumedDescendants db root, ¬ r.Overflows (clock r.id)) ∧
        RootResumes clock db root resolution) ∧
    ∀ run paused events, (pause clock root).run db = .ok run paused →
      EveryEvent env (fun s event => ¬ event.Restarts env s root) paused events →
      EveryEvent env (fun s event => ∀ claimed, event.claims env s = some claimed →
        ¬ InTree s root claimed.id) paused events :=
  ⟨pause_atomic_iff hforest, resume_atomic_iff hforest,
    fun _ _ _ hpause hevents => quiet_history (quiet_of_pause hforest hpause) hevents⟩

namespace TreeSample

open DenialSample

def childId : Str := str "run_2"

/-- A clock that shows one time. -/
def clock (_ : Str) : DateTime := second 20

/-- The history up to a running root with a child in the queue. -/
def delegated : List Op := [
  .createRun (second 0) runId (str "ses_1") (str "writer") [] none 0 none [] [],
  .claimNext (second 1),
  .transition (second 2) runId .start,
  .createRun (second 3) childId (str "ses_1") (str "writer") [] none 0 (some runId)
    [(str "request_key", .str (str "call-1")), (str "task", .str (str "read"))] []]

/-- The root waits for an approval; the child is still queued. -/
def approving : Db := start.run env (delegated ++ [
  .createInteraction (second 4) interactionId runId (str "capability:call-2") .approval
    (str "Allow files.write?") answerSchema [] [] 86400])

/-- The root waits for an answer of the user. -/
def asking : Db := start.run env (delegated ++ [
  .createInteraction (second 4) interactionId runId (str "ask-1") .text (str "Which file?") [] [] []
    86400])

def answer : Op :=
  .respondInteraction (second 21) (str "lease_1") runId interactionId [] (str "response-1")

theorem forest_start (ops : List Op) : Forest (start.run env ops) :=
  forest_run fun _ h => (nomatch h)

theorem approving_root : (approving.run? runId).map Run.status = some .waitingCapability := by
  decide +kernel

theorem approving_child :
    (listDescendants approving runId).any (fun r => r.status = .queued) = true := by
  decide +kernel

end TreeSample

open DenialSample TreeSample in
/-- The waiting root is paused; then an interaction expires, a wait is over and a run is claimed. -/
theorem tree_commands_asking : ∃ run paused, (pause clock runId).run asking = .ok run paused ∧
    EveryEvent env (fun s event => ∀ claimed, event.claims env s = some claimed →
      ¬ InTree s runId claimed.id) paused
      [.call (.expireInteractions (second 21)), .releaseWait runId, .call (.claimNext (second 22))] := by
  have hpause : wp (pause clock runId) (fun _ _ => True) (fun _ _ => False) asking := by
    decide +kernel
  obtain ⟨run, paused, hrun, -⟩ := returns_of_wp hpause
  exact ⟨run, paused, hrun, (tree_commands env (forest_start _) clock runId).2.2 run paused _ hrun
    ⟨id, id, id, trivial⟩⟩

open DenialSample TreeSample in
/-- **A refused pause pauses a child, and a paused run is claimed** after an answer. -/
theorem paused_tree_broken : ¬ PauseAtomic clock approving runId ∧
    wp (pause clock runId) (fun _ paused => ((Event.call (.claimNext (second 22))).claims env
      (paused.next env (.call answer))).map Run.id = some runId) (fun _ _ => False) asking := by
  constructor
  · have hforest : Forest approving := forest_start _
    rw [pause_atomic_iff hforest, not_or]
    constructor
    · rintro ⟨r, hr, hpausable⟩
      have hstatus := approving_root
      rw [hr, Option.map_some, Option.some.injEq] at hstatus
      unfold Run.Pausable at hpausable
      rw [hstatus] at hpausable
      rcases hpausable with h | h | ⟨h, -⟩
      · exact absurd h (by decide)
      · exact absurd h (by decide)
      · exact absurd h (by decide)
    · intro hnone
      obtain ⟨r, hr, hqueued⟩ := List.any_eq_true.mp approving_child
      refine hnone r hr ?_
      rw [of_decide_eq_true hqueued]
      decide
  · decide +kernel

end AI2Apps.Agents
