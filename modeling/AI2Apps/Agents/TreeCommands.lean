import AI2Apps.Agents.Trees

/-!
# Pausing and resuming a tree of runs

`AgentRuntime.pause` and `AgentRuntime.resume` walk the descendants of a run,
deepest first, and change each in a transaction of its own; the run itself, whose
state decides whether the command is allowed, comes last.  A command that is
refused there has changed the descendants already.  A pause leaves waiting
descendants as they are, and an answer queues a run whether it was paused or not.

* `pause`, `resume`: the commands.
* `pause_atomic_iff`, `resume_atomic_iff`: when a refused command changes nothing.
-/

namespace AI2Apps.Agents

open Clock Faults

/-! ## The commands -/

/-- Queued, planning or running: what a pause looks for among the descendants. -/
def RunStatus.dispatching (status : RunStatus) : Prop :=
  status ∈ [RunStatus.queued, .planning, .running]

instance : DecidablePred RunStatus.dispatching := fun _ => by
  unfold RunStatus.dispatching; infer_instance

def pauseChild (clock : Str → DateTime) (child : Run) : Tx Unit :=
  only child.status.dispatching do
    let _ ← transaction (requestPause (clock child.id) child.id)

/-- `AgentRuntime.pause`: each call of the repository is a transaction, at its own time. -/
def pause (clock : Str → DateTime) (runId : Str) : Tx Run := do
  let db ← get
  forM (listDescendants db runId).reverse (pauseChild clock)
  transaction (requestPause (clock runId) runId)

/-- Some step of the run has an effect nobody knows. -/
def hasUncertain (db : Db) (runId : Str) : Bool :=
  db.steps.rows.any fun s => s.runId = runId && s.status = .uncertain

def resumeChild (clock : Str → DateTime) (child : Run) : Tx Unit :=
  only (child.status = .interrupted) do
    let db ← get
    only (hasUncertain db child.id = false) do
      let _ ← transaction (resumeInterrupted (clock child.id) child.id none)

/-- `uncertain_resolution not in {None, "retry", "assume_completed"}`. -/
def uncertainResolution? : Option Str → Option (Option UncertainResolution)
  | none => some none
  | some text =>
    if text = str "retry" then some (some .retry)
    else if text = str "assume_completed" then some (some .assumeCompleted)
    else none

/-- `AgentRuntime.resume`: the resolution is looked at when the run itself is resumed. -/
def resume (clock : Str → DateTime) (runId : Str) (resolution : Option Str) : Tx Run := do
  let db ← get
  forM (listDescendants db runId).reverse (resumeChild clock)
  let resolution ← orThrow (.value (str "uncertain_resolution must be retry or assume_completed"))
    (uncertainResolution? resolution)
  transaction (resumeInterrupted (clock runId) runId resolution)

/-! ## Walks over a tree -/

section Walk

variable {db : Db} {root : Str} {p : Run → Prop} [DecidablePred p] {g : Run → Run}

theorem nodup_reverse_descendants (hforest : Forest db) : (listDescendants db root).reverse.Nodup :=
  List.nodup_reverse.mpr (nodup_listDescendants hforest)

theorem row_of_mem_descendants (hforest : Forest db) :
    ∀ r ∈ (listDescendants db root).reverse, r ∈ db.runs.rows := fun _ hr =>
  ((mem_listDescendants hforest).mp (List.mem_reverse.mp hr)).1

theorem mem_ids_listDescendants (hforest : Forest db) {id : Str} {r : Run} (hr : db.run? id = some r) :
    r.id ∈ (listDescendants db root).reverse.map Run.id ↔ Below db root id := by
  have hid : r.id = id := Table.key_of_get? hr
  subst hid
  rw [List.mem_map]
  constructor
  · rintro ⟨r', hr', hid⟩
    exact hid ▸ ((mem_listDescendants hforest).mp (List.mem_reverse.mp hr')).2
  · intro h
    exact ⟨r, List.mem_reverse.mpr ((mem_listDescendants hforest).mpr ⟨Table.mem_of_get? hr, h⟩), rfl⟩

/-- A walk does not touch its root. -/
theorem Walked.keepsRoot (hforest : Forest db) {done rest : List Run} {s : Db} (h : Walked p g db done s)
    (hdone : (listDescendants db root).reverse = done ++ rest) : s.run? root = db.run? root := by
  rw [h.runs]
  cases hr : db.run? root with
  | none => rfl
  | some r =>
    have hnot : ¬ Below db root root := not_below_self hforest
    refine congrArg some (if_neg fun hmem => hnot ((mem_ids_listDescendants hforest hr).mp ?_))
    rw [hdone, List.map_append]
    exact List.mem_append_left _ hmem.1

/-- A walk that rewrites changes the tree, where `g` changes what it rewrites. -/
theorem Walked.unchanged_iff (hforest : Forest db) (hg : ∀ r, p r → g r ≠ r) {done rest : List Run}
    {s : Db} (h : Walked p g db done s)
    (hdone : (listDescendants db root).reverse = done ++ rest) :
    (∀ id, InTree db root id → s.run? id = db.run? id) ↔ ∀ r ∈ done, ¬ p r := by
  have hmem : ∀ r ∈ done, r ∈ db.runs.rows ∧ Below db root r.id := fun r hr => by
    refine (mem_listDescendants hforest).mp (List.mem_reverse.mp ?_)
    rw [hdone]
    exact List.mem_append_left _ hr
  constructor
  · intro hsame r hr hp
    have hget : db.run? r.id = some r := Table.get?_of_mem (hmem r hr).1
    have hrun := hsame r.id (.inr (hmem r hr).2)
    rw [h.runs, hget, Option.map_some, walkedIn, if_pos ⟨List.mem_map.mpr ⟨r, hr, rfl⟩, hp⟩] at hrun
    exact hg r hp (Option.some.inj hrun)
  · intro hnone id _
    rw [h.runs]
    cases hr : db.run? id with
    | none => rfl
    | some r =>
      refine congrArg some (if_neg fun hwalked => ?_)
      obtain ⟨r', hr', hid⟩ := List.mem_map.mp hwalked.1
      obtain rfl := Table.eq_of_key_eq (hmem r' hr').1 (Table.mem_of_get? hr) hid
      exact hnone r' hr' hwalked.2

end Walk

/-! ## Pausing -/

/-- A run as a pause leaves it. -/
def Run.paused (now : DateTime) (r : Run) : Run :=
  { r with status := .interrupted, error := some (codeError "user_paused"), updatedAt := now }

/-- The states in which `request_pause` is allowed. -/
def Run.Pausable (now : DateTime) (r : Run) : Prop :=
  r.status = .interrupted ∨ r.status.dispatching ∨
    r.status = .waitingInput ∧ (resumeDeadline r.deadlineAt r.updatedAt now).isSome = true

section Pause

variable {db : Db} {clock : Str → DateTime} {root : Str}

theorem requestPause_dispatching {now : DateTime} {id : Str} {r : Run} (hr : db.run? id = some r)
    (h : r.status.dispatching) :
    wp (requestPause now id) (fun _ s => (∀ id', s.run? id' =
      if id' = id then some (r.paused now) else db.run? id') ∧ s.steps = db.steps)
      (fun _ _ => False) db := by
  unfold requestPause
  rw [wp_bind, wp_selectRun_of_some hr]
  have hne : r.status ≠ .interrupted := fun heq => by rw [heq] at h; exact absurd h (by decide)
  have hwaiting : r.status ≠ .waitingInput := fun heq => by rw [heq] at h; exact absurd h (by decide)
  have hmem : ¬ r.status ∉ [RunStatus.queued, .planning, .running, .waitingInput] := by
    unfold RunStatus.dispatching at h
    simp only [List.mem_cons, List.not_mem_nil, or_false] at h
    rcases h with h | h | h <;> simp [h]
  have hallowed : statusAllowed r.status .interrupted = true := by
    unfold RunStatus.dispatching at h
    simp only [List.mem_cons, List.not_mem_nil, or_false] at h
    rcases h with h | h | h <;> rw [h] <;> decide
  rw [if_neg hne, if_neg hmem, if_neg hwaiting, wp_bind, wp_orThrow_some, wp_bind]
  refine wp_mono (updateRun_run? hr hallowed) (fun _ s hs => ?_) fun _ _ h => h
  have hget : s.run? id = some (r.paused now) := (hs.1 id).trans (if_pos rfl)
  rw [wp_selectRun_of_some hget]
  exact hs

theorem requestPause_pausable {now : DateTime} {id : Str} {r : Run} (hr : db.run? id = some r)
    (h : r.Pausable now) :
    wp (requestPause now id) (fun _ s => (∀ id', id' ≠ id → s.run? id' = db.run? id') ∧
      ∃ r', s.run? id = some r' ∧ r'.status = .interrupted) (fun _ _ => False) db := by
  rcases h with h | h | ⟨h, hdeadline⟩
  · unfold requestPause
    rw [wp_bind, wp_selectRun_of_some hr, if_pos h]
    exact ⟨fun _ _ => rfl, r, hr, h⟩
  · refine wp_mono (requestPause_dispatching hr h) (fun _ s hs => ?_) fun _ _ h => h
    exact ⟨fun id' hne => (hs.1 id').trans (if_neg hne), _, (hs.1 id).trans (if_pos rfl), rfl⟩
  · obtain ⟨deadline, hdeadline⟩ := Option.isSome_iff_exists.mp hdeadline
    unfold requestPause
    rw [wp_bind, wp_selectRun_of_some hr, if_neg (by rw [h]; decide), if_neg (by rw [h]; decide),
      if_pos h, hdeadline, wp_bind, wp_orThrow_some, wp_bind]
    refine wp_mono (updateRun_run? hr (by rw [h]; rfl)) (fun _ s hs => ?_) fun _ _ h => h
    rw [wp_selectRun_of_some ((hs.1 id).trans (if_pos rfl))]
    exact ⟨fun id' hne => (hs.1 id').trans (if_neg hne), _, (hs.1 id).trans (if_pos rfl), rfl⟩

theorem requestPause_refused {now : DateTime} {id : Str} (h : ∀ r, db.run? id = some r → ¬ r.Pausable now) :
    wp (requestPause now id) (fun _ _ => False) (fun _ _ => True) db := by
  unfold requestPause
  rw [wp_bind]
  cases hr : db.run? id with
  | none => rw [wp_selectRun_of_none hr]; trivial
  | some r =>
    have hrefused := h r hr
    unfold Run.Pausable RunStatus.dispatching at hrefused
    simp only [not_or, List.mem_cons, List.not_mem_nil, or_false] at hrefused
    obtain ⟨hinterrupted, ⟨hqueued, hplanning, hrunning⟩, hwaiting⟩ := hrefused
    rw [wp_selectRun_of_some hr, if_neg hinterrupted]
    split
    · trivial
    · rename_i hmem
      have hstatus : r.status = .waitingInput := by simpa [hqueued, hplanning, hrunning] using hmem
      rw [if_pos hstatus, wp_bind]
      cases hdeadline : resumeDeadline r.deadlineAt r.updatedAt now with
      | none => trivial
      | some deadline => exact absurd ⟨hstatus, by rw [hdeadline]; rfl⟩ hwaiting

/-- The walk of a pause. -/
theorem pauseChildren_spec (hforest : Forest db) :
    wp (forM (listDescendants db root).reverse (pauseChild clock))
      (fun _ => Walked (fun r => r.status.dispatching) (fun r => r.paused (clock r.id)) db
        (listDescendants db root).reverse) (fun _ _ => False) db := by
  refine wp_mono (walk_spec (nodup_reverse_descendants hforest)
    (row_of_mem_descendants hforest) (fun _ => False) (fun item s _ hp => ?_)
    (fun item s _ hitem hp _ => ?_) fun _ _ _ _ _ h => h.elim) (fun _ _ h => h.1) ?_
  · unfold pauseChild
    rw [wp_only_neg hp]
  · unfold pauseChild
    rw [wp_only_pos hp, wp_bind, wp_transaction]
    exact wp_mono (requestPause_dispatching hitem hp) (fun _ _ h => ⟨h.2, h.1⟩) fun _ _ h => h
  · rintro _ _ ⟨_, _, _, _, _, _, h, _⟩
    exact h

/-- A pause that raises leaves the tree as it was. -/
def PauseAtomic (clock : Str → DateTime) (db : Db) (root : Str) : Prop :=
  wp (pause clock root) (fun _ _ => True)
    (fun _ s => ∀ id, InTree db root id → s.run? id = db.run? id) db

/-- **When a refused pause changes nothing**: the root can be paused, or nothing below it is
queued, planning or running. -/
theorem pause_atomic_iff (hforest : Forest db) : PauseAtomic clock db root ↔
    (∃ r, db.run? root = some r ∧ r.Pausable (clock root)) ∨
      ∀ r ∈ listDescendants db root, ¬ r.status.dispatching := by
  unfold PauseAtomic pause
  obtain ⟨_, s, hloop, hs⟩ := returns_of_wp (pauseChildren_spec hforest)
  have hroot : s.run? root = db.run? root := hs.keepsRoot hforest (List.append_nil _).symm
  rw [wp_bind, wp_get, wp_bind, wp_of_ok hloop, wp_transaction]
  by_cases hpausable : ∃ r, db.run? root = some r ∧ r.Pausable (clock root)
  · obtain ⟨r, hr, h⟩ := hpausable
    refine iff_of_true ?_ (.inl ⟨r, hr, h⟩)
    exact wp_mono (requestPause_pausable (hroot.trans hr) h) (fun _ _ _ => trivial) fun _ _ h => h.elim
  · have hrefused := @requestPause_refused s (clock root) root fun r hr h =>
      hpausable ⟨r, hroot ▸ hr, h⟩
    obtain ⟨e, s', hraise, -⟩ := raises_of_wp hrefused
    rw [wp_of_error hraise, or_iff_right hpausable]
    rw [hs.unchanged_iff hforest (fun r hp heq => ?_) (List.append_nil _).symm]
    · simp only [List.mem_reverse]
    · rw [← heq] at hp
      exact absurd hp (show ¬ RunStatus.interrupted.dispatching by decide)

end Pause

/-! ## Resuming -/

/-- A run as a resume leaves it. -/
def Run.resumed (deadline now : DateTime) (r : Run) : Run :=
  { r with
    status := .queued, error := none, cancelRequested := false, deadlineAt := deadline
    updatedAt := now }

/-- The descendants a resume reaches: interrupted, and no effect of theirs is uncertain. -/
def Resumes (db : Db) (r : Run) : Prop := r.status = .interrupted ∧ hasUncertain db r.id = false

instance (db : Db) : DecidablePred (Resumes db) := fun _ => by unfold Resumes; infer_instance

/-- The time a resume adds is past the last year. -/
def Run.Overflows (now : DateTime) (r : Run) : Prop :=
  resumeDeadline r.deadlineAt r.updatedAt now = none

/-- The run and action key of every step, as a resolution leaves them. -/
def settledKeys (db : Db) (runId : Str) : UncertainResolution → List (Str × Str)
  | .retry => db.steps.rows.map fun s => (s.runId,
      if s.runId = runId && s.status = .uncertain then s.actionKey ++ str ":uncertain:" ++ s.id
      else s.actionKey)
  | .assumeCompleted => db.steps.rows.map fun s => (s.runId, s.actionKey)

/-- The uncertain steps of a run can be settled: without a resolution there must be none, and a
resolution must leave the action keys unique. -/
def StepsSettle (db : Db) (runId : Str) : Option UncertainResolution → Prop
  | none => hasUncertain db runId = false
  | some resolution => (settledKeys db runId resolution).Nodup

/-- The states in which the root of a resume is resumed. -/
def RootResumes (clock : Str → DateTime) (db : Db) (root : Str) (resolution : Option Str) : Prop :=
  ∃ known r, uncertainResolution? resolution = some known ∧ db.run? root = some r ∧
    r.status = .interrupted ∧ ¬ r.Overflows (clock root) ∧ StepsSettle db root known

section Resume

variable {db : Db} {clock : Str → DateTime} {root : Str}

theorem filter_uncertain_isEmpty (runId : Str) :
    (db.steps.rows.filter fun s => s.runId = runId && s.status = .uncertain).isEmpty =
      !hasUncertain db runId := by
  unfold hasUncertain
  rw [Bool.eq_iff_iff, List.isEmpty_iff, List.filter_eq_nil_iff, Bool.not_eq_true',
    List.any_eq_false]

/-- What the check of the unique action keys decides. -/
theorem updateSteps_of_keys {p : RunStep → Bool} {f : RunStep → RunStep} {hf : ∀ s, (f s).id = s.id}
    {keys : List (Str × Str)}
    (hkeys : (db.steps.update p f hf).rows.map (fun s => (s.runId, s.actionKey)) = keys) :
    (keys.Nodup → wp (updateSteps p f hf) (fun _ s => s.runs = db.runs) (fun _ _ => False) db) ∧
      (¬ keys.Nodup → wp (updateSteps p f hf) (fun _ _ => False) (fun _ _ => True) db) := by
  constructor
  · intro h
    unfold updateSteps
    rw [wp_bind, wp_get]
    dsimp only
    rw [hkeys, if_pos h]
    rfl
  · intro h
    unfold updateSteps
    rw [wp_bind, wp_get]
    dsimp only
    rw [hkeys, if_neg h]
    trivial

theorem keys_retry (now : DateTime) (runId : Str) :
    (db.steps.update (fun s => s.runId = runId && s.status = .uncertain) (fun s => { s with
      status := .failed, actionKey := s.actionKey ++ str ":uncertain:" ++ s.id
      error := some (codeError "uncertain_effect_retry_authorized")
      finishedAt := some now }) fun _ => rfl).rows.map (fun s => (s.runId, s.actionKey)) =
      settledKeys db runId .retry := by
  unfold settledKeys
  rw [Table.rows_update, List.map_map]
  refine List.map_congr_left fun s _ => ?_
  show ((if _ then _ else s : RunStep).runId, (if _ then _ else s : RunStep).actionKey) = _
  split <;> rfl

theorem keys_assumeCompleted (now : DateTime) (runId : Str) :
    (db.steps.update (fun s => s.runId = runId && s.status = .uncertain) (fun s => { s with
      status := .completed
      output := some [(str "assumed_completed", .bool true), (str "user_resolved", .bool true)]
      finishedAt := some now }) fun _ => rfl).rows.map (fun s => (s.runId, s.actionKey)) =
      settledKeys db runId .assumeCompleted := by
  unfold settledKeys
  rw [Table.rows_update, List.map_map]
  refine List.map_congr_left fun s _ => ?_
  show ((if _ then _ else s : RunStep).runId, (if _ then _ else s : RunStep).actionKey) = _
  split <;> rfl

/-- What settling the uncertain steps decides. -/
theorem settleUncertain_spec (now : DateTime) (runId : Str) (resolution : Option UncertainResolution) :
    (StepsSettle db runId resolution → wp (settleUncertain now runId
        (db.steps.rows.filter fun s => s.runId = runId && s.status = .uncertain) resolution)
      (fun _ s => s.runs = db.runs) (fun _ _ => False) db) ∧
    (¬ StepsSettle db runId resolution → wp (settleUncertain now runId
        (db.steps.rows.filter fun s => s.runId = runId && s.status = .uncertain) resolution)
      (fun _ _ => False) (fun _ _ => True) db) := by
  rcases resolution with _ | _ | _
  · unfold settleUncertain StepsSettle
    rw [filter_uncertain_isEmpty]
    constructor
    · intro h
      rw [h, if_pos (by decide)]
      rfl
    · intro h
      rw [Bool.not_eq_false] at h
      rw [h, if_neg (by decide)]
      trivial
  · exact updateSteps_of_keys (keys_retry now runId)
  · exact updateSteps_of_keys (keys_assumeCompleted now runId)

/-- A resume that is refused. -/
theorem resumeInterrupted_refused {now : DateTime} {id : Str} {resolution : Option UncertainResolution}
    (h : ∀ r, db.run? id = some r → r.status = .interrupted → ¬ r.Overflows now →
      ¬ StepsSettle db id resolution) :
    wp (resumeInterrupted now id resolution) (fun _ _ => False) (fun _ _ => True) db := by
  unfold resumeInterrupted
  rw [wp_bind]
  cases hr : db.run? id with
  | none => rw [wp_selectRun_of_none hr]; trivial
  | some r =>
    rw [wp_selectRun_of_some hr]
    split
    · trivial
    rename_i hinterrupted
    rw [wp_bind, wp_orThrow]
    refine ⟨fun deadline hdeadline => ?_, fun _ => trivial⟩
    rw [wp_bind, wp_get, wp_bind]
    have hsteps := h r hr (not_not.mp hinterrupted) fun ho => by
      rw [show resumeDeadline r.deadlineAt r.updatedAt now = none from ho] at hdeadline
      cases hdeadline
    exact wp_mono ((settleUncertain_spec now id resolution).2 hsteps) (fun _ _ h => h.elim)
      fun _ _ _ => trivial

/-- A resume that is accepted. -/
theorem resumeInterrupted_accepted {now : DateTime} {id : Str} {r : Run}
    {resolution : Option UncertainResolution} (hr : db.run? id = some r)
    (hstatus : r.status = .interrupted) (hdeadline : ¬ r.Overflows now)
    (hsteps : StepsSettle db id resolution) :
    wp (resumeInterrupted now id resolution) (fun _ _ => True) (fun _ _ => False) db := by
  obtain ⟨deadline, hsome⟩ := Option.ne_none_iff_exists'.mp hdeadline
  unfold resumeInterrupted
  rw [wp_bind, wp_selectRun_of_some hr, if_neg (not_not.mpr hstatus), hsome, wp_bind, wp_orThrow_some,
    wp_bind, wp_get, wp_bind]
  refine wp_mono ((settleUncertain_spec now id resolution).1 hsteps) (fun _ s hs => ?_) fun _ _ h => h
  have hr' : s.run? id = some r := by rw [Db.run?, hs]; exact hr
  rw [wp_bind]
  refine wp_mono (updateRun_run? hr' (by rw [hstatus]; rfl)) (fun _ t ht => ?_) fun _ _ h => h
  rw [wp_selectRun_of_some ((ht.1 id).trans (if_pos rfl))]
  trivial

/-- A descendant that is resumed. -/
theorem resumeInterrupted_child {now : DateTime} {id : Str} {r : Run} (hr : db.run? id = some r)
    (hstatus : r.status = .interrupted) (hdeadline : ¬ r.Overflows now)
    (hsteps : hasUncertain db id = false) :
    wp (resumeInterrupted now id none) (fun _ s => s.steps = db.steps ∧ ∀ id', s.run? id' =
      if id' = id then
        some (r.resumed ((resumeDeadline r.deadlineAt r.updatedAt now).getD r.deadlineAt) now)
      else db.run? id') (fun _ _ => False) db := by
  obtain ⟨deadline, hsome⟩ := Option.ne_none_iff_exists'.mp hdeadline
  unfold resumeInterrupted
  rw [wp_bind, wp_selectRun_of_some hr, if_neg (not_not.mpr hstatus), hsome, wp_bind, wp_orThrow_some,
    wp_bind, wp_get, wp_bind]
  unfold settleUncertain
  rw [filter_uncertain_isEmpty, hsteps, if_pos (by decide), wp_pure, wp_bind]
  refine wp_mono (updateRun_run? hr (by rw [hstatus]; rfl)) (fun _ t ht => ?_) fun _ _ h => h
  rw [wp_selectRun_of_some ((ht.1 id).trans (if_pos rfl))]
  exact ⟨ht.2, ht.1⟩

/-- The walk of a resume, up to the first descendant whose deadline overflows. -/
theorem resumeChildren_spec (hforest : Forest db) :
    let resumed := fun r : Run => r.resumed
      ((resumeDeadline r.deadlineAt r.updatedAt (clock r.id)).getD r.deadlineAt) (clock r.id)
    wp (forM (listDescendants db root).reverse (resumeChild clock))
      (fun _ s => Walked (Resumes db) resumed db (listDescendants db root).reverse s ∧
        ∀ x ∈ (listDescendants db root).reverse, Resumes db x → ¬ x.Overflows (clock x.id))
      (fun _ s => ∃ done item rest, (listDescendants db root).reverse = done ++ item :: rest ∧
        Walked (Resumes db) resumed db done s ∧ Resumes db item ∧ item.Overflows (clock item.id) ∧
        ∀ x ∈ done, Resumes db x → ¬ x.Overflows (clock x.id)) db := by
  intro resumed
  have huncertain : ∀ (s : Db) id, s.steps = db.steps → hasUncertain s id = hasUncertain db id :=
    fun s id h => by unfold hasUncertain; rw [h]
  refine walk_spec (nodup_reverse_descendants hforest)
    (row_of_mem_descendants hforest) (fun r => r.Overflows (clock r.id)) (fun item s hsteps hp => ?_) (fun item s hsteps hitem hp hfits => ?_)
    fun item s hsteps hitem hp hoverflows => ?_
  · unfold resumeChild
    by_cases hstatus : item.status = .interrupted
    · rw [wp_only_pos hstatus, wp_bind, wp_get, wp_only_neg]
      rw [huncertain s _ hsteps]
      exact fun h => hp ⟨hstatus, h⟩
    · rw [wp_only_neg hstatus]
  · have hnone : hasUncertain s item.id = false := (huncertain s _ hsteps).trans hp.2
    unfold resumeChild
    rw [wp_only_pos hp.1, wp_bind, wp_get, wp_only_pos hnone, wp_bind, wp_transaction]
    exact wp_mono (resumeInterrupted_child hitem hp.1 hfits hnone) (fun _ _ h => h) fun _ _ h => h
  · have hnone : hasUncertain s item.id = false := (huncertain s _ hsteps).trans hp.2
    unfold resumeChild
    rw [wp_only_pos hp.1, wp_bind, wp_get, wp_only_pos hnone, wp_bind, wp_transaction]
    refine wp_mono (resumeInterrupted_refused fun r hr _ hfits => ?_) (fun _ _ h => h) fun _ _ _ => rfl
    obtain rfl := Option.some.inj (hitem.symm.trans hr)
    exact absurd hoverflows hfits

/-- A resume that raises leaves the tree as it was. -/
def ResumeAtomic (clock : Str → DateTime) (db : Db) (root : Str) (resolution : Option Str) : Prop :=
  wp (resume clock root resolution) (fun _ _ => True)
    (fun _ s => ∀ id, InTree db root id → s.run? id = db.run? id) db

/-- The descendants a resume reaches, in the order it reaches them. -/
def resumedDescendants (db : Db) (root : Str) : List Run :=
  (listDescendants db root).reverse.filter fun r => Resumes db r

theorem stepsSettle_congr {s : Db} (h : s.steps = db.steps) (known : Option UncertainResolution) :
    StepsSettle s root known ↔ StepsSettle db root known := by
  rcases known with _ | _ | _ <;> simp only [StepsSettle, hasUncertain, settledKeys, h]

/-- The root of a resume, after the walk. -/
theorem resumeRoot_spec {s : Db} (hroot : s.run? root = db.run? root) (hsteps : s.steps = db.steps)
    (resolution : Option Str) {E : Error → Db → Prop} (hE : ∀ e e' t, E e t ↔ E e' t) :
    wp (do
        let known ← orThrow (.value (str "uncertain_resolution must be retry or assume_completed"))
          (uncertainResolution? resolution)
        transaction (resumeInterrupted (clock root) root known) : Tx Run) (fun _ _ => True) E s ↔
      RootResumes clock db root resolution ∨ E .type s := by
  rw [wp_bind]
  cases hknown : uncertainResolution? resolution with
  | none =>
    rw [wp_orThrow_none, hE _ .type]
    refine (or_iff_right fun h => ?_).symm
    obtain ⟨known, _, h, -⟩ := h
    rw [hknown] at h
    exact absurd h nofun
  | some known =>
    rw [wp_orThrow_some, wp_transaction]
    by_cases hresumes : RootResumes clock db root resolution
    · obtain ⟨known', r, hknown', hr, hstatus, hfits, hsettle⟩ := hresumes
      obtain rfl := Option.some.inj (hknown.symm.trans hknown')
      refine iff_of_true ?_ (.inl ⟨known, r, hknown, hr, hstatus, hfits, hsettle⟩)
      exact wp_mono (resumeInterrupted_accepted (hroot.trans hr) hstatus hfits
        ((stepsSettle_congr hsteps known).mpr hsettle)) (fun _ _ h => h) fun _ _ h => h.elim
    · have hrefused : wp (resumeInterrupted (clock root) root known) (fun _ _ => False)
          (fun _ _ => True) s := resumeInterrupted_refused fun r hr hstatus hfits hsettle =>
        hresumes ⟨known, r, hknown, hroot ▸ hr, hstatus, hfits,
          (stepsSettle_congr hsteps known).mp hsettle⟩
      obtain ⟨e, t, hraise, -⟩ := raises_of_wp hrefused
      rw [wp_of_error hraise, or_iff_right hresumes, hE]

/-- **When a refused resume changes nothing**: nothing below the root is resumed, or the first
deadline overflows, or nothing is refused. -/
theorem resume_atomic_iff (hforest : Forest db) (resolution : Option Str) :
    ResumeAtomic clock db root resolution ↔
      resumedDescendants db root = [] ∨
      (∃ r rest, resumedDescendants db root = r :: rest ∧ r.Overflows (clock r.id)) ∨
      (∀ r ∈ resumedDescendants db root, ¬ r.Overflows (clock r.id)) ∧
        RootResumes clock db root resolution := by
  have hspec := @resumeChildren_spec db clock root hforest
  have hmem : ∀ r, r ∈ resumedDescendants db root ↔
      r ∈ (listDescendants db root).reverse ∧ Resumes db r := fun r => by
    unfold resumedDescendants
    rw [List.mem_filter, decide_eq_true_eq]
  have hmoves : ∀ r, Resumes db r → r.resumed
      ((resumeDeadline r.deadlineAt r.updatedAt (clock r.id)).getD r.deadlineAt) (clock r.id) ≠ r := by
    intro r hr heq
    have hstatus : RunStatus.queued = r.status := congrArg Run.status heq
    rw [hr.1] at hstatus
    exact absurd hstatus (by decide)
  unfold ResumeAtomic resume
  rw [wp_bind, wp_get, wp_bind]
  cases hrun : (forM (listDescendants db root).reverse (resumeChild clock) : Tx PUnit).run db with
  | ok _ s =>
    rw [wp_of_ok hrun] at hspec ⊢
    obtain ⟨hwalked, hfits⟩ := hspec
    have hnone : (∀ id, InTree db root id → s.run? id = db.run? id) ↔ resumedDescendants db root = [] := by
      rw [hwalked.unchanged_iff hforest hmoves (List.append_nil _).symm]
      unfold resumedDescendants
      rw [List.filter_eq_nil_iff]
      simp only [decide_eq_true_eq]
    have hfits' : ∀ r ∈ resumedDescendants db root, ¬ r.Overflows (clock r.id) := fun r hr =>
      hfits r ((hmem r).mp hr).1 ((hmem r).mp hr).2
    rw [resumeRoot_spec (hwalked.keepsRoot hforest (List.append_nil _).symm) hwalked.steps resolution
      fun _ _ _ => Iff.rfl, hnone]
    constructor
    · rintro (h | h)
      · exact .inr (.inr ⟨hfits', h⟩)
      · exact .inl h
    · rintro (h | ⟨r, rest, heq, hover⟩ | ⟨-, h⟩)
      · exact .inr h
      · exact absurd hover (hfits' r (heq ▸ List.mem_cons_self))
      · exact .inl h
  | error e s =>
    rw [wp_of_error hrun] at hspec ⊢
    obtain ⟨done, item, rest, hlist, hwalked, hitem, hover, hdone⟩ := hspec
    rw [hwalked.unchanged_iff hforest hmoves hlist]
    have hresumed : resumedDescendants db root =
        done.filter (fun r => Resumes db r) ++ item :: rest.filter (fun r => Resumes db r) := by
      unfold resumedDescendants
      rw [hlist, List.filter_append, List.filter_cons, if_pos (decide_eq_true hitem)]
    rw [hresumed]
    constructor
    · intro hnone
      have hnil : done.filter (fun r => Resumes db r) = [] :=
        List.filter_eq_nil_iff.mpr fun r hr => by simpa using hnone r hr
      rw [hnil]
      exact .inr (.inl ⟨item, _, rfl, hover⟩)
    · rintro (h | ⟨r, rest', heq, hover'⟩ | ⟨h, -⟩)
      · exact absurd h (by simp)
      · -- the first that is resumed overflows, so it is not one that was walked over
        intro x hx hxp
        have hfilter : x ∈ done.filter fun r => Resumes db r :=
          List.mem_filter.mpr ⟨hx, decide_eq_true hxp⟩
        cases hd : done.filter fun r => Resumes db r with
        | nil => rw [hd] at hfilter; exact absurd hfilter List.not_mem_nil
        | cons y ys =>
          rw [hd, List.cons_append] at heq
          obtain ⟨rfl, -⟩ := List.cons_eq_cons.mp heq
          obtain ⟨hy, hyp⟩ := List.mem_filter.mp (hd ▸ List.mem_cons_self : y ∈ done.filter _)
          exact hdone y hy (of_decide_eq_true hyp) hover'
      · exact absurd hover (h item (by simp))

end Resume

end AI2Apps.Agents
