import AI2Apps.Agents.PausedTrees

/-!
# Deadlines of suspended runs

A deadline is frozen while a run waits: each operation that wakes a run adds the
time since its last update.  That time is the suspension only when the last update
was its start and the run is suspended at all.  A run that is resumed with its
question still open is answered while it runs, and gains the time it ran.

* `Ledger`: how long a run was suspended, kept beside the tables.
* `Balanced`: the deadline and the last update agree with the ledger.
* `Harmless`: the events that keep them so.
* `deadline_conserved`: a deadline moves by the suspended time and by nothing else.
-/

namespace AI2Apps.Agents

open Clock Faults

/-! ## The suspended time -/

/-- The run waits, is interrupted, or is queued while the runtime is stopped. -/
def suspendedIn (up : Bool) (status : RunStatus) : Bool :=
  status ∈ [.waitingInput, .waitingCapability, .interrupted] || (status = .queued && !up)

/-- How long one run was suspended. -/
structure Ledger where
  /-- The runtime is running. -/
  up : Bool
  /-- The time of the last event. -/
  last : DateTime
  /-- The deadline `create_run` set. -/
  created : Option DateTime
  /-- The length of the interval that has not ended. -/
  pending : ℕ
  /-- The total length of the intervals that have ended. -/
  settled : ℕ

/-- The length of the current interval at a later time. -/
def Ledger.elapsed (L : Ledger) (status : RunStatus) (now : DateTime) : ℕ :=
  L.pending + if suspendedIn L.up status then now.micros - L.last.micros else 0

/-- An event: the run before and after it say whether an interval goes on, ends or begins. -/
def Ledger.record (L : Ledger) (up : Bool) (now : DateTime) : Option Run → Option Run → Ledger
  | some r, some r' =>
    if r'.status = r.status && suspendedIn up r'.status then
      { L with up := up, last := now, pending := L.elapsed r.status now }
    else
      { L with up := up, last := now, pending := 0, settled := L.settled + L.elapsed r.status now }
  | none, some r' =>
    { L with up := up, last := now, created := some r'.deadlineAt, pending := 0, settled := 0 }
  | _, none => { L with up := up, last := now }

/-- The time an event reads. -/
def Event.now? : Event → Option DateTime
  | .call op => some op.now
  | .registerWait now .. => some now
  | .releaseWait _ => none

/-- The event raises nothing. -/
def Event.returns (env : Env) (db : Db) (event : Event) : Bool :=
  match (transaction (event.exec env)).run db with
  | .ok _ _ => true
  | .error _ _ => false

/-- Whether the runtime runs after an event: it runs again when the recovery of its start returns. -/
def Event.up (env : Env) (db : Db) (up : Bool) : Event → Bool
  | .call (.suspendQueuedForShutdown _) => false
  | .call (.recoverInterrupted now) =>
    up || (Event.call (.recoverInterrupted now)).returns env db
  | _ => up

/-- The tables and the ledger of one run. -/
structure Account where
  db : Db
  ledger : Ledger

def Account.next (env : Env) (id : Str) (a : Account) (event : Event) : Account where
  db := a.db.next env event
  ledger := a.ledger.record (event.up env a.db a.ledger.up) (event.now?.getD a.ledger.last)
    (a.db.run? id) ((a.db.next env event).run? id)

def Account.run (env : Env) (id : Str) (a : Account) (events : List Event) : Account :=
  events.foldl (Account.next env id) a

/-- Every event of the history meets a condition on the state it finds. -/
def Account.Every (env : Env) (id : Str) (C : Account → Event → Prop) : Account → List Event → Prop
  | _, [] => True
  | a, event :: events => C a event ∧ Account.Every env id C (a.next env id event) events

instance Account.decidableEvery {env : Env} {id : Str} {C : Account → Event → Prop}
    [∀ a event, Decidable (C a event)] : ∀ a events, Decidable (Account.Every env id C a events)
  | _, [] => isTrue trivial
  | a, event :: events =>
    have : Decidable (Account.Every env id C (a.next env id event) events) := decidableEvery _ _
    inferInstanceAs (Decidable (C a event ∧ Account.Every env id C (a.next env id event) events))

/-- Time does not run back. -/
def Account.InOrder (a : Account) (event : Event) : Prop :=
  ∀ now ∈ event.now?, a.ledger.last.micros ≤ now.micros

instance Account.decidableInOrder (a : Account) (event : Event) : Decidable (a.InOrder event) :=
  inferInstanceAs (Decidable (∀ now ∈ event.now?, a.ledger.last.micros ≤ now.micros))

/-- The deadline is the one it began with, moved by the suspended time. -/
def Account.Conserves (a : Account) (id : Str) : Prop :=
  ∀ r, a.db.run? id = some r → ∃ created, a.ledger.created = some created ∧
    r.deadlineAt.micros = created.micros + a.ledger.settled

/-! ## Balanced runs -/

/-- A shutdown marked the run. -/
def Run.Stopped (r : Run) : Prop :=
  (errorCode r.error).any (fun code => code.pyEq (.str (str "runtime_stopped"))) = true

/-- A shutdown would mark the run. -/
def Run.Unmarked (r : Run) : Prop :=
  (r.error.isNone || (errorCode r.error).any fun code =>
    !code.isNull && !code.pyEq (.str (str "runtime_stopped"))) = true

theorem Run.Unmarked.not_stopped {r : Run} (h : r.Unmarked) : ¬ r.Stopped := by
  unfold Run.Unmarked at h
  unfold Run.Stopped
  cases herror : r.error with
  | none => simp [errorCode]
  | some error =>
    rw [herror, Option.isNone_some, Bool.false_or] at h
    cases hcode : errorCode (some error) with
    | none => rw [hcode] at h; exact absurd h (by simp)
    | some code =>
      rw [hcode, Option.any_some, Bool.and_eq_true] at h
      simpa using h.2

/-- What the ledger knows of a run. -/
structure Balanced (L : Ledger) (r : Run) : Prop where
  conserved : ∃ created, L.created = some created ∧ r.deadlineAt.micros = created.micros + L.settled
  suspended : suspendedIn L.up r.status = true → r.updatedAt.micros + L.pending = L.last.micros
  active : suspendedIn L.up r.status = false → L.pending = 0
  stopped : r.status = .queued → L.up = false → r.Stopped
  unmarked : r.status.terminal = false → (r.status = .queued → L.up = true) → r.Unmarked
  cancel : r.status.terminal = false → r.cancelRequested = false

theorem suspendedIn_queued {up : Bool} : suspendedIn up .queued = !up := by
  cases up <;> rfl

theorem suspendedIn_of_ne {up up' : Bool} {status : RunStatus} (h : status ≠ .queued) :
    suspendedIn up status = suspendedIn up' status := by
  cases status <;> first | rfl | exact absurd rfl h

section Balanced

variable {L : Ledger} {r r' : Run} {now : DateTime} {up : Bool}

theorem Ledger.record_some : L.record up now (some r) (some r') =
    if r'.status = r.status && suspendedIn up r'.status then
      { L with up := up, last := now, pending := L.elapsed r.status now }
    else
      { L with up := up, last := now, pending := 0, settled := L.settled + L.elapsed r.status now } :=
  rfl

/-- The interval that has not ended, for a balanced run. -/
theorem Balanced.elapsed (h : Balanced L r) (hnow : L.last.micros ≤ now.micros) :
    L.elapsed r.status now =
      if suspendedIn L.up r.status then now.micros - r.updatedAt.micros else 0 := by
  unfold Ledger.elapsed
  split
  · rename_i hsuspended
    have hmark := h.suspended hsuspended
    omega
  · rename_i hactive
    rw [h.active (by simpa using hactive)]

/-- A run that an event leaves as it is. -/
theorem Balanced.stays (h : Balanced L r) (hnow : L.last.micros ≤ now.micros)
    (hup : r.status = .queued → up = L.up) : Balanced (L.record up now (some r) (some r)) r := by
  have hsame : suspendedIn up r.status = suspendedIn L.up r.status := by
    by_cases hqueued : r.status = .queued
    · rw [hup hqueued]
    · exact suspendedIn_of_ne hqueued
  have helapsed := h.elapsed hnow
  have hstopped : r.status = .queued → up = false → r.Stopped := fun hq hdown =>
    h.stopped hq ((hup hq).symm.trans hdown)
  have hunmarked : r.status.terminal = false → (r.status = .queued → up = true) → r.Unmarked :=
    fun ht hq => h.unmarked ht fun hqueued => (hup hqueued).symm.trans (hq hqueued)
  rw [Ledger.record_some]
  split
  · rename_i hgoes
    simp only [decide_true, Bool.true_and] at hgoes
    rw [hsame] at hgoes
    rw [hgoes, if_pos rfl] at helapsed
    have hmark := h.suspended hgoes
    refine ⟨h.conserved, fun _ => ?_, fun hactive => ?_, hstopped, hunmarked, h.cancel⟩
    · show r.updatedAt.micros + L.elapsed r.status now = now.micros
      omega
    · exact absurd ((hsame.trans hgoes).symm.trans hactive) (by decide)
  · rename_i hends
    simp only [decide_true, Bool.true_and, Bool.not_eq_true] at hends
    have hactive := hsame.symm.trans hends
    rw [hactive] at helapsed
    obtain ⟨created, hcreated, hdeadline⟩ := h.conserved
    refine ⟨⟨created, hcreated, ?_⟩, fun hsuspended => ?_, fun _ => rfl, hstopped, hunmarked, h.cancel⟩
    · show r.deadlineAt.micros = created.micros + (L.settled + L.elapsed r.status now)
      rw [helapsed]
      exact hdeadline
    · exact absurd (hends.symm.trans hsuspended) (by decide)

/-- **A run that an event moves** gets the time it was suspended, and is marked with the time of
the event when it is suspended from then on. -/
theorem Balanced.moves (h : Balanced L r) (hnow : L.last.micros ≤ now.micros)
    (hdeadline : r'.deadlineAt.micros = r.deadlineAt.micros +
      if suspendedIn L.up r.status then now.micros - r.updatedAt.micros else 0)
    (hbegins : suspendedIn up r'.status = true → r'.updatedAt = now ∧
      (r'.status = r.status → suspendedIn L.up r.status = false))
    (hstopped : r'.status = .queued → up = false → r'.Stopped)
    (hunmarked : r'.status.terminal = false → (r'.status = .queued → up = true) → r'.Unmarked)
    (hcancel : r'.status.terminal = false → r'.cancelRequested = false) :
    Balanced (L.record up now (some r) (some r')) r' := by
  have helapsed := h.elapsed hnow
  obtain ⟨created, hcreated, hconserved⟩ := h.conserved
  rw [Ledger.record_some]
  split
  · -- the interval begins with the event: nothing was pending
    rename_i hgoes
    simp only [Bool.and_eq_true, decide_eq_true_eq] at hgoes
    obtain ⟨hmark, hbefore⟩ := hbegins hgoes.2
    rw [hbefore hgoes.1] at helapsed hdeadline
    refine ⟨⟨created, hcreated, ?_⟩, fun _ => ?_, fun hactive => ?_, hstopped, hunmarked, hcancel⟩
    · exact hdeadline.trans hconserved
    · show r'.updatedAt.micros + L.elapsed r.status now = now.micros
      rw [helapsed, hmark]
      rfl
    · exact absurd (hgoes.2.symm.trans hactive) (by decide)
  · refine ⟨⟨created, hcreated, ?_⟩, fun hsuspended => ?_, fun _ => rfl, hstopped, hunmarked, hcancel⟩
    · show r'.deadlineAt.micros = created.micros + (L.settled + L.elapsed r.status now)
      rw [helapsed, hdeadline, hconserved, Nat.add_assoc]
    · show r'.updatedAt.micros + 0 = now.micros
      rw [(hbegins hsuspended).1]
      rfl

theorem Balanced.unmarked_of_active (h : Balanced L r) (hactive : suspendedIn L.up r.status = false)
    (hopen : r.status.terminal = false) : r.Unmarked := by
  refine h.unmarked hopen fun hqueued => ?_
  rw [hqueued, suspendedIn_queued, Bool.not_eq_false'] at hactive
  exact hactive

/-- An active run that goes on, or begins to wait. -/
theorem Balanced.active_moves (h : Balanced L r) (hnow : L.last.micros ≤ now.micros)
    (hactive : suspendedIn L.up r.status = false) (hopen : r.status.terminal = false)
    (hdeadline : r'.deadlineAt = r.deadlineAt) (hupdated : r'.updatedAt = now)
    (hcancel : r'.cancelRequested = r.cancelRequested) (hqueued : r'.status = .queued → up = true)
    (herror : r.Unmarked → r'.Unmarked) : Balanced (L.record up now (some r) (some r')) r' := by
  refine h.moves hnow ?_ (fun _ => ⟨hupdated, fun _ => hactive⟩) (fun hq hdown => ?_)
    (fun _ _ => herror (h.unmarked_of_active hactive hopen)) fun _ => hcancel.trans (h.cancel hopen)
  · rw [hactive, hdeadline]
    rfl
  · exact absurd (hdown.symm.trans (hqueued hq)) (by decide)

theorem not_suspended_of_terminal {status : RunStatus} (h : status.terminal = true) :
    suspendedIn up status = false := by
  cases status <;> first | rfl | exact absurd h (by decide)

/-- An active run that ends. -/
theorem Balanced.ends (h : Balanced L r) (hnow : L.last.micros ≤ now.micros)
    (hactive : suspendedIn L.up r.status = false) (hterminal : r'.status.terminal = true)
    (hdeadline : r'.deadlineAt = r.deadlineAt) :
    Balanced (L.record up now (some r) (some r')) r' := by
  have hopen : ¬ r'.status.terminal = false := by rw [hterminal]; decide
  refine h.moves hnow ?_ (fun hsuspended => ?_) (fun hq _ => ?_) (fun ht => absurd ht hopen)
    fun ht => absurd ht hopen
  · rw [hactive, hdeadline]
    rfl
  · exact absurd ((not_suspended_of_terminal hterminal).symm.trans hsuspended) (by decide)
  · rw [hq] at hterminal
    exact absurd hterminal (by decide)

theorem resumeDeadline_micros {deadline suspendedAt t : DateTime}
    (h : resumeDeadline deadline suspendedAt now = some t) :
    t.micros = deadline.micros + (now.micros - suspendedAt.micros) := by
  unfold resumeDeadline DateTime.add at h
  split at h
  · exact (congrArg DateTime.micros (Option.some.inj h)).symm
  · cases h

/-- A suspended run that gets its time back. -/
theorem Balanced.wakes (h : Balanced L r) (hnow : L.last.micros ≤ now.micros)
    (hsuspended : suspendedIn L.up r.status = true)
    (hdeadline : resumeDeadline r.deadlineAt r.updatedAt now = some r'.deadlineAt)
    (hupdated : r'.updatedAt = now) (hcancel : r'.cancelRequested = false) (herror : r'.Unmarked)
    (hqueued : r'.status = .queued → up = true)
    (hstatus : r'.status = r.status → suspendedIn up r'.status = false) :
    Balanced (L.record up now (some r) (some r')) r' := by
  refine h.moves hnow ?_ (fun hagain => ⟨hupdated, fun hsame => ?_⟩) (fun hq hdown => ?_)
    (fun _ _ => herror) fun _ => hcancel
  · rw [hsuspended, if_pos rfl]
    exact resumeDeadline_micros hdeadline
  · exact absurd ((hstatus hsame).symm.trans hagain) (by decide)
  · exact absurd (hdown.symm.trans (hqueued hq)) (by decide)

end Balanced

/-! ## The events -/

/-- The run is in the given state. -/
def Db.InState (db : Db) (id : Str) (status : RunStatus) : Prop :=
  (db.run? id).map Run.status = some status

/-- The run is suspended. -/
def Db.Suspends (db : Db) (up : Bool) (id : Str) : Prop :=
  ∃ r, db.run? id = some r ∧ suspendedIn up r.status = true

/-- An interaction of the run is open and overdue. -/
def Db.Overdue (db : Db) (id : Str) (now : DateTime) : Prop :=
  ∃ i ∈ db.interactions.rows, i.runId = id ∧ i.status = .pending ∧ i.deadlineAt.micros ≤ now.micros

/-- The event wakes a suspended run only where it counts the suspension, and ends or rewrites none:
an answer finds the run waiting, a stopped runtime queues nothing but what a shutdown marks, and a
restart finds no run planning or running. -/
def Harmless (env : Env) (id : Str) (db : Db) (up : Bool) : Event → Prop
  | .call op => match op with
    | .createRun _ runId .. => runId = id → db.run? id = none → up = true
    | .claimNext _ => db.InState id .queued → up = true
    | .transition _ runId move => runId = id → match move with
      | .requeue => db.InState id .running → up = true
      | .stopped false => db.InState id .running ∨ db.InState id .planning → up = false
      | .fail .. => ¬ db.Suspends up id
      | _ => True
    | .respondInteraction now leaseId runId interactionId response responseId => runId = id →
        ((Op.respondInteraction now leaseId runId interactionId response responseId).Accepts env db →
          ∀ r, db.run? id = some r → r.status.terminal = false →
            up = true ∧ suspendedIn up r.status = true) ∧
        ((Op.respondInteraction now leaseId runId interactionId response responseId).Denies env db →
          ¬ db.Suspends up id)
    | .expireInteractions now => db.InState id .waitingInput ∨ db.InState id .waitingCapability →
        ¬ db.Overdue id now
    | .requestPause _ runId => runId = id → db.InState id .queued → up = true
    | .requestCancel _ runId => runId = id → ¬ db.Suspends up id
    | .resumeInterrupted _ runId _ => runId = id → db.InState id .interrupted → up = true
    | .recoverInterrupted _ => ¬ (db.InState id .planning ∨ db.InState id .running)
    | .createStep _ _ runId actionKey _ _ _ => runId = id → db.Suspends up id →
        ∃ s ∈ db.steps.rows, s.runId = runId ∧ s.actionKey = actionKey
    | .createInteraction .. | .suspendQueuedForShutdown _ | .settleStep .. | .abandonStepForRetry ..
    | .updatePlan .. => True
  | .registerWait _ _ runId .. => runId = id → db.InState id .running → up = true
  | .releaseWait _ => True

/-! ### What a shutdown and a recovery do exactly -/

section Restarts

variable {db : Db}

/-- An update that the trigger lets through. -/
theorem updateRuns_returns {p : Run → Bool} {f : Run → Run} {hf : ∀ r, (f r).id = r.id}
    (hallowed : ∀ r ∈ db.runs.rows, p r = true → statusAllowed r.status (f r).status = true) :
    wp (updateRuns p f hf)
      (fun _ s => ∀ id, s.run? id = (db.run? id).map fun r => if p r then f r else r)
      (fun _ _ => False) db := by
  unfold updateRuns
  rw [wp_bind, wp_get]
  split
  · exact fun id => Table.get?_update db.runs p f hf id
  · rename_i hrefused
    refine hrefused (List.all_eq_true.mpr fun r hr => ?_)
    cases hp : p r with
    | true => rw [hallowed r hr hp, Bool.or_true]
    | false => rfl

/-- A queued run after a shutdown. -/
def markedRun (now : DateTime) (r : Run) : Run :=
  { r with error := some (codeError "runtime_stopped"), updatedAt := now }

/-- A shutdown marks every queued run it has not marked. -/
theorem suspendQueuedForShutdown_marks (now : DateTime) :
    wp (suspendQueuedForShutdown now) (fun _ s => ∀ id r, db.run? id = some r →
      (r.status = .queued → r.cancelRequested = false → r.Unmarked →
        s.run? id = some (markedRun now r)) ∧
      ((r.status = .queued → r.Stopped) → s.run? id = some r)) (fun _ _ => False) db := by
  refine wp_mono (updateRuns_returns fun r _ hp => ?_) (fun _ s hs id r hr => ?_) fun _ _ h => h
  · simp only [Bool.and_eq_true, decide_eq_true_eq] at hp
    show statusAllowed r.status r.status = true
    rw [hp.1.1]
    rfl
  rw [hs id, hr, Option.map_some]
  constructor
  · intro hqueued hcancel hunmarked
    refine congrArg some (if_pos ?_)
    rw [hqueued, hcancel]
    exact hunmarked
  · intro hstopped
    refine congrArg some (if_neg fun hselected => ?_)
    simp only [Bool.and_eq_true, decide_eq_true_eq] at hselected
    exact Run.Unmarked.not_stopped hselected.2 (hstopped hselected.1.1)

/-- The deadline of a run that was suspended since its last update. -/
def Run.extended (r : Run) (now : DateTime) : Option DateTime :=
  resumeDeadline r.deadlineAt r.updatedAt now

/-- A queued run after a recovery. -/
def restoredRun (now : DateTime) (r : Run) : Run :=
  { r with deadlineAt := (r.extended now).getD now, error := none, updatedAt := now }

theorem recoverSuspended_restores {now : DateTime} {run : Run} {s : Db}
    (hrun : s.run? run.id = some run) (hdeadline : run.extended now ≠ none) :
    wp (recoverSuspended now run) (fun _ t => t.steps = s.steps ∧
        ∀ id, t.run? id = if id = run.id then some (restoredRun now run) else s.run? id)
      (fun _ _ => False) s := by
  obtain ⟨deadline, hsome⟩ := Option.ne_none_iff_exists'.mp hdeadline
  unfold recoverSuspended
  rw [show resumeDeadline run.deadlineAt run.updatedAt now = some deadline from hsome, wp_bind,
    wp_orThrow_some]
  have hf : restoredRun now run = { run with deadlineAt := deadline, error := none, updatedAt := now } := by
    rw [restoredRun, hsome]
    rfl
  rw [hf]
  refine wp_mono (updateRun_run? hrun ?_) (fun _ t ht => ⟨ht.2, ht.1⟩) fun _ _ h => h
  show statusAllowed run.status run.status = true
  cases run.status <;> rfl

/-- The runs a shutdown marked, in a recovery that returns. -/
theorem recoverInterrupted_restores (now : DateTime) :
    wp (recoverInterrupted now) (fun _ s => ∀ id r, db.run? id = some r → r.status = .queued →
      r.Stopped → r.extended now ≠ none ∧ s.run? id = some (restoredRun now r))
      (fun _ _ => True) db := by
  unfold recoverInterrupted
  rw [wp_bind, wp_get, wp_bind]
  refine wp_mono (walk_spec (p := fun _ => True) (g := restoredRun now)
    ((List.Nodup.of_map _ db.runs.nodup).filter _) (fun r hr => (List.mem_filter.mp hr).1)
    (fun r => r.extended now = none) (fun _ _ _ h => absurd trivial h)
    (fun item s _ hitem _ hfails => recoverSuspended_restores hitem hfails)
    fun item s _ _ _ hfails => ?_) (fun _ s hs => ?_) fun _ _ _ => trivial
  · unfold recoverSuspended
    rw [show resumeDeadline item.deadlineAt item.updatedAt now = none from hfails, wp_bind,
      wp_orThrow_none]
  obtain ⟨hwalked, hreturned⟩ := hs
  rw [wp_bind, wp_get]
  -- the second loop works on runs that are planning or running
  refine wp_mono (forM_runs (I := fun t => ∀ id r, s.run? id = some r → r.status = .queued →
      t.run? id = some r) (E := fun _ _ => True) (fun run t ht hrun hactive => ?_) fun _ _ hr _ => hr)
    (fun _ t ht id r hr hqueued hstopped => ?_) fun _ _ _ => trivial
  · simp only [Bool.or_eq_true, decide_eq_true_eq] at hactive
    have hmoved := @recoverRun_moved ⟨fun _ => true, fun _ _ => true, fun _ => []⟩ t now t run
      (.of_runs_eq (.stay _) rfl) hrun hactive
    refine wp_mono hmoved (fun _ u hu => ⟨fun id r hr hqueued => ?_, hu.2⟩) fun _ _ _ => trivial
    by_cases hid : id = run.id
    · rw [hid] at hr
      have hsame := (ht _ r hr hqueued).symm.trans hrun
      obtain rfl := Option.some.inj hsame
      rw [hqueued] at hactive
      exact absurd hactive (by decide)
    · rw [hu.2 id hid]
      exact ht id r hr hqueued
  · have hmem : r ∈ db.runs.rows.filter fun r => r.status = .queued &&
        (errorCode r.error).any fun code => code.pyEq (.str (str "runtime_stopped")) := by
      refine List.mem_filter.mpr ⟨Table.mem_of_get? hr, ?_⟩
      rw [hqueued]
      exact hstopped
    refine ⟨hreturned r hmem trivial, ht id _ ?_ hqueued⟩
    rw [hwalked.runs, hr, Option.map_some]
    exact congrArg some (if_pos ⟨List.mem_map_of_mem hmem, trivial⟩)

end Restarts

/-! ### One event -/

section Step

variable {env : Env} {db : Db} {id : Str} {L : Ledger} {r r' : Run}

/-- A call that is neither a shutdown nor a recovery leaves the runtime as it is. -/
def Op.Steady : Op → Prop
  | .suspendQueuedForShutdown _ | .recoverInterrupted _ => False
  | _ => True

theorem inState_of_run (hr : db.run? id = some r) {status : RunStatus} (h : r.status = status) :
    db.InState id status := by
  rw [Db.InState, hr, Option.map_some, h]

theorem active_of_not_suspends {up : Bool} (hr : db.run? id = some r) (h : ¬ db.Suspends up id) :
    suspendedIn up r.status = false := by
  cases hs : suspendedIn up r.status with
  | true => exact absurd ⟨r, hr, hs⟩ h
  | false => rfl

theorem transition_balanced {now : DateTime} {move : RuntimeMove} (h : Balanced L r)
    (hr : db.run? id = some r) (hid : r.id = id) (hstatus : r.status ∈ move.expected)
    (hnow : L.last.micros ≤ now.micros)
    (hharmless : Harmless env id db L.up (.call (.transition now r.id move))) :
    Balanced (L.record L.up now (some r) (some { r with
      status := move.status, output := move.output.or r.output, error := move.error.or r.error
      startedAt := if move.status = .running then r.startedAt.or (some now) else r.startedAt
      finishedAt := if move.status.terminal then some now else r.finishedAt
      updatedAt := now })) { r with
        status := move.status, output := move.output.or r.output, error := move.error.or r.error
        startedAt := if move.status = .running then r.startedAt.or (some now) else r.startedAt
        finishedAt := if move.status.terminal then some now else r.finishedAt
        updatedAt := now } := by
  have hcondition := hharmless hid
  have hplanning : r.status = .planning ∨ r.status = .running →
      suspendedIn L.up r.status = false ∧ r.status.terminal = false := by
    rintro (h | h) <;> rw [h] <;> exact ⟨rfl, rfl⟩
  cases move with
  | start =>
    obtain ⟨hactive, hopen⟩ := hplanning (.inl (List.mem_singleton.mp hstatus))
    exact h.active_moves hnow hactive hopen rfl rfl rfl nofun fun herror => herror
  | complete output =>
    obtain ⟨hactive, -⟩ := hplanning (.inr (List.mem_singleton.mp hstatus))
    exact h.ends hnow hactive rfl rfl
  | requeue =>
    have hrunning := List.mem_singleton.mp hstatus
    obtain ⟨hactive, hopen⟩ := hplanning (.inr hrunning)
    exact h.active_moves hnow hactive hopen rfl rfl rfl
      (fun _ => hcondition (inState_of_run hr hrunning)) fun herror => herror
  | uncertain =>
    obtain ⟨hactive, hopen⟩ := hplanning (.inr (List.mem_singleton.mp hstatus))
    exact h.active_moves hnow hactive hopen rfl rfl rfl nofun fun _ => rfl
  | stopped interrupted =>
    have hrunning := List.mem_pair.mp hstatus
    obtain ⟨hactive, hopen⟩ := hplanning hrunning.symm
    cases interrupted with
    | true => exact h.active_moves hnow hactive hopen rfl rfl rfl nofun fun _ => rfl
    | false =>
      -- a cancelled activation goes back to the queue with the mark of the shutdown
      have hdown : L.up = false :=
        hcondition (hrunning.imp (inState_of_run hr) (inState_of_run hr))
      refine h.moves hnow ?_ (fun _ => ⟨rfl, fun _ => hactive⟩) (fun _ _ => rfl)
        (fun _ hup => absurd (hdown.symm.trans (hup rfl)) (by decide)) fun _ => h.cancel hopen
      rw [hactive]
      rfl
  | fail =>
    exact h.ends hnow (active_of_not_suspends hr hcondition) rfl rfl

/-- **What a harmless call does to a balanced run.** -/
theorem Moved.balanced {op : Op} (hmoved : Moved env db op r r') (hsteady : op.Steady)
    (h : Balanced L r) (hr : db.run? id = some r) (hnow : L.last.micros ≤ op.now.micros)
    (hharmless : Harmless env id db L.up (.call op))
    (hstep : ∀ now stepId actionKey kind input toolName,
      op = .createStep now stepId r.id actionKey kind input toolName →
      (∃ s ∈ db.steps.rows, s.runId = r.id ∧ s.actionKey = actionKey) → r' = r) :
    Balanced (L.record L.up op.now (some r) (some r')) r' := by
  have hid : r.id = id := Table.key_of_get? hr
  have hrunning : r.status = .running → suspendedIn L.up r.status = false ∧ r.status.terminal = false :=
    fun h => by rw [h]; exact ⟨rfl, rfl⟩
  cases hmoved with
  | stay => exact h.stays hnow fun _ => rfl
  | overdue hstatus =>
    have hup : L.up = true := hharmless (inState_of_run hr hstatus)
    refine h.ends hnow ?_ rfl rfl
    rw [hstatus, hup]
    rfl
  | claimed hstatus =>
    have hup : L.up = true := hharmless (inState_of_run hr hstatus)
    refine h.active_moves hnow ?_ ?_ rfl rfl rfl nofun fun herror => herror
    · rw [hstatus, hup]
      rfl
    · rw [hstatus]
      rfl
  | transition hstatus => exact transition_balanced h hr hid hstatus hnow hharmless
  | @asked _ _ _ kind _ _ _ _ _ _ hstatus =>
    obtain ⟨hactive, hopen⟩ := hrunning hstatus
    refine h.active_moves hnow hactive hopen rfl rfl rfl (fun hqueued => ?_) fun herror => herror
    cases kind <;> exact nomatch hqueued
  | denied hdenies => exact h.ends hnow (active_of_not_suspends hr ((hharmless hid).2 hdenies)) rfl rfl
  | answered haccepts hstatus grants hdeadline =>
    have hopen : r.status.terminal = false := by
      cases hs : r.status <;> first | rfl | exact absurd (hs ▸ hstatus) (by decide)
    obtain ⟨hup, hsuspended⟩ := (hharmless hid).1 haccepts r hr hopen
    refine h.wakes hnow hsuspended hdeadline rfl (h.cancel hopen) ?_ (fun _ => hup) fun _ => ?_
    · exact h.unmarked hopen fun _ => hup
    · rw [hup]
      rfl
  | expired hstatus hoverdue =>
    refine absurd ?_ (hharmless (hstatus.imp (inState_of_run hr) (inState_of_run hr)))
    exact hid ▸ hoverdue
  | paused hstatus =>
    have hactive : suspendedIn L.up r.status = false := by
      simp only [List.mem_cons, List.not_mem_nil, or_false] at hstatus
      rcases hstatus with hs | hs | hs
      · rw [hs, hharmless hid (inState_of_run hr hs)]
        rfl
      · rw [hs]
        rfl
      · rw [hs]
        rfl
    refine h.active_moves hnow hactive ?_ rfl rfl rfl nofun fun _ => rfl
    simp only [List.mem_cons, List.not_mem_nil, or_false] at hstatus
    rcases hstatus with hs | hs | hs <;> rw [hs] <;> rfl
  | pausedWaiting hstatus hdeadline =>
    refine h.wakes hnow ?_ hdeadline rfl (h.cancel ?_) rfl nofun fun hsame => ?_
    · rw [hstatus]
      rfl
    · rw [hstatus]
      rfl
    · exact nomatch hsame.trans hstatus
  | cancelled hstatus =>
    exact h.ends hnow (active_of_not_suspends hr (hharmless hid)) rfl rfl
  | resumed hstatus hdeadline =>
    have hup : L.up = true := hharmless hid (inState_of_run hr hstatus)
    refine h.wakes hnow ?_ hdeadline rfl rfl rfl (fun _ => hup) fun hsame => ?_
    · rw [hstatus]
      rfl
    · exact nomatch hsame.trans hstatus
  | restored | recovered | suspended => exact hsteady.elim
  | stepped currentStep =>
    cases hs : suspendedIn L.up r.status with
    | true =>
      have hsame := hstep _ _ _ _ _ _ rfl (hid ▸ hharmless hid ⟨r, hr, hs⟩)
      rw [hsame]
      exact h.stays hnow fun _ => rfl
    | false =>
      refine h.moves hnow ?_ (fun hagain => ?_) (fun hq hdown => ?_) (fun ht hup => ?_) h.cancel
      · rw [hs]
        rfl
      · exact absurd (hs.symm.trans hagain) (by decide)
      · exact h.stopped hq hdown
      · exact h.unmarked ht hup
  | planned hstatus =>
    obtain ⟨hactive, hopen⟩ := hrunning hstatus
    exact h.active_moves hnow hactive hopen rfl rfl rfl (fun hqueued => nomatch hqueued.symm.trans hstatus)
      fun herror => herror

/-- What an event leaves, or that it raised and left everything. -/
theorem next_of_wp {event : Event} {Q : Db → Prop}
    (h : wp (event.exec env) (fun _ => Q) (fun _ _ => True) db) :
    event.returns env db = true ∧ Q (db.next env event) ∨
      event.returns env db = false ∧ db.next env event = db := by
  have hwp : wp (transaction (event.exec env)) (fun _ => Q) (fun _ s => s = db) db := by
    rw [wp_transaction]
    exact wp_mono h (fun _ _ hs => hs) fun _ _ _ => rfl
  unfold wp at hwp
  unfold Event.returns Db.next final
  cases hrun : (transaction (event.exec env)).run db with
  | ok claimed s => rw [hrun] at hwp; exact .inl ⟨rfl, hwp⟩
  | error e s => rw [hrun] at hwp; exact .inr ⟨rfl, hwp⟩

variable (env) in
/-- A step that is there already is not created again. -/
theorem createStep_existing {now : DateTime} {stepId runId actionKey : Str} {kind : StepKind}
    {input : Json.Object} {toolName : Option Str}
    (hstep : ∃ s ∈ db.steps.rows, s.runId = runId ∧ s.actionKey = actionKey) :
    db.after env (.createStep now stepId runId actionKey kind input toolName) = db := by
  refine (wp_final (P := fun s => s = db)).mp ?_
  rw [wp_transaction]
  unfold Op.exec createStep
  rw [wp_bind, wp_bind, wp_get]
  split
  · rfl
  · rename_i hnone
    obtain ⟨s, hs, hrun, hkey⟩ := hstep
    have hnot := List.find?_eq_none.mp hnone s hs
    simp [hrun, hkey] at hnot

/-- A run that appears begins its account. -/
theorem balanced_new {up : Bool} {now : DateTime} (h : r.status = .queued) (herror : r.error = none)
    (hcancel : r.cancelRequested = false) (hup : up = true) :
    Balanced (L.record up now none (some r)) r := by
  have hactive : suspendedIn up r.status = false := by
    rw [h, hup]
    rfl
  refine ⟨⟨r.deadlineAt, rfl, rfl⟩, fun hs => ?_, fun _ => rfl, fun _ hdown => ?_, fun _ _ => ?_,
    fun _ => hcancel⟩
  · exact absurd (hactive.symm.trans hs) (by decide)
  · exact absurd (hdown.symm.trans hup) (by decide)
  · unfold Run.Unmarked
    rw [herror]
    rfl

variable (env) in
theorem suspend_balanced (now : DateTime) (h : Balanced L r) (hr : db.run? id = some r)
    (hnow : L.last.micros ≤ now.micros) :
    ∃ r', (db.next env (.call (.suspendQueuedForShutdown now))).run? id = some r' ∧
      Balanced (L.record false now (some r) (some r')) r' := by
  have hwp : wp ((Event.call (.suspendQueuedForShutdown now)).exec env) (fun _ s => ∀ id r,
      db.run? id = some r → (r.status = .queued → r.cancelRequested = false → r.Unmarked →
        s.run? id = some (markedRun now r)) ∧ ((r.status = .queued → r.Stopped) → s.run? id = some r))
      (fun _ _ => False) db := by
    unfold Event.exec Op.exec
    rw [wp_bind]
    exact suspendQueuedForShutdown_marks now
  have hexact : _ := (next_of_wp (wp_mono hwp (fun _ _ hs => hs) fun _ _ h => h.elim)).resolve_right
    fun hraised => ?_
  · obtain ⟨hmarked, hkept⟩ := hexact.2 id r hr
    by_cases hqueued : r.status = .queued
    · cases hup : L.up with
      | true =>
        have hopen : r.status.terminal = false := by rw [hqueued]; rfl
        have hactive : suspendedIn L.up r.status = false := by rw [hqueued, hup]; rfl
        refine ⟨_, hmarked hqueued (h.cancel hopen) (h.unmarked hopen fun _ => hup),
          h.moves hnow ?_ (fun _ => ⟨rfl, fun _ => hactive⟩) (fun _ _ => rfl) (fun _ hdown => ?_) h.cancel⟩
        · rw [hactive]
          rfl
        · exact absurd (hdown hqueued) (by decide)
      | false =>
        refine ⟨r, hkept fun hq => h.stopped hq hup, h.stays hnow fun _ => hup.symm⟩
    · exact ⟨r, hkept fun hq => absurd hq hqueued, h.stays hnow fun hq => absurd hq hqueued⟩
  · obtain ⟨hfalse, -⟩ := hraised
    obtain ⟨_, _, hrun, -⟩ := returns_of_wp ((wp_transaction (E := fun _ _ => False) _).mpr
      (wp_mono hwp (fun _ _ hs => hs) fun _ _ h => h))
    unfold Event.returns at hfalse
    rw [hrun] at hfalse
    exact nomatch hfalse

theorem recover_balanced {now : DateTime} (h : Balanced L r) (hr : db.run? id = some r)
    (hnow : L.last.micros ≤ now.micros)
    (hharmless : Harmless env id db L.up (.call (.recoverInterrupted now))) :
    ∃ r', (db.next env (.call (.recoverInterrupted now))).run? id = some r' ∧
      Balanced (L.record (Event.up env db L.up (.call (.recoverInterrupted now))) now (some r)
        (some r')) r' := by
  have hwp : wp ((Event.call (.recoverInterrupted now)).exec env) (fun _ s => ∀ id r,
      db.run? id = some r → r.status = .queued → r.Stopped →
        r.extended now ≠ none ∧ s.run? id = some (restoredRun now r)) (fun _ _ => True) db := by
    unfold Event.exec Op.exec
    rw [wp_bind]
    exact recoverInterrupted_restores now
  have hup : Event.up env db L.up (.call (.recoverInterrupted now)) =
      (L.up || (Event.call (.recoverInterrupted now)).returns env db) := rfl
  rw [hup]
  rcases next_of_wp hwp with ⟨hreturns, hexact⟩ | ⟨hraises, hsame⟩
  · rw [hreturns, Bool.or_true]
    have heffect : Effect env (.recoverInterrupted now) db (db.next env (.call (.recoverInterrupted now))) :=
      after_effect _
    obtain ⟨r', hr', hmoved⟩ := heffect.old id r hr
    by_cases hstopped : r.status = .queued ∧ r.Stopped
    · obtain ⟨hdeadline, hrestored⟩ := hexact id r hr hstopped.1 hstopped.2
      obtain ⟨deadline, hsome⟩ := Option.ne_none_iff_exists'.mp hdeadline
      have hopen : r.status.terminal = false := by rw [hstopped.1]; rfl
      -- a marked run waits for the restart, for the ledger calls it unmarked otherwise
      have hdown : L.up = false := by
        cases hL : L.up with
        | false => rfl
        | true => exact absurd hstopped.2 (h.unmarked hopen fun _ => hL).not_stopped
      refine ⟨_, hrestored, h.wakes hnow ?_ ?_ rfl (h.cancel hopen) rfl (fun _ => rfl) fun _ => ?_⟩
      · rw [hstopped.1, hdown]
        rfl
      · show resumeDeadline r.deadlineAt r.updatedAt now = some ((r.extended now).getD now)
        rw [hsome]
        exact hsome
      · show suspendedIn true r.status = false
        rw [hstopped.1]
        rfl
    · refine ⟨r', hr', ?_⟩
      cases hmoved with
      | stay =>
        refine h.stays hnow fun hqueued => ?_
        cases hL : L.up with
        | true => rfl
        | false => exact absurd ⟨hqueued, h.stopped hqueued hL⟩ hstopped
      | restored hstatus herror => exact absurd ⟨hstatus, herror⟩ hstopped
      | recovered hstatus =>
        exact absurd (hstatus.imp (inState_of_run hr) (inState_of_run hr)) hharmless
  · rw [hraises, Bool.or_false]
    exact ⟨r, by rw [hsame]; exact hr, h.stays hnow fun _ => rfl⟩

/-- A call that registers a wait moves runs as `Waits` says, or is rolled back. -/
theorem next_registerWait (env : Env) (now : DateTime) (stepId runId actionKey toolName : Str)
    (input : Json.Object) (maxSteps : ℤ) (db : Db) :
    Tracks (Waits now runId) db
        (db.next env (.registerWait now stepId runId actionKey toolName input maxSteps)) ∨
      db.next env (.registerWait now stepId runId actionKey toolName input maxSteps) = db := by
  have hwp : wp ((Event.registerWait now stepId runId actionKey toolName input maxSteps).exec env)
      (fun _ => Tracks (Waits now runId) db) (fun _ _ => True) db := by
    unfold Event.exec
    rw [wp_bind]
    exact registerWait_spec now stepId runId actionKey toolName input maxSteps
  exact (next_of_wp hwp).imp And.right And.right

/-- **What a harmless event does to a balanced run.** -/
theorem balanced_next {a : Account} {event : Event} (hr : a.db.run? id = some r)
    (h : Balanced a.ledger r) (horder : a.InOrder event)
    (hharmless : Harmless env id a.db a.ledger.up event) :
    ∃ r', (a.next env id event).db.run? id = some r' ∧ Balanced (a.next env id event).ledger r' := by
  have hnext : ∀ r', (a.db.next env event).run? id = some r' →
      Balanced (a.ledger.record (event.up env a.db a.ledger.up) (event.now?.getD a.ledger.last)
        (some r) (some r')) r' →
      ∃ r', (a.next env id event).db.run? id = some r' ∧ Balanced (a.next env id event).ledger r' := by
    intro r' hr' hbalanced
    refine ⟨r', hr', ?_⟩
    unfold Account.next
    rw [hr, hr']
    exact hbalanced
  cases event with
  | call op =>
    have hnow : a.ledger.last.micros ≤ op.now.micros := horder op.now rfl
    by_cases hsteady : op.Steady
    · have heffect : Effect env op a.db (a.db.next env (.call op)) := after_effect op
      obtain ⟨r', hr', hmoved⟩ := heffect.old id r hr
      have hup : Event.up env a.db a.ledger.up (.call op) = a.ledger.up := by
        cases op <;> first | rfl | exact hsteady.elim
      refine hnext r' hr' ?_
      rw [hup]
      refine hmoved.balanced hsteady h hr hnow hharmless fun now stepId actionKey kind input toolName
        hop hstep => ?_
      subst hop
      have hsame : a.db.next env (.call (.createStep now stepId r.id actionKey kind input toolName)) =
          a.db := createStep_existing env hstep
      rw [hsame, hr] at hr'
      exact (Option.some.inj hr').symm
    · cases op with
      | suspendQueuedForShutdown now =>
        obtain ⟨r', hr', hbalanced⟩ := suspend_balanced env now h hr hnow
        exact hnext r' hr' hbalanced
      | recoverInterrupted now =>
        obtain ⟨r', hr', hbalanced⟩ := recover_balanced h hr hnow hharmless
        exact hnext r' hr' hbalanced
      | _ => exact absurd trivial hsteady
  | registerWait now stepId runId actionKey toolName input maxSteps =>
    have hnow : a.ledger.last.micros ≤ now.micros := horder now rfl
    rcases next_registerWait env now stepId runId actionKey toolName input maxSteps a.db with
      htracks | hsame
    · obtain ⟨r', hr', hmoved⟩ := htracks.old id r hr
      refine hnext r' hr' ?_
      cases hmoved with
      | stay => exact h.stays hnow fun _ => rfl
      | waits hid hstatus =>
        have hup : a.ledger.up = true :=
          hharmless (hid.symm.trans (Table.key_of_get? hr)) (inState_of_run hr hstatus)
        refine h.active_moves hnow ?_ ?_ rfl rfl rfl (fun _ => hup) fun herror => herror
        · rw [hstatus]
          rfl
        · rw [hstatus]
          rfl
    · exact hnext r (by rw [hsame]; exact hr) (h.stays hnow fun _ => rfl)
  | releaseWait runId =>
    exact hnext r hr (h.stays le_rfl fun _ => rfl)

/-- A run that appears in an event that is harmless. -/
theorem appears_balanced {a : Account} {event : Event} (hnone : a.db.run? id = none)
    (hr : (a.next env id event).db.run? id = some r)
    (hharmless : Harmless env id a.db a.ledger.up event) :
    Balanced (a.next env id event).ledger r := by
  have hr' : (a.db.next env event).run? id = some r := hr
  cases event with
  | call op =>
    have heffect : Effect env op a.db (a.db.next env (.call op)) := after_effect op
    have hcreates := heffect.new id r hnone hr'
    cases op with
    | createRun now runId sessionId agentKey input key priority parentRunId delegation budget =>
      obtain ⟨hid, hcreated⟩ := hcreates
      have hup : a.ledger.up = true := hharmless (hid.symm.trans (Table.key_of_get? hr')) hnone
      have hbalanced : Balanced (a.ledger.record a.ledger.up now none (some r)) r :=
        balanced_new hcreated.status hcreated.error hcreated.cancelRequested hup
      unfold Account.next
      rw [hnone, hr']
      exact hbalanced
    | _ => exact hcreates.elim
  | registerWait now stepId runId actionKey toolName input maxSteps =>
    rcases next_registerWait env now stepId runId actionKey toolName input maxSteps a.db with
      htracks | hsame
    · rw [htracks.new id hnone] at hr'
      exact absurd hr' nofun
    · rw [hsame, hnone] at hr'
      exact absurd hr' nofun
  | releaseWait runId => exact absurd (hnone.symm.trans hr') nofun

end Step

/-- The tables and the ledger agree on the run. -/
def Account.Agrees (a : Account) (id : Str) : Prop :=
  ∀ r, a.db.run? id = some r → Balanced a.ledger r

theorem Account.Agrees.next {env : Env} {id : Str} {a : Account} {event : Event} (h : a.Agrees id)
    (horder : a.InOrder event) (hharmless : Harmless env id a.db a.ledger.up event) :
    (a.next env id event).Agrees id := by
  intro r' hr'
  cases hr : a.db.run? id with
  | none => exact appears_balanced hr hr' hharmless
  | some r =>
    obtain ⟨r'', hr'', hbalanced⟩ := balanced_next hr (h r hr) horder hharmless
    obtain rfl := Option.some.inj (hr'.symm.trans hr'')
    exact hbalanced

/-- **Deadlines are conserved** in every history of harmless events: the deadline is the one
`create_run` set and the length of the intervals the run was suspended in. -/
theorem deadline_conserved {env : Env} {id : Str} {a : Account} {events : List Event}
    (hnew : a.db.run? id = none) (horder : Account.Every env id Account.InOrder a events)
    (hharmless : Account.Every env id (fun a => Harmless env id a.db a.ledger.up) a events) :
    (a.run env id events).Conserves id := by
  suffices hgen : ∀ (events : List Event) (a : Account), a.Agrees id →
      Account.Every env id Account.InOrder a events →
      Account.Every env id (fun a => Harmless env id a.db a.ledger.up) a events →
      (a.run env id events).Agrees id by
    have hagrees : a.Agrees id := fun r hr => absurd (hnew.symm.trans hr) nofun
    exact fun r hr => (hgen events a hagrees horder hharmless r hr).conserved
  intro events
  induction events with
  | nil => exact fun _ h _ _ => h
  | cons event events ih =>
    intro a h ⟨hevent, horder⟩ ⟨hharm, hharmless⟩
    exact ih _ (h.next hevent hharm) horder hharmless

namespace DeadlineSample

open DenialSample

/-- An account before anything happened. -/
def opened : Account := ⟨start, ⟨true, second 0, none, 0, 0⟩⟩

/-- A running root asks the user, is paused while it waits and resumed. -/
def resumedHistory : List Event := [
  .call (.createRun (second 0) runId (str "ses_1") (str "writer") [] none 0 none [] []),
  .call (.claimNext (second 1)),
  .call (.transition (second 2) runId .start),
  .call (.createInteraction (second 3) interactionId runId (str "ask-1") .text (str "Which file?") []
    [] [] 86400),
  .call (.requestPause (second 5) runId),
  .call (.resumeInterrupted (second 8) runId none)]

/-- The question is answered while the run is running again. -/
def lateAnswer : List Event := [
  .call (.claimNext (second 9)),
  .call (.transition (second 10) runId .start),
  .call (.respondInteraction (second 20) (str "lease_1") runId interactionId [] (str "response-1"))]

/-- What the deadline has moved by is what the ledger has counted. -/
def exact (a : Account) : Bool :=
  match a.db.run? runId, a.ledger.created with
  | some run, some created => run.deadlineAt.micros = created.micros + a.ledger.settled
  | _, _ => false

theorem exact_of_conserves {a : Account} (h : a.Conserves runId)
    (hrun : (a.db.run? runId).isSome = true) : exact a = true := by
  obtain ⟨run, hrun⟩ := Option.isSome_iff_exists.mp hrun
  obtain ⟨created, hcreated, hdeadline⟩ := h run hrun
  unfold exact
  rw [hrun, hcreated]
  exact decide_eq_true hdeadline

end DeadlineSample

open DenialSample DeadlineSample in
/-- A run that waits, is paused and resumed keeps its time. -/
theorem deadline_conserved_resumed :
    (opened.run env runId resumedHistory).Conserves runId ∧
      (opened.run env runId resumedHistory).ledger.settled = 5000000 := by
  have horder : Account.Every env runId Account.InOrder opened resumedHistory := by decide +kernel
  have hup : Account.Every env runId (fun a _ => a.ledger.up = true) opened resumedHistory := by
    decide +kernel
  obtain ⟨hcreate, hclaim, -, -, hpause, hresume, -⟩ := hup
  exact ⟨deadline_conserved rfl horder ⟨fun _ _ => hcreate, fun _ => hclaim, fun _ => trivial, trivial,
    fun _ _ => hpause, fun _ _ => hresume, trivial⟩, by decide +kernel⟩

open DenialSample DeadlineSample in
/-- **An answer extends the deadline by the time the run was running**: the question stayed open
over a pause and a resume. -/
theorem running_time_added :
    Account.Every env runId Account.InOrder opened (resumedHistory ++ lateAnswer) ∧
      ¬ (opened.run env runId (resumedHistory ++ lateAnswer)).Conserves runId := by
  refine ⟨by decide +kernel, fun h => ?_⟩
  have hexact := exact_of_conserves h (by decide +kernel)
  exact absurd hexact (by decide +kernel)

end AI2Apps.Agents
