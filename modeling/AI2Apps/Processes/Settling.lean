import AI2Apps.Processes.Histories

/-!
# The end of a record without a child

A child that ended leaves a record that `_wait` has still to settle.  It learns of the exit,
waits for the readers, reads the record in a worker thread and settles it in another.  The
other tasks of the event loop come in between, and take none of these sections back.

* `Turn`, `settlingTurns`: what is left of `_wait`.
* `System.Left`, `System.Settled`: a record without a live child, and a settled one.
* `Local`, `Lingers`: what the sections of the other tasks leave alone.
* `processes_hold`: every history.
-/

namespace AI2Apps.Processes

/-! ## What is left of `_wait` -/

/-- A step of `_wait`: a section of its own, or a call of it in a worker thread. -/
inductive Turn where
  | resumes
  | works
  deriving DecidableEq

def Event.turn (id : ℕ) : Event → Option Turn
  | .resume t _ => if t = .waiter id then some .resumes else none
  | .worker t _ => if t = .waiter id then some .works else none
  | _ => none

/-- From its first section: the exit, the readers, `repository.get`, `repository.settle`. -/
def settlingTurns : List Turn := [.resumes, .resumes, .resumes, .works, .resumes, .works]

/-- The `start` of the record is over, no child of it is alive and its readers have ended. -/
structure System.Left (s : System) (id : ℕ) : Prop where
  known : (s.db.get? id).isSome = true
  started : ¬ s.Spawning id
  childless : ∀ c child, s.children c = some child → child.owner = id → child.alive = false
  drained : s.readerIs id readerDone = true

/-- The record is terminal, and no session's limit counts it. -/
structure System.Settled (s : System) (id : ℕ) : Prop where
  ended : s.db.Ended id
  uncounted : ∀ sessionId, ∀ r ∈ s.db.active sessionId, r.id ≠ id

/-- The turns that a `_wait` still has before the record is settled. -/
def Task.turns : Task → List Turn
  | ⟨.begun _, _⟩ | ⟨.slept _, _⟩ => settlingTurns
  | ⟨.exit _ _, _⟩ => [.resumes, .resumes, .works, .resumes, .works]
  | ⟨.drain _ _ _, _⟩ => [.resumes, .works, .resumes, .works]
  | ⟨.inspect _ _ _, .requested⟩ => [.works, .resumes, .works]
  | ⟨.inspect _ _ _, _⟩ => [.resumes, .works]
  | ⟨.conclude _ _ _, _⟩ => [.works]
  | _ => []

theorem turns_suffix (task : Task) : task.turns <:+ settlingTurns := by
  unfold Task.turns
  split <;> decide

variable {s s' : System} {t : TaskId} {id : ℕ} {c : ChildId} {pc : Pc} {thread : Thread}
  {a : Answer}

theorem settled_of_ended (h : s.db.Ended id) : s.Settled id := by
  refine ⟨h, fun sessionId r hr hid => ?_⟩
  obtain ⟨r', hr', hend⟩ := h
  obtain ⟨hmem, hactive⟩ := List.mem_filter.mp hr
  obtain rfl : r = r' := Option.some.inj ((Table.get?_of_mem hmem).symm.trans (hid ▸ hr'))
  simp [hend] at hactive

/-! ## What the other tasks leave alone -/

/-- Only the entry of one task changes; no child is lost or comes back to life. -/
structure Local (s s' : System) (t : TaskId) : Prop where
  tasks : ∀ u, u ≠ t → s'.tasks u = s.tasks u
  owns : ∀ id c, s.Owns id c → s'.Owns id c
  dead : ∀ c, s.isDead c = true → s'.isDead c = true

theorem Local.refl (s : System) (t : TaskId) : Local s s t :=
  ⟨fun _ _ => rfl, fun _ _ h => h, fun _ h => h⟩

theorem local_setTask (s : System) (t : TaskId) (new : Option Task) : Local s (s.setTask t new) t :=
  ⟨fun _ h => Function.update_of_ne h .., fun _ _ h => h, fun _ h => h⟩

theorem local_abort (s : System) (t : TaskId) (cancelled : Bool) :
    Local s (s.abort t cancelled) t := by
  unfold System.abort
  split
  · split <;> exact local_setTask ..
  · exact local_setTask ..

theorem local_terminateRaised (s : System) (t : TaskId) (x : Termination) (cancelled : Bool) :
    Local s (s.terminateRaised t x cancelled) t := by
  unfold System.terminateRaised
  split
  · exact local_setTask ..
  · exact local_abort ..

theorem local_signalFor (s : System) (t : TaskId) (x : Termination) (a : Answer) :
    Local s (s.signalFor t x a) t := by
  unfold System.signalFor
  split
  · exact local_setTask ..
  · rename_i c _
    split
    · exact local_setTask ..
    · split
      · exact local_terminateRaised ..
      · have hg := gentle_signal s c t ⟨.grace x, .idle⟩
        exact ⟨fun u h => Function.update_of_ne h .., fun _ _ h => hg.owns h, fun _ h => hg.isDead h⟩

theorem local_graceOver (s : System) (t : TaskId) (x : Termination) (a : Answer) :
    Local s (s.graceOver t x a) t := by
  unfold System.graceOver
  split
  · exact local_setTask ..
  · split
    · exact .refl ..
    · split
      · exact local_terminateRaised ..
      · exact local_setTask ..

theorem local_raise (s : System) (t : TaskId) (a : Answer) (pc : Pc) :
    Local s (s.raise t a pc) t := by
  cases pc with
  | spawning id =>
    show Local s ((s.over t).spawnFailed id a.resolveRaises a.message a.now) t
    unfold System.spawnFailed
    split <;> exact ⟨fun u h => Function.update_of_ne h .., fun _ _ h => h, fun _ h => h⟩
  | read id | look id size | store id size limitReached =>
    show Local s (if a.cancelled then s.over t else s.terminate t id .failed _ false) t
    split <;> exact local_setTask ..
  | settle x | grace x | kill x => exact local_terminateRaised ..
  | failed => exact .refl ..
  | _ => exact local_setTask ..

theorem local_captured (s : System) (t : TaskId) (id : ℕ) (limitReached : Bool) :
    Local s (s.captured t id limitReached) t := by
  unfold System.captured
  split <;> exact local_setTask ..

theorem local_loop (s : System) (t : TaskId) (id : ℕ) : Local s (s.loop t id) t := by
  unfold System.loop
  split <;> exact local_setTask ..

theorem local_looked (s : System) (t : TaskId) (id size : ℕ) (record : ProcessRecord) :
    Local s (s.looked t id size record) t := by
  unfold System.looked
  dsimp only
  split
  · exact local_setTask ..
  · exact local_captured ..

theorem local_checked (s : System) (t : TaskId) (id : ℕ) (record : ProcessRecord) (a : Answer) :
    Local s (s.checked t id record a) t := by
  unfold System.checked
  split
  · exact local_setTask ..
  · split
    · exact local_setTask ..
    · split
      · exact local_setTask ..
      · split
        · exact local_setTask ..
        · exact local_loop ..

/-- The section is one of `_wait` or the last one of `start`. -/
def Pc.spreads : Pc → Bool
  | .spawning _ | .inspect _ _ _ | .conclude _ _ _ => true
  | _ => false

/-- The section after an await that returned, but for the ones that other tasks notice. -/
theorem local_goOn (s : System) (t : TaskId) (a : Answer) (answer : DbAnswer)
    (hpc : pc.spreads = false) : Local s (s.goOn t a answer pc) t := by
  cases pc with
  | spawning id | inspect id c code | conclude id c code => cases hpc
  | look id size =>
    have hraise := local_raise s t { a with cancelled := false } (.look id size)
    cases answer with
    | record r =>
      cases r with
      | none => exact hraise
      | some record => exact local_looked ..
    | done => exact hraise
    | records records => exact hraise
  | check id =>
    have hraise := local_raise s t a (.check id)
    cases answer with
    | record r =>
      cases r with
      | none => exact hraise
      | some record => exact local_checked ..
    | done => exact hraise
    | records records => exact hraise
  | store id size limitReached => exact local_captured ..
  | top id => exact local_loop ..
  | settle x => exact local_signalFor ..
  | grace x => exact local_graceOver ..
  | listing runId =>
    cases answer with
    | records records => exact local_setTask ..
    | done => exact .refl ..
    | record r => exact .refl ..
  | sleep id | closing id | touching id close | reporting id => exact local_setTask ..
  | gathering targets | failed => exact .refl ..
  | read id | begun id | slept id | drained id close =>
    simp only [System.goOn]
    split <;> exact local_setTask ..
  | exit id c | kill x =>
    simp only [System.goOn]
    split
    · exact local_setTask ..
    · exact .refl ..
  | drain id c code =>
    simp only [System.goOn]
    split
    · exact .refl ..
    · split <;> exact local_setTask ..

/-! ## A child that is dead and whose output is read -/

/-- The child of the record is dead and its readers have ended. -/
structure Lingers (s : System) (id : ℕ) (c : ChildId) : Prop where
  owns : s.Owns id c
  dead : s.isDead c = true
  drained : s.readerIs id readerDone = true

/-- Another task, which is none of the record's readers, moves. -/
theorem Lingers.other (hl : Lingers s id c) (h : Local s s' t)
    (ht : ∀ stream, t ≠ .reader id stream) : Lingers s' id c where
  owns := h.owns id c hl.owns
  dead := h.dead c hl.dead
  drained := by
    unfold System.readerIs
    rw [h.tasks _ (ht .stdout).symm, h.tasks _ (ht .stderr).symm]
    exact hl.drained

/-- The tasks of the record and its children stay. -/
theorem Lingers.of_eq (hl : Lingers s id c) (howns : s'.Owns id c) (hdead : s'.isDead c = true)
    (htasks : ∀ u, u.watches id = true → s'.tasks u = s.tasks u) : Lingers s' id c where
  owns := howns
  dead := hdead
  drained := by
    have hreader : ∀ stream, s'.tasks (.reader id stream) = s.tasks (.reader id stream) :=
      fun stream => htasks _ (decide_eq_true rfl)
    unfold System.readerIs
    rw [hreader .stdout, hreader .stderr]
    exact hl.drained

/-- A reader that has ended does not move. -/
theorem Lingers.reader (hl : Lingers s id c) {stream : Stream} {task : Task}
    (h : s.tasks (.reader id stream) = some task) : task.pc = .failed := by
  have hdone : readerDone ((s.tasks (.reader id stream)).map Task.pc) = true := by
    have hboth : readerDone ((s.tasks (.reader id .stdout)).map Task.pc) = true ∧
        readerDone ((s.tasks (.reader id .stderr)).map Task.pc) = true := by
      simpa [System.readerIs] using hl.drained
    cases stream with
    | stdout => exact hboth.1
    | stderr => exact hboth.2
  rw [h] at hdone
  obtain ⟨pc, thread⟩ := task
  cases pc <;> first | rfl | cases hdone

/-- What a move of another task leaves: the dead child, and `_wait` where it was. -/
def Spares (s s' : System) (id : ℕ) (c : ChildId) : Prop :=
  Lingers s' id c ∧ s'.tasks (.waiter id) = s.tasks (.waiter id)

theorem Local.spares (h : Local s s' t) (hl : Lingers s id c)
    (hreader : ∀ stream, t ≠ .reader id stream) (hwaiter : t ≠ .waiter id) : Spares s s' id c :=
  ⟨hl.other h hreader, h.tasks _ hwaiter.symm⟩

theorem Spares.of_eq (hl : Lingers s id c) (howns : s'.Owns id c) (hdead : s'.isDead c = true)
    (htasks : ∀ u, u.watches id = true → s'.tasks u = s.tasks u) : Spares s s' id c :=
  ⟨hl.of_eq howns hdead htasks, htasks _ (decide_eq_true rfl)⟩

theorem Spares.refl (hl : Lingers s id c) : Spares s s id c := ⟨hl, rfl⟩

/-! ## The events of the others -/

/-- A new task of a call takes no part. -/
theorem Lingers.enter (hl : Lingers s id c) (n : ℕ) (begin' : TaskId → System)
    (h : ∀ t, Local s (begin' t) t) : Spares s (s.enter n begin') id c := by
  unfold System.enter
  split
  · exact (h (.external n)).spares hl (fun _ => nofun) nofun
  · exact .refl hl

theorem local_start (s : System) (t : TaskId) (input : StartInput) :
    Local s (s.start t input) t := by
  unfold System.start System.spawnFailed
  split
  · exact .refl ..
  · dsimp only
    split
    · exact ⟨fun _ _ => rfl, fun _ _ h => h, fun _ h => h⟩
    · split
      · split <;> exact ⟨fun _ _ => rfl, fun _ _ h => h, fun _ h => h⟩
      · exact ⟨fun u h => Function.update_of_ne h .., fun _ _ h => h, fun _ h => h⟩

theorem local_cancel (s : System) (t : TaskId) (target : Target) :
    Local s (s.cancel t target) t := by
  unfold System.cancel
  split
  · exact .refl ..
  · split
    · exact .refl ..
    · exact local_setTask ..

theorem local_writeStdin (s : System) (t : TaskId) (target : Target) (size : ℕ) (close : Bool) :
    Local s (s.writeStdin t target size close) t := by
  unfold System.writeStdin
  split
  · exact .refl ..
  · split
    · exact .refl ..
    · split
      · exact local_setTask ..
      · split <;> exact local_setTask ..

theorem local_shutdown (s : System) (t : TaskId) : Local s (s.shutdown t) t :=
  ⟨fun _ h => Function.update_of_ne h .., fun _ _ h => h, fun _ h => h⟩

/-- A worker thread answers another task. -/
theorem Lingers.worked (hl : Lingers s id c) (ht : t ≠ .waiter id) (now : Time) :
    Spares s (s.worker t now) id c := by
  unfold System.worker
  split
  · rename_i pc htask
    have hpcs : ∀ u, (Function.update s.tasks t
        (some ⟨pc, .returned (pc.work s.db now).2⟩) u).map Task.pc = (s.tasks u).map Task.pc := by
      intro u
      rcases eq_or_ne u t with rfl | hne
      · rw [Function.update_self, htask]
        rfl
      · rw [Function.update_of_ne hne]
    refine ⟨⟨hl.owns, hl.dead, ?_⟩, Function.update_of_ne ht.symm ..⟩
    unfold System.readerIs
    rw [hpcs, hpcs]
    exact hl.drained
  · exact .refl hl

/-- The tasks of a record are not those of another. -/
theorem watches_other {id' : ℕ} {u : TaskId} (h : u.watches id = true) (hne : id ≠ id') :
    u.watches id' = false := by
  cases u with
  | external n => rfl
  | reader id₁ stream | watchdog id₁ | waiter id₁ =>
    obtain rfl : id₁ = id := of_decide_eq_true h
    exact decide_eq_false hne

theorem Lingers.cleaned (hl : Lingers s id c) {id' : ℕ} (hne : id ≠ id') :
    Spares s (s.cleanup (.waiter id') id') id c :=
  .of_eq hl hl.owns hl.dead fun u h => by
    rw [tasks_cleanup, watches_other h hne, if_neg Bool.false_ne_true]

/-- Another child is there. -/
theorem Lingers.spawned (hl : Lingers s id c) (hs : Invariant s) {id' : ℕ} (hne : id ≠ id')
    (ht : t.watches id = false) (hresolve : a.resolveRaises = false)
    (hmark : a.markRaises = false) : Spares s (s.spawned t id' a) id c := by
  rw [spawned_eq hresolve hmark]
  obtain ⟨child, hchild, howner⟩ := hl.owns
  have hc : c ≠ s.nextChild := by
    rintro rfl
    rw [hs.fresh _ (Nat.le_refl _)] at hchild
    cases hchild
  refine .of_eq hl ⟨child, ?_, howner⟩ ?_ fun u h => ?_
  · show Function.update s.children _ _ c = _
    rw [Function.update_of_ne hc, hchild]
  · have hdead := hl.dead
    unfold System.isDead at hdead ⊢
    dsimp only
    rwa [Function.update_of_ne hc]
  · have hu : u ≠ t := by
      rintro rfl
      exact Bool.noConfusion (h.symm.trans ht)
    show watchers (Function.update s.tasks t none) id' u = s.tasks u
    rw [watchers_of_not (watches_other h hne), Function.update_of_ne hu]

/-- A section of another task. -/
theorem Lingers.section (hl : Lingers s id c) (hs : Invariant s) (ht : t ≠ .waiter id)
    (htask : s.tasks t = some ⟨pc, thread⟩) (h : s.HarmlessAt a pc) (answer : DbAnswer) :
    Spares s (if a.raised then s.raise t a pc else s.goOn t a answer pc) id c := by
  by_cases hreader : ∃ stream, t = .reader id stream
  · obtain ⟨stream, rfl⟩ := hreader
    obtain rfl : pc = .failed := hl.reader htask
    split <;> exact .refl hl
  · have hreader : ∀ stream, t ≠ .reader id stream := fun stream h => hreader ⟨stream, h⟩
    split
    · exact (local_raise s t a pc).spares hl hreader ht
    · rename_i hraised
      cases hpc : pc.spreads with
      | false => exact (local_goOn s t a answer hpc).spares hl hreader ht
      | true =>
        have hfits := hs.fits t _ htask
        cases pc with
        | spawning id' =>
          obtain ⟨⟨n, rfl⟩, -, hfree⟩ := hfits
          obtain ⟨child, hchild, howner⟩ := hl.owns
          have hne : id ≠ id' := fun heq => hfree c child hchild (howner.trans heq)
          exact hl.spawned hs hne rfl h.1 (h.2 (Bool.eq_false_iff.mpr hraised)).1
        | inspect id' c' code =>
          obtain ⟨⟨rfl, -⟩, -⟩ := hfits
          have hne : id ≠ id' := fun heq => ht (heq ▸ rfl)
          have hraise := (local_raise s (.waiter id') a (.inspect id' c' code)).spares hl hreader ht
          cases answer with
          | record r =>
            cases r with
            | none => exact hraise
            | some record =>
              show Spares s (if record.status.terminal then s.cleanup _ id'
                else s.toThread _ (.conclude id' c' code)) id c
              split
              · exact hl.cleaned hne
              · exact (local_setTask ..).spares hl hreader ht
          | done => exact hraise
          | records records => exact hraise
        | conclude id' c' code =>
          obtain ⟨⟨rfl, -⟩, -⟩ := hfits
          exact hl.cleaned fun heq => ht (heq ▸ rfl)
        | _ => cases hpc

theorem Lingers.resumed (hl : Lingers s id c) (hs : Invariant s) (ht : t ≠ .waiter id)
    (h : ∀ task, s.tasks t = some task → s.HarmlessAt a task.pc) :
    Spares s (s.resume t a) id c := by
  unfold System.resume
  cases htask : s.tasks t with
  | none => exact .refl hl
  | some task =>
    obtain ⟨pc, thread⟩ := task
    have hsection := hl.section hs ht htask (h _ htask)
    cases thread with
    | idle => exact hsection .done
    | returned answer => exact hsection answer
    | requested =>
      dsimp only
      split
      · rename_i hraised
        have hraise := hsection .done
        rwa [if_pos hraised] at hraise
      · exact .refl hl

/-- **An event of the others** leaves the dead child, and `_wait` where it was. -/
theorem Lingers.away (hl : Lingers s id c) (hs : Invariant s) (event : Event)
    (h : s.Harmless event) (hturn : event.turn id = none) : Spares s (s.after event) id c := by
  cases event with
  | start n input => exact hl.enter n _ fun t => local_start s t input
  | cancel n target => exact hl.enter n _ fun t => local_cancel s t target
  | cancelRun n runId => exact hl.enter n _ fun t => local_setTask s t _
  | writeStdin n target size close => exact hl.enter n _ fun t => local_writeStdin s t target size close
  | shutdown n => exact hl.enter n _ fun t => local_shutdown s t
  | gathered n place m =>
    unfold System.after
    dsimp only
    cases s.gatheredTarget n place with
    | none => exact .refl hl
    | some target => exact hl.enter m _ fun t => local_cancel s t target
  | worker t now =>
    have ht : t ≠ .waiter id := fun heq => by simp [Event.turn, heq] at hturn
    exact hl.worked ht now
  | resume t a =>
    have ht : t ≠ .waiter id := fun heq => by simp [Event.turn, heq] at hturn
    exact hl.resumed hs ht h
  | exit c' =>
    have hg := gentle_exit s c'
    exact .of_eq hl (hg.owns hl.owns) (hg.isDead hl.dead) fun _ _ => rfl

/-! ## The turns of `_wait` -/

/-- What `_wait` awaits for the record. -/
inductive OfWait (id : ℕ) : Pc → Prop where
  | begun : OfWait id (.begun id)
  | slept : OfWait id (.slept id)
  | exit (c : ChildId) : OfWait id (.exit id c)
  | drain (c : ChildId) (code : ℤ) : OfWait id (.drain id c code)
  | inspect (c : ChildId) (code : ℤ) : OfWait id (.inspect id c code)
  | conclude (c : ChildId) (code : ℤ) : OfWait id (.conclude id c code)

theorem ofWait (h : s.Fits (.waiter id) ⟨pc, thread⟩) : OfWait id pc := by
  cases pc with
  | begun id' | slept id' | exit id' c | drain id' c code =>
    cases h.1
    constructor
  | inspect id' c code | conclude id' c code =>
    cases h.1.1
    constructor
  | settle x | grace x | kill x => exact h.1.elim
  | spawning id' | read id' | look id' size | store id' size limitReached => exact absurd h.1 nofun
  | top id' | sleep id' | check id' => cases h.1
  | drained id' close | closing id' | touching id' close | reporting id' => exact absurd h nofun
  | listing runId | gathering targets | failed => exact absurd h nofun

/-- A turn was taken, or it was not one that `_wait` could take. -/
def Takes (task task' : Task) (turn : Turn) : Prop :=
  task.turns = turn :: task'.turns ∨ task' = task ∧ task.turns.head? ≠ some turn

/-- What a turn leaves of a record that is not settled. -/
def Advances (s' : System) (id : ℕ) (c : ChildId) (task : Task) (turn : Turn) : Prop :=
  s'.db.Ended id ∨ Lingers s' id c ∧
    ∃ task', s'.tasks (.waiter id) = some task' ∧ Takes task task' turn

/-- `_wait` goes on to await something else. -/
theorem Lingers.advances (hl : Lingers s id c) {task task' : Task} {turn : Turn}
    (h : task.turns = turn :: task'.turns) :
    Advances (s.setTask (.waiter id) (some task')) id c task turn :=
  .inr ⟨hl.other (local_setTask ..) (fun _ => nofun), task', Function.update_self .., .inl h⟩

theorem Lingers.stays (hl : Lingers s id c) {task : Task} {turn : Turn}
    (htask : s.tasks (.waiter id) = some task) (h : task.turns.head? ≠ some turn) :
    Advances s id c task turn :=
  .inr ⟨hl, task, htask, .inr ⟨rfl, h⟩⟩

theorem Lingers.works (hl : Lingers s id c) (hs : Invariant s)
    (htask : s.tasks (.waiter id) = some ⟨pc, thread⟩) (hend : ¬ s.db.Ended id) (now : Time) :
    Advances (s.worker (.waiter id) now) id c ⟨pc, thread⟩ .works := by
  have hfits := hs.fits _ _ htask
  have hknown : (s.db.get? id).isSome = true := by
    obtain ⟨child, hchild, rfl⟩ := hl.owns
    exact hs.known c child hchild
  have hrequested : thread = .requested → s.worker (.waiter id) now = { s with
      db := (pc.work s.db now).1
      tasks := Function.update s.tasks (.waiter id)
        (some ⟨pc, .returned (pc.work s.db now).2⟩) } := by
    rintro rfl
    unfold System.worker
    rw [htask]
  have hidle : thread ≠ .requested → s.worker (.waiter id) now = s := by
    intro hne
    unfold System.worker
    rw [htask]
    cases thread with
    | requested => exact absurd rfl hne
    | idle | returned answer => rfl
  cases ofWait hfits with
  | begun | slept | exit c' | drain c' code =>
    have hthread : thread = .idle := hfits.2.1
    rw [hidle (by rw [hthread]; nofun)]
    exact hl.stays htask (by simp [Task.turns, settlingTurns])
  | inspect c' code =>
    cases thread with
    | requested =>
      rw [hrequested rfl]
      exact hl.advances rfl
    | idle | returned answer =>
      rw [hidle nofun]
      exact hl.stays htask (by simp [Task.turns])
  | conclude c' code =>
    cases thread with
    | requested =>
      rw [hrequested rfl]
      refine .inl (Db.ended_settle ?_ hknown _ _ _)
      split <;> rfl
    | idle | returned answer => exact absurd (hfits.2 nofun) hend

theorem Lingers.resumes (hl : Lingers s id c) (hs : Invariant s)
    (htask : s.tasks (.waiter id) = some ⟨pc, thread⟩) (hend : ¬ s.db.Ended id)
    (h : s.HarmlessAt a pc) :
    Advances (s.resume (.waiter id) a) id c ⟨pc, thread⟩ .resumes := by
  have hfits := hs.fits _ _ htask
  have hidle : thread = .idle → a.raised = false →
      s.resume (.waiter id) a = s.goOn (.waiter id) a .done pc := by
    rintro rfl hraised
    unfold System.resume
    rw [htask]
    simp [hraised]
  have hrequested : thread = .requested → a.raised = false → s.resume (.waiter id) a = s := by
    rintro rfl hraised
    unfold System.resume
    rw [htask]
    simp [hraised]
  cases ofWait hfits with
  | begun | slept =>
    obtain ⟨-, hthread, hlive⟩ := hfits
    obtain ⟨c', hc'⟩ := Option.isSome_iff_exists.mp hlive
    rw [hidle hthread h]
    simp only [System.goOn, hc']
    exact hl.advances rfl
  | exit c' =>
    obtain ⟨-, hthread, hc'⟩ := hfits
    obtain rfl := hs.single c c' id hl.owns hc'
    rw [hidle hthread h]
    simp only [System.goOn, hl.dead, if_true]
    exact hl.advances rfl
  | drain c' code =>
    obtain ⟨-, hthread, -⟩ := hfits
    rw [hidle hthread h]
    cases hret : s.readerIs id readerReturned with
    | false => exact absurd (ended_of_unreturned hs hl.drained hret) hend
    | true =>
      simp only [System.goOn, hl.drained, hret, Bool.not_true, Bool.false_eq_true, if_false]
      exact hl.advances rfl
  | inspect c' code =>
    by_cases hthread : thread = .requested
    · rw [hrequested hthread h, hthread]
      exact hl.stays (hthread ▸ htask) (by simp [Task.turns])
    · obtain ⟨r, hreturned, hterminal⟩ := hfits.2 hthread
      dsimp only at hreturned
      subst hreturned
      have hopen : r.status.terminal = false := Bool.eq_false_iff.mpr fun h => hend (hterminal h)
      have hgo : s.resume (.waiter id) a = s.toThread (.waiter id) (.conclude id c' code) := by
        have hraised : a.raised = false := h
        unfold System.resume
        rw [htask]
        simp [hraised, System.goOn, System.goOnWith, hopen]
      rw [hgo]
      exact hl.advances rfl
  | conclude c' code =>
    by_cases hthread : thread = .requested
    · rw [hrequested hthread h, hthread]
      exact hl.stays (hthread ▸ htask) (by simp [Task.turns])
    · exact absurd (hfits.2 hthread) hend

/-- **A turn of `_wait`** brings the record nearer to its end. -/
theorem Lingers.turned (hl : Lingers s id c) (hs : Invariant s) {task : Task}
    (htask : s.tasks (.waiter id) = some task) (hend : ¬ s.db.Ended id) {event : Event}
    (h : s.Harmless event) {turn : Turn} (hturn : event.turn id = some turn) :
    Advances (s.after event) id c task turn := by
  cases event with
  | worker t now =>
    obtain ⟨rfl, rfl⟩ : t = .waiter id ∧ Turn.works = turn := by simpa [Event.turn] using hturn
    exact hl.works hs htask hend now
  | resume t a =>
    obtain ⟨rfl, rfl⟩ : t = .waiter id ∧ Turn.resumes = turn := by simpa [Event.turn] using hturn
    exact hl.resumes hs htask hend (h task htask)
  | _ => cases hturn

/-- A `_wait` that is there has a turn before it. -/
theorem turns_ne_nil (hs : Invariant s) {task : Task} (htask : s.tasks (.waiter id) = some task) :
    task.turns ≠ [] := by
  have hfits := hs.fits _ _ htask
  obtain ⟨pc, thread⟩ := task
  cases ofWait hfits with
  | begun | slept | exit c' | drain c' code | conclude c' code => exact nofun
  | inspect c' code => cases thread <;> exact nofun

theorem Takes.turns {task task' : Task} {turn : Turn} {turns : List Turn}
    (h : Takes task task' turn) (hturns : task.turns.Sublist (turn :: turns)) :
    task'.turns.Sublist turns := by
  rcases h with h | ⟨rfl, hhead⟩
  · rw [h] at hturns
    exact List.cons_sublist_cons.mp hturns
  · cases hleft : task'.turns with
    | nil => exact List.nil_sublist _
    | cons first rest =>
      rw [hleft] at hhead hturns
      exact hturns.of_cons_of_ne fun heq => hhead (by rw [heq]; rfl)

/-- **The record is settled** when `_wait` has had the turns that it still needs, whatever the
others do in between. -/
theorem Lingers.ends (hl : Lingers s id c) (hs : Invariant s) {task : Task}
    (htask : s.tasks (.waiter id) = some task) (events : List Event)
    (h : s.HarmlessThroughout events)
    (hturns : task.turns.Sublist (events.filterMap (Event.turn id))) :
    (s.run events).db.Ended id := by
  induction events generalizing s task with
  | nil => exact absurd (List.sublist_nil.mp hturns) (turns_ne_nil hs htask)
  | cons event events ih =>
    obtain ⟨hafter, hkeeps⟩ := after_spec hs event h.1
    by_cases hend : s.db.Ended id
    · exact (run_spec hafter events h.2).2.ended (hkeeps.ended hend)
    · cases hturn : event.turn id with
      | none =>
        obtain ⟨hl', hsame⟩ := hl.away hs event h.1 hturn
        refine ih hl' hafter (hsame.trans htask) h.2 ?_
        rwa [List.filterMap_cons_none hturn] at hturns
      | some turn =>
        rw [List.filterMap_cons_some hturn] at hturns
        rcases hl.turned hs htask hend h.1 hturn with hended | ⟨hl', task', htask', htakes⟩
        · exact (run_spec hafter events h.2).2.ended hended
        · exact ih hl' hafter htask' h.2 (htakes.turns hturns)

/-- A `_wait` knows the child of its record. -/
theorem owns_of_waiting (hs : Invariant s) {task : Task}
    (htask : s.tasks (.waiter id) = some task) : ∃ c, s.Owns id c := by
  have hfits := hs.fits _ _ htask
  obtain ⟨pc, thread⟩ := task
  cases ofWait hfits with
  | begun | slept =>
    obtain ⟨c, hc⟩ := Option.isSome_iff_exists.mp hfits.2.2
    exact ⟨c, hs.owned id c hc⟩
  | exit c => exact ⟨c, hfits.2.2⟩
  | drain c code => exact ⟨c, hfits.2.2.1⟩
  | inspect c code | conclude c code => exact ⟨c, hfits.1.2.1⟩

/-- A record without a live child is settled in time. -/
theorem System.Left.settles (hleft : s.Left id) (hs : Invariant s) (events : List Event)
    (h : s.HarmlessThroughout events)
    (hturns : settlingTurns.Sublist (events.filterMap (Event.turn id))) :
    (s.run events).Settled id := by
  refine settled_of_ended ?_
  rcases hs.ended id hleft.known with hspawning | hend | ⟨task, htask⟩
  · exact absurd hspawning hleft.started
  · exact (run_spec hs events h).2.ended hend
  · obtain ⟨c, child, hchild, howner⟩ := owns_of_waiting hs htask
    have hdead : s.isDead c = true := isDead_iff.mpr fun child' hchild' =>
      hleft.childless c child' hchild'
        (Option.some.inj (hchild'.symm.trans hchild) ▸ howner)
    have hl : Lingers s id c := ⟨⟨child, hchild, howner⟩, hdead, hleft.drained⟩
    exact hl.ends hs htask events h ((turns_suffix task).sublist.trans hturns)

/-! ## Every history -/

/-- **The life of a process record.** From `startup` on, in every history whose events meet
the condition, a record that is settled keeps its status and its end for good, the child of
a settled record is signalled, and a record whose `start` is over is settled or `_wait` is
on the way to settle it: without a live child, and with its readers ended, it is settled
after six turns of `_wait` at the latest. -/
theorem processes_hold (db : Db) (sessionLimit : ℕ) (now : Time) (earlier later : List Event)
    (h : (System.startup db sessionLimit now).HarmlessThroughout (earlier ++ later)) :
    Lawful ((System.startup db sessionLimit now).run earlier) ∧
      ((System.startup db sessionLimit now).run earlier).db.Keeps
        ((System.startup db sessionLimit now).run (earlier ++ later)).db ∧
      ∀ id, ((System.startup db sessionLimit now).run earlier).Left id →
        settlingTurns.Sublist (later.filterMap (Event.turn id)) →
          ((System.startup db sessionLimit now).run (earlier ++ later)).Settled id := by
  obtain ⟨hearlier, hlater⟩ := harmless_append h
  obtain ⟨hs, -⟩ := run_spec (invariant_startup db sessionLimit now) earlier hearlier
  rw [run_append]
  exact ⟨hs.toLawful, (run_spec hs later hlater).2, fun id hleft => hleft.settles hs later hlater⟩

/-! ## Two histories -/

/-- A service without records that admits four processes a session. -/
def idleService : System := .startup .empty 4 0

def startInput : StartInput where
  id := 0
  sessionId := str "session"
  runId := none
  callerId := str "app"
  limits := ⟨60, 60, 60, 1000, 1000⟩
  refused := false
  issueRaises := false
  verifyRaises := false
  resolveRaises := false
  message := []
  now := 1

/-- Nothing raises. -/
def smooth : Answer where
  raised := false
  cancelled := false
  resolveRaises := false
  markRaises := false
  killRaises := false
  reaped := false
  timedOut := false
  size := 0
  exitCode := 0
  rss := 0
  message := []
  now := 2

/-- The process is started, its child ends and its output is read. -/
def startThenExit : List Event :=
  [.start 0 startInput, .resume (.external 0) smooth, .exit 0,
    .resume (.reader 0 .stdout) smooth, .resume (.reader 0 .stderr) smooth]

/-- The turns of `_wait`. -/
def waitTurns : List Event :=
  [.resume (.waiter 0) smooth, .resume (.waiter 0) smooth, .resume (.waiter 0) smooth,
    .worker (.waiter 0) 3, .resume (.waiter 0) smooth, .worker (.waiter 0) 4]

theorem harmless_exited : idleService.HarmlessThroughout (startThenExit ++ waitTurns) := by
  refine ⟨fun _ => ⟨rfl, nofun⟩, fun task htask => ?_, trivial, ?_, ?_, ?_, ?_, ?_, trivial, ?_,
    trivial, trivial⟩
  · obtain rfl : task = ⟨.spawning 0, .idle⟩ := (Option.some.inj htask).symm
    refine ⟨rfl, fun _ => ⟨rfl, ?_, fun t task htask => ?_⟩⟩
    · rintro ⟨r, hr, hend⟩
      cases hr
      cases hend
    · rcases TaskTable.update_cases htask with ⟨-, h⟩ | ⟨-, h⟩
      · cases h
        exact nofun
      · cases h
  all_goals
    intro task htask
    obtain rfl := (Option.some.inj htask).symm
    first | exact trivial | exact rfl

/-- The process has ended and is not settled yet. -/
theorem left_exited : (idleService.run startThenExit).Left 0 where
  known := rfl
  started := by
    rintro ⟨t, task, htask, hpc⟩
    rcases TaskTable.update_cases htask with ⟨-, h⟩ | ⟨-, htask⟩
    · cases h
    · rcases TaskTable.update_cases htask with ⟨-, h⟩ | ⟨-, htask⟩
      · cases h
      · rcases watchers_cases htask with ⟨-, htask⟩ | ⟨stream, -, rfl⟩ | ⟨-, rfl⟩ | ⟨-, rfl⟩
        · rcases TaskTable.update_cases htask with ⟨-, h⟩ | ⟨hne, htask⟩
          · cases h
          · rcases TaskTable.update_cases htask with ⟨rfl, -⟩ | ⟨-, h⟩
            · exact hne rfl
            · cases h
        · cases hpc
        · cases hpc
        · cases hpc
  childless c child hchild _ := by
    rcases TaskTable.update_cases hchild with ⟨rfl, h⟩ | ⟨hne, h⟩
    · cases h
      rfl
    · rcases TaskTable.update_cases h with ⟨rfl, -⟩ | ⟨-, h⟩
      · exact absurd rfl hne
      · cases h
  drained := rfl

theorem processes_hold_exited : Lawful (idleService.run startThenExit) ∧
    (idleService.run startThenExit).db.Keeps (idleService.run (startThenExit ++ waitTurns)).db ∧
      (idleService.run (startThenExit ++ waitTurns)).Settled 0 := by
  obtain ⟨hlawful, hkeeps, hsettles⟩ :=
    processes_hold .empty 4 0 startThenExit waitTurns harmless_exited
  exact ⟨hlawful, hkeeps, hsettles 0 left_exited (by decide)⟩

def cancelIt : Target := ⟨0, str "session", none⟩

/-- The process is cancelled while its child is being spawned. -/
def cancelWhileSpawning : List Event :=
  [.start 0 startInput, .cancel 1 cancelIt, .worker (.external 1) 3,
    .resume (.external 1) smooth]

/-- A record that was cancelled while its child was being spawned runs again when the child
is there, and no task is left that would signal the child; and a `start` that raises
between the record and the spawn leaves a record that starts for ever. -/
theorem cancelled_runs_again :
    ((idleService.run cancelWhileSpawning).db.get? 0).map ProcessRecord.status = some .cancelled ∧
      ((idleService.run (cancelWhileSpawning ++ [.resume (.external 0) smooth])).db.get? 0).map
        (fun r => (r.status, r.finishedAt)) = some (.running, some 3) ∧
      ((idleService.run (cancelWhileSpawning ++ [.resume (.external 0) smooth])).children 0).map
        (fun child => (child.alive, child.signalled)) = some (true, false) ∧
      ((idleService.run [.start 0 { startInput with issueRaises := true }]).db.get? 0).map
        ProcessRecord.status = some .starting ∧
      (idleService.run [.start 0 { startInput with issueRaises := true }]).tasks = fun _ => none := by
  refine ⟨by decide, by decide, by decide, by decide, ?_⟩
  rfl

end AI2Apps.Processes
