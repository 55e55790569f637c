import AI2Apps.Processes.Lifecycle

/-!
# The sections of a process's tasks

One lemma for each kind of task: its sections keep the invariant.  Only `_terminate`,
`_wait` and `start` have something to answer for; every other section just replaces the
entry of its task.

* `Invariant.free`: a section with nothing to answer for.
* `Invariant.captured`, `Invariant.looked`, `Invariant.loop`: readers and watchdogs.
* `Invariant.terminate`, `Invariant.terminated`: `_terminate`.
-/

namespace AI2Apps.Processes

variable {s s' : System} {t : TaskId} {id : ℕ} {c : ChildId} {pc : Pc} {thread : Thread}
  {new : Option Task} {a : Answer} {x : Termination}

theorem gentle_setTask (s : System) (t : TaskId) (new : Option Task) : Gentle s (s.setTask t new) :=
  ⟨.refl _, rfl, rfl, fun _ child h => ⟨child, h, rfl, fun h => h, fun h => h⟩,
    fun _ child h => ⟨child, h⟩⟩

/-- Only the entry of one task changes. -/
theorem Invariant.setTask (hs : Invariant s) (hr : Replaces s (s.setTask t new) t new) :
    Invariant (s.setTask t new) :=
  hs.move (gentle_setTask s t new) rfl hr (fun _ _ _ _ h => .inl h) fun _ h => .inl h

/-! ## Sections with nothing to answer for -/

/-- Whether a task that awaits this has to see to it that a record is settled, or a child
signalled. -/
def Pc.onDuty : Pc → Bool
  | .spawning _ | .settle _ => true
  | _ => false

theorem replaces_free (htask : s.tasks t = some ⟨pc, thread⟩) (hpc : pc.onDuty = false)
    (ht : ∀ id, t = .waiter id → ∃ task, new = some task)
    (hfits : ∀ task, new = some task → s'.Fits t task ∧ ∀ id, task.pc ≠ .spawning id) :
    Replaces s s' t new where
  fits task h := (hfits task h).1
  spawns task id h hspawn := absurd hspawn ((hfits task h).2 id)
  signals y answer c child h := by
    rw [htask] at h
    cases h
    cases hpc
  spawned task id h hspawn := by
    rw [htask] at h
    cases h
    cases hspawn
    cases hpc
  waited task id _ hwaiter := .inr (ht id hwaiter)

/-- The entry of a reader, a watchdog or a call is replaced. -/
theorem Invariant.free (hs : Invariant s) (htask : s.tasks t = some ⟨pc, thread⟩)
    (hpc : pc.onDuty = false) (ht : ∀ id, t ≠ .waiter id)
    (hfits : ∀ task, new = some task → s.Fits t task ∧ ∀ id, task.pc ≠ .spawning id) :
    Invariant (s.setTask t new) := by
  refine hs.setTask (replaces_free htask hpc (fun id h => absurd h (ht id)) fun task h => ?_)
  exact ⟨(gentle_setTask s t new).fits (hfits task h).1, (hfits task h).2⟩

/-- Whether the service is stopping takes no part. -/
theorem Invariant.stop (hs : Invariant s) (stopping : Bool) :
    Invariant { s with stopping := stopping } :=
  ⟨⟨hs.signalled, hs.ended⟩, hs.fits, hs.once, hs.fresh, hs.known, hs.single, hs.listed, hs.owned⟩

theorem Invariant.freeOver (hs : Invariant s) (htask : s.tasks t = some ⟨pc, thread⟩)
    (hpc : pc.onDuty = false) (ht : ∀ id, t ≠ .waiter id) : Invariant (s.over t) :=
  hs.free htask hpc ht fun _ h => nomatch h

/-- Whether what is awaited belongs to a call that settles nothing. -/
def Pc.harmless : Pc → Bool
  | .drained _ _ | .closing _ | .touching _ _ | .reporting _ | .listing _ | .gathering _ => true
  | _ => false

/-- A call that settles nothing goes on. -/
theorem Invariant.call (hs : Invariant s) {n : ℕ}
    (htask : s.tasks (.external n) = some ⟨pc, thread⟩) (hpc : pc.onDuty = false)
    {pc' : Pc} {thread' : Thread} (hpc' : pc'.harmless = true) :
    Invariant (s.setTask (.external n) (some ⟨pc', thread'⟩)) := by
  refine hs.free htask hpc (fun _ => nofun) fun _ h => Option.some.inj h ▸ ⟨?_, ?_⟩
  · cases pc' <;> first | exact ⟨n, rfl⟩ | cases hpc'
  · rintro id rfl
    cases hpc'

theorem serves_not_waiter (h : t.Serves id) (id' : ℕ) : t ≠ .waiter id' := by
  rintro rfl
  exact h

/-- `_terminate` finds the child of its record, if there is one alive. -/
theorem Invariant.fits_terminate (hs : Invariant s) (ht : t.Serves id)
    (hknown : (s.db.get? id).isSome = true) {status : ProcessStatus}
    (hterminal : status.terminal = true) (error : ErrorInfo) (inReader : Bool) :
    s.Fits t ⟨.settle ⟨id, status, hterminal, error, s.live id, inReader⟩, .requested⟩ := by
  refine ⟨ht, ?_, hknown, fun h => absurd rfl h⟩
  unfold System.Handles
  dsimp only
  cases hlive : s.live id with
  | some c => exact hs.owned id c hlive
  | none =>
    intro c child hchild howner
    cases halive : child.alive with
    | false => rfl
    | true =>
      have hlisted := hs.listed c child hchild halive
      rw [howner, hlive] at hlisted
      exact absurd hlisted nofun

theorem Invariant.terminate (hs : Invariant s) (htask : s.tasks t = some ⟨pc, thread⟩)
    (hpc : pc.onDuty = false) (ht : t.Serves id) (hknown : (s.db.get? id).isSome = true)
    {status : ProcessStatus} (hterminal : status.terminal = true) (code : String)
    (inReader : Bool) : Invariant (s.terminate t id status code inReader hterminal) :=
  hs.free htask hpc (serves_not_waiter ht) fun _ h =>
    Option.some.inj h ▸ ⟨hs.fits_terminate ht hknown hterminal _ inReader, fun _ => nofun⟩

/-! ## Readers and watchdogs -/

theorem Invariant.captured (hs : Invariant s) {stream : Stream}
    (htask : s.tasks (.reader id stream) = some ⟨pc, thread⟩) (hpc : pc.onDuty = false)
    (hknown : (s.db.get? id).isSome = true) (limitReached : Bool) :
    Invariant (s.captured (.reader id stream) id limitReached) := by
  unfold System.captured
  split
  · exact hs.terminate htask hpc rfl hknown rfl _ _
  · exact hs.free htask hpc (fun _ => nofun) fun _ h =>
      Option.some.inj h ▸ ⟨⟨⟨stream, rfl⟩, hknown⟩, fun _ => nofun⟩

theorem Invariant.looked (hs : Invariant s) {stream : Stream}
    (htask : s.tasks (.reader id stream) = some ⟨pc, thread⟩) (hpc : pc.onDuty = false)
    (hknown : (s.db.get? id).isSome = true) (size : ℕ) (record : ProcessRecord) :
    Invariant (s.looked (.reader id stream) id size record) := by
  unfold System.looked
  dsimp only
  split
  · exact hs.free htask hpc (fun _ => nofun) fun _ h =>
      Option.some.inj h ▸ ⟨⟨⟨stream, rfl⟩, hknown⟩, fun _ => nofun⟩
  · exact hs.captured htask hpc hknown _

theorem Invariant.loop (hs : Invariant s) (htask : s.tasks (.watchdog id) = some ⟨pc, thread⟩)
    (hpc : pc.onDuty = false) (hknown : (s.db.get? id).isSome = true) :
    Invariant (s.loop (.watchdog id) id) := by
  unfold System.loop
  split
  · exact hs.free htask hpc (fun _ => nofun) fun _ h =>
      Option.some.inj h ▸ ⟨⟨rfl, hknown⟩, fun _ => nofun⟩
  · exact hs.freeOver htask hpc fun _ => nofun

theorem Invariant.checked (hs : Invariant s) (htask : s.tasks (.watchdog id) = some ⟨pc, thread⟩)
    (hpc : pc.onDuty = false) (hknown : (s.db.get? id).isSome = true) (record : ProcessRecord)
    (a : Answer) : Invariant (s.checked (.watchdog id) id record a) := by
  unfold System.checked
  split
  · exact hs.freeOver htask hpc fun _ => nofun
  · split
    · exact hs.terminate htask hpc rfl hknown rfl _ _
    · split
      · exact hs.terminate htask hpc rfl hknown rfl _ _
      · split
        · exact hs.terminate htask hpc rfl hknown rfl _ _
        · exact hs.loop htask hpc hknown

/-! ## `_terminate` -/

/-- If the task is about to signal a child, the child has been signalled or is dead. -/
def Signalled (s : System) (task : Task) : Prop :=
  ∀ x answer c child, task = ⟨.settle x, .returned answer⟩ → x.child = some c →
    s.children c = some child → child.alive = true → child.signalled = true

theorem replaces_terminating (htask : s.tasks t = some ⟨pc, thread⟩)
    (hpc : pc.terminates = some id) (ht : t.Serves id) (hdone : Signalled s' ⟨pc, thread⟩)
    (hfits : ∀ task, new = some task → s'.Fits t task ∧ ∀ id, task.pc ≠ .spawning id) :
    Replaces s s' t new where
  fits task h := (hfits task h).1
  spawns task id h hspawn := absurd hspawn ((hfits task h).2 id)
  signals y answer c child h hy hchild halive := by
    rw [htask] at h
    exact .inl (hdone y answer c child (Option.some.inj h) hy hchild halive)
  spawned task id h hspawn := by
    rw [htask] at h
    cases h
    cases hspawn
    cases hpc
  waited task id _ hwaiter := absurd hwaiter (serves_not_waiter ht id)

section Terminate

variable (hs : Invariant s) (htask : s.tasks t = some ⟨pc, thread⟩)
  (hpc : pc.terminates = some x.id) (ht : t.Serves x.id) (hdone : Signalled s ⟨pc, thread⟩)

include hs htask hpc ht hdone

theorem Invariant.terminated {new : Option Task}
    (hfits : ∀ task, new = some task → s.Fits t task ∧ ∀ id, task.pc ≠ .spawning id) :
    Invariant (s.setTask t new) :=
  hs.setTask (replaces_terminating htask hpc ht hdone fun task h =>
    ⟨(gentle_setTask s t new).fits (hfits task h).1, (hfits task h).2⟩)

/-- The record is settled, so a reader may end with an exception. -/
theorem Invariant.terminateRaised (hend : s.db.Ended x.id) (cancelled : Bool) :
    Invariant (s.terminateRaised t x cancelled) := by
  have hover : Invariant (s.over t) := hs.terminated htask hpc ht hdone fun _ h => nomatch h
  unfold System.terminateRaised
  split
  · exact hs.terminated htask hpc ht hdone fun _ h =>
      Option.some.inj h ▸ ⟨hs.fits_terminate ht hend.known rfl _ _, fun _ => nofun⟩
  · cases t with
    | external n => exact hover
    | watchdog id' => exact hover
    | waiter id' => exact hover
    | reader id' stream =>
      obtain rfl : id' = x.id := ht
      unfold System.abort
      dsimp only
      split
      · exact hover
      · exact hs.terminated htask hpc rfl hdone fun _ h =>
          Option.some.inj h ▸ ⟨⟨x.id, stream, rfl, hend⟩, fun _ => nofun⟩

end Terminate

theorem isDead_iff : s.isDead c = true ↔
    ∀ child, s.children c = some child → child.alive = false := by
  unfold System.isDead
  rw [Option.all_eq_true]
  simp

/-- A child that is dead needs no signal. -/
theorem signalled_of_dead (h : ∀ c, x.child = some c → s.isDead c = true) :
    Signalled s ⟨.settle x, thread⟩ := by
  intro y answer' c child heq hy hchild halive
  cases heq
  have hdead := isDead_iff.mp (h c hy) child hchild
  rw [halive] at hdead
  cases hdead

/-- A child changes, and keeps its owner; it does not come back to life and stays signalled. -/
theorem gentle_child {s s' : System} {c : ChildId} (f : Child → Child) (hdb : s'.db = s.db)
    (hlive : s'.live = s.live) (hnext : s'.nextChild = s.nextChild)
    (hchildren : s'.children = Function.update s.children c ((s.children c).map f))
    (hf : ∀ child, (f child).owner = child.owner ∧ ((f child).alive = true → child.alive = true) ∧
      (child.signalled = true → (f child).signalled = true)) : Gentle s s' where
  keeps := hdb ▸ .refl _
  live := hlive
  next := hnext
  children c' child' h := by
    rw [hchildren] at h
    rcases TaskTable.update_cases h with ⟨rfl, h⟩ | ⟨-, h⟩
    · obtain ⟨child, hchild, rfl⟩ := Option.map_eq_some_iff.mp h
      exact ⟨child, hchild, hf child⟩
    · exact ⟨child', h, rfl, id, id⟩
  stay c' child h := by
    rw [hchildren]
    rcases eq_or_ne c' c with rfl | hne
    · rw [Function.update_self, h]
      exact ⟨_, rfl⟩
    · rw [Function.update_of_ne hne]
      exact ⟨child, h⟩

theorem gentle_signal (s : System) (c : ChildId) (t : TaskId) (task : Task) :
    Gentle s ((s.signal c).setTask t (some task)) :=
  gentle_child (fun child => { child with signalled := true }) rfl rfl rfl rfl fun _ => ⟨rfl, id, fun _ => rfl⟩

/-- After the record is settled: the child gets its signal, or needs none. -/
theorem Invariant.signalFor (hs : Invariant s) (htask : s.tasks t = some ⟨.settle x, thread⟩)
    (hthread : thread ≠ .requested)
    (hkill : a.killRaises = true → ∀ c, x.child = some c → s.isDead c = true) :
    Invariant (s.signalFor t x a) := by
  obtain ⟨ht, hhandles, -, hend⟩ := hs.fits t _ htask
  have hend : s.db.Ended x.id := hend hthread
  unfold System.signalFor
  cases hx : x.child with
  | none =>
    have hdone : Signalled s ⟨.settle x, thread⟩ :=
      signalled_of_dead fun c h => absurd (hx.symm.trans h) nofun
    exact hs.terminated htask rfl ht hdone fun _ h => nomatch h
  | some c =>
    dsimp only
    split
    · rename_i hreaped
      have hdead : s.isDead c = true := (Bool.and_eq_true _ _ ▸ hreaped).2
      have hdone : Signalled s ⟨.settle x, thread⟩ :=
        signalled_of_dead fun c' h => by rwa [← Option.some.inj (hx.symm.trans h)]
      exact hs.terminated htask rfl ht hdone fun _ h => nomatch h
    · split
      · rename_i hraises
        exact hs.terminateRaised htask rfl ht (signalled_of_dead (hkill hraises)) hend false
      · have hg := gentle_signal s c t ⟨.grace x, .idle⟩
        refine hs.move hg rfl (replaces_terminating htask rfl ht ?_ fun _ h => ?_)
          (fun _ _ _ _ h => .inl h) fun _ h => .inl h
        · intro y answer' c' child heq hy hchild _
          cases heq
          obtain rfl := Option.some.inj (hx.symm.trans hy)
          rcases TaskTable.update_cases hchild with ⟨-, h⟩ | ⟨hne, -⟩
          · obtain ⟨child', -, rfl⟩ := Option.map_eq_some_iff.mp h
            rfl
          · exact absurd rfl hne
        · exact Option.some.inj h ▸ ⟨⟨ht, hg.handles hhandles, hend⟩, fun _ => nofun⟩

theorem Invariant.graceOver (hs : Invariant s) (htask : s.tasks t = some ⟨.grace x, thread⟩)
    (a : Answer) : Invariant (s.graceOver t x a) := by
  obtain ⟨ht, hhandles, hend⟩ := hs.fits t _ htask
  have hdone : Signalled s ⟨.grace x, thread⟩ := fun _ _ _ _ h => nomatch h
  unfold System.graceOver
  split
  · exact hs.terminated htask rfl ht hdone fun _ h => nomatch h
  · split
    · exact hs
    · split
      · exact hs.terminateRaised htask rfl ht hdone hend false
      · exact hs.terminated htask rfl ht hdone fun _ h =>
          Option.some.inj h ▸ ⟨⟨ht, hhandles, hend⟩, fun _ => nofun⟩

end AI2Apps.Processes
