import AI2Apps.Processes.Manager

/-!
# The life of a process record

What is promised of every interleaving, when it holds, and the invariant behind it.  A
record that is settled while `start` is still spawning is started again by `mark_running`,
and its child is not in the live map when the settling task looks; a call that raises
between the record and the live map leaves a record that nothing settles.

* `Lawful`, `Harmless`: what is promised, and the condition.
* `System.Fits`, `Invariant`: what holds between the sections.
* `Invariant.move`: the one argument for a section that changes the entry of one task.
-/

namespace AI2Apps.Processes

/-! ## What is promised -/

/-- `start` is still spawning the child of the record. -/
def System.Spawning (s : System) (id : ℕ) : Prop :=
  ∃ t task, s.tasks t = some task ∧ task.pc = .spawning id

/-- `_wait` has not settled the record yet. -/
def System.Waits (s : System) (id : ℕ) : Prop := ∃ task, s.tasks (.waiter id) = some task

/-- The next section of some `_terminate` signals the child. -/
def System.AboutToSignal (s : System) (c : ChildId) : Prop :=
  ∃ t task, s.tasks t = some task ∧
    ∃ x answer, task = ⟨.settle x, .returned answer⟩ ∧ x.child = some c

/-- What is promised between any two sections. -/
structure Lawful (s : System) : Prop where
  /-- The child of a settled record is signalled to terminate. -/
  signalled : ∀ c child, s.children c = some child → child.alive = true →
    s.db.Ended child.owner → child.signalled = true ∨ s.AboutToSignal c
  /-- A record whose `start` is over is settled, or `_wait` is on the way to settle it. -/
  ended : ∀ id, (s.db.get? id).isSome = true → s.Spawning id ∨ s.db.Ended id ∨ s.Waits id

/-! ## The condition -/

/-- The record that an activation of `_terminate` settles. -/
def Pc.terminates : Pc → Option ℕ
  | .settle x | .grace x | .kill x => some x.id
  | _ => none

/-- The section goes another way than the ones that break the promise. -/
def System.HarmlessAt (s : System) (a : Answer) : Pc → Prop
  | .spawning id => a.resolveRaises = false ∧ (a.raised = false →
      a.markRaises = false ∧ ¬ s.db.Ended id ∧
        ∀ t task, s.tasks t = some task → task.pc.terminates ≠ some id)
  | .begun _ | .slept _ | .exit _ _ | .drain _ _ _ | .inspect _ _ _ | .conclude _ _ _ =>
    a.raised = false
  | .settle x => a.raised = false ∧
      (a.killRaises = true → ∀ c, x.child = some c → s.isDead c = true)
  | _ => True

def System.Harmless (s : System) : Event → Prop
  | .start _ input => (s.admits input).isSome = true →
      input.issueRaises = false ∧ (input.verifyRaises = true → input.resolveRaises = false)
  | .resume t a => ∀ task, s.tasks t = some task → s.HarmlessAt a task.pc
  | _ => True

def System.HarmlessThroughout (s : System) : List Event → Prop
  | [] => True
  | event :: events => s.Harmless event ∧ (s.after event).HarmlessThroughout events

/-! ## The invariant -/

/-- The child was spawned for the record. -/
def System.Owns (s : System) (id : ℕ) (c : ChildId) : Prop :=
  ∃ child, s.children c = some child ∧ child.owner = id

/-- An activation of `_terminate` knows the child of its record, or none is alive. -/
def System.Handles (s : System) (x : Termination) : Prop :=
  match x.child with
  | none => ∀ c child, s.children c = some child → child.owner = x.id → child.alive = false
  | some c => s.Owns x.id c

/-- The tasks that may terminate the record. -/
def TaskId.Serves (t : TaskId) (id : ℕ) : Prop :=
  match t with
  | .external _ => True
  | .reader id' _ | .watchdog id' => id' = id
  | .waiter _ => False

/-- What a task that awaits this knows. -/
def System.Fits (s : System) (t : TaskId) (task : Task) : Prop :=
  match task.pc with
  | .spawning id => (∃ n, t = .external n) ∧ (s.db.get? id).isSome = true ∧
      ∀ c child, s.children c = some child → child.owner ≠ id
  | .read id | .look id _ | .store id _ _ =>
      (∃ stream, t = .reader id stream) ∧ (s.db.get? id).isSome = true
  | .top id | .sleep id | .check id => t = .watchdog id ∧ (s.db.get? id).isSome = true
  | .begun id | .slept id => t = .waiter id ∧ task.thread = .idle ∧ (s.live id).isSome = true
  | .exit id c => t = .waiter id ∧ task.thread = .idle ∧ s.Owns id c
  | .drain id c _ => t = .waiter id ∧ task.thread = .idle ∧ s.Owns id c ∧ s.isDead c = true
  | .inspect id c _ => (t = .waiter id ∧ s.Owns id c ∧ s.isDead c = true) ∧
      (task.thread ≠ .requested → ∃ r, task.thread = .returned (.record (some r)) ∧
        (r.status.terminal = true → s.db.Ended id))
  | .conclude id c _ => (t = .waiter id ∧ s.Owns id c ∧ s.isDead c = true) ∧
      (task.thread ≠ .requested → s.db.Ended id)
  | .settle x => t.Serves x.id ∧ s.Handles x ∧ (s.db.get? x.id).isSome = true ∧
      (task.thread ≠ .requested → s.db.Ended x.id)
  | .grace x | .kill x => t.Serves x.id ∧ s.Handles x ∧ s.db.Ended x.id
  | .drained _ _ | .closing _ | .touching _ _ | .reporting _ | .listing _ | .gathering _ =>
      ∃ n, t = .external n
  | .failed => ∃ id stream, t = .reader id stream ∧ s.db.Ended id

structure Invariant (s : System) : Prop extends Lawful s where
  fits : ∀ t task, s.tasks t = some task → s.Fits t task
  /-- No two tasks spawn for one record. -/
  once : ∀ t task t' task' id, s.tasks t = some task → s.tasks t' = some task' →
    task.pc = .spawning id → task'.pc = .spawning id → t = t'
  fresh : ∀ c, s.nextChild ≤ c → s.children c = none
  known : ∀ c child, s.children c = some child → (s.db.get? child.owner).isSome = true
  single : ∀ c c' id, s.Owns id c → s.Owns id c' → c = c'
  /-- The live map knows every child that is alive. -/
  listed : ∀ c child, s.children c = some child → child.alive = true →
    s.live child.owner = some c
  owned : ∀ id c, s.live id = some c → s.Owns id c

/-! ## Changes that take nothing back -/

/-- The live map stays, no child changes its owner, comes back to life or is unsignalled, and
no record is lost or taken back. -/
structure Gentle (s s' : System) : Prop where
  keeps : s.db.Keeps s'.db
  live : s'.live = s.live
  next : s'.nextChild = s.nextChild
  children : ∀ c child', s'.children c = some child' → ∃ child, s.children c = some child ∧
    child'.owner = child.owner ∧ (child'.alive = true → child.alive = true) ∧
    (child.signalled = true → child'.signalled = true)
  stay : ∀ c child, s.children c = some child → ∃ child', s'.children c = some child'

variable {s s' : System} {t : TaskId} {id : ℕ} {c : ChildId}

theorem Gentle.owns (hg : Gentle s s') (h : s.Owns id c) : s'.Owns id c := by
  obtain ⟨child, hchild, rfl⟩ := h
  obtain ⟨child', hchild'⟩ := hg.stay c child hchild
  obtain ⟨child₀, h₀, howner, -⟩ := hg.children c child' hchild'
  obtain rfl := Option.some.inj (h₀.symm.trans hchild)
  exact ⟨child', hchild', howner⟩

theorem Gentle.owned (hg : Gentle s s') (h : s'.Owns id c) : s.Owns id c := by
  obtain ⟨child', hchild', rfl⟩ := h
  obtain ⟨child, hchild, howner, -⟩ := hg.children c child' hchild'
  exact ⟨child, hchild, howner.symm⟩

theorem Gentle.isDead (hg : Gentle s s') (h : s.isDead c = true) : s'.isDead c = true := by
  unfold System.isDead at h ⊢
  rw [Option.all_eq_true] at h ⊢
  intro child' hchild'
  obtain ⟨child, hchild, -, halive, -⟩ := hg.children c child' hchild'
  have hdead := h child hchild
  cases h' : child'.alive with
  | false => rfl
  | true => simp [halive h'] at hdead

theorem Gentle.handles (hg : Gentle s s') {x : Termination} (h : s.Handles x) : s'.Handles x := by
  unfold System.Handles at h ⊢
  cases hx : x.child with
  | some c =>
    rw [hx] at h
    exact hg.owns h
  | none =>
    rw [hx] at h
    intro c child' hchild' howner
    obtain ⟨child, hchild, howner', halive, -⟩ := hg.children c child' hchild'
    have hdead := h c child hchild (howner' ▸ howner)
    cases h' : child'.alive with
    | false => rfl
    | true => exact absurd (halive h') (by simp [hdead])

theorem Gentle.known (hg : Gentle s s') (h : (s.db.get? id).isSome = true) :
    (s'.db.get? id).isSome = true := by
  obtain ⟨r, hr⟩ := Option.isSome_iff_exists.mp h
  obtain ⟨r', hr', -⟩ := hg.keeps id r hr
  exact Option.isSome_iff_exists.mpr ⟨r', hr'⟩

/-- What a task knows stays true. -/
theorem Gentle.fits (hg : Gentle s s') {task : Task} (h : s.Fits t task) : s'.Fits t task := by
  obtain ⟨pc, thread⟩ := task
  cases pc with
  | spawning id =>
    refine ⟨h.1, hg.known h.2.1, fun c child' hchild' => ?_⟩
    obtain ⟨child, hchild, howner, -⟩ := hg.children c child' hchild'
    exact howner ▸ h.2.2 c child hchild
  | begun id | slept id => exact ⟨h.1, h.2.1, by rw [hg.live]; exact h.2.2⟩
  | exit id c => exact ⟨h.1, h.2.1, hg.owns h.2.2⟩
  | drain id c code => exact ⟨h.1, h.2.1, hg.owns h.2.2.1, hg.isDead h.2.2.2⟩
  | inspect id c code =>
    refine ⟨⟨h.1.1, hg.owns h.1.2.1, hg.isDead h.1.2.2⟩, fun hdone => ?_⟩
    obtain ⟨r, hr, hend⟩ := h.2 hdone
    exact ⟨r, hr, fun hterminal => hg.keeps.ended (hend hterminal)⟩
  | conclude id c code =>
    exact ⟨⟨h.1.1, hg.owns h.1.2.1, hg.isDead h.1.2.2⟩,
      fun hdone => hg.keeps.ended (h.2 hdone)⟩
  | settle x =>
    exact ⟨h.1, hg.handles h.2.1, hg.known h.2.2.1,
      fun hdone => hg.keeps.ended (h.2.2.2 hdone)⟩
  | grace x | kill x => exact ⟨h.1, hg.handles h.2.1, hg.keeps.ended h.2.2⟩
  | failed =>
    obtain ⟨id, stream, ht, hend⟩ := h
    exact ⟨id, stream, ht, hg.keeps.ended hend⟩
  | read id | look id size | store id size limitReached => exact ⟨h.1, hg.known h.2⟩
  | top id | sleep id | check id => exact ⟨h.1, hg.known h.2⟩
  | drained id close | closing id | touching id close | reporting id => exact h
  | listing runId | gathering targets => exact h

/-- What a task knows is about the records and the children, and the waiter's live child. -/
theorem System.Fits.of_eq {task : Task} (hdb : s'.db = s.db) (hchildren : s'.children = s.children)
    (hlive : ∀ id, t = .waiter id → s'.live id = s.live id) (h : s.Fits t task) : s'.Fits t task := by
  obtain ⟨pc, thread⟩ := task
  cases pc with
  | begun id | slept id => exact ⟨h.1, h.2.1, hlive id h.1 ▸ h.2.2⟩
  | drained id close | closing id | touching id close | reporting id => exact h
  | listing runId | gathering targets => exact h
  | read id | look id size | store id size limitReached => simpa only [System.Fits, hdb] using h
  | top id | sleep id | check id => simpa only [System.Fits, hdb] using h
  | spawning id | exit id c | drain id c code | inspect id c code | conclude id c code =>
    simpa only [System.Fits, System.Owns, System.isDead, hdb, hchildren] using h
  | settle x | grace x | kill x =>
    simpa only [System.Fits, System.Handles, System.Owns, hdb, hchildren] using h
  | failed => simpa only [System.Fits, hdb] using h

theorem System.Fits.spawning {task : Task} (h : s.Fits t task) (hpc : task.pc = .spawning id) :
    (∃ n, t = .external n) ∧ (s.db.get? id).isSome = true ∧
      ∀ c child, s.children c = some child → child.owner ≠ id := by
  unfold System.Fits at h
  rw [hpc] at h
  exact h

/-! ## One task moves -/

/-- What the entry that replaces another must do: it spawns for no record that is known, an
activation of `_terminate` that was about to signal has signalled, and a task that stood for
the end of a record leaves it settled. -/
structure Replaces (s s' : System) (t : TaskId) (new : Option Task) : Prop where
  fits : ∀ task, new = some task → s'.Fits t task
  spawns : ∀ task id, new = some task → task.pc = .spawning id →
    ∀ u task', s.tasks u = some task' → task'.pc = .spawning id → u = t
  signals : ∀ x answer c child, s.tasks t = some ⟨.settle x, .returned answer⟩ →
    x.child = some c → s'.children c = some child → child.alive = true →
      child.signalled = true ∨ s'.AboutToSignal c
  spawned : ∀ task id, s.tasks t = some task → task.pc = .spawning id →
    s'.db.Ended id ∨ ∃ task', new = some task' ∧ task'.pc = .spawning id
  waited : ∀ task id, s.tasks t = some task → t = .waiter id →
    s'.db.Ended id ∨ ∃ task', new = some task'

theorem Invariant.move (hs : Invariant s) (hg : Gentle s s') {new : Option Task}
    (htasks : s'.tasks = Function.update s.tasks t new) (hr : Replaces s s' t new)
    (hsettled : ∀ c child, s'.children c = some child → child.alive = true →
      s'.db.Ended child.owner → s.db.Ended child.owner ∨ s'.AboutToSignal c)
    (hknown : ∀ id, (s'.db.get? id).isSome = true →
      (s.db.get? id).isSome = true ∨ s'.Spawning id ∨ s'.db.Ended id) : Invariant s' where
  fits := by
    rw [htasks]
    exact TaskTable.forall_update hr.fits fun u task _ hu => hg.fits (hs.fits u task hu)
  once u task u' task' id hu hu' hpc hpc' := by
    rw [htasks] at hu hu'
    rcases TaskTable.update_cases hu with ⟨ht, hnew⟩ | ⟨-, hu⟩ <;>
      rcases TaskTable.update_cases hu' with ⟨ht', hnew'⟩ | ⟨-, hu'⟩
    · exact ht.trans ht'.symm
    · exact ht.trans (hr.spawns task id hnew hpc u' task' hu' hpc').symm
    · exact (hr.spawns task' id hnew' hpc' u task hu hpc).trans ht'.symm
    · exact hs.once u task u' task' id hu hu' hpc hpc'
  fresh c hc := by
    cases hchild : s'.children c with
    | none => rfl
    | some child' =>
      obtain ⟨child, h, -⟩ := hg.children c child' hchild
      rw [hg.next] at hc
      exact absurd (h.symm.trans (hs.fresh c hc)) nofun
  known c child' h := by
    obtain ⟨child, hchild, howner, -⟩ := hg.children c child' h
    exact howner ▸ hg.known (hs.known c child hchild)
  single c c' id h h' := hs.single c c' id (hg.owned h) (hg.owned h')
  listed c child' h halive := by
    obtain ⟨child, hchild, howner, halive', -⟩ := hg.children c child' h
    rw [hg.live, howner]
    exact hs.listed c child hchild (halive' halive)
  owned id c h := hg.owns (hs.owned id c (by rwa [hg.live] at h))
  signalled c child' h halive hend := by
    rcases hsettled c child' h halive hend with hend | habout
    · obtain ⟨child, hchild, howner, halive', hsignalled⟩ := hg.children c child' h
      rcases hs.signalled c child hchild (halive' halive) (howner ▸ hend) with hsig | habout
      · exact .inl (hsignalled hsig)
      · obtain ⟨u, task, hu, x, answer, rfl, hx⟩ := habout
        rcases eq_or_ne u t with rfl | hne
        · exact hr.signals x answer c child' hu hx h halive
        · refine .inr ⟨u, _, ?_, x, answer, rfl, hx⟩
          rw [htasks, Function.update_of_ne hne, hu]
    · exact .inr habout
  ended id h := by
    rcases hknown id h with hold | hspawning | hend
    · rcases hs.ended id hold with ⟨u, task, hu, hpc⟩ | hend | ⟨task, hwait⟩
      · rcases eq_or_ne u t with rfl | hne
        · rcases hr.spawned task id hu hpc with hend | ⟨task', hnew, hpc'⟩
          · exact .inr (.inl hend)
          · exact .inl ⟨u, task', by rw [htasks, Function.update_self, hnew], hpc'⟩
        · exact .inl ⟨u, task, by rw [htasks, Function.update_of_ne hne, hu], hpc⟩
      · exact .inr (.inl (hg.keeps.ended hend))
      · rcases eq_or_ne (.waiter id) t with rfl | hne
        · rcases hr.waited task id hwait rfl with hend | ⟨task', hnew⟩
          · exact .inr (.inl hend)
          · exact .inr (.inr ⟨task', by rw [htasks, Function.update_self, hnew]⟩)
        · exact .inr (.inr ⟨task, by rw [htasks, Function.update_of_ne hne, hwait]⟩)
    · exact .inl hspawning
    · exact .inr (.inl hend)

end AI2Apps.Processes
