import AI2Apps.Processes.Waiting

/-!
# The sections of `start`

The last section of `start` is the one place that can take a record back and bring a child
into being that nobody looks for.

* `Invariant.start`: the record is made.
* `Invariant.spawned`: the child is there.
-/

namespace AI2Apps.Processes

variable {s s' : System} {t : TaskId} {id : ℕ} {c : ChildId} {pc : Pc} {thread : Thread}
  {a : Answer}

/-! ## The child is there -/

theorem watchers_cases {tasks : TaskId → Option Task} {u : TaskId} {task : Task}
    (h : watchers tasks id u = some task) :
    u.watches id = false ∧ tasks u = some task ∨
      (∃ stream, u = .reader id stream ∧ task = ⟨.read id, .idle⟩) ∨
      (u = .watchdog id ∧ task = ⟨.top id, .idle⟩) ∨ (u = .waiter id ∧ task = ⟨.begun id, .idle⟩) := by
  cases u with
  | external n => exact .inl ⟨rfl, h⟩
  | reader id' stream =>
    by_cases heq : id' = id
    · subst heq
      rw [watchers, if_pos rfl] at h
      exact .inr (.inl ⟨stream, rfl, (Option.some.inj h).symm⟩)
    · rw [watchers, if_neg heq] at h
      exact .inl ⟨decide_eq_false heq, h⟩
  | watchdog id' =>
    by_cases heq : id' = id
    · subst heq
      rw [watchers, if_pos rfl] at h
      exact .inr (.inr (.inl ⟨rfl, (Option.some.inj h).symm⟩))
    · rw [watchers, if_neg heq] at h
      exact .inl ⟨decide_eq_false heq, h⟩
  | waiter id' =>
    by_cases heq : id' = id
    · subst heq
      rw [watchers, if_pos rfl] at h
      exact .inr (.inr (.inr ⟨rfl, (Option.some.inj h).symm⟩))
    · rw [watchers, if_neg heq] at h
      exact .inl ⟨decide_eq_false heq, h⟩

theorem watchers_of_not {tasks : TaskId → Option Task} {u : TaskId} (h : u.watches id = false) :
    watchers tasks id u = tasks u := by
  cases u with
  | external n => rfl
  | reader id' stream => exact if_neg (of_decide_eq_false h)
  | watchdog id' => exact if_neg (of_decide_eq_false h)
  | waiter id' => exact if_neg (of_decide_eq_false h)

theorem spawned_eq (hresolve : a.resolveRaises = false) (hmark : a.markRaises = false) :
    s.spawned t id a = { s with
      db := s.db.markRunning id s.nextChild a.now
      children := Function.update s.children s.nextChild (some ⟨id, true, false⟩)
      nextChild := s.nextChild + 1
      live := Function.update s.live id (some s.nextChild)
      tasks := watchers (Function.update s.tasks t none) id } := by
  unfold System.spawned
  simp only [hresolve, hmark, Bool.or_self, Bool.false_eq_true, if_false]
  rfl

section Spawned

variable (hs : Invariant s) (htask : s.tasks t = some ⟨.spawning id, thread⟩)
  (hquiet : ∀ u task, s.tasks u = some task → task.pc.terminates ≠ some id)
  (hwrites : s.db.Writes s'.db none)
  (hchildren : s'.children = Function.update s.children s.nextChild (some ⟨id, true, false⟩))
  (hlive : s'.live = Function.update s.live id (some s.nextChild))
  (htasks : s'.tasks = watchers (Function.update s.tasks t none) id)

include hs hchildren in
/-- The children that were there are there. -/
theorem Invariant.old_child {child : Child} (h : s.children c = some child) :
    s'.children c = some child := by
  have hne : c ≠ s.nextChild := by
    rintro rfl
    rw [hs.fresh _ (Nat.le_refl _)] at h
    cases h
  rw [hchildren, Function.update_of_ne hne, h]

include hchildren in
theorem new_child {child : Child} (h : s'.children c = some child) :
    c = s.nextChild ∧ child = ⟨id, true, false⟩ ∨ s.children c = some child := by
  rw [hchildren] at h
  rcases TaskTable.update_cases h with ⟨hc, h⟩ | ⟨-, h⟩
  · exact .inl ⟨hc, (Option.some.inj h).symm⟩
  · exact .inr h

include hs htask hquiet hwrites hchildren hlive

/-- What the other tasks know stays true: none of them is about this record. -/
theorem Invariant.fits_spawned {u : TaskId} {task : Task} (hu : s.tasks u = some task)
    (hne : u ≠ t) (hwatches : u.watches id = false) : s'.Fits u task := by
  have hfits := hs.fits u task hu
  have hknown : ∀ id', (s.db.get? id').isSome = true → (s'.db.get? id').isSome = true := by
    intro id' h
    obtain ⟨r, hr⟩ := Option.isSome_iff_exists.mp h
    obtain ⟨r', hr', -⟩ := hwrites.keeps id' r hr
    exact Option.isSome_iff_exists.mpr ⟨r', hr'⟩
  have howns : ∀ id' c', s.Owns id' c' → s'.Owns id' c' := fun id' c' ⟨child, h, howner⟩ =>
    ⟨child, hs.old_child hchildren h, howner⟩
  have hdead : ∀ id' c', s.Owns id' c' → s.isDead c' = true → s'.isDead c' = true := by
    rintro id' c' ⟨child, h, -⟩ hdead
    refine isDead_iff.mpr fun child' h' => ?_
    obtain rfl := Option.some.inj (h'.symm.trans (hs.old_child hchildren h))
    exact isDead_iff.mp hdead child' h
  have hhandles : ∀ x : Termination, x.id ≠ id → s.Handles x → s'.Handles x := by
    intro x hx h
    unfold System.Handles at h ⊢
    cases hc : x.child with
    | some c' =>
      rw [hc] at h
      exact howns x.id c' h
    | none =>
      rw [hc] at h
      intro c' child h' howner
      rcases new_child hchildren h' with ⟨-, rfl⟩ | h'
      · exact absurd howner.symm hx
      · exact h c' child h' howner
  obtain ⟨pc, thread'⟩ := task
  cases pc with
  | spawning id' =>
    obtain ⟨hext, hid', hfree⟩ := hfits
    refine ⟨hext, hknown id' hid', fun c' child h' => ?_⟩
    rcases new_child hchildren h' with ⟨-, rfl⟩ | h'
    · rintro rfl
      exact hne (hs.once u _ t _ id hu htask rfl rfl)
    · exact hfree c' child h'
  | begun id' | slept id' =>
    obtain ⟨rfl, hidle, h⟩ := hfits
    refine ⟨rfl, hidle, ?_⟩
    rwa [hlive, Function.update_of_ne (of_decide_eq_false hwatches)]
  | exit id' c' => exact ⟨hfits.1, hfits.2.1, howns id' c' hfits.2.2⟩
  | drain id' c' code =>
    obtain ⟨ht, hidle, hc, hd⟩ := hfits
    exact ⟨ht, hidle, howns id' c' hc, hdead id' c' hc hd⟩
  | inspect id' c' code =>
    obtain ⟨⟨ht, hc, hd⟩, hanswer⟩ := hfits
    refine ⟨⟨ht, howns id' c' hc, hdead id' c' hc hd⟩, fun hdone => ?_⟩
    obtain ⟨r, hr, hend⟩ := hanswer hdone
    exact ⟨r, hr, fun hterminal => hwrites.keeps.ended (hend hterminal)⟩
  | conclude id' c' code =>
    obtain ⟨⟨ht, hc, hd⟩, hanswer⟩ := hfits
    exact ⟨⟨ht, howns id' c' hc, hdead id' c' hc hd⟩,
      fun hdone => hwrites.keeps.ended (hanswer hdone)⟩
  | settle x =>
    have hx : x.id ≠ id := fun h => hquiet u _ hu (congrArg some h)
    exact ⟨hfits.1, hhandles x hx hfits.2.1, hknown x.id hfits.2.2.1,
      fun hdone => hwrites.keeps.ended (hfits.2.2.2 hdone)⟩
  | grace x | kill x =>
    have hx : x.id ≠ id := fun h => hquiet u _ hu (congrArg some h)
    exact ⟨hfits.1, hhandles x hx hfits.2.1, hwrites.keeps.ended hfits.2.2⟩
  | failed =>
    obtain ⟨id', stream, heq, hend⟩ := hfits
    exact ⟨id', stream, heq, hwrites.keeps.ended hend⟩
  | read id' | look id' size | store id' size limitReached => exact ⟨hfits.1, hknown id' hfits.2⟩
  | top id' | sleep id' | check id' => exact ⟨hfits.1, hknown id' hfits.2⟩
  | drained id' close | closing id' | touching id' close | reporting id' => exact hfits
  | listing runId | gathering targets => exact hfits

include htasks

omit hlive in
theorem Invariant.lawful_spawned (hend : ¬ s.db.Ended id) : Lawful s' where
  signalled c child hchild halive hended := by
    have hold : s.db.Ended child.owner := (hwrites.ended _ hended).resolve_right nofun
    rcases new_child hchildren hchild with ⟨-, rfl⟩ | hchild
    · exact absurd hold hend
    · rcases hs.signalled c child hchild halive hold with h | ⟨u, task, hu, x, answer, rfl, hx⟩
      · exact .inl h
      · obtain ⟨hserves, -⟩ := hs.fits u _ hu
        have hxid : x.id ≠ id := fun h => hquiet u _ hu (congrArg some h)
        have hne : u ≠ t := by
          rintro rfl
          rw [htask] at hu
          cases hu
        refine .inr ⟨u, _, ?_, x, answer, rfl, hx⟩
        rw [htasks, watchers_of_not (not_watches hserves hxid), Function.update_of_ne hne, hu]
  ended id' h := by
    by_cases heq : id' = id
    · refine .inr (.inr ⟨⟨.begun id, .idle⟩, ?_⟩)
      rw [htasks, heq]
      exact if_pos rfl
    · rcases hs.ended id' (hwrites.known id' h) with ⟨u, task, hu, hpc⟩ | h | ⟨task, hwait⟩
      · obtain ⟨⟨n, rfl⟩, -⟩ := (hs.fits u task hu).spawning hpc
        have hne : TaskId.external n ≠ t := by
          rintro rfl
          rw [htask] at hu
          cases hu
          cases hpc
          exact heq rfl
        exact .inl ⟨.external n, task, by rw [htasks, watchers, Function.update_of_ne hne, hu], hpc⟩
      · exact .inr (.inl (hwrites.keeps.ended h))
      · have hne : TaskId.waiter id' ≠ t := by
          rintro rfl
          obtain ⟨⟨n, h⟩, -⟩ := hs.fits _ _ htask
          cases h
        have hwatches : (TaskId.waiter id').watches id = false := decide_eq_false heq
        refine .inr (.inr ⟨task, ?_⟩)
        rw [htasks, watchers_of_not hwatches, Function.update_of_ne hne, hwait]

/-- **The child is there**, of a record that was not settled meanwhile. -/
theorem Invariant.spawned (hend : ¬ s.db.Ended id) (hnext : s'.nextChild = s.nextChild + 1) :
    Invariant s' := by
  obtain ⟨-, hknown, hfree⟩ := hs.fits t _ htask
  have hknown' : ∀ id', (s.db.get? id').isSome = true → (s'.db.get? id').isSome = true := by
    intro id' h
    obtain ⟨r, hr⟩ := Option.isSome_iff_exists.mp h
    obtain ⟨r', hr', -⟩ := hwrites.keeps id' r hr
    exact Option.isSome_iff_exists.mpr ⟨r', hr'⟩
  have hspawning : ∀ u task id', s'.tasks u = some task → task.pc = .spawning id' →
      s.tasks u = some task := by
    intro u task id' hu hpc
    rw [htasks] at hu
    rcases watchers_cases hu with ⟨-, hu⟩ | ⟨stream, -, rfl⟩ | ⟨-, rfl⟩ | ⟨-, rfl⟩
    · rcases TaskTable.update_cases hu with ⟨-, h⟩ | ⟨-, hu⟩
      · cases h
      · exact hu
    · cases hpc
    · cases hpc
    · cases hpc
  exact
    { toLawful := hs.lawful_spawned htask hquiet hwrites hchildren htasks hend
      fits := by
        intro u task hu
        rw [htasks] at hu
        rcases watchers_cases hu with ⟨hwatches, hu⟩ | ⟨stream, rfl, rfl⟩ | ⟨rfl, rfl⟩ | ⟨rfl, rfl⟩
        · rcases TaskTable.update_cases hu with ⟨-, h⟩ | ⟨hne, hu⟩
          · cases h
          · exact hs.fits_spawned htask hquiet hwrites hchildren hlive hu hne hwatches
        · exact ⟨⟨stream, rfl⟩, hknown' id hknown⟩
        · exact ⟨rfl, hknown' id hknown⟩
        · exact ⟨rfl, rfl, by rw [hlive, Function.update_self]; rfl⟩
      once := fun u task u' task' id' hu hu' hpc hpc' =>
        hs.once u task u' task' id' (hspawning u task id' hu hpc) (hspawning u' task' id' hu' hpc')
          hpc hpc'
      fresh := by
        intro c hc
        rw [hnext] at hc
        rw [hchildren, Function.update_of_ne (Nat.ne_of_gt hc), hs.fresh c (Nat.le_of_succ_le hc)]
      known := by
        intro c child h
        rcases new_child hchildren h with ⟨-, rfl⟩ | h
        · exact hknown' id hknown
        · exact hknown' _ (hs.known c child h)
      single := by
        rintro c c' id' ⟨child, h, rfl⟩ ⟨child', h', howner⟩
        rcases new_child hchildren h with ⟨rfl, rfl⟩ | h <;>
          rcases new_child hchildren h' with ⟨rfl, rfl⟩ | h'
        · rfl
        · exact absurd howner (hfree c' child' h')
        · exact absurd howner.symm (hfree c child h)
        · exact hs.single c c' child.owner ⟨child, h, rfl⟩ ⟨child', h', howner⟩
      listed := by
        intro c child h halive
        rcases new_child hchildren h with ⟨rfl, rfl⟩ | h
        · rw [hlive, Function.update_self]
        · rw [hlive, Function.update_of_ne (hfree c child h), hs.listed c child h halive]
      owned := by
        intro id' c h
        rw [hlive] at h
        rcases TaskTable.update_cases h with ⟨rfl, hsome⟩ | ⟨-, h⟩
        · obtain rfl := Option.some.inj hsome
          exact ⟨⟨id', true, false⟩, by rw [hchildren, Function.update_self], rfl⟩
        · obtain ⟨child, hchild, howner⟩ := hs.owned id' c h
          exact ⟨child, hs.old_child hchildren hchild, howner⟩ }

end Spawned

/-! ## The record is made -/

/-- What `start` inserts is a new record. -/
theorem admits_spec {input : StartInput} {db : Db} (h : s.admits input = some db) :
    s.db.get? input.id = none ∧ s.db.Keeps db ∧ ∃ r, r.status.terminal = false ∧
      ∀ id, db.get? id = if input.id = id then some r else s.db.get? id := by
  unfold System.admits at h
  split at h
  · cases h
  · exact ⟨(Table.rows_insert h).2, Db.keeps_insert h, _, rfl, Table.get?_insert h⟩

/-- The record is settled or spawned for. -/
theorem Invariant.start (hs : Invariant s) {n : ℕ} (hnone : s.tasks (.external n) = none)
    (input : StartInput) (h : (s.admits input).isSome = true →
      input.issueRaises = false ∧ (input.verifyRaises = true → input.resolveRaises = false)) :
    Invariant (s.start (.external n) input) ∧ s.db.Keeps (s.start (.external n) input).db := by
  unfold System.start
  cases hadmits : s.admits input with
  | none => exact ⟨hs, .refl _⟩
  | some db =>
    obtain ⟨hissue, hverify⟩ := h (by rw [hadmits]; rfl)
    obtain ⟨hfresh, hkeeps, r, hstarting, hget⟩ := admits_spec hadmits
    have hother : ∀ c child, s.children c = some child → input.id ≠ child.owner := by
      rintro c child hchild heq
      have hknown := hs.known c child hchild
      rw [← heq, hfresh] at hknown
      cases hknown
    have hended : ∀ id, db.Ended id → s.db.Ended id := by
      rintro id ⟨r', hr', hend⟩
      rw [hget] at hr'
      split at hr'
      · obtain rfl := Option.some.inj hr'
        rw [hstarting] at hend
        cases hend
      · exact ⟨r', hr', hend⟩
    have hknown : ∀ id, (db.get? id).isSome = true → input.id = id ∨ (s.db.get? id).isSome = true := by
      intro id h
      rw [hget] at h
      split at h
      · exact .inl ‹_›
      · exact .inr h
    have hnew : (db.get? input.id).isSome = true := by rw [hget, if_pos rfl]; rfl
    dsimp only
    rw [hissue, if_neg Bool.false_ne_true]
    split
    · rename_i hraises
      unfold System.spawnFailed
      rw [hverify hraises, if_neg Bool.false_ne_true]
      have hwrites := db.writes_settle input.id .failed none
        (some ⟨"spawn_failed", some input.message⟩) input.now
      have hkeeps' := hkeeps.trans hwrites.keeps
      have hg : Gentle s { s with
          db := db.settle input.id .failed none (some ⟨"spawn_failed", some input.message⟩)
            input.now } :=
        ⟨hkeeps', rfl, rfl, fun _ child h => ⟨child, h, rfl, fun h => h, fun h => h⟩,
          fun _ child h => ⟨child, h⟩⟩
      have htasks : s.tasks = Function.update s.tasks (.external n) none := by
        rw [← hnone, Function.update_eq_self]
      refine ⟨hs.move hg htasks ⟨fun _ h => (by cases h), fun _ _ h => (by cases h), ?_, ?_, ?_⟩
        ?_ ?_, hkeeps'⟩
      · intro x answer c child h
        rw [hnone] at h
        cases h
      · intro task id h
        rw [hnone] at h
        cases h
      · intro task id h
        rw [hnone] at h
        cases h
      · intro c child hchild _ hend
        rcases hwrites.ended _ hend with h | h
        · exact .inl (hended _ h)
        · exact absurd (Option.some.inj h) (hother c child hchild)
      · intro id h
        rcases hknown id (hwrites.known id h) with rfl | h
        · exact .inr (.inr (Db.ended_settle rfl hnew _ _ _))
        · exact .inl h
    · have hg : Gentle s ({ s with db := db }.await (.external n) (.spawning input.id)) :=
        ⟨hkeeps, rfl, rfl, fun _ child h => ⟨child, h, rfl, fun h => h, fun h => h⟩,
          fun _ child h => ⟨child, h⟩⟩
      refine ⟨hs.move hg rfl ⟨?_, ?_, ?_, ?_, ?_⟩ (fun _ _ _ _ h => .inl (hended _ h)) ?_, hkeeps⟩
      · intro task h
        obtain rfl := Option.some.inj h
        exact ⟨⟨n, rfl⟩, hnew, fun c child hchild => (hother c child hchild).symm⟩
      · intro task id h hpc u task' hu hpc'
        obtain rfl := Option.some.inj h
        obtain rfl := Pc.spawning.inj hpc
        obtain ⟨-, hold, -⟩ := (hs.fits u task' hu).spawning hpc'
        rw [hfresh] at hold
        cases hold
      · intro x answer c child h
        rw [hnone] at h
        cases h
      · intro task id h
        rw [hnone] at h
        cases h
      · intro task id h
        rw [hnone] at h
        cases h
      · intro id h
        rcases hknown id h with rfl | h
        · exact .inr (.inl ⟨.external n, _, Function.update_self .., rfl⟩)
        · exact .inl h

end AI2Apps.Processes
