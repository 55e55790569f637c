import AI2Apps.Knowledge.ImportSteps

/-!
# Import jobs: items, counts, files and recovery

What the invariant says of the import jobs, and that a job that is not cancelled can
be brought to an end after recovery: the worker of a resumed job takes every queued
entry to completion or failure.

* `Lawful`, `Recovered`: what is promised of a state, and of one after recovery.
* `CanFinish`, `canFinish_of_recovered`: the job comes to an end.
* `imports_hold`: in every history whose steps meet the condition.
-/

namespace AI2Apps.Knowledge.Imports

/-! ## What is promised -/

/-- The resumption of a job, and the steps of a worker that nothing disturbs. -/
def Resumes (jobId : Str) : Event → Prop
  | .control _ jobId' .resume => jobId' = jobId
  | .process _ jobId' => jobId' = jobId
  | .work _ none => True
  | _ => False

/-- The job reaches a terminal status by resumption and processing. -/
def CanFinish (setup : Setup) (s : System) (jobId : Str) : Prop :=
  ∃ events, (∀ event ∈ events, Resumes jobId event) ∧
    ∃ job, (s.run setup events).db.jobs.get? jobId = some job ∧ job.status.terminal = true

structure Lawful (s : System) : Prop where
  /-- An entry produces at most one item. -/
  item : ∀ key, (s.items.filter fun item => item.producer = key).length ≤ 1
  completed : ∀ jobId job, s.db.jobs.get? jobId = some job →
    job.completedFiles = s.db.count jobId (· = .completed)
  failed : ∀ jobId job, s.db.jobs.get? jobId = some job →
    job.failedFiles = s.db.count jobId (· = .failed)
  terminal : ∀ jobId job, s.db.jobs.get? jobId = some job → (job.status.terminal = true ↔
    ∀ row ∈ s.db.entries.rows, row.jobId = jobId → row.status ≠ .queued ∧ row.status ≠ .running)
  staged : ∀ row ∈ s.db.entries.rows, row.status = .queued → ∀ key, row.stagingKey = some key →
    (s.files key).isSome = true

structure Recovered (setup : Setup) (s : System) : Prop where
  running : ∀ row ∈ s.db.entries.rows, row.status ≠ .running
  finish : ∀ jobId job, s.db.jobs.get? jobId = some job → job.controlState ≠ .cancelled →
    CanFinish setup s jobId

/-! ## What the invariant says -/

theorem pending_iff {status : EntryStatus} :
    status.pending = false ↔ status ≠ .queued ∧ status ≠ .running := by
  cases status <;> simp [EntryStatus.pending]

theorem length_filter_le_one {items : List KnowledgeItem} {key : Str × ℕ}
    (h : ∀ (i j : ItemId) item item', items[i]? = some item → items[j]? = some item' →
      item.producer = item'.producer → i = j) :
    (items.filter fun item => item.producer = key).length ≤ 1 := by
  induction items with
  | nil => simp
  | cons first rest ih =>
    have hrest : (rest.filter fun item => item.producer = key).length ≤ 1 := by
      refine ih fun i j item item' hi hj hproducer => ?_
      exact Nat.succ.inj (h (i + 1) (j + 1) item item' hi hj hproducer)
    rw [List.filter_cons]
    split
    · rename_i hfirst
      have hnone : rest.filter (fun item => item.producer = key) = [] := by
        refine List.filter_eq_nil_iff.mpr fun item hitem hkey => ?_
        obtain ⟨j, hj⟩ := List.mem_iff_getElem?.mp hitem
        refine absurd (h 0 (j + 1) first item rfl hj ?_) (Nat.succ_ne_zero j).symm
        exact (of_decide_eq_true hfirst).trans (of_decide_eq_true hkey).symm
      rw [hnone]
      exact le_rfl
    · exact hrest

theorem Invariant.lawful {setup : Setup} {s : System} (hs : Invariant setup s) : Lawful s where
  item _ := length_filter_le_one hs.one
  completed jobId job hjob := by
    obtain rfl : job.id = jobId := Table.key_of_get? hjob
    exact (hs.db.agrees _ job hjob).completed
  failed jobId job hjob := by
    obtain rfl : job.id = jobId := Table.key_of_get? hjob
    exact (hs.db.agrees _ job hjob).failed
  terminal jobId job hjob := by
    obtain rfl : job.id = jobId := Table.key_of_get? hjob
    rw [(hs.db.agrees _ job hjob).terminal, count_eq_zero_iff]
    exact forall₃_congr fun row _ _ => pending_iff
  staged row hrow hqueued key hkey := by
    have hget := Table.get?_of_mem hrow
    refine hs.file row.key row key hget hkey ⟨fun hc => ?_, .inl (by simp [hqueued])⟩
    obtain ⟨job, hjob, hcontrol⟩ := Option.map_eq_some_iff.mp hc
    exact hs.db.cancelled row.key row job hget hjob hcontrol hqueued

/-! ## A worker that nothing disturbs -/

theorem countP_map_lt {α : Type} {l : List α} {p : α → Bool} {f : α → α}
    (h : ∀ a ∈ l, p (f a) = true → p a = true) {a : α} (ha : a ∈ l) (hp : p a = true)
    (hf : p (f a) = false) : (l.map f).countP p < l.countP p := by
  rw [List.countP_map]
  obtain ⟨front, back, rfl⟩ := List.append_of_mem ha
  have hfront : front.countP (p ∘ f) ≤ front.countP p :=
    List.countP_mono_left fun x hx => h x (List.mem_append_left _ hx)
  have hback : back.countP (p ∘ f) ≤ back.countP p :=
    List.countP_mono_left fun x hx => h x (List.mem_append_right _ (List.mem_cons_of_mem _ hx))
  rw [List.countP_append, List.countP_append, List.countP_cons_of_pos hp,
    List.countP_cons_of_neg (by simp [hf])]
  omega

/-- How many steps a worker is away from its next claim. -/
def Pc.rank : Pc → ℕ
  | .claiming => 0
  | .checking _ _ => 1
  | .failing _ _ => 2
  | .unlinking _ => 3
  | .completing _ _ => 4
  | .recording _ _ _ => 5
  | .creating _ _ _ => 6
  | .looking _ _ => 7
  | .opening _ => 8
  | .discarding _ _ | .clearing _ _ => 9

/-- No exception is on its way, and the job is not cancelled. -/
def Pc.smooth : Pc → Bool
  | .checking _ raising => !raising
  | .discarding _ _ | .clearing _ _ => false
  | _ => true

/-- The worker 0 processes the active job, and of the entries of the job at most the one it
holds is running. -/
structure Working (setup : Setup) (s : System) (jobId : Str) (pc : Pc) : Prop where
  invariant : Invariant setup s
  worker : ∃ job, s.workers 0 = some ⟨job, pc⟩ ∧ job.id = jobId
  active : ControlState.of s.db jobId = some .active
  running : ∀ row ∈ s.db.entries.rows, row.jobId = jobId → row.status = .running →
    ∃ entry, pc.held = some entry ∧ entry.key = row.key
  smooth : pc.smooth = true

theorem workHarmless_none (pc : Pc) : WorkHarmless pc none := by
  cases pc <;> trivial

theorem Invariant.work_none {setup : Setup} {s : System} (hs : Invariant setup s) (w : ℕ) :
    Invariant setup (s.work setup w none) :=
  hs.work w none fun worker _ => workHarmless_none worker.pc

theorem work_eq (setup : Setup) {s : System} {w : ℕ} {job : Job} {pc : Pc}
    (hw : s.workers w = some ⟨job, pc⟩) : s.work setup w none =
      (step setup s job none pc).1.setWorker w ((step setup s job none pc).2.map (Worker.mk job)) := by
  unfold System.work
  rw [hw]

namespace Working

variable {setup : Setup} {s : System} {jobId : Str} {pc : Pc}

/-- A step that leaves the tables. -/
theorem leave (h : Working setup s jobId pc) {job : Job} (hw : s.workers 0 = some ⟨job, pc⟩) (pc' : Pc)
    (hpc : (step setup s job none pc).2 = some pc') (hdb : (step setup s job none pc).1.db = s.db)
    (hrunning : ∀ row ∈ s.db.entries.rows, row.jobId = jobId → row.status = .running →
      ∃ entry, pc'.held = some entry ∧ entry.key = row.key)
    (hsmooth : pc'.smooth = true) (hrank : pc'.rank < pc.rank) :
    ∃ pc', pc'.rank < pc.rank ∧ Working setup (s.work setup 0 none) jobId pc' ∧
      (s.work setup 0 none).db.count jobId (· = .queued) = s.db.count jobId (· = .queued) := by
  have heq := work_eq setup hw
  have hdb' : (s.work setup 0 none).db = s.db := by
    rw [heq]
    exact hdb
  refine ⟨pc', hrank, ⟨h.invariant.work_none 0, ⟨job, ?_, ?_⟩, hdb' ▸ h.active, ?_, hsmooth⟩, by rw [hdb']⟩
  · rw [heq, hpc, System.setWorker_self]
    rfl
  · obtain ⟨job', hw', hid⟩ := h.worker
    obtain ⟨rfl, -⟩ := Worker.mk.inj (Option.some.inj (hw.symm.trans hw'))
    exact hid
  · rw [hdb']
    exact hrunning

/-- A step that leaves the tables and goes on with the entry it holds. -/
theorem keep (h : Working setup s jobId pc) {job : Job} (hw : s.workers 0 = some ⟨job, pc⟩) (pc' : Pc)
    (hpc : (step setup s job none pc).2 = some pc') (hdb : (step setup s job none pc).1.db = s.db)
    (hheld : pc'.held = pc.held) (hsmooth : pc'.smooth = true) (hrank : pc'.rank < pc.rank) :
    ∃ pc', pc'.rank < pc.rank ∧ Working setup (s.work setup 0 none) jobId pc' ∧
      (s.work setup 0 none).db.count jobId (· = .queued) = s.db.count jobId (· = .queued) :=
  h.leave hw pc' hpc hdb (by rw [hheld]; exact h.running) hsmooth hrank

/-- The entry that the worker holds is completed or failed. -/
theorem settle (h : Working setup s jobId pc) {job : Job} (hw : s.workers 0 = some ⟨job, pc⟩)
    {entry : Entry} (hheld : pc.held = some entry) {status : EntryStatus} (itemId : Option ItemId)
    (error : Option Str) (hstatus : status = .completed ∨ status = .failed) (pc' : Pc)
    (hstep : ∀ db', updateImportEntry s.db job.actorUserId job.id entry.ordinal status itemId error =
      .ok db' → step setup s job none pc = (s.setDb db', some pc'))
    (hsmooth : pc'.smooth = true) (hrank : pc'.rank < pc.rank) :
    ∃ pc', pc'.rank < pc.rank ∧ Working setup (s.work setup 0 none) jobId pc' ∧
      (s.work setup 0 none).db.count jobId (· = .queued) = s.db.count jobId (· = .queued) := by
  obtain ⟨⟨jobRow, hjobRow, hactor, -⟩, hpc⟩ := h.invariant.worker 0 _ hw
  have hholds := hpc.holds hheld
  obtain ⟨row, hget, -, htaken⟩ := hholds.row
  have hkey : entry.key = (job.id, entry.ordinal) := Prod.ext hholds.jobId rfl
  rw [hkey] at hget
  have hqueued : status ≠ .queued := by rcases hstatus with rfl | rfl <;> simp
  obtain ⟨db', hupdate⟩ := updateImportEntry_isOk itemId error hqueued hjobRow
    hactor hget
  obtain ⟨-, entries, hentries, hdb'⟩ := updateImportEntry_ok hupdate
  have hid : job.id = jobId := by
    obtain ⟨job', hw', hid⟩ := h.worker
    obtain ⟨rfl, -⟩ := Worker.mk.inj (Option.some.inj (hw.symm.trans hw'))
    exact hid
  have hwork : s.work setup 0 none = (s.setDb db').setWorker 0 (some ⟨job, pc'⟩) := by
    rw [work_eq setup hw, hstep db' hupdate]
    rfl
  have hrows : ∀ row' ∈ db'.entries.rows, row'.jobId = jobId → row'.status ≠ .running := by
    intro row' hrow' hjob hrunning
    have hback := updateImportEntry_entries hupdate row'.key
    rw [Table.get?_of_mem hrow'] at hback
    obtain ⟨old, hold, heq⟩ := Option.map_eq_some_iff.mp hback.symm
    split at heq
    · rw [← heq] at hrunning
      rcases hstatus with rfl | rfl <;> exact absurd hrunning (by simp [setEntry])
    · rename_i hne
      subst heq
      obtain ⟨e, he, hekey⟩ := h.running old (Table.mem_of_get? hold) hjob hrunning
      obtain rfl := Option.some.inj (hheld.symm.trans he)
      exact hne (hekey.symm.trans hkey)
  have hcount : db'.count jobId (· = .queued) = s.db.count jobId (· = .queued) := by
    rw [hdb', hentries]
    refine count_update rfl fun e he hp _ => ?_
    obtain rfl := Option.some.inj ((Table.get?_of_mem he).symm.trans
      ((congrArg s.db.entries.get? (of_decide_eq_true hp)).trans hget))
    rcases htaken with htaken | htaken <;> rcases hstatus with rfl | rfl <;> simp [setEntry, htaken]
  have hactive : ControlState.of db' jobId = some .active := by
    obtain ⟨row₀, hrow₀, hcontrol⟩ := Option.map_eq_some_iff.mp h.active
    have hentriesJobs : entries.jobs.get? job.id = some row₀ := by
      rw [hentries, hid]
      exact hrow₀
    rw [hdb', ← hid]
    exact Option.map_eq_some_iff.mpr ⟨_, updateJob_get? hentriesJobs _ _, hcontrol⟩
  refine ⟨pc', hrank, ⟨h.invariant.work_none 0, ⟨job, ?_, hid⟩, ?_, ?_, hsmooth⟩, ?_⟩
  · rw [hwork, System.setWorker_self]
  · rw [hwork]
    exact hactive
  · rw [hwork]
    exact fun row' hrow' hjob hrunning => absurd hrunning (hrows row' hrow' hjob)
  · rw [hwork]
    exact hcount

/-- **A worker comes nearer to its next claim**, and no entry is queued or leaves the queue. -/
theorem advance (h : Working setup s jobId pc) (hrank : pc.rank ≠ 0) :
    ∃ pc', pc'.rank < pc.rank ∧ Working setup (s.work setup 0 none) jobId pc' ∧
      (s.work setup 0 none).db.count jobId (· = .queued) = s.db.count jobId (· = .queued) := by
  obtain ⟨job, hw, hid⟩ := h.worker
  obtain ⟨hjob, hfits⟩ := h.invariant.worker 0 _ hw
  cases pc with
  | claiming => exact absurd rfl hrank
  | opening entry =>
    have hdb : (step setup s job none (.opening entry)).1.db = s.db := by
      show (openingStep s entry).1.db = _
      unfold openingStep
      split <;> rfl
    have hnext : ∃ pc', (step setup s job none (.opening entry)).2 = some pc' ∧
        pc'.held = some entry ∧ pc'.smooth = true ∧ pc'.rank < 8 := by
      show ∃ pc', (openingStep s entry).2 = some pc' ∧ _
      unfold openingStep
      split
      all_goals exact ⟨_, rfl, rfl, rfl, by simp [Pc.rank]⟩
    obtain ⟨pc', hpc', hheld, hsmooth, hlt⟩ := hnext
    exact h.keep hw pc' hpc' hdb hheld hsmooth hlt
  | looking entry content =>
    have hdb : (step setup s job none (.looking entry content)).1.db = s.db := by
      show (lookingStep setup s job entry content).1.db = _
      unfold lookingStep
      repeat' split
      all_goals rfl
    have hnext : ∃ pc', (step setup s job none (.looking entry content)).2 = some pc' ∧
        pc'.held = some entry ∧ pc'.smooth = true ∧ pc'.rank < 7 := by
      show ∃ pc', (lookingStep setup s job entry content).2 = some pc' ∧ _
      unfold lookingStep
      repeat' split
      all_goals exact ⟨_, rfl, rfl, rfl, by simp [Pc.rank]⟩
    obtain ⟨pc', hpc', hheld, hsmooth, hlt⟩ := hnext
    exact h.keep hw pc' hpc' hdb hheld hsmooth hlt
  | creating entry content visibility => exact h.keep hw _ rfl rfl rfl rfl (by simp [Pc.rank])
  | recording entry content item => exact h.keep hw _ rfl rfl rfl rfl (by simp [Pc.rank])
  | completing entry item =>
    refine h.settle hw rfl (some item) none (.inl rfl) (.unlinking entry) (fun db' hupdate => ?_) rfl
      (by simp [Pc.rank])
    show completingStep s job entry item none = _
    unfold completingStep
    rw [hupdate]
  | unlinking entry =>
    obtain ⟨-, row, hget, hcompleted⟩ := hfits
    have hdb : (s.unlinkPath entry).db = s.db := by
      unfold System.unlinkPath
      cases entry.stagingKey <;> rfl
    refine h.leave hw (.checking entry false) rfl hdb (fun row' hrow' hjob hrunning => ?_) rfl
      (by simp [Pc.rank])
    obtain ⟨e, he, hkey⟩ := h.running row' hrow' hjob hrunning
    obtain rfl := Option.some.inj he
    rw [hkey] at hget
    obtain rfl := Option.some.inj (hget.symm.trans (Table.get?_of_mem hrow'))
    exact absurd (hcompleted.symm.trans hrunning) (by simp)
  | failing entry error =>
    refine h.settle hw rfl none (errorText error) (.inr rfl) (.checking entry false) (fun db' hupdate => ?_) rfl
      (by simp [Pc.rank])
    show failingStep s job entry error none = _
    unfold failingStep
    rw [hupdate]
  | checking entry raising =>
    obtain rfl : raising = false := by simpa [Pc.smooth] using h.smooth
    have hcontrol : s.controlState job.id ≠ some .cancelled := by
      rw [hid, show s.controlState jobId = some .active from h.active]
      simp
    have hstep : step setup s job none (.checking entry false) = (s, some .claiming) := by
      show checkingStep s job entry false = _
      unfold checkingStep
      rw [if_neg hcontrol]
      rfl
    exact h.keep hw _ (congrArg Prod.snd hstep) (by rw [hstep]) rfl rfl (by simp [Pc.rank])
  | discarding entry raising => exact absurd h.smooth (by simp [Pc.smooth])
  | clearing entry raising => exact absurd h.smooth (by simp [Pc.smooth])

/-- The worker reaches its next claim. -/
theorem reaches (h : Working setup s jobId pc) : ∃ events, (∀ event ∈ events, Resumes jobId event) ∧
    Working setup (s.run setup events) jobId .claiming ∧
      (s.run setup events).db.count jobId (· = .queued) = s.db.count jobId (· = .queued) := by
  induction hr : pc.rank using Nat.strong_induction_on generalizing s pc with
  | _ rank ih =>
    by_cases hzero : pc.rank = 0
    · have hpc : pc = .claiming := by cases pc <;> simp [Pc.rank] at hzero ⊢
      subst hpc
      exact ⟨[], by simp, h, rfl⟩
    · obtain ⟨pc', hlt, hnext, hcount⟩ := h.advance hzero
      obtain ⟨events, hevents, hdone, hcount'⟩ := ih pc'.rank (hr ▸ hlt) hnext rfl
      refine ⟨.work 0 none :: events, ?_, hdone, hcount'.trans hcount⟩
      intro event hevent
      rcases List.mem_cons.mp hevent with rfl | hevent
      · trivial
      · exact hevents event hevent

/-- A claim takes an entry out of the queue. -/
theorem claim (h : Working setup s jobId .claiming) (hqueued : s.db.count jobId (· = .queued) ≠ 0) :
    ∃ entry, Working setup (s.work setup 0 none) jobId (.opening entry) ∧
      (s.work setup 0 none).db.count jobId (· = .queued) < s.db.count jobId (· = .queued) := by
  obtain ⟨job, hw, hid⟩ := h.worker
  have hactive : s.db.activeJob jobId = true := by
    obtain ⟨row, hrow, hcontrol⟩ := Option.map_eq_some_iff.mp h.active
    simp [ImportDb.activeJob, hrow, hcontrol]
  have hsome : ((s.db.entries.rows.find? (queuedIn jobId))).isSome = true := by
    rw [List.find?_isSome]
    by_contra hnone
    refine hqueued (count_eq_zero_iff.mpr fun e he hj => decide_eq_false fun hst => hnone ?_)
    exact ⟨e, he, queuedIn_iff.mpr ⟨hj, hst⟩⟩
  obtain ⟨entry, hfind⟩ := Option.isSome_iff_exists.mp hsome
  obtain ⟨db', hclaim⟩ : ∃ db', claimEntry s.db jobId = some (entry, db') := by
    unfold claimEntry
    rw [hactive, hfind]
    exact ⟨_, rfl⟩
  obtain ⟨-, hget, hjobId, hstatus, hdb'⟩ := claimEntry_some hclaim
  have hwork : s.work setup 0 none = (s.setDb db').setWorker 0 (some ⟨job, .opening entry⟩) := by
    have hstep : step setup s job none .claiming = (s.setDb db', some (.opening entry)) := by
      show claimingStep s job none = _
      unfold claimingStep
      rw [hid, hclaim]
    rw [work_eq setup hw, hstep]
    rfl
  have hrows : ∀ row ∈ db'.entries.rows, row.key ≠ entry.key → row ∈ s.db.entries.rows := by
    intro row hrow hne
    rw [hdb'] at hrow
    obtain ⟨old, hold, rfl⟩ := List.mem_map.mp hrow
    split at hne
    · rename_i hkey
      exact absurd (of_decide_eq_true hkey) hne
    · rename_i hkey
      rw [if_neg hkey]
      exact hold
  refine ⟨entry, ⟨h.invariant.work_none 0, ⟨job, ?_, hid⟩, ?_, fun row hrow hj hrunning => ?_, rfl⟩, ?_⟩
  · rw [hwork, System.setWorker_self]
  · rw [hwork]
    obtain ⟨row, hrow, hcontrol⟩ := Option.map_eq_some_iff.mp h.active
    have hrow' : (s.db.updateEntries (fun e => e.key = entry.key)
        (fun e => { e with status := .running, attempts := e.attempts + 1, error := none })
        fun _ => rfl).jobs.get? jobId = some row := hrow
    show ControlState.of db' jobId = _
    rw [hdb']
    exact Option.map_eq_some_iff.mpr ⟨_, updateJob_get? hrow' _ _, hcontrol⟩
  · refine ⟨entry, rfl, ?_⟩
    by_contra hne
    rw [hwork] at hrow
    obtain ⟨e, he, -⟩ := h.running row (hrows row hrow fun h => hne h.symm) hj hrunning
    exact absurd he (by simp [Pc.held])
  · rw [hwork]
    show db'.count jobId _ < _
    rw [hdb']
    refine countP_map_lt (fun e he hq => ?_) (Table.mem_of_get? hget) (by simp [hjobId, hstatus])
      (by simp)
    split at hq
    · simp at hq
    · exact hq

theorem run_append (s : System) (events events' : List Event) :
    s.run setup (events ++ events') = (s.run setup events).run setup events' :=
  List.foldl_append

/-- **The worker brings the job to an end.** -/
theorem finishes (h : Working setup s jobId .claiming) : CanFinish setup s jobId := by
  induction hn : s.db.count jobId (· = .queued) using Nat.strong_induction_on generalizing s with
  | _ n ih =>
    by_cases hzero : s.db.count jobId (· = .queued) = 0
    · obtain ⟨job, hjob, -⟩ := Option.map_eq_some_iff.mp h.active
      refine ⟨[], by simp, job, hjob, (h.invariant.lawful.terminal jobId job hjob).mpr fun row hrow hid => ?_⟩
      refine ⟨of_decide_eq_false (count_eq_zero_iff.mp hzero row hrow hid), fun hrunning => ?_⟩
      obtain ⟨e, he, -⟩ := h.running row hrow hid hrunning
      exact absurd he (by simp [Pc.held])
    · obtain ⟨entry, hclaimed, hlt⟩ := h.claim hzero
      obtain ⟨events, hevents, hnext, hcount⟩ := hclaimed.reaches
      obtain ⟨events', hevents', hdone⟩ := ih _ (hn ▸ hcount ▸ hlt) hnext rfl
      refine ⟨.work 0 none :: events ++ events', ?_, ?_⟩
      · intro event hevent
        rcases List.mem_append.mp hevent with hevent | hevent
        · rcases List.mem_cons.mp hevent with rfl | hevent
          · trivial
          · exact hevents event hevent
        · exact hevents' event hevent
      · rw [run_append]
        exact hdone

end Working

/-! ## Recovery -/

section Recovery

variable {setup : Setup} {s : System} {jobId : Str} {job : Job}

/-- A worker is started for an active job none of whose entries is running. -/
theorem canFinish_of_active (hs : Invariant setup s) (hworker : s.workers 0 = none)
    (hjob : s.db.jobs.get? jobId = some job) (hactive : job.controlState = .active)
    (hrunning : ∀ row ∈ s.db.entries.rows, row.status ≠ .running) : CanFinish setup s jobId := by
  have hprocess : s.process 0 jobId = s.setWorker 0 (some ⟨job, .claiming⟩) := by
    unfold System.process
    rw [hworker, hjob]
  have hworking : Working setup (s.process 0 jobId) jobId .claiming := by
    refine ⟨hs.process 0 jobId, ⟨job, ?_, Table.key_of_get? hjob⟩, ?_, fun row hrow _ h => ?_, rfl⟩
    · rw [hprocess, System.setWorker_self]
    · rw [hprocess]
      exact Option.map_eq_some_iff.mpr ⟨job, hjob, hactive⟩
    · rw [hprocess] at hrow
      exact absurd h (hrunning row hrow)
  obtain ⟨events, hevents, hdone⟩ := hworking.finishes
  refine ⟨.process 0 jobId :: events, fun event hevent => ?_, hdone⟩
  rcases List.mem_cons.mp hevent with rfl | hevent
  · rfl
  · exact hevents event hevent

/-- **A job that is not cancelled can be brought to an end** when no worker is alive and no
entry is running. -/
theorem canFinish_of_recovered (hs : Invariant setup s) (hworker : s.workers 0 = none)
    (hrunning : ∀ row ∈ s.db.entries.rows, row.status ≠ .running)
    (hjob : s.db.jobs.get? jobId = some job) (hcontrol : job.controlState ≠ .cancelled) :
    CanFinish setup s jobId := by
  by_cases hterminal : job.status.terminal = true
  · exact ⟨[], by simp, job, hjob, hterminal⟩
  cases hstate : job.controlState with
  | active => exact canFinish_of_active hs hworker hjob hstate hrunning
  | cancelled => exact absurd hstate hcontrol
  | paused =>
    obtain rfl : job.id = jobId := Table.key_of_get? hjob
    have hqueued : s.db.count job.id (· = .queued) ≠ 0 := by
      refine fun hzero => hterminal ((hs.lawful.terminal _ job hjob).mpr fun row hrow hid => ?_)
      exact ⟨of_decide_eq_false (count_eq_zero_iff.mp hzero row hrow hid), hrunning row hrow⟩
    obtain ⟨db', hresume⟩ : ∃ db', resumeImportJob s.db job = .ok db' := by
      unfold resumeImportJob
      rw [if_neg (by simp [hstate]), if_neg hqueued]
      exact ⟨_, rfl⟩
    have hdb : (s.control job.actorUserId job.id .resume).db = db' := by
      unfold System.control controlImportJob ImportDb.jobOf
      rw [hjob, Option.filter_some, if_pos (decide_eq_true rfl)]
      dsimp only
      rw [hresume]
      rfl
    have hworkers : (s.control job.actorUserId job.id .resume).workers = s.workers := by
      unfold System.control
      split <;> rfl
    obtain ⟨-, -, hdb'⟩ := resumeImportJob_ok hresume
    have hjob' : db'.jobs.get? job.id = some { job with status := .queued, controlState := .active } := by
      rw [hdb']
      exact updateJob_get? hjob _ _
    obtain ⟨events, hevents, hdone⟩ := canFinish_of_active
      (hs.control job.actorUserId job.id .resume) (hworkers ▸ hworker) (hdb ▸ hjob') rfl
      (by rw [hdb, hdb']; exact hrunning)
    refine ⟨.control job.actorUserId job.id .resume :: events, fun event hevent => ?_, hdone⟩
    rcases List.mem_cons.mp hevent with rfl | hevent
    · rfl
    · exact hevents event hevent

/-- After recovery no entry is running, if every one that was belongs to an active job. -/
theorem recoverImportJobs_running {db : ImportDb}
    (h : ∀ row ∈ db.entries.rows, row.status = .running → db.activeJob row.jobId = true) :
    ∀ row ∈ (recoverImportJobs db).entries.rows, row.status ≠ .running := by
  intro row hrow
  obtain ⟨old, hold, rfl⟩ := List.mem_map.mp hrow
  split
  · simp
  · rename_i hnot
    exact fun hrunning => hnot (by simp [hrunning, h old hold hrunning])

theorem throughout_append {C : System → Event → Prop} {events : List Event} {event : Event} :
    ∀ {s}, Throughout setup C s (events ++ [event]) →
      Throughout setup C s events ∧ C (s.run setup events) event := by
  induction events with
  | nil => exact fun h => ⟨trivial, h.1⟩
  | cons first rest ih => exact fun h => ⟨⟨h.1, (ih h.2).1⟩, (ih h.2).2⟩

end Recovery

/-! ## Every history -/

/-- What is promised of a history: its last state is lawful, and a recovery at its end leaves
no entry running and every job that is not cancelled with an end in reach. -/
def Promised (setup : Setup) (events : List Event) : Prop :=
  Lawful (System.empty.run setup events) ∧
    (events.getLast? = some .recover → Recovered setup (System.empty.run setup events))

/-- **Import jobs keep their promises** in every history whose steps meet the condition. -/
theorem imports_hold (setup : Setup) (events : List Event)
    (hstartup : Throughout setup AtStartup System.empty events)
    (h : Throughout setup (Harmless setup) System.empty events) : Promised setup events := by
  have hs := (invariant_empty setup).run hstartup h
  refine ⟨hs.lawful, fun hlast => ?_⟩
  obtain ⟨before, rfl⟩ := List.getLast?_eq_some_iff.mp hlast
  obtain ⟨-, hnone⟩ := throughout_append hstartup
  obtain ⟨-, hactive⟩ := throughout_append h
  have hrun : System.empty.run setup (before ++ [.recover]) = (System.empty.run setup before).setDb
      (recoverImportJobs (System.empty.run setup before).db) := Working.run_append _ _ _
  rw [hrun] at hs ⊢
  have hrunning := recoverImportJobs_running hactive
  exact ⟨hrunning, fun jobId job hjob hcontrol =>
    canFinish_of_recovered hs (hnone 0) hrunning hjob hcontrol⟩

/-! ## Two histories -/

namespace ImportSample

/-- A digest that is its content, and one bucket. -/
def setup : Setup := ⟨fun content => content.map UInt8.toNat, fun _ _ => some .personal⟩

/-- A job of two files, the first of which is uploaded. -/
def uploaded : List Event :=
  [.createJob (str "ada") (str "kij_1") (str "kbk_1") none 2,
    .stageBegin 0 (str "ada") (str "kij_1") 0 [7] 10, .stage 0 none, .stage 0 none,
    .process 0 (str "kij_1"), .work 0 none]

/-- The process is lost while the first file is imported. -/
def restarted : List Event := uploaded ++ [.lose, .recover]

/-- Both files fail, the second for want of its upload, and the job is retried. -/
def retried : List Event :=
  uploaded ++ [.work 0 (some (.before (str "unreadable"))), .work 0 none, .work 0 none, .work 0 none,
    .work 0 none, .work 0 none, .work 0 none, .work 0 none, .retry (str "ada") (str "kij_1")]

/-- The job and its first entry as the worker reads them. -/
def job : Job := ⟨str "kij_1", str "ada", str "kbk_1", none, .queued, .active, 2, 0, 0⟩

def entry0 : Entry :=
  ⟨str "kij_1", 0, .queued, none, none, some ⟨str "kij_1", 0, [7]⟩, 0⟩

theorem worker_uploaded :
    (System.empty.run setup uploaded).workers 0 = some ⟨job, .opening entry0⟩ := rfl

theorem no_other (w : ℕ) (h : w ≠ 0) : (System.empty.run setup uploaded).workers w = none := by
  have hworkers : (System.empty.run setup uploaded).workers = Function.update
      (Function.update (fun _ => none) 0 (some ⟨job, .claiming⟩)) 0 (some ⟨job, .opening entry0⟩) := rfl
  rw [hworkers, Function.update_of_ne h, Function.update_of_ne h]

theorem harmless_stage {s : System} {n : ℕ} {stager : Stager} {fault : Option Fault}
    (hn : s.stagers n = some stager) (h : StageHarmless setup s n stager fault) :
    Harmless setup s (.stage n fault) := by
  intro stager' hn'
  obtain rfl := Option.some.inj (hn.symm.trans hn')
  exact h

end ImportSample

open ImportSample in
/-- The promises are kept over a restart. -/
theorem imports_hold_restarted : Promised setup restarted := by
  refine imports_hold setup restarted ?_ ?_
  · exact ⟨trivial, trivial, trivial, trivial, trivial, trivial, trivial, fun _ => rfl, trivial⟩
  · refine ⟨trivial, trivial, harmless_stage rfl trivial, harmless_stage rfl ?_, trivial,
      fun worker _ => workHarmless_none worker.pc, fun w worker entry content i hw => ?_, ?_, trivial⟩
    · exact fun _ asset hasset => absurd hasset List.not_mem_nil
    · by_cases hzero : w = 0
      · subst hzero
        obtain rfl := Option.some.inj (worker_uploaded.symm.trans hw)
        simp
      · exact absurd ((no_other w hzero).symm.trans hw) (by simp)
    · show ∀ row ∈ (System.empty.run setup uploaded).db.entries.rows, row.status = .running →
        (System.empty.run setup uploaded).db.activeJob row.jobId = true
      decide

open ImportSample in
/-- A retry counts no failed entry, and leaves the one that was never uploaded failed. -/
theorem retry_forgets_failed : ¬ ∀ setup events, Throughout setup AtStartup System.empty events →
    Promised setup events := by
  intro h
  have hstate : (System.empty.run setup retried).db.jobs.get? (str "kij_1") = some
      ⟨str "kij_1", str "ada", str "kbk_1", none, .queued, .active, 2, 0, 0⟩ := rfl
  have hcount : (System.empty.run setup retried).db.count (str "kij_1") (· = .failed) = 1 := rfl
  have hfailed := (h setup retried (by simp [retried, uploaded, Throughout, AtStartup])).1.failed _ _ hstate
  rw [hcount] at hfailed
  exact absurd hfailed (by decide)

end AI2Apps.Knowledge.Imports
