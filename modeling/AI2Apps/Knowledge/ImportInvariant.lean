import AI2Apps.Knowledge.ImportCounts
import AI2Apps.Knowledge.ImportRuns

/-!
# Import jobs: the invariant of all interleavings

A worker holds the entry it claimed until the entry is completed and its file is
gone, or the entry is failed.  While it is held, nobody else writes its status.
What an entry has produced is known by its content: the asset of the item carries
the digest of the staged file.  A staged file is wanted as long as its entry can be
processed again.

* `PcFits`: what a worker knows at each point.
* `Invariant`: the invariant.
* `Invariant.move`: the steps that leave items, assets and files.
-/

namespace AI2Apps.Knowledge.Imports

/-! ## What a worker knows -/

/-- The entry a worker holds: nobody else writes its status. -/
def Pc.held : Pc → Option Entry
  | .opening entry | .looking entry _ | .creating entry _ _ | .recording entry _ _
  | .completing entry _ | .unlinking entry | .failing entry _ => some entry
  | .claiming | .checking _ _ | .discarding _ _ | .clearing _ _ => none

/-- The worker `w` holds the entry. -/
def Held (workers : ℕ → Option Worker) (w : ℕ) (entry : Entry) : Prop :=
  ∃ worker, workers w = some worker ∧ worker.pc.held = some entry

def EntryStatus.Taken (status : EntryStatus) : Prop := status = .running ∨ status = .completed

def ControlState.of (db : ImportDb) (jobId : Str) : Option ControlState :=
  (db.jobs.get? jobId).map Job.controlState

/-- The actor and the bucket of a job do not change. -/
def SameJob (db : ImportDb) (job : Job) : Prop :=
  ∃ row, db.jobs.get? job.id = some row ∧ row.actorUserId = job.actorUserId ∧
    row.bucketId = job.bucketId

/-- The entry as a worker of the job read it. -/
structure Owned (job : Job) (entry : Entry) : Prop where
  jobId : entry.jobId = job.id
  key : ∀ key, entry.stagingKey = some key → (key.jobId, key.ordinal) = entry.key

structure Holds (db : ImportDb) (job : Job) (entry : Entry) : Prop extends Owned job entry where
  row : ∃ row, db.entries.get? entry.key = some row ∧ KeepsKey entry row ∧ row.status.Taken

/-- The content is that of the staged file. -/
def Staged (setup : Setup) (entry : Entry) (content : Content) : Prop :=
  ∃ key, entry.stagingKey = some key ∧ setup.digest content = key.digest

/-- What a worker of the job knows at each point. -/
def PcFits (setup : Setup) (db : ImportDb) (items : List KnowledgeItem) (job : Job) : Pc → Prop
  | .claiming => True
  | .opening entry | .completing entry _ | .failing entry _ => Holds db job entry
  | .looking entry content => Holds db job entry ∧ Staged setup entry content
  | .creating entry content visibility => Holds db job entry ∧ Staged setup entry content ∧
      setup.bucketScope job.actorUserId job.bucketId = some visibility ∧
      ∀ item ∈ items, item.producer ≠ entry.key
  | .recording entry content item => Holds db job entry ∧ Staged setup entry content ∧
      ∃ row, items[item]? = some row ∧ row.producer = entry.key
  | .unlinking entry => Holds db job entry ∧
      ∃ row, db.entries.get? entry.key = some row ∧ row.status = .completed
  | .checking entry _ => Owned job entry
  | .discarding entry _ | .clearing entry _ => Owned job entry ∧
      ControlState.of db job.id = some .cancelled

/-! ## The invariant -/

/-- The entry can still be processed, or a worker is at it. -/
def Wanted (db : ImportDb) (workers : ℕ → Option Worker) (k : Str × ℕ) (row : Entry) : Prop :=
  ControlState.of db k.1 ≠ some .cancelled ∧
    (row.status ≠ .completed ∨ ∃ w entry, Held workers w entry ∧ entry.key = k)

/-- Where an item comes from: an entry whose worker is about to record its asset, or has. -/
structure Produced (setup : Setup) (s : System) (i : ItemId) (item : KnowledgeItem) : Prop where
  row : ∃ row, s.db.entries.get? item.producer = some row
  job : ∃ job, s.db.jobs.get? item.producer.1 = some job ∧ item.ownerUserId = job.actorUserId ∧
    setup.bucketScope job.actorUserId job.bucketId = some item.visibility
  asset : (∃ w worker entry content, s.workers w = some worker ∧
    worker.pc = .recording entry content i) ∨ ∃ asset ∈ s.assets, asset.itemId = i

structure Invariant (setup : Setup) (s : System) : Prop where
  db : s.db.Sound
  worker : ∀ w worker, s.workers w = some worker →
    SameJob s.db worker.job ∧ PcFits setup s.db s.items worker.job worker.pc
  distinct : ∀ w w' entry entry', Held s.workers w entry → Held s.workers w' entry' →
    entry.key = entry'.key → w = w'
  one : ∀ (i j : ItemId) item item', s.items[i]? = some item → s.items[j]? = some item' →
    item.producer = item'.producer → i = j
  produced : ∀ (i : ItemId) item, s.items[i]? = some item → Produced setup s i item
  assetItem : ∀ asset ∈ s.assets, asset.itemId < s.items.length
  rowHash : ∀ asset ∈ s.assets, ∀ item, s.items[asset.itemId]? = some item →
    ∀ row key, s.db.entries.get? item.producer = some row → row.stagingKey = some key →
      key.digest = asset.contentHash
  heldHash : ∀ asset ∈ s.assets, ∀ item, s.items[asset.itemId]? = some item →
    ∀ w entry key, Held s.workers w entry → entry.key = item.producer →
      entry.stagingKey = some key → key.digest = asset.contentHash
  content : ∀ key content, s.files key = some content → setup.digest content = key.digest
  file : ∀ k row key, s.db.entries.get? k = some row → row.stagingKey = some key →
    Wanted s.db s.workers k row → (s.files key).isSome = true
  stagerRow : ∀ n stager, s.stagers n = some stager →
    ∃ row, s.db.entries.get? (stager.jobId, stager.ordinal) = some row
  stager : ∀ n stager, s.stagers n = some stager → stager.pc = .replaced →
    ∀ row, s.db.entries.get? (stager.jobId, stager.ordinal) = some row →
      Wanted s.db s.workers (stager.jobId, stager.ordinal) row →
      (s.files (stager.key setup)).isSome = true
  unlinks : ∀ key ∈ s.unlinks, ControlState.of s.db key.jobId = some .cancelled

theorem invariant_empty (setup : Setup) : Invariant setup System.empty where
  db := ⟨fun _ _ h => absurd h (by simp [System.empty, Table.get?, Table.empty]),
    fun _ _ _ h => absurd h (by simp [System.empty, Table.get?, Table.empty]),
    fun _ _ _ h => absurd h (by simp [System.empty, Table.get?, Table.empty]),
    fun _ _ h => absurd h (by simp [System.empty, Table.get?, Table.empty])⟩
  worker _ _ h := absurd h (by simp [System.empty])
  distinct _ _ _ _ h := absurd h (by simp [System.empty, Held])
  one _ _ _ _ h := absurd h (by simp [System.empty])
  produced _ _ h := absurd h (by simp [System.empty])
  assetItem _ h := absurd h (by simp [System.empty])
  rowHash _ h := absurd h (by simp [System.empty])
  heldHash _ h := absurd h (by simp [System.empty])
  content _ _ h := absurd h (by simp [System.empty])
  file _ _ _ h := absurd h (by simp [System.empty, Table.get?, Table.empty])
  stagerRow _ _ h := absurd h (by simp [System.empty])
  stager _ _ h := absurd h (by simp [System.empty])
  unlinks _ h := absurd h (by simp [System.empty])

/-! ## Evolving tables -/

section Evolve

variable {R : Entry → Entry → Prop} {db db' : ImportDb} (h : Evolves R db db')

include h

theorem Evolves.controlState {jobId : Str} (hc : ControlState.of db jobId = some .cancelled) :
    ControlState.of db' jobId = some .cancelled := by
  obtain ⟨job, hjob, hcontrol⟩ := Option.map_eq_some_iff.mp hc
  obtain ⟨job', hjob', -, -, hkeep⟩ := h.job jobId job hjob
  exact Option.map_eq_some_iff.mpr ⟨job', hjob', hkeep hcontrol⟩

theorem Evolves.sameJob {job : Job} (hjob : SameJob db job) : SameJob db' job := by
  obtain ⟨row, hrow, hactor, hbucket⟩ := hjob
  obtain ⟨row', hrow', hactor', hbucket', -⟩ := h.job job.id row hrow
  exact ⟨row', hrow', hactor'.trans hactor, hbucket'.trans hbucket⟩

end Evolve

/-- The files that a cancellation removes are those of the job it cancelled. -/
theorem cancelImportJob_cancelled {db db' : ImportDb} {job : Job} {keys : List StagingKey}
    (hdb : db.Sound) (hjob : db.jobs.get? job.id = some job)
    (h : cancelImportJob db job = .ok (db', keys)) {key : StagingKey} (hkey : key ∈ keys) :
    ControlState.of db' key.jobId = some .cancelled := by
  obtain ⟨entries, hentries, rfl, rfl⟩ := cancelImportJob_ok h
  have hjob' : entries.jobs.get? job.id = some job := by
    rw [hentries]
    exact hjob
  obtain ⟨e, he, hstaging⟩ := List.mem_filterMap.mp hkey
  obtain ⟨hmem, hqueued⟩ := List.mem_filter.mp he
  have hid : key.jobId = job.id := (congrArg Prod.fst
    (hdb.key _ e key (Table.get?_of_mem hmem) hstaging)).trans (queuedIn_iff.mp hqueued).1
  rw [hid]
  exact Option.map_eq_some_iff.mpr ⟨_, updateJob_get? hjob' _ _, rfl⟩

theorem KeepsKey.trans {e e' e'' : Entry} (h : KeepsKey e e') (h' : KeepsKey e' e'') :
    KeepsKey e e'' := by
  rcases h' with heq | hnone
  · rcases h with heq' | hnone'
    · exact .inl (heq.trans heq')
    · exact .inr (heq.trans hnone')
  · exact .inr hnone

/-- The key of a held entry, if the row has one, is the one the worker read. -/
theorem KeepsKey.eq_of_some {e e' : Entry} (h : KeepsKey e e') {key : StagingKey}
    (hkey : e'.stagingKey = some key) : e.stagingKey = some key := by
  rcases h with heq | hnone
  · exact heq.symm.trans hkey
  · exact absurd (hnone.symm.trans hkey) (by simp)

/-- The row of an entry that is held stays so: its key stays or goes, and its status stays
taken, or completed. -/
def RowStays (db db' : ImportDb) (k : Str × ℕ) : Prop :=
  ∀ row, db.entries.get? k = some row → row.status.Taken → ∃ row', db'.entries.get? k = some row' ∧
    KeepsKey row row' ∧ row'.status.Taken ∧ (row.status = .completed → row'.status = .completed)

theorem Holds.stays {db db' : ImportDb} {job : Job} {entry : Entry} (h : Holds db job entry)
    (hrow : RowStays db db' entry.key) : Holds db' job entry := by
  obtain ⟨row, hget, hkey, htaken⟩ := h.row
  obtain ⟨row', hget', hkey', htaken', -⟩ := hrow row hget htaken
  exact ⟨h.toOwned, row', hget', hkey.trans hkey', htaken'⟩

/-- What a worker knows stays so if the row of the entry it holds does. -/
theorem PcFits.stays {setup : Setup} {db db' : ImportDb} {items : List KnowledgeItem} {job : Job}
    {pc : Pc} (h : PcFits setup db items job pc)
    (hcontrol : ControlState.of db job.id = some .cancelled →
      ControlState.of db' job.id = some .cancelled)
    (hrow : ∀ entry, pc.held = some entry → RowStays db db' entry.key) :
    PcFits setup db' items job pc := by
  cases pc with
  | claiming => trivial
  | opening entry => exact Holds.stays h (hrow entry rfl)
  | looking entry content => exact ⟨h.1.stays (hrow entry rfl), h.2⟩
  | creating entry content visibility => exact ⟨h.1.stays (hrow entry rfl), h.2⟩
  | recording entry content item => exact ⟨h.1.stays (hrow entry rfl), h.2⟩
  | completing entry item => exact Holds.stays h (hrow entry rfl)
  | unlinking entry =>
    obtain ⟨row, hget, hcompleted⟩ := h.2
    obtain ⟨row', hget', -, -, hcompleted'⟩ := hrow entry rfl row hget (.inr hcompleted)
    exact ⟨h.1.stays (hrow entry rfl), row', hget', hcompleted' hcompleted⟩
  | failing entry error => exact Holds.stays h (hrow entry rfl)
  | checking entry raising => exact h
  | discarding entry raising => exact ⟨h.1, hcontrol h.2⟩
  | clearing entry raising => exact ⟨h.1, hcontrol h.2⟩

/-- A worker that holds an entry knows it holds it. -/
theorem PcFits.holds {setup : Setup} {db : ImportDb} {items : List KnowledgeItem} {job : Job}
    {pc : Pc} {entry : Entry} (h : PcFits setup db items job pc) (hheld : pc.held = some entry) :
    Holds db job entry := by
  cases pc <;> first
    | (obtain rfl := Option.some.inj hheld; first | exact h | exact h.1)
    | exact absurd hheld (by simp [Pc.held])

namespace Invariant

variable {setup : Setup} {s : System}

/-- The row of an entry that is held is taken. -/
theorem taken (hs : Invariant setup s) {w : ℕ} {entry row : Entry} (h : Held s.workers w entry)
    (hget : s.db.entries.get? entry.key = some row) : row.status.Taken := by
  obtain ⟨worker, hworker, hheld⟩ := h
  obtain ⟨row', hget', -, htaken⟩ := ((hs.worker w worker hworker).2.holds hheld).row
  obtain rfl := Option.some.inj (hget.symm.trans hget')
  exact htaken

/-- **The steps that leave items, assets and files.** The tables evolve and the acting
worker moves on; an entry that it comes to hold was queued. -/
theorem move (hs : Invariant setup s) {db' : ImportDb} (workers' : ℕ → Option Worker)
    (acting : Option ℕ) (hdb : db'.Sound) (hev : Evolves KeepsKey s.db db')
    (hfits : ∀ w worker, workers' w = some worker → acting ≠ some w ∧ s.workers w = some worker ∨
      SameJob db' worker.job ∧ PcFits setup db' s.items worker.job worker.pc)
    (hrow : ∀ w entry row row', acting ≠ some w → Held s.workers w entry →
      s.db.entries.get? entry.key = some row → db'.entries.get? entry.key = some row' →
      (row.status.Taken → row'.status.Taken) ∧ (row.status = .completed → row'.status = .completed))
    (hheld : ∀ w entry, Held workers' w entry → Held s.workers w entry ∨ acting = some w ∧
      ∃ row, s.db.entries.get? entry.key = some row ∧ row.stagingKey = entry.stagingKey ∧
        row.status = .queued)
    (hwanted : ∀ k row row', s.db.entries.get? k = some row → db'.entries.get? k = some row' →
      row.status = .completed → row'.status = .completed ∨
        ∃ w entry, Held s.workers w entry ∧ entry.key = k)
    (hrecord : ∀ w worker entry content i, s.workers w = some worker →
      worker.pc = .recording entry content i →
      workers' w = some worker ∨ ∃ asset ∈ s.assets, asset.itemId = i) :
    Invariant setup { s with db := db', workers := workers' } := by
  have hback : ∀ k row row', s.db.entries.get? k = some row → db'.entries.get? k = some row' →
      Wanted db' workers' k row' → Wanted s.db s.workers k row := by
    intro k row row' hget hget' ⟨hc, hopen⟩
    refine ⟨fun h => hc (hev.controlState h), ?_⟩
    by_cases hcompleted : row.status = .completed
    · refine .inr ?_
      rcases hwanted k row row' hget hget' hcompleted with hcompleted' | hold
      · obtain ⟨w, entry, hw, hk⟩ := hopen.resolve_left fun h => h hcompleted'
        rcases hheld w entry hw with hw | ⟨-, row₁, hget₁, -, hqueued⟩
        · exact ⟨w, entry, hw, hk⟩
        · rw [hk] at hget₁
          obtain rfl := Option.some.inj (hget.symm.trans hget₁)
          exact absurd (hcompleted.symm.trans hqueued) (by simp)
      · exact hold
    · exact .inl hcompleted
  refine ⟨hdb, fun w worker hw => ?_, fun w w' entry entry' hw hw' hkey => ?_, hs.one,
    fun i item hitem => ?_, hs.assetItem, fun asset hasset item hitem row key hget hkey => ?_,
    fun asset hasset item hitem w entry key hw hproducer hkey => ?_, hs.content,
    fun k row key hget hkey hwant => ?_, fun n stager hn => ?_,
    fun n stager hn hpc row hget hwant => ?_, fun key hkey => hev.controlState (hs.unlinks key hkey)⟩
  · rcases hfits w worker hw with ⟨hne, hold⟩ | hnew
    · obtain ⟨hjob, hpc⟩ := hs.worker w worker hold
      refine ⟨hev.sameJob hjob, hpc.stays hev.controlState fun entry hheld' row hget htaken => ?_⟩
      obtain ⟨row', hget', hkeeps⟩ := hev.entry _ _ hget
      obtain ⟨htaken', hcompleted⟩ := hrow w entry row row' hne ⟨worker, hold, hheld'⟩ hget hget'
      exact ⟨row', hget', hkeeps, htaken' htaken, hcompleted⟩
    · exact hnew
  · have hnot : ∀ v e, Held s.workers v e → e.key = entry.key ∨ e.key = entry'.key →
        ∀ row, s.db.entries.get? e.key = some row → row.status ≠ .queued := by
      intro v e hv _ row hget hqueued
      rcases hs.taken hv hget with h | h <;> exact absurd (h.symm.trans hqueued) (by simp)
    rcases hheld w entry hw with hold | ⟨hacting, row, hget, -, hqueued⟩
    · rcases hheld w' entry' hw' with hold' | ⟨hacting, row, hget, -, hqueued⟩
      · exact hs.distinct w w' entry entry' hold hold' hkey
      · exact absurd hqueued (hnot w entry hold (.inl rfl) row (hkey ▸ hget))
    · rcases hheld w' entry' hw' with hold' | ⟨hacting', -⟩
      · exact absurd hqueued (hnot w' entry' hold' (.inr rfl) row (hkey ▸ hget))
      · exact Option.some.inj (hacting.symm.trans hacting')
  · obtain ⟨⟨row, hget⟩, ⟨job, hjob, howner, hscope⟩, hasset⟩ := hs.produced i item hitem
    obtain ⟨row', hget', -⟩ := hev.entry _ _ hget
    obtain ⟨job', hjob', hactor, hbucket, -⟩ := hev.job _ _ hjob
    refine ⟨⟨row', hget'⟩, ⟨job', hjob', howner.trans hactor.symm, ?_⟩, ?_⟩
    · rw [hactor, hbucket]
      exact hscope
    · rcases hasset with ⟨w, worker, entry, content, hw, hpc⟩ | hasset
      · rcases hrecord w worker entry content i hw hpc with hw' | hasset
        · exact .inl ⟨w, worker, entry, content, hw', hpc⟩
        · exact .inr hasset
      · exact .inr hasset
  · obtain ⟨row₀, hget₀⟩ := (hs.produced _ item hitem).row
    obtain ⟨row', hget', hkeeps⟩ := hev.entry _ _ hget₀
    obtain rfl := Option.some.inj (hget.symm.trans hget')
    exact hs.rowHash asset hasset item hitem row₀ key hget₀ (hkeeps.eq_of_some hkey)
  · rcases hheld w entry hw with hold | ⟨-, row, hget, hrowKey, -⟩
    · exact hs.heldHash asset hasset item hitem w entry key hold hproducer hkey
    · rw [hproducer] at hget
      exact hs.rowHash asset hasset item hitem row key hget (hrowKey.trans hkey)
  · rcases hev.back hget with ⟨row₀, hget₀, hkeeps⟩ | ⟨-, hnone⟩
    · exact hs.file k row₀ key hget₀ (hkeeps.eq_of_some hkey) (hback k row₀ row hget₀ hget hwant)
    · exact absurd (hnone.symm.trans hkey) (by simp)
  · obtain ⟨row, hget⟩ := hs.stagerRow n stager hn
    obtain ⟨row', hget', -⟩ := hev.entry _ _ hget
    exact ⟨row', hget'⟩
  · obtain ⟨row₀, hget₀⟩ := hs.stagerRow n stager hn
    exact hs.stager n stager hn hpc row₀ hget₀ (hback _ row₀ row hget₀ hget hwant)

/-- A transaction of anyone but a worker. -/
theorem setDb (hs : Invariant setup s) {db' : ImportDb} (hdb : db'.Sound)
    (hev : Evolves Gentle s.db db') : Invariant setup (s.setDb db') := by
  refine hs.move s.workers none hdb (hev.mono fun _ _ h => h.1)
    (fun w worker hw => .inl ⟨by simp, hw⟩) (fun w entry row row' _ _ hget hget' => ?_)
    (fun w entry hw => .inl hw) (fun k row row' hget hget' hcompleted => ?_)
    fun w worker entry content i hw _ => .inl hw
  · obtain ⟨-, hcompleted, hrunning⟩ := hev.of_get? hget hget'
    exact ⟨Or.imp hrunning hcompleted.mpr, hcompleted.mpr⟩
  · exact .inl ((hev.of_get? hget hget').2.1.mpr hcompleted)

/-- The worker `w` moves on, maybe with a transaction. -/
theorem moveWorker (hs : Invariant setup s) {db' : ImportDb} {w : ℕ} {worker : Worker}
    (hw : s.workers w = some worker) (new : Option Pc) (hdb : db'.Sound)
    (hev : Evolves KeepsKey s.db db')
    (hnew : ∀ pc, new = some pc → PcFits setup db' s.items worker.job pc)
    (hrow : ∀ v entry row row', v ≠ w → Held s.workers v entry →
      s.db.entries.get? entry.key = some row → db'.entries.get? entry.key = some row' →
      (row.status.Taken → row'.status.Taken) ∧ (row.status = .completed → row'.status = .completed))
    (hheld : ∀ pc entry, new = some pc → pc.held = some entry → worker.pc.held = some entry ∨
      ∃ row, s.db.entries.get? entry.key = some row ∧ row.stagingKey = entry.stagingKey ∧
        row.status = .queued)
    (hwanted : ∀ k row row', s.db.entries.get? k = some row → db'.entries.get? k = some row' →
      row.status = .completed → row'.status = .completed ∨
        ∃ entry, worker.pc.held = some entry ∧ entry.key = k)
    (hrecord : ∀ entry content i, worker.pc = .recording entry content i →
      ∃ asset ∈ s.assets, asset.itemId = i) :
    Invariant setup ((s.setDb db').setWorker w (new.map (Worker.mk worker.job))) := by
  have hother : ∀ v, v ≠ w →
      Function.update s.workers w (new.map (Worker.mk worker.job)) v = s.workers v :=
    fun v hv => Function.update_of_ne hv _ _
  refine hs.move (Function.update s.workers w (new.map (Worker.mk worker.job))) (some w) hdb hev (fun v worker' hv => ?_)
    (fun v entry row row' hne => hrow v entry row row' fun h => hne (h ▸ rfl))
    (fun v entry hv => ?_) (fun k row row' hget hget' hcompleted => ?_)
    fun v worker' entry content i hv hpc => ?_
  · by_cases hvw : v = w
    · subst hvw
      rw [Function.update_self] at hv
      obtain ⟨pc, hpc, rfl⟩ := Option.map_eq_some_iff.mp hv
      exact .inr ⟨hev.sameJob (hs.worker v worker hw).1, hnew pc hpc⟩
    · replace hv : s.workers v = some worker' := (hother v hvw).symm.trans hv
      exact .inl ⟨fun h => hvw (Option.some.inj h).symm, hv⟩
  · obtain ⟨worker', hv, hpc⟩ := hv
    by_cases hvw : v = w
    · subst hvw
      rw [Function.update_self] at hv
      obtain ⟨pc, hpc', rfl⟩ := Option.map_eq_some_iff.mp hv
      rcases hheld pc entry hpc' hpc with hold | hfree
      · exact .inl ⟨worker, hw, hold⟩
      · exact .inr ⟨rfl, hfree⟩
    · replace hv : s.workers v = some worker' := (hother v hvw).symm.trans hv
      exact .inl ⟨worker', hv, hpc⟩
  · rcases hwanted k row row' hget hget' hcompleted with h | ⟨entry, hentry, hk⟩
    · exact .inl h
    · exact .inr ⟨w, entry, ⟨worker, hw, hentry⟩, hk⟩
  · by_cases hvw : v = w
    · subst hvw
      obtain rfl := Option.some.inj (hw.symm.trans hv)
      exact .inr (hrecord entry content i hpc)
    · exact .inl ((hother v hvw).trans hv)

/-- The worker `w` moves on with a transaction that no other worker notices. -/
theorem moveGentle (hs : Invariant setup s) {db' : ImportDb} {w : ℕ} {worker : Worker}
    (hw : s.workers w = some worker) (new : Option Pc) (hdb : db'.Sound)
    (hev : Evolves Gentle s.db db')
    (hnew : ∀ pc, new = some pc → PcFits setup db' s.items worker.job pc)
    (hheld : ∀ pc entry, new = some pc → pc.held = some entry → worker.pc.held = some entry ∨
      ∃ row, s.db.entries.get? entry.key = some row ∧ row.stagingKey = entry.stagingKey ∧
        row.status = .queued)
    (hrecord : ∀ entry content i, worker.pc = .recording entry content i →
      ∃ asset ∈ s.assets, asset.itemId = i) :
    Invariant setup ((s.setDb db').setWorker w (new.map (Worker.mk worker.job))) := by
  refine hs.moveWorker hw new hdb (hev.mono fun _ _ h => h.1) hnew
    (fun v entry row row' _ _ hget hget' => ?_) hheld (fun k row row' hget hget' hcompleted => ?_) hrecord
  · obtain ⟨-, hcompleted, hrunning⟩ := hev.of_get? hget hget'
    exact ⟨Or.imp hrunning hcompleted.mpr, hcompleted.mpr⟩
  · exact .inl ((hev.of_get? hget hget').2.1.mpr hcompleted)

/-- The worker `w` moves on by itself. -/
theorem moveOn (hs : Invariant setup s) {w : ℕ} {worker : Worker} (hw : s.workers w = some worker)
    (new : Option Pc) (hnew : ∀ pc, new = some pc → PcFits setup s.db s.items worker.job pc)
    (hheld : ∀ pc entry, new = some pc → pc.held = some entry → worker.pc.held = some entry)
    (hrecord : ∀ entry content i, worker.pc = .recording entry content i →
      ∃ asset ∈ s.assets, asset.itemId = i) :
    Invariant setup (s.setWorker w (new.map (Worker.mk worker.job))) :=
  hs.moveGentle hw new hs.db (.refl Gentle.refl s.db) hnew
    (fun pc entry hpc hentry => .inl (hheld pc entry hpc hentry)) hrecord

end Invariant

end AI2Apps.Knowledge.Imports
