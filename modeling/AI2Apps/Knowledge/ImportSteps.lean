import AI2Apps.Knowledge.ImportInvariant

/-!
# Import jobs: every step keeps the invariant

The steps that write a file, an item or an asset come first, then the worker and the
upload point by point, then the events.

* `Harmless`: the condition on the steps.
* `Invariant.after`, `Invariant.run`.
-/

namespace AI2Apps.Knowledge.Imports

/-! ## Files, items and assets -/

theorem not_wanted_of_cancelled {db : ImportDb} {workers : ℕ → Option Worker} {k : Str × ℕ}
    {row : Entry} (h : ControlState.of db k.1 = some .cancelled) : ¬ Wanted db workers k row :=
  fun hw => hw.1 h

/-- A worker that comes to know a new item was not about to create one for its entry. -/
theorem PcFits.createItem {setup : Setup} {db : ImportDb} {items : List KnowledgeItem} {job : Job}
    {pc : Pc} (h : PcFits setup db items job pc) {item : KnowledgeItem}
    (hne : ∀ entry, pc.held = some entry → item.producer ≠ entry.key) :
    PcFits setup db (items ++ [item]) job pc := by
  cases pc with
  | creating entry content visibility =>
    obtain ⟨hholds, hstaged, hscope, hnone⟩ := h
    refine ⟨hholds, hstaged, hscope, fun other hother => ?_⟩
    rcases List.mem_append.mp hother with hold | hnew
    · exact hnone other hold
    · rw [List.mem_singleton.mp hnew]
      exact hne entry rfl
  | recording entry content i =>
    obtain ⟨hholds, hstaged, row, hrow, hproducer⟩ := h
    exact ⟨hholds, hstaged, row, (List.getElem?_append_left (List.getElem?_eq_some_iff.mp hrow).1).trans hrow,
      hproducer⟩
  | _ => exact h

namespace Invariant

variable {setup : Setup} {s : System}

/-- A file is removed that no entry and no upload still needs. -/
theorem unlink (hs : Invariant setup s) {key : StagingKey}
    (hfile : ∀ k row, s.db.entries.get? k = some row → row.stagingKey = some key →
      ¬ Wanted s.db s.workers k row)
    (hstager : ∀ n stager, s.stagers n = some stager → stager.pc = .replaced →
      stager.key setup = key → ∀ row, s.db.entries.get? (stager.jobId, stager.ordinal) = some row →
        ¬ Wanted s.db s.workers (stager.jobId, stager.ordinal) row) :
    Invariant setup (s.unlink key) where
  db := hs.db
  worker := hs.worker
  distinct := hs.distinct
  one := hs.one
  produced i item hitem := ⟨(hs.produced i item hitem).row, (hs.produced i item hitem).job,
    (hs.produced i item hitem).asset⟩
  assetItem := hs.assetItem
  rowHash := hs.rowHash
  heldHash := hs.heldHash
  content other content h := by
    refine hs.content other content ?_
    by_cases hk : other = key
    · subst hk
      exact absurd h (by simp [System.unlink])
    · exact (Function.update_of_ne hk _ _).symm.trans h
  file k row other hget hkey hwant := by
    by_cases hk : other = key
    · subst hk
      exact absurd hwant (hfile k row hget hkey)
    · exact (congrArg _ (Function.update_of_ne hk _ _)).trans (hs.file k row other hget hkey hwant)
  stagerRow := hs.stagerRow
  stager n stager hn hpc row hget hwant := by
    by_cases hk : stager.key setup = key
    · exact absurd hwant (hstager n stager hn hpc hk row hget)
    · exact (congrArg _ (Function.update_of_ne hk _ _)).trans (hs.stager n stager hn hpc row hget hwant)
  unlinks := hs.unlinks

/-- A file of an entry that is not wanted is removed. -/
theorem unlink_unwanted (hs : Invariant setup s) {key : StagingKey}
    (hnot : ∀ row, s.db.entries.get? (key.jobId, key.ordinal) = some row →
      ¬ Wanted s.db s.workers (key.jobId, key.ordinal) row) : Invariant setup (s.unlink key) := by
  refine hs.unlink (fun k row hget hkey => ?_) fun n stager hn _ hk row hget => ?_
  · obtain rfl := hs.db.key k row key hget hkey
    exact hnot row hget
  · subst hk
    exact hnot row hget

variable {job : Job} {w : ℕ} {entry : Entry} {content : Content}

/-- The staged file of an entry as a worker read it. -/
theorem unlinkPath (hs : Invariant setup s) (howned : Owned job entry)
    (hnot : ∀ row, s.db.entries.get? entry.key = some row → ¬ Wanted s.db s.workers entry.key row) :
    Invariant setup (s.unlinkPath entry) := by
  unfold System.unlinkPath
  cases hkey : entry.stagingKey with
  | none => exact hs
  | some key =>
    rw [← howned.key key hkey] at hnot
    exact hs.unlink_unwanted hnot

/-- The worker `w`, which is about to create an item, creates it and goes on to record it. -/
theorem createItem (hs : Invariant setup s) {visibility : KnowledgeScope}
    (hw : s.workers w = some ⟨job, .creating entry content visibility⟩) :
    Invariant setup ((s.createItem ⟨job.actorUserId, visibility, (job.id, entry.ordinal)⟩).setWorker w
      (some ⟨job, .recording entry content s.items.length⟩)) := by
  obtain ⟨hjob, hholds, hstaged, hscope, hnone⟩ := hs.worker w _ hw
  have hkey : entry.key = (job.id, entry.ordinal) := Prod.ext hholds.jobId rfl
  have hself : Held s.workers w entry := ⟨_, hw, rfl⟩
  have hback : ∀ {v e}, Held (Function.update s.workers w
      (some ⟨job, .recording entry content s.items.length⟩)) v e → Held s.workers v e := by
    rintro v e ⟨worker, hv, hpc⟩
    by_cases hvw : v = w
    · subst hvw
      rw [Function.update_self] at hv
      obtain rfl := Option.some.inj hv
      obtain rfl := Option.some.inj hpc
      exact hself
    · exact ⟨worker, (Function.update_of_ne hvw _ _).symm.trans hv, hpc⟩
  have hwanted : ∀ {k row}, Wanted s.db (Function.update s.workers w
      (some ⟨job, .recording entry content s.items.length⟩)) k row → Wanted s.db s.workers k row := by
    rintro k row ⟨hc, hopen⟩
    exact ⟨hc, hopen.imp_right fun ⟨v, e, hv, hk⟩ => ⟨v, e, hback hv, hk⟩⟩
  have hitem : ∀ {i item}, (s.items ++ [⟨job.actorUserId, visibility, (job.id, entry.ordinal)⟩])[i]? =
      some item → s.items[i]? = some item ∨ i = s.items.length ∧
        item = ⟨job.actorUserId, visibility, (job.id, entry.ordinal)⟩ := by
    intro i item h
    rcases lt_trichotomy i s.items.length with hi | rfl | hi
    · rw [List.getElem?_append_left hi] at h
      exact .inl h
    · rw [List.getElem?_concat_length] at h
      exact .inr ⟨rfl, (Option.some.inj h).symm⟩
    · rw [List.getElem?_eq_none (by rw [List.length_append]; exact hi)] at h
      exact absurd h (by simp)
  refine ⟨hs.db, fun v worker hv => ?_, fun v v' e e' hv hv' => hs.distinct v v' e e' (hback hv) (hback hv'),
    fun i j x y hx hy hxy => ?_, fun i x hx => ?_, fun asset hasset => ?_,
    fun asset hasset x hx row key hget hk => ?_, fun asset hasset x hx v e key hv hproducer hk => ?_,
    hs.content, fun k row key hget hk hwant => hs.file k row key hget hk (hwanted hwant),
    hs.stagerRow, fun n stager hn hpc row hget hwant => hs.stager n stager hn hpc row hget (hwanted hwant),
    hs.unlinks⟩
  · by_cases hvw : v = w
    · subst hvw
      have hworker := (Function.update_self v _ s.workers).symm.trans hv
      obtain rfl := Option.some.inj hworker
      exact ⟨hjob, hholds, hstaged, _, List.getElem?_concat_length, hkey.symm⟩
    · have hold : s.workers v = some worker := (Function.update_of_ne hvw _ _).symm.trans hv
      obtain ⟨hjob', hpc⟩ := hs.worker v worker hold
      refine ⟨hjob', hpc.createItem fun e he hproducer => hvw ?_⟩
      exact hs.distinct v w e entry ⟨worker, hold, he⟩ hself (hproducer.symm.trans hkey.symm)
  · rcases hitem hx with hx | ⟨rfl, rfl⟩
    · rcases hitem hy with hy | ⟨rfl, rfl⟩
      · exact hs.one i j x y hx hy hxy
      · exact absurd (hxy.trans hkey.symm) (hnone x (List.mem_of_getElem? hx))
    · rcases hitem hy with hy | ⟨rfl, rfl⟩
      · exact absurd (hxy.symm.trans hkey.symm) (hnone y (List.mem_of_getElem? hy))
      · rfl
  · rcases hitem hx with hx | ⟨rfl, rfl⟩
    · obtain ⟨hrow, hjob', hasset⟩ := hs.produced i x hx
      refine ⟨hrow, hjob', hasset.imp_left ?_⟩
      rintro ⟨v, worker, e, c, hv, hpc⟩
      refine ⟨v, worker, e, c, (Function.update_of_ne ?_ _ _).trans hv, hpc⟩
      rintro rfl
      obtain rfl := Option.some.inj (hw.symm.trans hv)
      exact absurd hpc (by simp)
    · obtain ⟨row, hrow, hactor, hbucket⟩ := hjob
      obtain ⟨erow, herow, -⟩ := hholds.row
      refine ⟨⟨erow, hkey ▸ herow⟩, ⟨row, hrow, hactor.symm, ?_⟩, .inl ⟨w, _, entry, content,
        Function.update_self w _ s.workers, rfl⟩⟩
      rw [hactor, hbucket]
      exact hscope
  · exact (hs.assetItem asset hasset).trans_le (by simp [System.setWorker, System.createItem])
  · rcases hitem hx with hx | ⟨hi, -⟩
    · exact hs.rowHash asset hasset x hx row key hget hk
    · exact absurd hi (hs.assetItem asset hasset).ne
  · rcases hitem hx with hx | ⟨hi, -⟩
    · exact hs.heldHash asset hasset x hx v e key (hback hv) hproducer hk
    · exact absurd hi (hs.assetItem asset hasset).ne

/-- The asset of the item that the worker `w` is about to record. -/
theorem createAsset (hs : Invariant setup s) {i : ItemId}
    (hw : s.workers w = some ⟨job, .recording entry content i⟩) :
    Invariant setup (s.createAsset ⟨i, setup.digest content⟩) := by
  obtain ⟨hjob, hholds, ⟨skey, hskey, hdigest⟩, item, hitem, hproducer⟩ := hs.worker w _ hw
  have hnew : ∀ {x}, s.items[i]? = some x → x = item := fun h => Option.some.inj (h.symm.trans hitem)
  refine ⟨hs.db, hs.worker, hs.distinct, hs.one, fun j x hx => ?_, fun asset hasset => ?_,
    fun asset hasset x hx row key hget hk => ?_, fun asset hasset x hx v e key hv hx' hk => ?_,
    hs.content, hs.file, hs.stagerRow, hs.stager, hs.unlinks⟩
  · obtain ⟨hrow, hjob', hasset⟩ := hs.produced j x hx
    exact ⟨hrow, hjob', hasset.imp_right fun ⟨asset, hasset, hj⟩ =>
      ⟨asset, List.mem_append_left _ hasset, hj⟩⟩
  · rcases List.mem_append.mp hasset with hold | hnew
    · exact hs.assetItem asset hold
    · rw [List.mem_singleton.mp hnew]
      exact (List.getElem?_eq_some_iff.mp hitem).1
  · rcases List.mem_append.mp hasset with hold | hlast
    · exact hs.rowHash asset hold x hx row key hget hk
    · obtain rfl := List.mem_singleton.mp hlast
      obtain rfl := hnew hx
      obtain ⟨erow, herow, hkeeps, -⟩ := hholds.row
      rw [hproducer] at hget
      obtain rfl := Option.some.inj (hget.symm.trans herow)
      obtain rfl := Option.some.inj (hskey.symm.trans (hkeeps.eq_of_some hk))
      exact hdigest.symm
  · rcases List.mem_append.mp hasset with hold | hlast
    · exact hs.heldHash asset hold x hx v e key hv hx' hk
    · obtain rfl := List.mem_singleton.mp hlast
      obtain rfl := hnew hx
      obtain rfl : v = w := hs.distinct v w e entry hv ⟨_, hw, rfl⟩ (hx'.trans hproducer)
      obtain ⟨worker, hv, hpc⟩ := hv
      obtain rfl := Option.some.inj (hw.symm.trans hv)
      obtain rfl := Option.some.inj hpc
      obtain rfl := Option.some.inj (hskey.symm.trans hk)
      exact hdigest.symm

/-! ## Workers -/

section Workers

variable {w : ℕ} {worker : Worker} (hs : Invariant setup s) (hw : s.workers w = some worker)

include hs hw

/-- The handler of an exception. -/
theorem fail (hheld : worker.pc.held = some entry) (error : Str)
    (hrecord : ∀ e c i, worker.pc = .recording e c i → ∃ asset ∈ s.assets, asset.itemId = i) :
    Invariant setup (s.setWorker w (some ⟨worker.job, .failing entry error⟩)) := by
  refine hs.moveOn hw (some (.failing entry error)) ?_ ?_ hrecord
  · rintro _ ⟨⟩
    exact (hs.worker w worker hw).2.holds hheld
  · rintro _ e ⟨⟩ he
    exact hheld.trans he

/-- The end of the call, with or without an exception. -/
theorem stop (hrecord : ∀ e c i, worker.pc = .recording e c i → ∃ asset ∈ s.assets, asset.itemId = i) :
    Invariant setup (s.setWorker w none) :=
  hs.moveOn hw none (by simp) (by simp) hrecord

/-- `update_import_entry`, by the worker that holds the entry. -/
theorem settle (hheld : worker.pc.held = some entry) {status : EntryStatus} {itemId : Option ItemId}
    {error : Option Str} {db' : ImportDb}
    (hupdate : updateImportEntry s.db worker.job.actorUserId worker.job.id entry.ordinal status itemId
      error = .ok db') {pc : Pc} (hpc : (∃ raising, pc = .checking entry raising) ∨
      status = .completed ∧ (pc = .unlinking entry ∨ ∃ text, pc = .failing entry text))
    (hrecord : ∀ e c i, worker.pc ≠ .recording e c i) :
    Invariant setup ((s.setDb db').setWorker w (some ⟨worker.job, pc⟩)) := by
  have hholds := (hs.worker w worker hw).2.holds hheld
  have hkey : entry.key = (worker.job.id, entry.ordinal) := Prod.ext hholds.jobId rfl
  have hrows := updateImportEntry_entries hupdate
  have hsame : ∀ {k row row'}, k ≠ entry.key → s.db.entries.get? k = some row →
      db'.entries.get? k = some row' → row' = row := by
    intro k row row' hne hget hget'
    rw [hrows, hget, Option.map_some, if_neg fun h => hne (h.trans hkey.symm)] at hget'
    exact (Option.some.inj hget').symm
  refine hs.moveWorker hw (some pc) (updateImportEntry_sound hs.db hupdate)
    (updateImportEntry_evolves hupdate) ?_ (fun v e row row' hv hheld' hget hget' => ?_) ?_
    (fun k row row' hget hget' hcompleted => ?_) fun e c i h => absurd h (hrecord e c i)
  · rintro _ ⟨⟩
    rcases hpc with ⟨raising, rfl⟩ | ⟨rfl, hpc⟩
    · exact hholds.toOwned
    · obtain ⟨row, hget, hkeeps, -⟩ := hholds.row
      have hget' : db'.entries.get? entry.key = some (setEntry .completed itemId error row) := by
        rw [hrows, hget, Option.map_some, if_pos hkey]
      have hholds' : Holds db' worker.job entry := ⟨hholds.toOwned, _, hget', hkeeps, .inr rfl⟩
      rcases hpc with rfl | ⟨text, rfl⟩
      · exact ⟨hholds', _, hget', rfl⟩
      · exact hholds'
  · have hne : e.key ≠ entry.key := fun h => hv (hs.distinct v w e entry hheld' ⟨worker, hw, hheld⟩ h)
    rw [hsame hne hget hget']
    exact ⟨id, id⟩
  · rintro _ e ⟨⟩ he
    rcases hpc with ⟨raising, rfl⟩ | ⟨-, rfl | ⟨text, rfl⟩⟩
    · exact absurd he (by simp [Pc.held])
    · exact .inl (hheld.trans he)
    · exact .inl (hheld.trans he)
  · by_cases hk : k = entry.key
    · exact .inr ⟨entry, hheld, hk.symm⟩
    · rw [hsame hk hget hget']
      exact .inl hcompleted

end Workers

/-- The claim of an entry. -/
theorem claiming (hs : Invariant setup s) (hw : s.workers w = some ⟨job, .claiming⟩) (fault : Option Fault) :
    Invariant setup ((claimingStep s job fault).1.setWorker w
      ((claimingStep s job fault).2.map (Worker.mk job))) := by
  unfold claimingStep
  split
  · rename_i entry db' hclaim
    obtain ⟨-, hget, hjobId, hqueued, -⟩ := claimEntry_some hclaim
    refine hs.moveGentle hw (some (.opening entry)) (claimEntry_sound hs.db hclaim)
      (claimEntry_evolves hclaim) ?_ ?_ (by simp)
    · rintro _ ⟨⟩
      exact ⟨⟨hjobId, fun key => hs.db.key _ entry key hget⟩, _, claimEntry_entry hclaim, .inl rfl,
        .inl rfl⟩
    · rintro _ e ⟨⟩ he
      obtain rfl := Option.some.inj he
      exact .inr ⟨entry, hget, rfl, hqueued⟩
  · exact hs.stop hw (by simp)

theorem opening (hs : Invariant setup s) (hw : s.workers w = some ⟨job, .opening entry⟩) : Invariant setup
      ((openingStep s entry).1.setWorker w ((openingStep s entry).2.map (Worker.mk job))) := by
  unfold openingStep
  split
  · rename_i content hfile
    obtain ⟨key, hkey, hcontent⟩ := Option.bind_eq_some_iff.mp hfile
    refine hs.moveOn hw (some (.looking entry content)) ?_ ?_ (by simp)
    · rintro _ ⟨⟩
      exact ⟨(hs.worker w _ hw).2, key, hkey, hs.content key content hcontent⟩
    · rintro _ e ⟨⟩ he
      exact he
  · exact hs.fail hw rfl _ (by simp)

/-- An entry that has produced an item finds it: the duplicate is there before a second
item could be created. -/
theorem not_produced_of_duplicate (hs : Invariant setup s)
    (hw : s.workers w = some ⟨job, .looking entry content⟩) {visibility : KnowledgeScope}
    (hscope : setup.bucketScope job.actorUserId job.bucketId = some visibility)
    (hnone : s.duplicate (setup.digest content) job.actorUserId visibility = none) {item : KnowledgeItem}
    (hitem : item ∈ s.items) : item.producer ≠ entry.key := by
  intro hproducer
  obtain ⟨i, hi⟩ := List.mem_iff_getElem?.mp hitem
  obtain ⟨⟨row, hrow, hactor, hbucket⟩, hholds, skey, hskey, hdigest⟩ := hs.worker w _ hw
  obtain ⟨-, ⟨job', hjob', howner, hscope'⟩, hasset⟩ := hs.produced i item hi
  have hjobId : item.producer.1 = job.id := (congrArg Prod.fst hproducer).trans hholds.jobId
  rw [hjobId] at hjob'
  obtain rfl := Option.some.inj (hrow.symm.trans hjob')
  rcases hasset with ⟨v, worker, e, c, hv, hpc⟩ | ⟨asset, hasset, rfl⟩
  · obtain ⟨-, hfits⟩ := hs.worker v worker hv
    rw [hpc] at hfits
    obtain ⟨-, -, x, hx, hxkey⟩ := hfits
    obtain rfl := Option.some.inj (hi.symm.trans hx)
    obtain rfl : v = w := hs.distinct v w e entry ⟨worker, hv, by rw [hpc]; rfl⟩ ⟨_, hw, rfl⟩
      (hxkey.symm.trans hproducer)
    obtain rfl := Option.some.inj (hw.symm.trans hv)
    exact absurd hpc (by simp)
  · have hhash := hs.heldHash asset hasset item hi w entry skey ⟨_, hw, rfl⟩ hproducer.symm hskey
    have hvisible : item.visibility = visibility := by
      rw [hactor, hbucket] at hscope'
      exact Option.some.inj (hscope'.symm.trans hscope)
    have hfind := List.find?_eq_none.mp (Option.map_eq_none_iff.mp hnone) asset hasset
    rw [hi, ← hhash, hdigest] at hfind
    simp [hvisible, howner, hactor] at hfind

theorem looking (hs : Invariant setup s) (hw : s.workers w = some ⟨job, .looking entry content⟩) :
    Invariant setup
      ((lookingStep setup s job entry content).1.setWorker w
        ((lookingStep setup s job entry content).2.map (Worker.mk job))) := by
  obtain ⟨hjob, hholds, hstaged⟩ := hs.worker w _ hw
  unfold lookingStep
  split
  · exact hs.fail hw rfl _ (by simp)
  rename_i visibility hscope
  split
  · exact hs.fail hw rfl _ (by simp)
  split
  · rename_i item hfound
    refine hs.moveOn hw (some (.completing entry item)) ?_ ?_ (by simp)
    · rintro _ ⟨⟩
      exact hholds
    · rintro _ e ⟨⟩ he
      exact he
  · rename_i hnone
    refine hs.moveOn hw (some (.creating entry content visibility)) ?_ ?_ (by simp)
    · rintro _ ⟨⟩
      exact ⟨hholds, hstaged, hscope, fun item hitem =>
        hs.not_produced_of_duplicate hw hscope hnone hitem⟩
    · rintro _ e ⟨⟩ he
      exact he

theorem creating (hs : Invariant setup s) {visibility : KnowledgeScope}
    (hw : s.workers w = some ⟨job, .creating entry content visibility⟩) {fault : Option Fault}
    (hfault : ∀ error, fault ≠ some (.after error)) : Invariant setup
      ((creatingStep s job entry content visibility fault).1.setWorker w
        ((creatingStep s job entry content visibility fault).2.map (Worker.mk job))) := by
  unfold creatingStep
  cases fault with
  | none => exact hs.createItem hw
  | some fault =>
    cases fault with
    | before error => exact hs.fail hw rfl error (by simp)
    | after error => exact absurd rfl (hfault error)

theorem recording (hs : Invariant setup s) {i : ItemId}
    (hw : s.workers w = some ⟨job, .recording entry content i⟩) {fault : Option Fault}
    (hfault : ∀ error, fault ≠ some (.before error)) : Invariant setup
      ((recordingStep setup s entry content i fault).1.setWorker w
        ((recordingStep setup s entry content i fault).2.map (Worker.mk job))) := by
  have hrecorded := hs.createAsset hw
  have hasset : ∀ e c j, (⟨job, .recording entry content i⟩ : Worker).pc = .recording e c j →
      ∃ asset ∈ (s.createAsset ⟨i, setup.digest content⟩).assets, asset.itemId = j := by
    rintro e c j ⟨⟩
    exact ⟨_, List.mem_append_right _ (List.mem_singleton_self _), rfl⟩
  unfold recordingStep
  cases fault with
  | none =>
    refine hrecorded.moveOn hw (some (.completing entry i)) ?_ ?_ hasset
    · rintro _ ⟨⟩
      exact (hs.worker w _ hw).2.1
    · rintro _ e ⟨⟩ he
      exact he
  | some fault =>
    cases fault with
    | before error => exact absurd rfl (hfault error)
    | after error => exact hrecorded.fail hw rfl error hasset

theorem completing (hs : Invariant setup s) {item : ItemId}
    (hw : s.workers w = some ⟨job, .completing entry item⟩) (fault : Option Fault) : Invariant setup
      ((completingStep s job entry item fault).1.setWorker w
        ((completingStep s job entry item fault).2.map (Worker.mk job))) := by
  unfold completingStep
  dsimp only
  split
  · exact hs.fail hw rfl _ (by simp)
  · exact hs.fail hw rfl _ (by simp)
  · rename_i error db' hupdate
    exact hs.settle hw rfl hupdate (.inr ⟨rfl, .inr ⟨error, rfl⟩⟩) (by simp)
  · rename_i db' hupdate
    exact hs.settle hw rfl hupdate (.inr ⟨rfl, .inl rfl⟩) (by simp)

theorem failing (hs : Invariant setup s) {error : Str} (hw : s.workers w = some ⟨job, .failing entry error⟩)
    (fault : Option Fault) : Invariant setup
      ((failingStep s job entry error fault).1.setWorker w
        ((failingStep s job entry error fault).2.map (Worker.mk job))) := by
  have hraise : Invariant setup (s.setWorker w (some ⟨job, .checking entry true⟩)) := by
    refine hs.moveOn hw (some (.checking entry true)) ?_ ?_ (by simp)
    · rintro _ ⟨⟩
      exact (hs.worker w _ hw).2.toOwned
    · rintro _ e ⟨⟩ he
      exact absurd he (by simp [Pc.held])
  unfold failingStep
  dsimp only
  split
  · exact hraise
  · exact hraise
  · rename_i db' hupdate
    exact hs.settle hw rfl hupdate (.inl ⟨true, rfl⟩) (by simp)
  · rename_i db' hupdate
    exact hs.settle hw rfl hupdate (.inl ⟨false, rfl⟩) (by simp)

theorem unlinkPath_setWorker (s : System) (entry : Entry) (w : ℕ) (worker : Option Worker) :
    (s.unlinkPath entry).setWorker w worker = (s.setWorker w worker).unlinkPath entry := by
  unfold System.unlinkPath
  cases entry.stagingKey <;> rfl

/-- The file of a completed entry is removed when its worker is done with it. -/
theorem unlinking (hs : Invariant setup s) (hw : s.workers w = some ⟨job, .unlinking entry⟩)
    (fault : Option Fault) : Invariant setup
      ((unlinkingStep s entry fault).1.setWorker w
        ((unlinkingStep s entry fault).2.map (Worker.mk job))) := by
  obtain ⟨-, hholds, row, hget, hcompleted⟩ := hs.worker w _ hw
  unfold unlinkingStep
  cases fault with
  | some fault => exact hs.fail hw rfl _ (by simp)
  | none =>
    have hleft : Invariant setup (s.setWorker w (some ⟨job, .checking entry false⟩)) := by
      refine hs.moveOn hw (some (.checking entry false)) ?_ ?_ (by simp)
      · rintro _ ⟨⟩
        exact hholds.toOwned
      · rintro _ e ⟨⟩ he
        exact absurd he (by simp [Pc.held])
    show Invariant setup ((s.unlinkPath entry).setWorker w _)
    rw [unlinkPath_setWorker]
    refine hleft.unlinkPath hholds.toOwned fun row' hget' hwant => ?_
    obtain rfl := Option.some.inj (hget.symm.trans hget')
    obtain ⟨v, e, ⟨worker, hv, hpc⟩, hkey⟩ := hwant.2.resolve_left fun h => h hcompleted
    by_cases hvw : v = w
    · subst hvw
      obtain rfl := Option.some.inj ((Function.update_self v _ s.workers).symm.trans hv)
      exact absurd hpc (by simp [Pc.held])
    · have hold : s.workers v = some worker := (Function.update_of_ne hvw _ _).symm.trans hv
      exact hvw (hs.distinct v w e entry ⟨worker, hold, hpc⟩ ⟨_, hw, rfl⟩ hkey)

theorem next (hs : Invariant setup s) {worker : Worker} (hw : s.workers w = some worker) (raising : Bool)
    (hrecord : ∀ e c i, worker.pc ≠ .recording e c i) :
    Invariant setup (s.setWorker w ((nextIteration raising).map (Worker.mk worker.job))) := by
  cases raising with
  | true => exact hs.stop hw fun e c i h => absurd h (hrecord e c i)
  | false =>
    refine hs.moveOn hw (some .claiming) ?_ ?_ fun e c i h => absurd h (hrecord e c i)
    · rintro _ ⟨⟩
      trivial
    · rintro _ e ⟨⟩ he
      exact absurd he (by simp [Pc.held])

theorem checking (hs : Invariant setup s) {raising : Bool}
    (hw : s.workers w = some ⟨job, .checking entry raising⟩) : Invariant setup
      ((checkingStep s job entry raising).1.setWorker w
        ((checkingStep s job entry raising).2.map (Worker.mk job))) := by
  unfold checkingStep
  split
  · rename_i hc
    refine hs.moveOn hw (some (.discarding entry raising)) ?_ ?_ (by simp)
    · rintro _ ⟨⟩
      exact ⟨(hs.worker w _ hw).2, hc⟩
    · rintro _ e ⟨⟩ he
      exact absurd he (by simp [Pc.held])
  · exact hs.next hw raising (by simp)

theorem discarding (hs : Invariant setup s) {raising : Bool}
    (hw : s.workers w = some ⟨job, .discarding entry raising⟩) :
    Invariant setup ((s.unlinkPath entry).setWorker w (some ⟨job, .clearing entry raising⟩)) := by
  obtain ⟨-, howned, hc⟩ := hs.worker w _ hw
  rw [unlinkPath_setWorker]
  have hleft : Invariant setup (s.setWorker w (some ⟨job, .clearing entry raising⟩)) := by
    refine hs.moveOn hw (some (.clearing entry raising)) ?_ ?_ (by simp)
    · rintro _ ⟨⟩
      exact ⟨howned, hc⟩
    · rintro _ e ⟨⟩ he
      exact absurd he (by simp [Pc.held])
  refine hleft.unlinkPath howned fun row _ => not_wanted_of_cancelled ?_
  show ControlState.of s.db entry.jobId = _
  rw [howned.jobId]
  exact hc

theorem clearing (hs : Invariant setup s) {raising : Bool}
    (hw : s.workers w = some ⟨job, .clearing entry raising⟩) : Invariant setup
      ((s.setDb (clearStagingKey s.db job.id entry.ordinal)).setWorker w
        ((nextIteration raising).map (Worker.mk job))) :=
  (hs.setDb (clearStagingKey_sound hs.db _ _) (clearStagingKey_evolves _ _ _)).next hw raising (by simp)

/-! ## Uploads -/

/-- An upload begins, ends or loses its commit. -/
theorem setStager (hs : Invariant setup s) (n : ℕ) {new : Option Stager}
    (hrow : ∀ stager, new = some stager →
      ∃ row, s.db.entries.get? (stager.jobId, stager.ordinal) = some row)
    (hpc : ∀ stager, new = some stager → stager.pc ≠ .replaced) : Invariant setup (s.setStager n new) := by
  have hother : ∀ {m stager}, Function.update s.stagers n new m = some stager →
      new = some stager ∨ s.stagers m = some stager := by
    intro m stager hm
    by_cases hmn : m = n
    · subst hmn
      rw [Function.update_self] at hm
      exact .inl hm
    · exact .inr ((Function.update_of_ne hmn _ _).symm.trans hm)
  refine ⟨hs.db, hs.worker, hs.distinct, hs.one, fun i item hitem => ?_, hs.assetItem, hs.rowHash,
    hs.heldHash, hs.content, hs.file, fun m stager hm => ?_, fun m stager hm hreplaced => ?_, hs.unlinks⟩
  · exact ⟨(hs.produced i item hitem).row, (hs.produced i item hitem).job, (hs.produced i item hitem).asset⟩
  · rcases hother hm with hnew | hold
    · exact hrow stager hnew
    · exact hs.stagerRow m stager hold
  · rcases hother hm with hnew | hold
    · exact absurd hreplaced (hpc stager hnew)
    · exact hs.stager m stager hold hreplaced

/-- The upload replaces its destination. -/
theorem replace (hs : Invariant setup s) {n : ℕ} {stager : Stager} (hn : s.stagers n = some stager) :
    Invariant setup (System.setStager
      { s with files := Function.update s.files (stager.key setup) (some stager.content) } n
      (some { stager with pc := .replaced })) := by
  have hsome : ∀ {key}, (s.files key).isSome = true →
      (Function.update s.files (stager.key setup) (some stager.content) key).isSome = true := by
    intro key h
    by_cases hk : key = stager.key setup
    · rw [hk, Function.update_self]
      rfl
    · rw [Function.update_of_ne hk]
      exact h
  refine ⟨hs.db, hs.worker, hs.distinct, hs.one, fun i item hitem => ?_, hs.assetItem, hs.rowHash,
    hs.heldHash, fun key content hfile => ?_, fun k row key hget hkey hwant => ?_,
    fun m other hm => ?_, fun m other hm hpc row hget hwant => ?_, hs.unlinks⟩
  · exact ⟨(hs.produced i item hitem).row, (hs.produced i item hitem).job, (hs.produced i item hitem).asset⟩
  · by_cases hk : key = stager.key setup
    · subst hk
      have hcontent := (Function.update_self (stager.key setup) _ s.files).symm.trans hfile
      rw [← Option.some.inj hcontent]
      rfl
    · exact hs.content key content ((Function.update_of_ne hk _ _).symm.trans hfile)
  · exact hsome (hs.file k row key hget hkey hwant)
  all_goals
    by_cases hmn : m = n
    · subst hmn
      obtain rfl := Option.some.inj ((Function.update_self m _ s.stagers).symm.trans hm)
      first
        | exact hs.stagerRow m stager hn
        | exact congrArg _ (Function.update_self (stager.key setup) _ s.files)
    · have hold : s.stagers m = some other := (Function.update_of_ne hmn _ _).symm.trans hm
      first
        | exact hs.stagerRow m other hold
        | exact hsome (hs.stager m other hold hpc row hget hwant)

/-- The commit of an upload, of an entry that has produced nothing else. -/
theorem recordStaged (hs : Invariant setup s) {actor : Str} {key : StagingKey} {db' : ImportDb}
    (hrecord : Imports.recordStaged s.db actor key = .ok db')
    (hfile : ∀ row, s.db.entries.get? (key.jobId, key.ordinal) = some row →
      Wanted s.db s.workers (key.jobId, key.ordinal) row → (s.files key).isSome = true)
    (hhash : ∀ asset ∈ s.assets, ∀ item, s.items[asset.itemId]? = some item →
      item.producer = (key.jobId, key.ordinal) → key.digest = asset.contentHash) :
    Invariant setup (s.setDb db') := by
  obtain ⟨⟨queued, hqueued, hstatus⟩, -⟩ := recordStaged_ok hrecord
  have hrows := recordStaged_entries hrecord
  have hjobs := recordStaged_jobs hrecord
  have hcontrol : ∀ jobId, ControlState.of db' jobId = ControlState.of s.db jobId := fun jobId => by
    rw [ControlState.of, hjobs]
    rfl
  have hback : ∀ {k row'}, db'.entries.get? k = some row' → ∃ row, s.db.entries.get? k = some row ∧
      row'.status = row.status ∧ (row' = row ∨ k = (key.jobId, key.ordinal) ∧ row'.stagingKey = some key) := by
    intro k row' hget
    rw [hrows] at hget
    obtain ⟨row, hrow, rfl⟩ := Option.map_eq_some_iff.mp hget
    refine ⟨row, hrow, ?_⟩
    split
    · rename_i hk
      exact ⟨rfl, .inr ⟨hk, rfl⟩⟩
    · exact ⟨rfl, .inl rfl⟩
  have hforward : ∀ {k row}, s.db.entries.get? k = some row → ∃ row', db'.entries.get? k = some row' := by
    intro k row hget
    exact ⟨_, by rw [hrows, hget, Option.map_some]⟩
  have hwanted : ∀ {k row row'}, row'.status = row.status → Wanted db' s.workers k row' →
      Wanted s.db s.workers k row := by
    rintro k row row' hst ⟨hc, hopen⟩
    rw [hcontrol] at hc
    rw [hst] at hopen
    exact ⟨hc, hopen⟩
  refine ⟨recordStaged_sound hs.db hrecord, fun w worker hw => ?_, hs.distinct, hs.one,
    fun i item hitem => ?_, hs.assetItem, fun asset hasset item hitem row sk hget hsk => ?_, hs.heldHash,
    hs.content, fun k row sk hget hsk hwant => ?_, fun n stager hn => ?_,
    fun n stager hn hpc row hget hwant => ?_, fun sk hsk => ?_⟩
  · obtain ⟨⟨row, hrow, hsame⟩, hpc⟩ := hs.worker w worker hw
    refine ⟨⟨row, by rw [System.setDb, hjobs]; exact hrow, hsame⟩, hpc.stays (fun h => ?_) ?_⟩
    · exact (hcontrol _).trans h
    · intro entry _ row hget htaken
      have hne : entry.key ≠ (key.jobId, key.ordinal) := by
        intro hk
        rw [hk] at hget
        obtain rfl := Option.some.inj (hget.symm.trans hqueued)
        rcases htaken with h | h <;> exact absurd (h.symm.trans hstatus) (by simp)
      refine ⟨row, ?_, .refl row, htaken, id⟩
      show db'.entries.get? entry.key = some row
      rw [hrows, hget, Option.map_some, if_neg hne]
  · obtain ⟨⟨row, hget⟩, hjob, hasset⟩ := hs.produced i item hitem
    refine ⟨hforward hget, ?_, hasset⟩
    show ∃ job, db'.jobs.get? _ = _ ∧ _
    rw [hjobs]
    exact hjob
  · obtain ⟨row₀, hget₀, -, rfl | ⟨hk, hsk'⟩⟩ := hback hget
    · exact hs.rowHash asset hasset item hitem row sk hget₀ hsk
    · obtain rfl := Option.some.inj (hsk'.symm.trans hsk)
      exact hhash asset hasset item hitem hk
  · obtain ⟨row₀, hget₀, hst, rfl | ⟨rfl, hsk'⟩⟩ := hback hget
    · exact hs.file k row sk hget₀ hsk (hwanted hst hwant)
    · obtain rfl := Option.some.inj (hsk'.symm.trans hsk)
      exact hfile row₀ hget₀ (hwanted hst hwant)
  · obtain ⟨row, hget⟩ := hs.stagerRow n stager hn
    exact hforward hget
  · obtain ⟨row₀, hget₀, hst, -⟩ := hback hget
    exact hs.stager n stager hn hpc row₀ hget₀ (hwanted hst hwant)
  · exact (hcontrol _).trans (hs.unlinks sk hsk)

end Invariant

/-! ## Histories -/

/-- The condition on a step of a worker: nothing raises between the commit of an item and
the insertion of its asset. -/
def WorkHarmless : Pc → Option Fault → Prop
  | .creating _ _ _, some (.after _) => False
  | .recording _ _ _, some (.before _) => False
  | _, _ => True

/-- The condition on a step of an upload: the commit is of an entry that has produced no
item, or one with the same content; and the clean-up meets no entry that records the
destination, and no upload that is about to. -/
def StageHarmless (setup : Setup) (s : System) (n : ℕ) (stager : Stager) (fault : Option Fault) :
    Prop :=
  match stager.pc with
  | .writing => True
  | .replaced => (∀ error, fault ≠ some (.before error)) → ∀ asset ∈ s.assets, ∀ item,
      s.items[asset.itemId]? = some item → item.producer = (stager.jobId, stager.ordinal) →
        setup.digest stager.content = asset.contentHash
  | .cleanup => fault = none →
      (∀ row ∈ s.db.entries.rows, row.stagingKey ≠ some (stager.key setup)) ∧
        ∀ m other, m ≠ n → s.stagers m = some other → other.pc = .replaced →
          other.key setup ≠ stager.key setup

/-- The condition on a step. The process is not lost between the commit of an item and the
insertion of its asset; every failed entry of a job that is retried has its staged file;
and no entry that is running at recovery belongs to a job that is paused or cancelled. -/
def Harmless (setup : Setup) (s : System) : Event → Prop
  | .work w fault => ∀ worker, s.workers w = some worker → WorkHarmless worker.pc fault
  | .stage n fault => ∀ stager, s.stagers n = some stager → StageHarmless setup s n stager fault
  | .lose => ∀ w worker entry content i, s.workers w = some worker →
      worker.pc ≠ .recording entry content i
  | .retry _ jobId => ∀ row ∈ s.db.entries.rows, row.jobId = jobId → row.status = .failed →
      row.stagingKey.isSome = true
  | .recover => ∀ row ∈ s.db.entries.rows, row.status = .running → s.db.activeJob row.jobId = true
  | _ => True

namespace Invariant

variable {setup : Setup} {s : System}

theorem work (hs : Invariant setup s) (w : ℕ) (fault : Option Fault)
    (h : ∀ worker, s.workers w = some worker → WorkHarmless worker.pc fault) :
    Invariant setup (s.work setup w fault) := by
  unfold System.work
  split
  · exact hs
  rename_i worker hw
  obtain ⟨job, pc⟩ := worker
  have hpc := h _ hw
  dsimp only
  cases pc with
  | claiming => exact hs.claiming hw fault
  | opening entry =>
    cases fault with
    | none => exact hs.opening hw
    | some fault => exact hs.fail hw rfl _ (by simp)
  | looking entry content =>
    cases fault with
    | none => exact hs.looking hw
    | some fault => exact hs.fail hw rfl _ (by simp)
  | creating entry content visibility =>
    refine hs.creating hw fun error herror => ?_
    rw [herror] at hpc
    exact hpc
  | recording entry content item =>
    refine hs.recording hw fun error herror => ?_
    rw [herror] at hpc
    exact hpc
  | completing entry item => exact hs.completing hw fault
  | unlinking entry => exact hs.unlinking hw fault
  | failing entry error => exact hs.failing hw fault
  | checking entry raising =>
    cases fault with
    | none => exact hs.checking hw
    | some fault => exact hs.stop hw (by simp)
  | discarding entry raising =>
    cases fault with
    | none => exact hs.discarding hw
    | some fault => exact hs.stop hw (by simp)
  | clearing entry raising =>
    cases fault with
    | none => exact hs.clearing hw
    | some fault => exact hs.stop hw (by simp)

theorem stageBegin (hs : Invariant setup s) (n : ℕ) (actor jobId : Str) (ordinal : ℕ)
    (content : Content) (maxBytes : ℕ) :
    Invariant setup (s.stageBegin n actor jobId ordinal content maxBytes) := by
  unfold System.stageBegin
  split
  · rename_i h
    refine hs.setStager n ?_ ?_
    · rintro _ ⟨⟩
      unfold stageable at h
      cases hget : s.db.entries.get? (jobId, ordinal) with
      | none => simp [hget] at h
      | some row => exact ⟨row, rfl⟩
    · rintro _ ⟨⟩
      simp
  · exact hs

theorem stage (hs : Invariant setup s) (n : ℕ) (fault : Option Fault)
    (h : ∀ stager, s.stagers n = some stager → StageHarmless setup s n stager fault) :
    Invariant setup (s.stage setup n fault) := by
  unfold System.stage
  split
  · exact hs
  rename_i stager hn
  have hharmless := h stager hn
  have hdone : ∀ {t : System}, Invariant setup t → Invariant setup (t.setStager n none) :=
    fun ht => ht.setStager n (by simp) (by simp)
  have hcleanup : Invariant setup (s.setStager n (some { stager with pc := .cleanup })) := by
    refine hs.setStager n ?_ ?_
    · rintro _ ⟨⟩
      exact hs.stagerRow n stager hn
    · rintro _ ⟨⟩
      simp
  unfold stageStep
  dsimp only
  unfold StageHarmless at hharmless
  cases hpc : stager.pc with
  | writing =>
    show Invariant setup (System.setStager (writingStep setup s stager fault).1 n _)
    unfold writingStep
    split
    · exact hdone hs
    · cases fault with
      | none => exact hs.replace hn
      | some fault =>
        cases fault with
        | before error => exact hdone hs
        | after error => exact hcleanup
  | replaced =>
    rw [hpc] at hharmless
    show Invariant setup (System.setStager (replacedStep setup s stager fault).1 n _)
    unfold replacedStep
    split
    · exact hcleanup
    · exact hcleanup
    · rename_i db' hbefore hrecord
      exact hdone (hs.recordStaged hrecord (hs.stager n stager hn hpc)
        (hharmless fun error herror => hbefore error herror))
  | cleanup =>
    rw [hpc] at hharmless
    show Invariant setup (System.setStager (if fault.isSome then s else s.unlink (stager.key setup)) n none)
    cases fault with
    | some fault => exact hdone hs
    | none =>
      obtain ⟨hrows, hothers⟩ := hharmless rfl
      refine hdone (hs.unlink (fun k row hget hkey => ?_) fun m other hm hreplaced hkey => ?_)
      · exact absurd hkey (hrows row (Table.mem_of_get? hget))
      · refine absurd hkey (hothers m other ?_ hm hreplaced)
        rintro rfl
        obtain rfl := Option.some.inj (hn.symm.trans hm)
        exact absurd (hpc.symm.trans hreplaced) (by simp)

theorem control (hs : Invariant setup s) (actor jobId : Str) (action : ControlAction) :
    Invariant setup (s.control actor jobId action) := by
  unfold System.control controlImportJob
  cases hjob : s.db.jobOf actor jobId with
  | none => exact hs
  | some job =>
    have hget := (jobOf_eq_some hjob).1
    obtain rfl : job.id = jobId := Table.key_of_get? hget
    have hsame : ∀ {t : System}, Invariant setup t → Invariant setup { t with unlinks := t.unlinks ++ [] } := by
      intro t ht
      rw [List.append_nil]
      exact ht
    cases action with
    | pause =>
      dsimp only
      cases hpause : pauseImportJob s.db job with
      | error error => exact hs
      | ok db' => exact hsame (hs.setDb (pauseImportJob_sound hs.db hpause) (pauseImportJob_evolves hget hpause))
    | resume =>
      dsimp only
      cases hresume : resumeImportJob s.db job with
      | error error => exact hs
      | ok db' =>
        exact hsame (hs.setDb (resumeImportJob_sound hs.db hresume) (resumeImportJob_evolves hget hresume))
    | cancel =>
      dsimp only
      cases hcancel : cancelImportJob s.db job with
      | error error => exact hs
      | ok out =>
        obtain ⟨db', keys⟩ := out
        have hdb := hs.setDb (cancelImportJob_sound hs.db hcancel) (cancelImportJob_evolves hcancel)
        refine ⟨hdb.db, hdb.worker, hdb.distinct, hdb.one, fun i item hitem => ?_, hdb.assetItem,
          hdb.rowHash, hdb.heldHash, hdb.content, hdb.file, hdb.stagerRow, hdb.stager, fun key hkey => ?_⟩
        · exact ⟨(hdb.produced i item hitem).row, (hdb.produced i item hitem).job,
            (hdb.produced i item hitem).asset⟩
        · rcases List.mem_append.mp hkey with hold | hnew
          · exact hdb.unlinks key hold
          · exact cancelImportJob_cancelled hs.db hget hcancel hnew

theorem cancelUnlink (hs : Invariant setup s) (key : StagingKey) (raises : Bool) :
    Invariant setup (s.cancelUnlink key raises) := by
  unfold System.cancelUnlink
  split
  · rename_i hmem
    have hunlinked : Invariant setup (if raises then s else s.unlink key) := by
      split
      · exact hs
      · exact hs.unlink_unwanted fun row _ => not_wanted_of_cancelled (hs.unlinks key hmem)
    refine ⟨hunlinked.db, hunlinked.worker, hunlinked.distinct, hunlinked.one, fun i item hitem => ?_,
      hunlinked.assetItem, hunlinked.rowHash, hunlinked.heldHash, hunlinked.content, hunlinked.file,
      hunlinked.stagerRow, hunlinked.stager, fun other hother => ?_⟩
    · exact ⟨(hunlinked.produced i item hitem).row, (hunlinked.produced i item hitem).job,
        (hunlinked.produced i item hitem).asset⟩
    · have hdb : (if raises then s else s.unlink key).db = s.db := by split <;> rfl
      show ControlState.of (if raises then s else s.unlink key).db _ = _
      rw [hdb]
      exact hs.unlinks other (List.mem_of_mem_erase hother)
  · exact hs

theorem process (hs : Invariant setup s) (w : ℕ) (jobId : Str) : Invariant setup (s.process w jobId) := by
  unfold System.process
  split
  · rename_i job hw hjob
    obtain rfl : job.id = jobId := Table.key_of_get? hjob
    have hother : ∀ {v worker}, Function.update s.workers w (some ⟨job, .claiming⟩) v = some worker →
        worker = ⟨job, .claiming⟩ ∨ s.workers v = some worker := by
      intro v worker hv
      by_cases hvw : v = w
      · subst hvw
        exact .inl (Option.some.inj ((Function.update_self v _ s.workers).symm.trans hv)).symm
      · exact .inr ((Function.update_of_ne hvw _ _).symm.trans hv)
    refine hs.move (Function.update s.workers w (some ⟨job, .claiming⟩)) none hs.db (.refl KeepsKey.refl s.db) (fun v worker hv => ?_)
      (fun v entry row row' _ _ hget hget' => ?_) (fun v entry ⟨worker, hv, hpc⟩ => ?_)
      (fun k row row' hget hget' hcompleted => ?_) fun v worker entry content i hv _ => ?_
    · rcases hother hv with rfl | hold
      · exact .inr ⟨⟨job, hjob, rfl, rfl⟩, trivial⟩
      · exact .inl ⟨by simp, hold⟩
    · obtain rfl := Option.some.inj (hget.symm.trans hget')
      exact ⟨id, id⟩
    · rcases hother hv with rfl | hold
      · exact absurd hpc (by simp [Pc.held])
      · exact .inl ⟨worker, hold, hpc⟩
    · obtain rfl := Option.some.inj (hget.symm.trans hget')
      exact .inl hcompleted
    · refine .inl ((Function.update_of_ne ?_ _ _).trans hv)
      rintro rfl
      exact absurd (hw.symm.trans hv) (by simp)
  · exact hs

theorem lose (hs : Invariant setup s) (h : ∀ w worker entry content i, s.workers w = some worker →
    worker.pc ≠ .recording entry content i) : Invariant setup s.lose where
  db := hs.db
  worker _ _ hw := absurd hw (by simp [System.lose])
  distinct _ _ _ _ hw := absurd hw (by simp [System.lose, Held])
  one := hs.one
  produced i item hitem := by
    obtain ⟨hrow, hjob, hasset⟩ := hs.produced i item hitem
    refine ⟨hrow, hjob, .inr (hasset.resolve_left ?_)⟩
    rintro ⟨w, worker, entry, content, hw, hpc⟩
    exact h w worker entry content i hw hpc
  assetItem := hs.assetItem
  rowHash := hs.rowHash
  heldHash _ _ _ _ _ _ _ hw := absurd hw (by simp [System.lose, Held])
  content := hs.content
  file k row key hget hkey hwant := by
    refine hs.file k row key hget hkey ⟨hwant.1, hwant.2.imp_right ?_⟩
    rintro ⟨w, entry, hw, -⟩
    exact absurd hw (by simp [System.lose, Held])
  stagerRow _ _ hn := absurd hn (by simp [System.lose])
  stager _ _ hn := absurd hn (by simp [System.lose])
  unlinks _ hkey := absurd hkey (by simp [System.lose])

theorem recover (hs : Invariant setup s) (h : ∀ w, s.workers w = none) :
    Invariant setup (s.setDb (recoverImportJobs s.db)) := by
  have hnone : ∀ {w entry}, ¬ Held s.workers w entry := by
    rintro w entry ⟨worker, hw, -⟩
    exact absurd ((h w).symm.trans hw) (by simp)
  refine hs.move s.workers none (recoverImportJobs_sound hs.db)
    ((recoverImportJobs_evolves s.db).mono fun _ _ h => h.1) (fun w worker hw => ?_)
    (fun w entry row row' _ hw => absurd hw hnone) (fun w entry hw => .inl hw)
    (fun k row row' hget hget' hcompleted => ?_) fun w worker entry content i hw _ => .inl hw
  · exact absurd ((h w).symm.trans hw) (by simp)
  · exact .inl (((recoverImportJobs_evolves s.db).of_get? hget hget').2.mpr hcompleted)

/-- **A step that meets the condition keeps the invariant.** -/
theorem after (hs : Invariant setup s) (event : Event) (hstartup : AtStartup s event)
    (h : Harmless setup s event) : Invariant setup (s.after setup event) := by
  cases event with
  | createJob actor jobId bucketId app files =>
    show Invariant setup (s.commit _)
    unfold System.commit
    split
    · rename_i db' hcreate
      exact hs.setDb (createImportJob_sound hs.db hcreate) (createImportJob_evolves hcreate)
    · exact hs
  | stageBegin n actor jobId ordinal content maxBytes => exact hs.stageBegin n actor jobId ordinal content maxBytes
  | stage n fault => exact hs.stage n fault h
  | control actor jobId action => exact hs.control actor jobId action
  | unlink key raises => exact hs.cancelUnlink key raises
  | retry actor jobId =>
    show Invariant setup (s.commit _)
    unfold System.commit
    split
    · rename_i db' hretry
      exact hs.setDb (retryImportJob_sound hs.db hretry h) (retryImportJob_evolves hretry)
    · exact hs
  | process w jobId => exact hs.process w jobId
  | work w fault => exact hs.work w fault h
  | lose => exact hs.lose h
  | recover => exact hs.recover hstartup

/-- **Every history whose steps meet the condition keeps the invariant.** -/
theorem run (hs : Invariant setup s) {events : List Event}
    (hstartup : Throughout setup AtStartup s events)
    (h : Throughout setup (Harmless setup) s events) : Invariant setup (s.run setup events) := by
  induction events generalizing s with
  | nil => exact hs
  | cons event events ih => exact ih (hs.after event hstartup.1 h.1) hstartup.2 h.2

end Invariant

end AI2Apps.Knowledge.Imports
