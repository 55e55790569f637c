import AI2Apps.Knowledge.VectorBatches
import AI2Apps.Lib.ChangeLog

/-!
# The index converges to the authority

A history interleaves the operations of the authority with the syncs of the
indexer, each of which reads a batch and later writes it or fails.  It simulates
the replay of a change log: while the changes that are not logged meet an item with
an entry to come, and no sync finds a record left behind under an ordinal that is
gone, the end of the log is the end of the difference.

* `Event`, `System.after`: the histories.
* `Harmless`: the condition on the steps.
* `Fits`: the invariant; its replica is `ChangeLog.Sound`.
* `index_converges`: at the end of the log, the records are those of a rebuild.
-/

namespace AI2Apps.Knowledge

open Clock Faults

/-! ## Histories -/

/-- The write transactions of the authority. -/
inductive StoreOp where
  | createTextItem (now : DateTime) (principal : RequestPrincipal) (new : NewItem)
  | updateTextItem (now : DateTime) (principal : RequestPrincipal) (itemId : Str)
      (expectedRevision : ℤ) (title text : Str) (generatedSourceAppId : Option Str)
  | deleteItem (now : DateTime) (principal : RequestPrincipal) (itemId : Str) (expectedRevision : ℤ)
  | ensureSystemBuckets (principal : RequestPrincipal)
  | createBucket (principal : RequestPrincipal) (bucketId name : Str) (scope : KnowledgeScope)
      (isImported : Bool)
  | deleteBucket (principal : RequestPrincipal) (bucketId : Str)
  | addItemToBucket (principal : RequestPrincipal) (bucketId itemId : Str)
  | removeItemFromBucket (principal : RequestPrincipal) (bucketId itemId : Str)

inductive Event where
  | store (op : StoreOp)
  | syncStart (maxChanges : ℕ)
  /-- The sync that is under way does its work and returns or raises. -/
  | syncWork (outside : Outside)
  | reset

structure Setup where
  bucketIds : BucketIds
  profile : Profile

/-- The store after an operation. -/
def StoreOp.apply (bucketIds : BucketIds) (store : Store) : StoreOp → Store
  | .createTextItem now principal new => final (Knowledge.createTextItem now principal new) store
  | .updateTextItem now principal itemId revision title text app =>
    final (Knowledge.updateTextItem now principal itemId revision title text app) store
  | .deleteItem now principal itemId revision =>
    final (Knowledge.deleteItem now principal itemId revision) store
  | .ensureSystemBuckets principal => final (Knowledge.ensureSystemBuckets bucketIds principal) store
  | .createBucket principal bucketId name scope isImported =>
    final (Knowledge.createBucket principal bucketId name scope isImported) store
  | .deleteBucket principal bucketId => final (Knowledge.deleteBucket principal bucketId) store
  | .addItemToBucket principal bucketId itemId =>
    final (Knowledge.addItemToBucket principal bucketId itemId) store
  | .removeItemFromBucket principal bucketId itemId =>
    final (Knowledge.removeItemFromBucket principal bucketId itemId) store

/-- The system after an event, and what a sync that ends with it returns. The lock keeps
a sync and a reset waiting while another sync is under way. -/
def System.after (setup : Setup) (system : System) : Event → System × Option IndexSyncResult
  | .store op => ({ system with store := op.apply setup.bucketIds system.store }, none)
  | .syncStart maxChanges =>
    if system.flight.isSome || maxChanges < 1 || 10000 < maxChanges then (system, none)
    else syncStart setup.profile maxChanges system
  | .syncWork outside =>
    match system.flight with
    | none => (system, none)
    | some snapshot => syncWork setup.profile outside snapshot system
  | .reset => if system.flight.isSome then (system, none) else (Knowledge.reset setup.profile system, none)

def System.run (setup : Setup) (system : System) (events : List Event) : System :=
  events.foldl (fun s event => (s.after setup event).1) system

/-- Nothing stored and nothing indexed. -/
def System.empty : System := ⟨⟨.empty, .empty, .empty, .empty, []⟩, none, 0, none, none⟩

/-- How far the log is read. -/
def System.reach (profile : Profile) (system : System) : ℕ :=
  (system.flight.map Snapshot.sequence).getD (system.watermark profile)

/-- The item has an entry in the log that no sync has read yet. -/
def System.pending (profile : Profile) (system : System) (itemId : Str) : Prop :=
  itemId ∈ (system.store.changeLog.drop (system.reach profile)).map Change.itemId

/-- The condition on a step: a bucket that is deleted, and the placing of items that no
bucket holds, change only active items with an entry to come; and a sync finds no
record of an active item that its batch does not write again. -/
def Harmless (setup : Setup) (system : System) : Event → Prop
  | .store (.deleteBucket principal bucketId) =>
    ∀ bucket, system.store.buckets.get? bucketId = some bucket →
      visibleBucket principal bucket = true → bucket.kind ≠ .system →
      bucket.createdByUserId = principal.actorUserId →
      ∀ item ∈ system.store.items.rows, item.active = true →
        (∃ row ∈ system.store.bucketItems.rows, row.bucketId = bucketId ∧ row.itemId = item.id) →
        system.pending setup.profile item.id
  | .store (.ensureSystemBuckets principal) =>
    ∀ item ∈ system.store.legacyItems principal, item.active = true →
      system.pending setup.profile item.id
  | .syncWork _ => ∀ snapshot, system.flight = some snapshot → snapshot.NoLeftover system.table
  | _ => True

/-- Every step of the history meets the condition. -/
def HarmlessThroughout (setup : Setup) : System → List Event → Prop
  | _, [] => True
  | system, event :: events =>
    Harmless setup system event ∧ HarmlessThroughout setup (system.after setup event).1 events

/-- A reset followed by syncs that succeed. -/
inductive Rebuilt (setup : Setup) (system : System) : System → Prop where
  | reset : Rebuilt setup system (Knowledge.reset setup.profile system)
  | rest {s t : System} (maxChanges : ℕ) (result : IndexSyncResult) (hs : Rebuilt setup system s)
      (h : s.after setup (.syncStart maxChanges) = (t, some result)) : Rebuilt setup system t
  | sync {s t u : System} (maxChanges : ℕ) (outside : Outside) (result : IndexSyncResult)
      (hs : Rebuilt setup system s) (ht : s.after setup (.syncStart maxChanges) = (t, none))
      (hu : t.after setup (.syncWork outside) = (u, some result)) : Rebuilt setup system u

/-- The records of all active items, without their vectors. -/
def Store.vectorRecords (store : Store) : List VectorRecord :=
  (store.items.rows.filter Item.active).flatMap fun item =>
    (pendingOf store.chunks.rows item).map fun piece =>
      vectorRecord store.bucketItems.rows piece []

/-- The records of the table are the current chunks of the active items, and nothing else. -/
def System.Converged (system : System) : Prop :=
  {r | ∃ row ∈ system.table.records, row.bare = r} = {r | r ∈ system.store.vectorRecords}

theorem mem_vectorRecords {store : Store} {r : VectorRecord} :
    r ∈ store.vectorRecords ↔ ∃ id, r ∈ store.records id := by
  constructor
  · intro h
    obtain ⟨item, hitem, hr⟩ := List.mem_flatMap.mp h
    obtain ⟨hmem, hactive⟩ := List.mem_filter.mp hitem
    obtain ⟨piece, hpiece, rfl⟩ := List.mem_map.mp hr
    exact ⟨item.id, item, Table.get?_of_mem hmem, hactive, piece, hpiece, rfl⟩
  · rintro ⟨id, item, hitem, hactive, piece, hpiece, rfl⟩
    refine List.mem_flatMap.mpr ⟨item, ?_, List.mem_map.mpr ⟨piece, hpiece, rfl⟩⟩
    exact List.mem_filter.mpr ⟨Table.mem_of_get? hitem, hactive⟩

/-! ## Snapshots -/

theorem length_chunksFrom (content : Str) : ∀ (budget start : ℕ),
    (chunksFrom content budget start).length ≤ budget
  | 0, _ => le_rfl
  | budget + 1, start => by
    rw [chunksFrom]
    split
    · rw [List.length_cons]
      split
      · exact Nat.le_add_left _ _
      · exact Nat.succ_le_succ (length_chunksFrom content budget _)
    · exact Nat.zero_le _

theorem mem_pendingOf {rows : List Chunk} {item : Item} {piece : Item × ℕ × Str}
    (h : piece ∈ pendingOf rows item) : ∃ source ∈ sourceChunks rows item, ∃ sub < maxChunksPerItem,
      piece.2.1 = source.1 * maxChunksPerItem + sub ∧
        (chunks item.title source.2)[sub]? = some piece.2.2 := by
  obtain ⟨source, hsource, hpiece⟩ := List.mem_flatMap.mp h
  obtain ⟨⟨text, sub⟩, hsub, rfl⟩ := List.mem_map.mp hpiece
  have hget := List.mem_zipIdx_iff_getElem?.mp hsub
  refine ⟨source, hsource, sub, ?_, rfl, hget⟩
  exact (List.getElem?_eq_some_iff.mp hget).1.trans_le (length_chunksFrom _ _ _)

theorem sourceChunks_inj {rows : List Chunk} {item : Item}
    (hrows : ∀ c ∈ rows, ∀ c' ∈ rows, c.key = c'.key → c = c') {a b : ℕ × Str}
    (ha : a ∈ sourceChunks rows item) (hb : b ∈ sourceChunks rows item) (h : a.1 = b.1) : a = b := by
  unfold sourceChunks at ha hb
  dsimp only at ha hb
  split at ha
  · rename_i hnil
    rw [if_pos hnil] at hb
    rw [List.mem_singleton.mp ha, List.mem_singleton.mp hb]
  · rename_i hnil
    rw [if_neg hnil] at hb
    obtain ⟨c, hc, rfl⟩ := List.mem_map.mp ha
    obtain ⟨c', hc', rfl⟩ := List.mem_map.mp hb
    rw [List.mem_insertionSort, List.mem_filter, decide_eq_true_eq] at hc hc'
    rw [hrows c hc.1 c' hc'.1 (Prod.ext (hc.2.trans hc'.2.symm) h)]

/-- The pieces of an item have different ordinals. -/
theorem pendingOf_inj {rows : List Chunk} {item : Item}
    (hrows : ∀ c ∈ rows, ∀ c' ∈ rows, c.key = c'.key → c = c') {p q : Item × ℕ × Str}
    (hp : p ∈ pendingOf rows item) (hq : q ∈ pendingOf rows item) (h : p.2.1 = q.2.1) : p = q := by
  obtain ⟨a, ha, i, hi, hpi, hptext⟩ := mem_pendingOf hp
  obtain ⟨b, hb, j, hj, hqj, hqtext⟩ := mem_pendingOf hq
  unfold maxChunksPerItem at hi hj hpi hqj
  obtain rfl : a = b := sourceChunks_inj hrows ha hb (by omega)
  obtain rfl : i = j := by omega
  have htext : p.2.2 = q.2.2 := Option.some.inj (hptext.symm.trans hqtext)
  exact Prod.ext ((fst_of_mem_pendingOf hp).trans (fst_of_mem_pendingOf hq).symm)
    (Prod.ext h htext)

section Snapshot

variable (store : Store) (before maxChanges : ℕ)

theorem mem_itemIds_takeSnapshot (id : Str) :
    id ∈ (takeSnapshot store before maxChanges).itemIds ↔
      id ∈ ((store.changeLog.map Change.itemId).take
        (takeSnapshot store before maxChanges).sequence).drop before := by
  show id ∈ (((store.changeLog.drop before).take maxChanges).map Change.itemId).eraseDups ↔
    id ∈ ((store.changeLog.map Change.itemId).take
      (before + ((store.changeLog.drop before).take maxChanges).length)).drop before
  rw [List.mem_eraseDups, List.drop_take, ← List.map_drop, Nat.add_sub_cancel_left,
    List.length_take, List.map_take, ← List.length_map Change.itemId, List.take_eq_take_min]

theorem distinct_takeSnapshot : (takeSnapshot store before maxChanges).Distinct := by
  intro p hp q hq h
  obtain ⟨item, hitem, hp⟩ := List.mem_flatMap.mp hp
  obtain ⟨item', hitem', hq⟩ := List.mem_flatMap.mp hq
  obtain ⟨hid, hordinal⟩ := chunkId_inj h
  rw [fst_of_mem_pendingOf hp, fst_of_mem_pendingOf hq] at hid
  obtain rfl : item = item' :=
    Table.eq_of_key_eq (List.mem_filter.mp hitem).1 (List.mem_filter.mp hitem').1 hid
  refine pendingOf_inj (fun c hc c' hc' hkey => ?_) hp hq hordinal
  exact Table.eq_of_key_eq (List.mem_filter.mp hc).1 (List.mem_filter.mp hc').1 hkey

/-- The snapshot has the records of the authority for the items of its batch. -/
theorem records_takeSnapshot {id : Str} (hid : id ∈ (takeSnapshot store before maxChanges).itemIds) :
    (takeSnapshot store before maxChanges).records id = store.records id := by
  have hfilter : ∀ {α : Type} (key : α → Str) (rows : List α),
      ((rows.filter fun row => key row ∈ (takeSnapshot store before maxChanges).itemIds).filter
        fun row => key row = id) = rows.filter fun row => key row = id := by
    intro α key rows
    rw [List.filter_filter]
    refine List.filter_congr fun row _ => ?_
    by_cases hrow : key row = id
    · simp [hrow, hid]
    · simp [hrow]
  have hchunks : ((takeSnapshot store before maxChanges).chunkRows.filter fun row => row.itemId = id) =
      store.chunks.rows.filter fun row => row.itemId = id := hfilter Chunk.itemId _
  have hbuckets : ((takeSnapshot store before maxChanges).bucketRows.filter fun row =>
      row.itemId = id) = store.bucketItems.rows.filter fun row => row.itemId = id :=
    hfilter BucketItem.itemId _
  ext r
  constructor
  · rintro ⟨piece, hpiece, rfl, rfl⟩
    obtain ⟨item, hitem, hpiece⟩ := List.mem_flatMap.mp hpiece
    obtain ⟨hmem, hactive⟩ := List.mem_filter.mp hitem
    rw [Bool.and_eq_true] at hactive
    obtain rfl := fst_of_mem_pendingOf hpiece
    refine ⟨piece.1, Table.get?_of_mem hmem, hactive.2, piece, ?_, ?_⟩
    · rwa [pendingOf_congr hchunks] at hpiece
    · exact vectorRecord_congr hbuckets []
  · rintro ⟨item, hitem, hactive, piece, hpiece, rfl⟩
    obtain rfl : item.id = id := Table.key_of_get? hitem
    obtain rfl := fst_of_mem_pendingOf hpiece
    have hmem : piece.1 ∈ (takeSnapshot store before maxChanges).activeRows := by
      refine List.mem_filter.mpr ⟨Table.mem_of_get? hitem, ?_⟩
      rw [hactive, Bool.and_true]
      exact decide_eq_true hid
    refine ⟨piece, List.mem_flatMap.mpr ⟨piece.1, hmem, ?_⟩, rfl, ?_⟩
    · rwa [← pendingOf_congr hchunks] at hpiece
    · exact (vectorRecord_congr hbuckets []).symm

end Snapshot

/-! ## The invariant -/

/-- The system as a replica: the keys are the items, their values the sets of records. -/
def System.replica (profile : Profile) (system : System) : ChangeLog.Replica Str (Set VectorRecord) where
  authority := system.store.records
  log := system.store.changeLog.map Change.itemId
  index := indexed system.table
  watermark := system.watermark profile
  flight := system.flight.map fun snapshot => ⟨snapshot.sequence, snapshot.records⟩

/-- A sync under way has a batch of the log, in a state of its generation. -/
structure InFlight (profile : Profile) (system : System) (snapshot : Snapshot) : Prop where
  durable : profile.isDurable = true →
    ∃ state, system.state = some state ∧ state.generation = profile.generation
  batch : ∀ id, id ∈ snapshot.itemIds ↔ id ∈ (system.replica profile).batch snapshot.sequence
  active : ∀ item ∈ snapshot.activeRows, item.id ∈ snapshot.itemIds
  distinct : snapshot.Distinct

/-- The replica is sound, and every record is keyed. -/
structure Fits (profile : Profile) (system : System) : Prop where
  keyed : ∀ row ∈ system.table.records, row.Keyed
  flight : ∀ snapshot, system.flight = some snapshot → InFlight profile system snapshot
  sound : ChangeLog.Sound ∅ (system.replica profile)

section Steps

variable {setup : Setup} {system : System}

theorem fits_empty (profile : Profile) : Fits profile .empty := by
  have hwatermark : System.empty.watermark profile = 0 := by
    unfold System.watermark
    split <;> rfl
  refine ⟨fun row hrow => absurd hrow List.not_mem_nil,
    fun snapshot h => absurd h.symm (Option.some_ne_none _), ?_⟩
  have hrecords : ∀ id, System.empty.store.records id = ∅ := fun id =>
    records_of_inactive fun item h => absurd h.symm (Option.some_ne_none item)
  refine ⟨fun id _ => ?_, ?_, fun id _ => hrecords id, fun f h => ?_⟩
  · refine Eq.trans ?_ (hrecords id).symm
    rw [Set.eq_empty_iff_forall_notMem]
    rintro r ⟨row, hrow, -⟩
    exact absurd hrow List.not_mem_nil
  · exact hwatermark.le
  · exact absurd h.symm (Option.some_ne_none f)

/-- **Every operation logs what it changes**, or finds it pending. -/
theorem logs_apply (op : StoreOp) (h : Harmless setup system (.store op)) :
    Logs (system.pending setup.profile) system.store (op.apply setup.bucketIds system.store) := by
  cases op with
  | createTextItem now principal new => exact wp_final.mp (logs_createTextItem now principal new)
  | updateTextItem now principal itemId revision title text app =>
    exact wp_final.mp (logs_updateTextItem now principal itemId revision title text app)
  | deleteItem now principal itemId revision =>
    exact wp_final.mp (logs_deleteItem now principal itemId revision)
  | ensureSystemBuckets principal =>
    exact wp_final.mp (logs_ensureSystemBuckets setup.bucketIds principal h)
  | createBucket principal bucketId name scope isImported =>
    exact wp_final.mp (logs_createBucket principal bucketId name scope isImported)
  | deleteBucket principal bucketId => exact wp_final.mp (logs_deleteBucket principal bucketId h)
  | addItemToBucket principal bucketId itemId =>
    exact wp_final.mp (logs_addItemToBucket principal bucketId itemId)
  | removeItemFromBucket principal bucketId itemId =>
    exact wp_final.mp (logs_removeItemFromBucket principal bucketId itemId)

theorem reach_replica (profile : Profile) (system : System) :
    (system.replica profile).reach = system.reach profile := by
  unfold ChangeLog.Replica.reach System.reach System.replica
  cases system.flight <;> rfl

variable {s : System} {result : IndexSyncResult} {store : Store} {profile : Profile} {maxChanges : ℕ}
  {event : Event}

theorem fits_store (hfits : Fits setup.profile system)
    (hlogs : Logs (system.pending setup.profile) system.store store) :
    Fits setup.profile { system with store := store } := by
  obtain ⟨added, hadded, hchanged⟩ := hlogs
  have hreplica : System.replica setup.profile { system with store := store } =
      { system.replica setup.profile with
        authority := store.records
        log := (system.replica setup.profile).log ++ added.map Change.itemId } := by
    unfold System.replica
    rw [hadded, List.map_append]
    rfl
  refine ⟨hfits.keyed, fun snapshot hflight => ?_, ?_⟩
  · have hin := hfits.flight snapshot hflight
    have hbound : snapshot.sequence ≤ (system.replica setup.profile).log.length := by
      refine (hfits.sound.flight ⟨snapshot.sequence, snapshot.records⟩ ?_).2.1
      show system.flight.map _ = _
      rw [show system.flight = some snapshot from hflight]
      rfl
    refine ⟨hin.durable, fun id => ?_, hin.active, hin.distinct⟩
    rw [hin.batch, hreplica]
    unfold ChangeLog.Replica.batch
    rw [List.take_append_of_le_length hbound]
  · rw [hreplica]
    refine hfits.sound.step (.write _ _ _ fun id => ?_)
    rcases hchanged id with hid | hid | hid
    · exact Or.inl hid
    · exact Or.inr (Or.inl hid)
    · refine Or.inr (Or.inr ?_)
      rw [reach_replica]
      unfold System.pending at hid
      rwa [List.map_drop] at hid

theorem watermark_prepared (profile : Profile) (target : ℕ) (system : System)
    (hdurable : profile.isDurable = true) :
    (prepareState profile target system.state).generation = profile.generation ∧
      (prepareState profile target system.state).sequence = system.watermark profile := by
  unfold System.watermark
  rw [if_pos hdurable]
  cases hstate : system.state with
  | none => exact ⟨rfl, rfl⟩
  | some state =>
    unfold prepareState
    by_cases hgeneration : state.generation = profile.generation
    · simp [hgeneration, Option.filter]
    · simp [hgeneration, Option.filter]

theorem watermark_of_state {n : ℕ} (hdurable : profile.isDurable = true)
    (hstate : ∃ state, system.state = some state ∧ state.generation = profile.generation ∧
      state.sequence = n) : system.watermark profile = n := by
  obtain ⟨state, hstate, hgeneration, rfl⟩ := hstate
  unfold System.watermark
  rw [if_pos hdurable, hstate]
  simp [hgeneration, Option.filter]

theorem watermark_of_memory (hdurable : ¬ profile.isDurable = true) (system : System) :
    system.watermark profile = system.memory := by
  unfold System.watermark
  rw [if_neg hdurable]

/-- A sync that begins leaves the watermark. -/
theorem watermark_syncStart (profile : Profile) (maxChanges : ℕ) (system : System) :
    (syncStart profile maxChanges system).1.watermark profile = system.watermark profile := by
  by_cases hdurable : profile.isDurable = true
  · obtain ⟨hgeneration, hsequence⟩ :=
      watermark_prepared profile system.store.changeLog.length system hdurable
    unfold syncStart
    dsimp only
    rw [if_pos hdurable]
    split
    · exact watermark_of_state hdurable ⟨_, rfl, hgeneration, rfl⟩
    · exact watermark_of_state hdurable ⟨_, rfl, hgeneration, hsequence⟩
  · rw [watermark_of_memory hdurable, watermark_of_memory hdurable]
    unfold syncStart
    dsimp only
    split
    · exact watermark_of_memory hdurable system
    · rfl

theorem fits_syncStart (hfits : Fits setup.profile system) (hidle : system.flight = none)
    (maxChanges : ℕ) : Fits setup.profile (syncStart setup.profile maxChanges system).1 := by
  have hwatermark := watermark_syncStart setup.profile maxChanges system
  unfold syncStart at hwatermark ⊢
  dsimp only at hwatermark ⊢
  split
  · rename_i hend
    rw [if_pos hend] at hwatermark
    refine ⟨hfits.keyed, fun snapshot h => absurd (h.symm.trans hidle) (Option.some_ne_none _), ?_⟩
    have hreplica : ∀ s : System, s.watermark setup.profile = system.watermark setup.profile →
        s.store = system.store → s.table = system.table → s.flight = system.flight →
        s.replica setup.profile = system.replica setup.profile := by
      intro s h₁ h₂ h₃ h₄
      unfold System.replica
      rw [h₁, h₂, h₃, h₄]
    exact (hreplica _ hwatermark rfl rfl rfl).symm ▸ hfits.sound
  · rename_i hend
    rw [if_neg hend] at hwatermark
    generalize hsnapshot : takeSnapshot system.store (system.watermark setup.profile) maxChanges =
      snapshot at hwatermark ⊢
    have hitems : ∀ id, id ∈ snapshot.itemIds ↔
        id ∈ (system.replica setup.profile).batch snapshot.sequence := by
      rw [← hsnapshot]
      exact mem_itemIds_takeSnapshot system.store (system.watermark setup.profile) maxChanges
    have hbatch : ∀ (s : System), s.watermark setup.profile = system.watermark setup.profile →
        s.store = system.store → ∀ n, (s.replica setup.profile).batch n =
          (system.replica setup.profile).batch n := by
      intro s h₁ h₂ n
      unfold ChangeLog.Replica.batch System.replica
      rw [h₁, h₂]
    refine ⟨hfits.keyed, fun other hother => ?_, ?_⟩
    · obtain rfl := Option.some.inj hother
      refine ⟨fun hdurable => ?_, fun id => ?_, fun item hitem => ?_, ?_⟩
      · refine ⟨_, by rw [if_pos hdurable], ?_⟩
        exact (watermark_prepared setup.profile _ system hdurable).1
      · rw [hbatch _ hwatermark rfl]
        exact hitems id
      · rw [← hsnapshot] at hitem ⊢
        have := (List.mem_filter.mp hitem).2
        rw [Bool.and_eq_true] at this
        exact of_decide_eq_true this.1
      · rw [← hsnapshot]
        exact distinct_takeSnapshot _ _ _
    · have hreplica : ∀ s : System, s.watermark setup.profile = system.watermark setup.profile →
          s.store = system.store → s.table = system.table → s.flight = some snapshot →
          s.replica setup.profile = { system.replica setup.profile with
            flight := some ⟨snapshot.sequence, snapshot.records⟩ } := by
        intro s h₁ h₂ h₃ h₄
        unfold System.replica
        rw [h₁, h₂, h₃, h₄]
        rfl
      rw [hreplica _ hwatermark rfl rfl rfl]
      refine hfits.sound.step (.read _ ⟨snapshot.sequence, snapshot.records⟩ ?_ ?_ fun id hid => ?_)
      · rw [← hsnapshot]
        exact Nat.le_add_right _ _
      · have hbound : system.watermark setup.profile ≤ system.store.changeLog.length := by
          have := hfits.sound.bound
          rwa [show (system.replica setup.profile).log.length = system.store.changeLog.length from
            List.length_map _] at this
        rw [← hsnapshot]
        show system.watermark setup.profile + ((system.store.changeLog.drop _).take _).length ≤ _
        rw [List.length_take, List.length_drop,
          show (system.replica setup.profile).log.length = system.store.changeLog.length from
            List.length_map _]
        omega
      · have hmem := (hitems id).mpr hid
        rw [← hsnapshot] at hmem ⊢
        exact records_takeSnapshot _ _ _ hmem

/-- The work of a sync keeps to its items, and when it succeeds they have the records of
the snapshot. -/
theorem writeBatch_spec (hfits : Fits setup.profile system) {snapshot : Snapshot}
    (hflight : system.flight = some snapshot) (hleft : snapshot.NoLeftover system.table)
    (outside : Outside) :
    wp (writeBatch setup.profile.dimension outside snapshot)
      (fun _ w => Confined snapshot.itemIds system.table w ∧
        ∀ id ∈ snapshot.itemIds, indexed w.table id = snapshot.records id)
      (fun _ w => Confined snapshot.itemIds system.table w ∧ True) ⟨system.table, [], 0, 0, 0⟩ := by
  obtain ⟨-, -, hactive, hdistinct⟩ := hfits.flight snapshot hflight
  have hstart : Confined snapshot.itemIds system.table ⟨system.table, [], 0, 0, 0⟩ :=
    ⟨hfits.keyed, fun row hrow => absurd hrow List.not_mem_nil, fun _ _ => rfl⟩
  exact wp_and (confined_writeBatch setup.profile.dimension outside hactive _ hstart)
    (written_writeBatch outside hdistinct hleft)

/-- **The work of a sync**: its items get the records of the snapshot, or something
happens to them, and to nothing else. -/
theorem fits_syncWork (hfits : Fits setup.profile system) {snapshot : Snapshot}
    (hflight : system.flight = some snapshot) (hleft : snapshot.NoLeftover system.table)
    (outside : Outside) :
    Fits setup.profile (syncWork setup.profile outside snapshot system).1 := by
  obtain ⟨hdurable, hbatch, -, -⟩ := hfits.flight snapshot hflight
  have hwork := writeBatch_spec hfits hflight hleft outside
  have hreplica : (system.replica setup.profile).flight =
      some ⟨snapshot.sequence, snapshot.records⟩ := by
    show system.flight.map _ = _
    rw [hflight]
    rfl
  have hother : ∀ {w : Work}, Confined snapshot.itemIds system.table w →
      ∀ id, id ∉ (system.replica setup.profile).batch snapshot.sequence →
        indexed w.table id = indexed system.table id :=
    fun hw id hid => hw.others id fun hmem => hid ((hbatch id).mp hmem)
  unfold syncWork
  cases hrun : (writeBatch setup.profile.dimension outside snapshot).run
    ⟨system.table, [], 0, 0, 0⟩ with
  | ok _ work =>
    rw [wp_of_ok hrun] at hwork
    dsimp only
    refine ⟨hwork.1.keyed, fun other h => absurd h.symm (Option.some_ne_none _), ?_⟩
    have hfinish : System.replica setup.profile { system with
        table := work.table, memory := snapshot.sequence
        state := if setup.profile.isDurable then system.state.map (finishState snapshot work.indexed)
          else system.state
        flight := none } = { system.replica setup.profile with
          index := indexed work.table, watermark := snapshot.sequence, flight := none } := by
      have hwatermark : System.watermark setup.profile { system with
          table := work.table, memory := snapshot.sequence
          state := if setup.profile.isDurable then system.state.map (finishState snapshot work.indexed)
            else system.state
          flight := none } = snapshot.sequence := by
        by_cases hd : setup.profile.isDurable = true
        · obtain ⟨state, hstate, hgeneration⟩ := hdurable hd
          rw [if_pos hd, hstate]
          exact watermark_of_state hd ⟨_, rfl, hgeneration, rfl⟩
        · exact watermark_of_memory hd _
      unfold System.replica
      rw [hwatermark]
      rfl
    rw [hfinish]
    refine hfits.sound.step (.finish _ ⟨snapshot.sequence, snapshot.records⟩ _ hreplica ?_
      (hother hwork.1))
    exact fun id hid => hwork.2 id ((hbatch id).mpr hid)
  | error error work =>
    rw [wp_of_error hrun] at hwork
    dsimp only
    refine ⟨hwork.1.keyed, fun other h => absurd h.symm (Option.some_ne_none _), ?_⟩
    have hfail : System.replica setup.profile { system with
        table := work.table
        state := if setup.profile.isDurable then system.state.map (failState error) else system.state
        flight := none } = { system.replica setup.profile with
          index := indexed work.table, flight := none } := by
      have hwatermark : System.watermark setup.profile { system with
          table := work.table
          state := if setup.profile.isDurable then system.state.map (failState error)
            else system.state
          flight := none } = system.watermark setup.profile := by
        by_cases hd : setup.profile.isDurable = true
        · obtain ⟨state, hstate, hgeneration⟩ := hdurable hd
          rw [if_pos hd, hstate, watermark_of_state hd ⟨state, hstate, hgeneration, rfl⟩]
          exact watermark_of_state hd ⟨_, rfl, hgeneration, rfl⟩
        · rw [watermark_of_memory hd, watermark_of_memory hd]
      unfold System.replica
      rw [hwatermark]
      rfl
    rw [hfail]
    exact hfits.sound.step (.fail _ ⟨snapshot.sequence, snapshot.records⟩ _ hreplica
      (hother hwork.1))

theorem fits_reset (hfits : Fits setup.profile system) (hidle : system.flight = none) :
    Fits setup.profile (Knowledge.reset setup.profile system) := by
  refine ⟨fun row hrow => absurd hrow List.not_mem_nil,
    fun snapshot h => absurd (h.symm.trans hidle) (Option.some_ne_none _), ?_⟩
  have hreset : (Knowledge.reset setup.profile system).replica setup.profile =
      { system.replica setup.profile with index := fun _ => ∅, watermark := 0 } := by
    have hwatermark : (Knowledge.reset setup.profile system).watermark setup.profile = 0 := by
      unfold Knowledge.reset
      by_cases hd : setup.profile.isDurable = true
      · rw [if_pos hd]
        exact watermark_of_state hd ⟨_, rfl, rfl, rfl⟩
      · exact watermark_of_memory hd _
    have hindexed : indexed (none : VectorTable) = fun _ => ∅ := by
      funext id
      rw [Set.eq_empty_iff_forall_notMem]
      rintro r ⟨row, hrow, -⟩
      exact absurd hrow List.not_mem_nil
    unfold System.replica
    rw [hwatermark, ← hindexed]
    rfl
  rw [hreset]
  refine hfits.sound.step (.reset _ ?_)
  show system.flight.map _ = none
  rw [hidle]
  rfl

/-- **Every harmless step keeps the invariant.** -/
theorem fits_after (hfits : Fits setup.profile system) (event : Event)
    (hharmless : Harmless setup system event) :
    Fits setup.profile (system.after setup event).1 := by
  cases event with
  | store op => exact fits_store hfits (logs_apply op hharmless)
  | syncStart maxChanges =>
    unfold System.after
    dsimp only
    split
    · exact hfits
    · rename_i hguard
      refine fits_syncStart hfits ?_ maxChanges
      simp only [Bool.or_eq_true, not_or] at hguard
      exact Option.not_isSome_iff_eq_none.mp hguard.1.1
  | syncWork outside =>
    unfold System.after
    dsimp only
    split
    · exact hfits
    · rename_i snapshot hflight
      exact fits_syncWork hfits hflight (hharmless snapshot hflight) outside
  | reset =>
    unfold System.after
    dsimp only
    split
    · exact hfits
    · rename_i hguard
      exact fits_reset hfits (Option.not_isSome_iff_eq_none.mp hguard)

/-- **The invariant holds throughout a history.** -/
theorem fits_run {events : List Event} (hfits : Fits setup.profile system)
    (h : HarmlessThroughout setup system events) : Fits setup.profile (system.run setup events) := by
  induction events generalizing system with
  | nil => exact hfits
  | cons event events ih => exact ih (fits_after hfits event h.1) h.2

/-! ## The end of the log -/

/-- At the end of the log, nothing but the current records is in the table. -/
theorem Fits.converged (hfits : Fits profile system)
    (hend : system.watermark profile = system.store.changeLog.length) : system.Converged := by
  have hindex : indexed system.table = system.store.records := by
    refine hfits.sound.index_eq_authority ?_
    show _ = (system.store.changeLog.map Change.itemId).length
    rw [List.length_map]
    exact hend
  unfold System.Converged
  ext r
  rw [Set.mem_ofPred_eq, Set.mem_ofPred_eq, mem_vectorRecords]
  constructor
  · rintro ⟨row, hrow, hbare⟩
    refine ⟨row.itemId, ?_⟩
    rw [← hindex]
    exact ⟨row, hrow, rfl, hbare⟩
  · rintro ⟨id, hr⟩
    rw [← hindex] at hr
    obtain ⟨row, hrow, -, hbare⟩ := hr
    exact ⟨row, hrow, hbare⟩

/-- A sync that returns at once returns how far the log is read. -/
theorem returned_syncStart (h : system.after setup (.syncStart maxChanges) = (s, some result)) :
    s.watermark setup.profile = result.sequence := by
  unfold System.after at h
  dsimp only at h
  split at h
  · exact absurd (Prod.mk.inj h).2.symm (Option.some_ne_none _)
  · have hwatermark := watermark_syncStart setup.profile maxChanges system
    rw [congrArg Prod.fst h] at hwatermark
    rw [hwatermark]
    have hresult := congrArg Prod.snd h
    unfold syncStart at hresult
    dsimp only at hresult
    split at hresult
    · rw [← Option.some.inj hresult]
    · exact absurd hresult.symm (Option.some_ne_none _)

theorem returned_syncWork (hfits : Fits setup.profile system) {outside : Outside}
    (h : system.after setup (.syncWork outside) = (s, some result)) :
    s.watermark setup.profile = result.sequence := by
  unfold System.after at h
  dsimp only at h
  split at h
  · exact absurd (Prod.mk.inj h).2.symm (Option.some_ne_none _)
  · rename_i snapshot hflight
    obtain ⟨hdurable, -, -, -⟩ := hfits.flight snapshot hflight
    unfold syncWork at h
    split at h
    · obtain ⟨rfl, hresult⟩ := Prod.mk.inj h
      rw [← Option.some.inj hresult]
      by_cases hd : setup.profile.isDurable = true
      · obtain ⟨state, hstate, hgeneration⟩ := hdurable hd
        rw [if_pos hd, hstate]
        exact watermark_of_state hd ⟨_, rfl, hgeneration, rfl⟩
      · exact watermark_of_memory hd _
    · exact absurd (Prod.mk.inj h).2.symm (Option.some_ne_none _)

/-- What a sync returns is how far the log is read. -/
theorem watermark_of_returned (hfits : Fits setup.profile system)
    (h : system.after setup event = (s, some result)) :
    s.watermark setup.profile = result.sequence := by
  cases event with
  | store op => exact absurd (Prod.mk.inj h).2.symm (Option.some_ne_none _)
  | syncStart maxChanges => exact returned_syncStart h
  | syncWork outside => exact returned_syncWork hfits h
  | reset =>
    unfold System.after at h
    dsimp only at h
    split at h
    · exact absurd (Prod.mk.inj h).2.symm (Option.some_ne_none _)
    · exact absurd (Prod.mk.inj h).2.symm (Option.some_ne_none _)

/-! ## Rebuilding -/

/-- A rebuild under way: the authority stands still, and no record is out of date. -/
structure Rebuilding (profile : Profile) (store : Store) (system : System) : Prop where
  fits : Fits profile system
  idle : system.flight = none
  authority : system.store = store
  rows : ∀ id, indexed system.table id ⊆ store.records id

theorem Rebuilding.syncStart_done (h : Rebuilding setup.profile store system)
    (hs : system.after setup (.syncStart maxChanges) = (s, some result)) :
    Rebuilding setup.profile store s := by
  have hfits := fits_after h.fits (.syncStart maxChanges) trivial
  rw [congrArg Prod.fst hs] at hfits
  unfold System.after at hs
  dsimp only at hs
  split at hs
  · exact absurd (Prod.mk.inj hs).2.symm (Option.some_ne_none _)
  · unfold syncStart at hs
    dsimp only at hs
    split at hs
    · obtain ⟨rfl, -⟩ := Prod.mk.inj hs
      exact ⟨hfits, h.idle, h.authority, h.rows⟩
    · exact absurd (Prod.mk.inj hs).2.symm (Option.some_ne_none _)

/-- A sync of a rebuild finds no leftover, and its items get their present records. -/
theorem Rebuilding.sync (h : Rebuilding setup.profile store system) {t : System} {outside : Outside}
    (hs : system.after setup (.syncStart maxChanges) = (s, none))
    (ht : s.after setup (.syncWork outside) = (t, some result)) :
    Rebuilding setup.profile store t := by
  have hfits := fits_after h.fits (.syncStart maxChanges) trivial
  rw [congrArg Prod.fst hs] at hfits
  have hnone : ∀ {u : System}, u.flight = none →
      u.after setup (.syncWork outside) ≠ (t, some result) := by
    intro u hu hcontra
    unfold System.after at hcontra
    dsimp only at hcontra
    rw [hu] at hcontra
    exact absurd (Prod.mk.inj hcontra).2.symm (Option.some_ne_none _)
  unfold System.after at hs
  dsimp only at hs
  split at hs
  · obtain ⟨rfl, -⟩ := Prod.mk.inj hs
    exact absurd ht (hnone h.idle)
  unfold syncStart at hs
  dsimp only at hs
  split at hs
  · exact absurd (Prod.mk.inj hs).2.symm (Option.some_ne_none _).symm
  obtain ⟨rfl, -⟩ := Prod.mk.inj hs
  generalize hsnapshot : takeSnapshot system.store (system.watermark setup.profile) maxChanges =
    snapshot at hfits ht
  have hrecords : ∀ id ∈ snapshot.itemIds, snapshot.records id = store.records id := by
    intro id hid
    rw [← hsnapshot] at hid ⊢
    rw [records_takeSnapshot _ _ _ hid, h.authority]
  have hleft : snapshot.NoLeftover system.table := by
    intro row hrow hactive
    obtain ⟨item, hitem, hid⟩ := List.mem_map.mp hactive
    have hmem := (hfits.flight snapshot rfl).active item hitem
    have hbare : row.bare ∈ snapshot.records row.itemId := by
      rw [hrecords row.itemId (hid ▸ hmem)]
      exact h.rows row.itemId ⟨row, hrow, rfl, rfl⟩
    obtain ⟨piece, hpiece, -, hpbare⟩ := hbare
    refine ⟨piece, hpiece, ?_⟩
    rw [← hpbare]
    rfl
  have hafter := fits_after hfits (.syncWork outside) fun other hother =>
    Option.some.inj hother ▸ hleft
  rw [congrArg Prod.fst ht] at hafter
  have hwork := writeBatch_spec hfits rfl hleft outside
  unfold System.after at ht
  dsimp only at ht
  unfold syncWork at ht
  split at ht
  · rename_i work hrun
    rw [wp_of_ok hrun] at hwork
    obtain ⟨rfl, -⟩ := Prod.mk.inj ht
    refine ⟨hafter, rfl, h.authority, fun id => ?_⟩
    by_cases hid : id ∈ snapshot.itemIds
    · exact ((hwork.2 id hid).trans (hrecords id hid)).subset
    · exact (hwork.1.others id hid).subset.trans (h.rows id)
  · exact absurd (Prod.mk.inj ht).2.symm (Option.some_ne_none _)

theorem rebuilding_of_rebuilt (hfits : Fits setup.profile system) (hidle : system.flight = none)
    {t : System} (h : Rebuilt setup system t) : Rebuilding setup.profile system.store t := by
  induction h with
  | reset =>
    refine ⟨fits_reset hfits hidle, hidle, rfl, fun id r hr => ?_⟩
    obtain ⟨row, hrow, -⟩ := hr
    exact absurd hrow List.not_mem_nil
  | rest maxChanges result _ h ih => exact ih.syncStart_done h
  | sync maxChanges outside result _ hs ht ih => exact ih.sync hs ht

/-- A sync that returned holds the lock no longer. -/
theorem idle_of_returned (h : system.after setup event = (s, some result)) : s.flight = none := by
  unfold System.after at h
  split at h
  · exact absurd (Prod.mk.inj h).2.symm (Option.some_ne_none _)
  · split at h
    · exact absurd (Prod.mk.inj h).2.symm (Option.some_ne_none _)
    · rename_i hguard
      simp only [Bool.or_eq_true, not_or] at hguard
      unfold syncStart at h
      dsimp only at h
      split at h
      · obtain ⟨rfl, -⟩ := Prod.mk.inj h
        exact Option.not_isSome_iff_eq_none.mp hguard.1.1
      · exact absurd (Prod.mk.inj h).2.symm (Option.some_ne_none _)
  · split at h
    · exact absurd (Prod.mk.inj h).2.symm (Option.some_ne_none _)
    · unfold syncWork at h
      split at h
      · obtain ⟨rfl, -⟩ := Prod.mk.inj h
        rfl
      · exact absurd (Prod.mk.inj h).2.symm (Option.some_ne_none _)
  · split at h
    · exact absurd (Prod.mk.inj h).2.symm (Option.some_ne_none _)
    · exact absurd (Prod.mk.inj h).2.symm (Option.some_ne_none _)

theorem harmlessThroughout_concat {events : List Event}
    (h : HarmlessThroughout setup system (events ++ [event])) :
    HarmlessThroughout setup system events ∧ Harmless setup (system.run setup events) event := by
  induction events generalizing system with
  | nil => exact ⟨trivial, h.1⟩
  | cons first events ih =>
    obtain ⟨hevents, hlast⟩ := ih h.2
    exact ⟨⟨h.1, hevents⟩, hlast⟩

end Steps

/-- **The index converges to the authority.** In a history of harmless steps, when a sync
returns at the end of the change log, the table holds the current chunks of the active
items and nothing else, which is what a reset and syncs to the end would leave. -/
theorem index_converges {setup : Setup} {events : List Event} {event : Event} {system : System}
    {result : IndexSyncResult}
    (hharmless : HarmlessThroughout setup .empty (events ++ [event]))
    (hreturned : (System.empty.run setup events).after setup event = (system, some result))
    (hend : result.sequence = system.store.changeLog.length) :
    system.Converged ∧ ∀ rebuilt, Rebuilt setup system rebuilt →
      rebuilt.watermark setup.profile = rebuilt.store.changeLog.length →
      {r | ∃ row ∈ system.table.records, row.bare = r} =
        {r | ∃ row ∈ rebuilt.table.records, row.bare = r} := by
  obtain ⟨hevents, hlast⟩ := harmlessThroughout_concat hharmless
  have hbefore := fits_run (fits_empty setup.profile) hevents
  have hfits := fits_after hbefore event hlast
  rw [congrArg Prod.fst hreturned] at hfits
  have hconverged := hfits.converged ((watermark_of_returned hbefore hreturned).trans hend)
  refine ⟨hconverged, fun rebuilt hrebuilt hrebuiltEnd => ?_⟩
  have hrebuilding := rebuilding_of_rebuilt hfits (idle_of_returned hreturned) hrebuilt
  have hrebuiltConverged := hrebuilding.fits.converged hrebuiltEnd
  unfold System.Converged at hconverged hrebuiltConverged
  rw [hconverged, hrebuiltConverged, hrebuilding.authority]

namespace PageSample

def principal : RequestPrincipal := ⟨str "user", str "installation", .owner⟩

def setup : Setup where
  bucketIds installation owner key := installation ++ owner.getD (str "shared") ++
    match key with
    | .inbox => str "inbox"
    | .web => str "web"
    | .documents => str "documents"
    | .chats => str "chats"
    | .shared => str "shared"
  profile := ⟨str "g1", 1, true⟩

/-- Nothing fails, and every text has the same vector. -/
def outside : Outside where
  embed _ texts := .ok (texts.map fun _ => [.finite 0])
  upsert _ := .done
  delete := .done

def now : DateTime := ⟨0, DateTime.zero_inRange⟩

/-- A web page of two chunks is saved and indexed. -/
def saved : List Event := [
  .store (.ensureSystemBuckets principal),
  .store (.createTextItem now principal {
    itemId := str "kit_1", isIdempotent := false, scope := .personal, kind := .webpage
    title := str "page", text := str "one two", sourceAppId := none
    parsedChunks := [str "one", str "two"], spaceId := str "ksp_1"
    bucketId := some (str "installationuserweb") }),
  .syncStart 200]

/-- The page is refreshed with a text of one chunk. -/
def refreshed : List Event := saved ++ [
  .syncWork outside,
  .store (.updateTextItem now principal (str "kit_1") 1 (str "page") (str "one") none),
  .syncStart 200]

/-- What the sync that is under way leaves and returns. -/
def synced (events : List Event) : System × Option IndexSyncResult :=
  (System.empty.run setup events).after setup (.syncWork outside)

theorem saved_returned : (synced saved).2.isSome = true := by decide +kernel

end PageSample

open PageSample in
/-- The first sync of a page. -/
theorem index_converges_saved : (synced saved).1.Converged := by
  have hharmless : HarmlessThroughout setup .empty (saved ++ [.syncWork outside]) := by
    have hlegacy : System.empty.store.legacyItems principal = [] := rfl
    have htable : (System.empty.run setup saved).table = none := rfl
    refine ⟨fun item hitem => ?_, trivial, trivial, fun snapshot _ row hrow => ?_, trivial⟩
    · rw [hlegacy] at hitem
      exact absurd hitem List.not_mem_nil
    · exact absurd (show row ∈ VectorTable.records (System.empty.run setup saved).table from hrow)
        (by rw [htable]; exact List.not_mem_nil)
  refine (@index_converges setup saved (.syncWork outside) (synced saved).1
    ((synced saved).2.get saved_returned) hharmless ?_ ?_).1
  · exact Prod.ext rfl (Option.some_get _).symm
  · decide +kernel

open PageSample in
/-- **A chunk that is gone stays in the index**: the refreshed page has one chunk, the sync
returns at the end of the log, and the record of the second chunk is still there. -/
theorem refreshed_leftover :
    (synced refreshed).2.map IndexSyncResult.sequence =
        some (synced refreshed).1.store.changeLog.length ∧
      ¬ (synced refreshed).1.Converged := by
  have hrow : ∃ row ∈ (synced refreshed).1.table.records, row.bare ∉
      (synced refreshed).1.store.vectorRecords := by decide +kernel
  refine ⟨by decide +kernel, fun hconverged => ?_⟩
  obtain ⟨row, hmem, hnot⟩ := hrow
  unfold System.Converged at hconverged
  have hin : row.bare ∈ {r | ∃ row ∈ (synced refreshed).1.table.records, row.bare = r} :=
    ⟨row, hmem, rfl⟩
  rw [hconverged] at hin
  exact hnot hin

end AI2Apps.Knowledge
