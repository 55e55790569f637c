import AI2Apps.Knowledge.Changes
import AI2Apps.Lib.JsonRoundTrip

/-!
# What a sync writes

The work of a sync touches the records of the items in its batch and no others,
whatever fails (`confined_writeBatch`).  When it succeeds, the items of the batch
have the records of the snapshot, provided that none of them left a record behind
under an ordinal it no longer has: such a record is neither merged with nor deleted
(`written_writeBatch`).

* `chunkId_inj`: a chunk id names one item and one ordinal.
* `Confined`: the work so far has kept to the items of the batch.
* `Written`: the pieces so far are in the table or wait to be written.
-/

namespace AI2Apps.Knowledge

open Faults
open JsonText (natText)

/-! ## Chunk ids -/

theorem append_cons_inj {c : ℕ} : ∀ {a b x y : Str}, c ∉ x → c ∉ y → a ++ c :: x = b ++ c :: y →
    a = b ∧ x = y
  | [], [], _, _, _, _, h => ⟨rfl, (List.cons.inj h).2⟩
  | [], d :: b, x, y, hx, _, h => by
    obtain ⟨rfl, rfl⟩ := List.cons.inj h
    exact absurd (List.mem_append_right b List.mem_cons_self) hx
  | d :: a, [], x, y, _, hy, h => by
    obtain ⟨rfl, rfl⟩ := List.cons.inj h
    exact absurd (List.mem_append_right a List.mem_cons_self) hy
  | d :: a, e :: b, x, y, hx, hy, h => by
    obtain ⟨rfl, htail⟩ := List.cons.inj h
    obtain ⟨rfl, rfl⟩ := append_cons_inj hx hy htail
    exact ⟨rfl, rfl⟩

theorem colon_not_mem_natText (n : ℕ) : 58 ∉ natText n := by
  obtain ⟨d, ds, heq, hdigits, -⟩ := JsonText.natText_spec n
  rw [heq]
  intro h
  exact absurd (hdigits 58 h) (by decide)

/-- **A chunk id names one item and one ordinal.** -/
theorem chunkId_inj {a b : Str} {m n : ℕ} (h : a ++ 58 :: natText m = b ++ 58 :: natText n) :
    a = b ∧ m = n := by
  obtain ⟨ha, hn⟩ := append_cons_inj (colon_not_mem_natText m) (colon_not_mem_natText n) h
  refine ⟨ha, ?_⟩
  rw [← JsonText.ofDigits_natText m, hn, JsonText.ofDigits_natText]

/-- The record's chunk id is made of its item and an ordinal. -/
def VectorRecord.Keyed (record : VectorRecord) : Prop :=
  ∃ n, record.chunkId = record.itemId ++ 58 :: natText n

theorem itemId_eq_of_chunkId {r r' : VectorRecord} (h : r.Keyed) (h' : r'.Keyed)
    (hid : r.chunkId = r'.chunkId) : r.itemId = r'.itemId := by
  obtain ⟨m, hm⟩ := h
  obtain ⟨n, hn⟩ := h'
  exact (chunkId_inj (hm.symm.trans (hid.trans hn))).1

theorem keyed_vectorRecord (rows : List BucketItem) (piece : Item × ℕ × Str)
    (vector : List FloatVal) : (vectorRecord rows piece vector).Keyed := ⟨piece.2.1, rfl⟩

/-! ## Merges -/

/-- The records of an item in the table, without their vectors. -/
def indexed (table : VectorTable) (id : Str) : Set VectorRecord :=
  {r | ∃ row ∈ table.records, row.itemId = id ∧ row.bare = r}

/-- The rows with the chunk ids of the records are replaced by the records. -/
def Merged (before : VectorTable) (records : List VectorRecord) (after : VectorTable) : Prop :=
  ∀ row, row ∈ after.records ↔
    (row ∈ before.records ∧ row.chunkId ∉ records.map VectorRecord.chunkId) ∨ row ∈ records

theorem merged_writeRecords (table : VectorTable) (records : List VectorRecord) :
    Merged table records (writeRecords table records) := by
  intro row
  cases table with
  | none => simp [writeRecords, VectorTable.records]
  | some rows => simp [writeRecords, VectorTable.records, mergeInsert]

theorem merged_nil (table : VectorTable) : Merged table [] table := by
  intro row
  simp

/-- **An upsert merges its records**, or a part of them when it raises. -/
theorem upsert_spec (dimension : ℕ) (outside : Outside) (records : List VectorRecord) (w : Work) :
    wp (upsert dimension outside records)
      (fun _ w' => w'.records = w.records ∧ Merged w.table records w'.table)
      (fun _ w' => w'.records = w.records ∧ ∃ part, Merged w.table (records.filter part) w'.table)
      w := by
  unfold upsert
  rw [wp_bind, wp_get]
  have hnone : Merged w.table (records.filter fun _ => false) w.table := by
    rw [List.filter_false]
    exact merged_nil w.table
  split
  · exact ⟨rfl, _, hnone⟩
  · by_cases hrecords : records = []
    · rw [wp_only_neg (not_not.mpr hrecords), hrecords]
      exact ⟨rfl, merged_nil w.table⟩
    rw [wp_only_pos hrecords]
    unfold callUpsert
    rw [wp_bind, wp_get]
    cases outside.upsert w.upserts with
    | done => exact ⟨rfl, merged_writeRecords _ _⟩
    | raises message part =>
      dsimp only
      rw [wp_bind, wp_set]
      exact ⟨rfl, part, merged_writeRecords _ _⟩

theorem flatten_batchesFrom {α : Type} {size : ℕ} (hsize : 0 < size) : ∀ (bound : ℕ) (items : List α),
    items.length ≤ bound → (batchesFrom size bound items).flatten = items
  | 0, [], _ => rfl
  | bound + 1, [], _ => rfl
  | bound + 1, x :: items, h => by
    have hlength : ((x :: items).drop size).length ≤ bound := by
      rw [List.length_drop]
      omega
    show ((x :: items).take size :: batchesFrom size bound ((x :: items).drop size)).flatten = _
    rw [List.flatten_cons, flatten_batchesFrom hsize bound _ hlength, List.take_append_drop]

theorem flatten_batches {α : Type} {size : ℕ} (hsize : 0 < size) (items : List α) :
    (batches size items).flatten = items :=
  flatten_batchesFrom hsize items.length items le_rfl

/-! ## Only the items of the batch -/

/-- The work has kept to the items of the batch. -/
structure Confined (itemIds : List Str) (table : VectorTable) (w : Work) : Prop where
  keyed : ∀ row ∈ w.table.records, row.Keyed
  waiting : ∀ row ∈ w.records, row.Keyed ∧ row.itemId ∈ itemIds
  others : ∀ id, id ∉ itemIds → indexed w.table id = indexed table id

section Confined

variable {itemIds : List Str} {table : VectorTable} {w w' : Work}

/-- Rows of other items stay. -/
theorem Confined.of_rows (h : Confined itemIds table w) (hrecords : w'.records = w.records)
    (hkeyed : ∀ row ∈ w'.table.records, row.Keyed)
    (hrows : ∀ row, row.itemId ∉ itemIds → (row ∈ w'.table.records ↔ row ∈ w.table.records)) :
    Confined itemIds table w' := by
  refine ⟨hkeyed, by rw [hrecords]; exact h.waiting, fun id hid => ?_⟩
  rw [← h.others id hid]
  ext r
  constructor
  · rintro ⟨row, hrow, rfl, hbare⟩
    exact ⟨row, (hrows row hid).mp hrow, rfl, hbare⟩
  · rintro ⟨row, hrow, rfl, hbare⟩
    exact ⟨row, (hrows row hid).mpr hrow, rfl, hbare⟩

theorem Confined.merged (h : Confined itemIds table w) {records : List VectorRecord}
    (hrecords : ∀ row ∈ records, row.Keyed ∧ row.itemId ∈ itemIds)
    (hwaiting : w'.records = w.records) (hmerged : Merged w.table records w'.table) :
    Confined itemIds table w' := by
  refine h.of_rows hwaiting (fun row hrow => ?_) fun row hid => ?_
  · rcases (hmerged row).mp hrow with hrow | hrow
    · exact h.keyed row hrow.1
    · exact (hrecords row hrow).1
  · rw [hmerged row]
    constructor
    · rintro (hrow | hrow)
      · exact hrow.1
      · exact absurd (hrecords row hrow).2 hid
    · intro hrow
      refine Or.inl ⟨hrow, fun hmem => hid ?_⟩
      obtain ⟨record, hrecord, heq⟩ := List.mem_map.mp hmem
      rw [← itemId_eq_of_chunkId (hrecords record hrecord).1 (h.keyed row hrow) heq]
      exact (hrecords record hrecord).2

theorem confined_upsert {dimension : ℕ} {outside : Outside} {records : List VectorRecord}
    (hrecords : ∀ row ∈ records, row.Keyed ∧ row.itemId ∈ itemIds) :
    Preserves (Confined itemIds table) (upsert dimension outside records) := by
  intro w hw
  refine wp_mono (upsert_spec dimension outside records w) (fun _ w' hw' => ?_) fun _ w' hw' => ?_
  · exact hw.merged hrecords hw'.1 hw'.2
  · obtain ⟨hwaiting, part, hmerged⟩ := hw'
    exact hw.merged (fun row hrow => hrecords row (List.mem_of_mem_filter hrow)) hwaiting hmerged

theorem confined_deleteItems (outside : Outside) {deleted : List Str}
    (hdeleted : ∀ id ∈ deleted, id ∈ itemIds) :
    Preserves (Confined itemIds table) (deleteItems outside deleted) := by
  intro w hw
  unfold deleteItems
  rw [wp_bind, wp_get]
  refine Preserves.only _ (fun w hw => ?_) w hw
  -- a row that is dropped belongs to a deleted item
  have hfilter : ∀ (kept : VectorRecord → Bool), (∀ row, row.itemId ∉ itemIds → kept row = true) →
      Confined itemIds table { w with table := w.table.map (List.filter kept) } := by
    intro kept hkept
    refine hw.of_rows rfl (fun row hrow => ?_) fun row hid => ?_
    all_goals
      cases htable : w.table with
      | none => simp [htable, VectorTable.records] at *
      | some rows => ?_
    · have hmem : row ∈ rows := by
        rw [htable] at hrow
        exact List.mem_of_mem_filter hrow
      exact hw.keyed row (by rw [htable]; exact hmem)
    · show row ∈ rows.filter kept ↔ row ∈ rows
      rw [List.mem_filter, hkept row hid, and_iff_left rfl]
  unfold callDelete
  rw [wp_bind, wp_get]
  cases outside.delete with
  | done => exact hfilter _ fun row hid => decide_eq_true fun h => hid (hdeleted _ h)
  | raises message part =>
    dsimp only
    rw [wp_bind, wp_set]
    refine hfilter _ fun row hid => ?_
    rw [decide_eq_false fun h => hid (hdeleted _ h)]
    rfl

theorem confined_addRecord (dimension : ℕ) (outside : Outside) {record : VectorRecord}
    (hrecord : record.Keyed ∧ record.itemId ∈ itemIds) :
    Preserves (Confined itemIds table) (addRecord dimension outside record) := by
  intro w hw
  unfold addRecord
  rw [wp_bind, wp_modify, wp_bind, wp_get]
  have hadded : Confined itemIds table { w with records := w.records ++ [record] } := by
    refine ⟨hw.keyed, fun row hrow => ?_, hw.others⟩
    rcases List.mem_append.mp hrow with hrow | hrow
    · exact hw.waiting row hrow
    · rw [List.mem_singleton.mp hrow]
      exact hrecord
  refine Preserves.ite _ (fun _ => ?_) (fun _ => .pure ()) _ hadded
  refine .bind (confined_upsert hadded.waiting) fun _ => .modify fun v hv => ?_
  exact ⟨hv.keyed, fun row hrow => absurd hrow List.not_mem_nil, hv.others⟩

theorem confined_embedBatch (dimension : ℕ) (outside : Outside) (bucketRows : List BucketItem)
    {batch : List (Item × ℕ × Str)} (hbatch : ∀ piece ∈ batch, piece.1.id ∈ itemIds) :
    Preserves (Confined itemIds table) (embedBatch dimension outside bucketRows batch) := by
  intro w hw
  unfold embedBatch
  rw [wp_bind, wp_get, wp_bind, wp_set]
  have hcounted : Confined itemIds table { w with embeds := w.embeds + 1 } :=
    ⟨hw.keyed, hw.waiting, hw.others⟩
  split
  · exact hcounted
  refine Preserves.ite _ (fun _ => .throw _) (fun _ => ?_) _ hcounted
  refine .forM_mem fun entry hentry => confined_addRecord dimension outside ?_
  exact ⟨keyed_vectorRecord _ _ _, hbatch _ (List.of_mem_zip hentry).1⟩

/-- **The work of a sync keeps to the items of its batch**, whatever fails. -/
theorem confined_writeBatch (dimension : ℕ) (outside : Outside) {snapshot : Snapshot}
    (hactive : ∀ item ∈ snapshot.activeRows, item.id ∈ snapshot.itemIds) :
    Preserves (Confined snapshot.itemIds table) (writeBatch dimension outside snapshot) := by
  have hpending : ∀ piece ∈ snapshot.pending, piece.1.id ∈ snapshot.itemIds := by
    intro piece hpiece
    obtain ⟨item, hitem, hpiece⟩ := List.mem_flatMap.mp hpiece
    rw [fst_of_mem_pendingOf hpiece]
    exact hactive item hitem
  refine .bind (confined_deleteItems outside fun id hid => (List.mem_filter.mp hid).1) fun _ => ?_
  refine .bind (.forM_mem fun batch hbatch => ?_) fun _ => ?_
  · refine confined_embedBatch dimension outside _ fun piece hpiece => hpending piece ?_
    rw [← flatten_batches (by decide : 0 < 32) snapshot.pending]
    exact List.mem_flatten.mpr ⟨batch, hbatch, hpiece⟩
  · intro w hw
    rw [wp_bind, wp_get]
    refine Preserves.ite _ (fun _ => .pure ()) (fun _ => ?_) w hw
    refine .bind (confined_upsert hw.waiting) fun _ => .modify fun v hv => ?_
    exact ⟨hv.keyed, hv.waiting, hv.others⟩

end Confined

/-! ## The items of the batch have the records of the snapshot -/

namespace Snapshot

/-- The record of a piece, without its vector. -/
def record (snapshot : Snapshot) (piece : Item × ℕ × Str) : VectorRecord :=
  vectorRecord snapshot.bucketRows piece []

/-- The records of an item at the time of the snapshot. -/
def records (snapshot : Snapshot) (id : Str) : Set VectorRecord :=
  {r | ∃ piece ∈ snapshot.pending, piece.1.id = id ∧ r = snapshot.record piece}

/-- No row of an active item is left behind under a chunk id it no longer has. -/
def NoLeftover (snapshot : Snapshot) (table : VectorTable) : Prop :=
  ∀ row ∈ table.records, row.itemId ∈ snapshot.activeRows.map Item.id →
    ∃ piece ∈ snapshot.pending, row.chunkId = (snapshot.record piece).chunkId

/-- Two pieces do not share a chunk id. -/
def Distinct (snapshot : Snapshot) : Prop :=
  ∀ p ∈ snapshot.pending, ∀ q ∈ snapshot.pending,
    (snapshot.record p).chunkId = (snapshot.record q).chunkId → p = q

end Snapshot

/-- The records are in the table, and nothing else of the items of the batch is but
records that are still to come. -/
structure Flushed (snapshot : Snapshot) (flushed : List VectorRecord) (table : VectorTable) :
    Prop where
  present : ∀ r ∈ flushed, ∃ row ∈ table.records, row.bare = r
  current : ∀ row ∈ table.records, row.itemId ∈ snapshot.itemIds → ∃ piece ∈ snapshot.pending,
    row.chunkId = (snapshot.record piece).chunkId ∧
      (snapshot.record piece ∈ flushed → row.bare = snapshot.record piece)

/-- The records of the pieces so far are in the table or wait. -/
def Written (snapshot : Snapshot) (done : List (Item × ℕ × Str)) (w : Work) : Prop :=
  ∃ flushed, done.map snapshot.record = flushed ++ w.records.map VectorRecord.bare ∧
    Flushed snapshot flushed w.table

section Written

variable {snapshot : Snapshot} {table : VectorTable}

/-- **Merging the waiting records keeps the others.** -/
theorem Flushed.merge {flushed records : List VectorRecord} {after : VectorTable}
    (h : Flushed snapshot flushed table) (hdistinct : snapshot.Distinct)
    (hpieces : ∀ r ∈ flushed ++ records.map VectorRecord.bare,
      ∃ piece ∈ snapshot.pending, r = snapshot.record piece)
    (hmerged : Merged table records after) :
    Flushed snapshot (flushed ++ records.map VectorRecord.bare) after := by
  refine ⟨fun r hr => ?_, fun row hrow hid => ?_⟩
  · rcases List.mem_append.mp hr with hr' | hr'
    · obtain ⟨row, hrow, rfl⟩ := h.present r hr'
      by_cases hmem : row.chunkId ∈ records.map VectorRecord.chunkId
      · obtain ⟨row', hrow', hchunk⟩ := List.mem_map.mp hmem
        obtain ⟨p, hp, hbare⟩ := hpieces _ hr
        obtain ⟨q, hq, hbare'⟩ := hpieces row'.bare
          (List.mem_append_right _ (List.mem_map.mpr ⟨row', hrow', rfl⟩))
        refine ⟨row', (hmerged row').mpr (Or.inr hrow'), ?_⟩
        have hpq : p = q := by
          refine hdistinct p hp q hq ?_
          rw [← hbare, ← hbare']
          exact hchunk.symm
        rw [hbare', hbare, hpq]
      · exact ⟨row, (hmerged row).mpr (Or.inl ⟨hrow, hmem⟩), rfl⟩
    · obtain ⟨row, hrow, rfl⟩ := List.mem_map.mp hr'
      exact ⟨row, (hmerged row).mpr (Or.inr hrow), rfl⟩
  · rcases (hmerged row).mp hrow with ⟨hrow, hnew⟩ | hrow
    · obtain ⟨piece, hpiece, hchunk, hcurrent⟩ := h.current row hrow hid
      refine ⟨piece, hpiece, hchunk, fun hmem => ?_⟩
      refine (List.mem_append.mp hmem).elim hcurrent fun hmem => absurd ?_ hnew
      obtain ⟨row', hrow', hbare⟩ := List.mem_map.mp hmem
      refine List.mem_map.mpr ⟨row', hrow', ?_⟩
      rw [hchunk, ← hbare]
      rfl
    · obtain ⟨piece, hpiece, hbare⟩ := hpieces row.bare
        (List.mem_append_right _ (List.mem_map.mpr ⟨row, hrow, rfl⟩))
      refine ⟨piece, hpiece, ?_, fun _ => hbare⟩
      rw [← hbare]
      rfl

/-- When every piece is in the table, the items have the records of the snapshot. -/
theorem Flushed.indexed_eq (h : Flushed snapshot (snapshot.pending.map snapshot.record) table)
    {id : Str} (hid : id ∈ snapshot.itemIds) : indexed table id = snapshot.records id := by
  ext r
  constructor
  · rintro ⟨row, hrow, rfl, rfl⟩
    obtain ⟨piece, hpiece, -, hcurrent⟩ := h.current row hrow hid
    have hbare := hcurrent (List.mem_map.mpr ⟨piece, hpiece, rfl⟩)
    exact ⟨piece, hpiece, (congrArg VectorRecord.itemId hbare).symm, hbare⟩
  · rintro ⟨piece, hpiece, rfl, rfl⟩
    obtain ⟨row, hrow, hbare⟩ := h.present _ (List.mem_map.mpr ⟨piece, hpiece, rfl⟩)
    exact ⟨row, hrow, congrArg VectorRecord.itemId hbare, hbare⟩

theorem written_deleteItems (outside : Outside) {w : Work} (hwaiting : w.records = [])
    (hleft : snapshot.NoLeftover w.table) :
    wp (deleteItems outside snapshot.deleted) (fun _ => Written snapshot []) (fun _ _ => True) w := by
  have hwritten : ∀ w' : Work, w'.records = [] → (∀ row ∈ w'.table.records,
      row ∈ w.table.records ∧ (row.itemId ∈ snapshot.itemIds →
        row.itemId ∈ snapshot.activeRows.map Item.id)) → Written snapshot [] w' := by
    intro w' hwaiting' hrows
    refine ⟨[], by rw [hwaiting']; rfl, fun r hr => absurd hr List.not_mem_nil,
      fun row hrow hid => ?_⟩
    obtain ⟨hrow, hactive⟩ := hrows row hrow
    obtain ⟨piece, hpiece, hchunk⟩ := hleft row hrow (hactive hid)
    exact ⟨piece, hpiece, hchunk, fun h => absurd h List.not_mem_nil⟩
  have hgone : ∀ id, id ∈ snapshot.itemIds → id ∉ snapshot.deleted →
      id ∈ snapshot.activeRows.map Item.id := by
    intro id hid hnot
    by_contra hactive
    exact hnot (List.mem_filter.mpr ⟨hid, decide_eq_true hactive⟩)
  unfold deleteItems
  rw [wp_bind, wp_get]
  by_cases hcall : snapshot.deleted ≠ [] ∧ w.table.isSome = true
  · rw [wp_only_pos hcall]
    unfold callDelete
    rw [wp_bind, wp_get]
    cases outside.delete with
    | raises message part => trivial
    | done =>
      refine hwritten _ hwaiting fun row hrow => ?_
      obtain ⟨rows, htable⟩ := Option.isSome_iff_exists.mp hcall.2
      have hrow' : row ∈ deleteWhere rows snapshot.deleted := by
        have : row ∈ VectorTable.records (w.table.map fun rows => deleteWhere rows snapshot.deleted) :=
          hrow
        rwa [htable] at this
      obtain ⟨hmem, hkept⟩ := List.mem_filter.mp hrow'
      refine ⟨by rw [htable]; exact hmem, fun hid => hgone _ hid (of_decide_eq_true hkept)⟩
  · rw [wp_only_neg hcall]
    refine hwritten w hwaiting fun row hrow => ⟨hrow, fun hid => hgone _ hid fun hmem => hcall ?_⟩
    refine ⟨List.ne_nil_of_mem hmem, ?_⟩
    cases htable : w.table with
    | none => rw [htable] at hrow; exact absurd hrow List.not_mem_nil
    | some rows => rfl

theorem written_addRecord {dimension : ℕ} (outside : Outside) (hdistinct : snapshot.Distinct)
    {done : List (Item × ℕ × Str)} {piece : Item × ℕ × Str} {w : Work} (hw : Written snapshot done w)
    (hpieces : ∀ p ∈ done ++ [piece], p ∈ snapshot.pending) (vector : List FloatVal) :
    wp (addRecord dimension outside (vectorRecord snapshot.bucketRows piece vector))
      (fun _ => Written snapshot (done ++ [piece])) (fun _ _ => True) w := by
  obtain ⟨flushed, hsplit, hflushed⟩ := hw
  unfold addRecord
  rw [wp_bind, wp_modify, wp_bind, wp_get]
  have hsplit' : (done ++ [piece]).map snapshot.record = flushed ++
      (w.records ++ [vectorRecord snapshot.bucketRows piece vector]).map VectorRecord.bare := by
    rw [List.map_append, hsplit, List.map_append, List.append_assoc]
    rfl
  split
  · rw [wp_bind]
    refine wp_mono (upsert_spec dimension outside _ _) (fun _ w' hw' => ?_) fun _ _ _ => trivial
    rw [wp_modify]
    refine ⟨_, (hsplit'.trans (List.append_nil _).symm), ?_⟩
    refine hflushed.merge hdistinct (fun r hr => ?_) hw'.2
    rw [← hsplit'] at hr
    obtain ⟨p, hp, rfl⟩ := List.mem_map.mp hr
    exact ⟨p, hpieces p hp, rfl⟩
  · exact ⟨flushed, hsplit', hflushed⟩

theorem written_embedBatch {dimension : ℕ} (outside : Outside) (hdistinct : snapshot.Distinct)
    {done batch : List (Item × ℕ × Str)} {w : Work} (hw : Written snapshot done w)
    (hpieces : ∀ p ∈ done ++ batch, p ∈ snapshot.pending) :
    wp (embedBatch dimension outside snapshot.bucketRows batch)
      (fun _ => Written snapshot (done ++ batch)) (fun _ _ => True) w := by
  unfold embedBatch
  rw [wp_bind, wp_get, wp_bind, wp_set]
  split
  · trivial
  rename_i vectors _
  split
  · trivial
  rename_i hlength
  have hfst : (batch.zip vectors).map Prod.fst = batch :=
    List.map_fst_zip (not_not.mp hlength).ge
  refine wp_mono (wp_forM (I := fun entries => Written snapshot (done ++ entries.map Prod.fst))
    (E := fun _ _ => True) (fun entries entry rest v heq hv => ?_) ?_) (fun _ v hv => ?_)
    fun _ _ h => h
  · have hmem : ∀ p ∈ done ++ entries.map Prod.fst ++ [entry.1], p ∈ snapshot.pending := by
      intro p hp
      refine hpieces p ?_
      rw [← hfst, heq, List.map_append, List.map_cons]
      simp only [List.mem_append, List.mem_cons, List.not_mem_nil, or_false] at hp ⊢
      rcases hp with (hp | hp) | hp
      · exact Or.inl hp
      · exact Or.inr (Or.inl hp)
      · exact Or.inr (Or.inr (Or.inl hp))
    rw [List.map_append, ← List.append_assoc]
    exact written_addRecord outside hdistinct hv hmem entry.2
  · rw [List.map_nil, List.append_nil]
    exact hw
  · rw [hfst] at hv
    exact hv

/-- **When the work of a sync succeeds, its items have the records of the snapshot.** -/
theorem written_writeBatch {dimension : ℕ} (outside : Outside) (hdistinct : snapshot.Distinct)
    (hleft : snapshot.NoLeftover table) :
    wp (writeBatch dimension outside snapshot)
      (fun _ w => ∀ id ∈ snapshot.itemIds, indexed w.table id = snapshot.records id)
      (fun _ _ => True) ⟨table, [], 0, 0, 0⟩ := by
  have hflatten := flatten_batches (by decide : 0 < 32) snapshot.pending
  unfold writeBatch
  rw [wp_bind]
  refine wp_mono (written_deleteItems outside rfl hleft) (fun _ w hw => ?_) fun _ _ h => h
  rw [wp_bind]
  refine wp_mono (wp_forM (I := fun done => Written snapshot done.flatten) (E := fun _ _ => True)
    (fun done batch rest v heq hv => ?_) hw) (fun _ v hv => ?_) fun _ _ h => h
  · rw [List.flatten_append, List.flatten_singleton]
    refine written_embedBatch outside hdistinct hv fun p hp => ?_
    rw [← hflatten, heq, List.flatten_append, List.flatten_cons, ← List.append_assoc]
    exact List.mem_append_left _ hp
  · rw [hflatten] at hv
    obtain ⟨flushed, hsplit, hflushed⟩ := hv
    rw [wp_bind, wp_get]
    split
    · rename_i hempty
      rw [hempty, List.map_nil, List.append_nil] at hsplit
      exact fun id hid => (hsplit ▸ hflushed).indexed_eq hid
    · rw [wp_bind]
      refine wp_mono (upsert_spec dimension outside _ _) (fun _ w' hw' => ?_) fun _ _ _ => trivial
      rw [wp_modify]
      intro id hid
      refine Flushed.indexed_eq ?_ hid
      rw [hsplit]
      refine hflushed.merge hdistinct (fun r hr => ?_) hw'.2
      rw [← hsplit] at hr
      obtain ⟨p, hp, rfl⟩ := List.mem_map.mp hr
      exact ⟨p, hp, rfl⟩

end Written

end AI2Apps.Knowledge
