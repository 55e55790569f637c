import AI2Apps.Knowledge.Indexer
import Mathlib.Data.Set.Basic

/-!
# What the change log records

The vector records of an item depend on its row, its chunks and its bucket rows.
Every operation of the authority that changes them appends an entry for the item,
except the deletion of a bucket and the placing of items that no bucket holds:
these change the bucket ids of items and log nothing.

* `Store.records`: the records of an item.
* `Logs`: an operation changes the records of the items it logs, and of those that
  are covered otherwise.
* `logs_*`: each operation, with the items it has to find covered.
-/

namespace AI2Apps.Knowledge

open Clock Faults
open TextOrder (strip)

/-! ## The records of an item -/

/-- The vector records of an item, without their vectors: an active item has one for
each piece of its chunks, any other has none. -/
def Store.records (store : Store) (id : Str) : Set VectorRecord :=
  {r | ∃ item, store.items.get? id = some item ∧ item.active = true ∧
    ∃ piece ∈ pendingOf store.chunks.rows item, r = vectorRecord store.bucketItems.rows piece []}

theorem fst_of_mem_pendingOf {rows : List Chunk} {item : Item} {piece : Item × ℕ × Str}
    (h : piece ∈ pendingOf rows item) : piece.1 = item := by
  obtain ⟨source, _, hpiece⟩ := List.mem_flatMap.mp h
  obtain ⟨_, _, rfl⟩ := List.mem_map.mp hpiece
  rfl

theorem pendingOf_congr {rows rows' : List Chunk} {item : Item}
    (h : (rows'.filter fun row => row.itemId = item.id) = rows.filter fun row => row.itemId = item.id) :
    pendingOf rows' item = pendingOf rows item := by
  unfold pendingOf sourceChunks
  rw [h]

theorem vectorRecord_congr {rows rows' : List BucketItem} {piece : Item × ℕ × Str}
    (h : (rows'.filter fun row => row.itemId = piece.1.id) =
      rows.filter fun row => row.itemId = piece.1.id) (vector : List FloatVal) :
    vectorRecord rows' piece vector = vectorRecord rows piece vector := by
  unfold vectorRecord bucketsOf
  rw [h]

/-- The records of an item depend on its rows alone. -/
theorem records_congr {s t : Store} {id : Str} (hitems : t.items.get? id = s.items.get? id)
    (hchunks : (t.chunks.rows.filter fun row => row.itemId = id) =
      s.chunks.rows.filter fun row => row.itemId = id)
    (hbuckets : (t.bucketItems.rows.filter fun row => row.itemId = id) =
      s.bucketItems.rows.filter fun row => row.itemId = id) : t.records id = s.records id := by
  have hrecord : ∀ {u v : Store}, (u.chunks.rows.filter fun row => row.itemId = id) =
      (v.chunks.rows.filter fun row => row.itemId = id) →
      (u.bucketItems.rows.filter fun row => row.itemId = id) =
        (v.bucketItems.rows.filter fun row => row.itemId = id) →
      u.items.get? id = v.items.get? id → ∀ r, r ∈ u.records id → r ∈ v.records id := by
    rintro u v hchunks hbuckets hitems r ⟨item, hitem, hactive, piece, hpiece, rfl⟩
    obtain rfl : item.id = id := Table.key_of_get? hitem
    have hfst : piece.1 = item := fst_of_mem_pendingOf hpiece
    refine ⟨item, hitems ▸ hitem, hactive, piece, ?_, ?_⟩
    · rwa [← pendingOf_congr hchunks]
    · exact vectorRecord_congr (by rw [hfst]; exact hbuckets) []
  ext r
  exact ⟨hrecord hchunks hbuckets hitems r, hrecord hchunks.symm hbuckets.symm hitems.symm r⟩

/-- An item that is not active has no records. -/
theorem records_of_inactive {s : Store} {id : Str}
    (h : ∀ item, s.items.get? id = some item → item.active = false) : s.records id = ∅ := by
  rw [Set.eq_empty_iff_forall_notMem]
  rintro r ⟨item, hitem, hactive, -⟩
  rw [h item hitem] at hactive
  exact Bool.noConfusion hactive

/-- Nothing but its row makes records of an item that is not active. -/
theorem records_eq_of_inactive {s t : Store} {id : Str} (hitems : t.items.get? id = s.items.get? id)
    (h : ∀ item, s.items.get? id = some item → item.active = false) : t.records id = s.records id :=
  (records_of_inactive fun item hitem => h item (hitems ▸ hitem)).trans (records_of_inactive h).symm

/-! ## Steps of the authority -/

/-- What changes is logged, or covered otherwise. -/
def Logs (covered : Str → Prop) (before after : Store) : Prop :=
  ∃ added : List Change, after.changeLog = before.changeLog ++ added ∧
    ∀ id, after.records id = before.records id ∨ id ∈ added.map Change.itemId ∨ covered id

/-- Only the records of one item change. -/
structure Edits (itemId : Str) (added : List Change) (before after : Store) : Prop where
  log : after.changeLog = before.changeLog ++ added
  others : ∀ id, id ≠ itemId → after.records id = before.records id

variable {covered : Str → Prop} {s t u : Store} {k : Str} {added : List Change}

theorem Logs.refl (covered : Str → Prop) (s : Store) : Logs covered s s :=
  ⟨[], (List.append_nil _).symm, fun _ => Or.inl rfl⟩

/-- A step that logs nothing. -/
theorem Logs.silent (h : Logs covered s t) (hlog : u.changeLog = t.changeLog)
    (hrecords : ∀ id, u.records id = t.records id ∨ covered id) : Logs covered s u := by
  obtain ⟨added, hadded, hchanged⟩ := h
  refine ⟨added, hlog.trans hadded, fun id => ?_⟩
  rcases hrecords id with hid | hid
  · rw [hid]
    exact hchanged id
  · exact Or.inr (Or.inr hid)

theorem Edits.refl (k : Str) (s : Store) : Edits k [] s s :=
  ⟨(List.append_nil _).symm, fun _ _ => rfl⟩

theorem Edits.silent (h : Edits k added s t) (hlog : u.changeLog = t.changeLog)
    (hrecords : ∀ id, id ≠ k → u.records id = t.records id) : Edits k added s u :=
  ⟨hlog.trans h.log, fun id hid => (hrecords id hid).trans (h.others id hid)⟩

/-- An edit of one item that logs it. -/
theorem Edits.logs (change : Change) (h : Edits change.itemId [change] s t) : Logs covered s t := by
  refine ⟨[change], h.log, fun id => ?_⟩
  by_cases hid : id = change.itemId
  · exact Or.inr (Or.inl (List.mem_singleton.mpr hid))
  · exact Or.inl (h.others id hid)

theorem Edits.append (h : Edits k [] s t) (change : Change) :
    Edits k [change] s { t with changeLog := t.changeLog ++ [change] } := by
  refine ⟨?_, h.others⟩
  show t.changeLog ++ [change] = s.changeLog ++ [change]
  rw [h.log, List.append_nil]

theorem Edits.logged (change : Change) (h : Edits change.itemId [] s t) :
    Logs covered s { t with changeLog := t.changeLog ++ [change] } :=
  Edits.logs change (h.append change)

/-! ## Writes to the rows -/

theorem filter_append_other {α : Type} {p : α → Bool} {l : List α} {x : α} (h : p x = false) :
    (l ++ [x]).filter p = l.filter p := by
  rw [List.filter_append, List.filter_cons_of_neg (by rw [h]; exact Bool.false_ne_true),
    List.filter_nil, List.append_nil]

theorem preserves_insertChunk (chunk : Chunk) :
    Preserves (Edits chunk.itemId added s) (insertChunk chunk) := by
  intro t ht
  unfold insertChunk
  rw [wp_bind, wp_get, wp_bind, wp_orThrow]
  refine ⟨fun chunks hinsert => ht.silent rfl fun id hid => ?_, fun _ => ht⟩
  refine records_congr rfl ?_ rfl
  show chunks.rows.filter _ = _
  rw [(Table.rows_insert hinsert).1]
  exact filter_append_other (decide_eq_false fun h => hid h.symm)

theorem insertBucketItem_spec (row : BucketItem) (t : Store) :
    wp (insertBucketItem row) (fun inserted u => (inserted = false → u = t) ∧ u.items = t.items ∧
      u.changeLog = t.changeLog ∧ ∀ id, id ≠ row.itemId → u.records id = t.records id)
      (fun _ u => u = t) t := by
  unfold insertBucketItem
  rw [wp_bind, wp_get]
  split_ifs
  · exact rfl
  · split
    · exact ⟨fun _ => rfl, rfl, rfl, fun _ _ => rfl⟩
    · rename_i bucketItems hinsert
      refine ⟨fun h => Bool.noConfusion h, rfl, rfl, fun id hid => ?_⟩
      refine records_congr rfl rfl ?_
      show bucketItems.rows.filter _ = _
      rw [(Table.rows_insert hinsert).1]
      exact filter_append_other (decide_eq_false fun h => hid h.symm)

theorem preserves_insertBucketItem (row : BucketItem) :
    Preserves (Edits row.itemId added s) (insertBucketItem row) := by
  intro t ht
  refine wp_mono (insertBucketItem_spec row t) (fun inserted u hu => ?_) fun _ u hu => ?_
  · exact ht.silent hu.2.2.1 hu.2.2.2
  · rw [hu]
    exact ht

theorem preserves_visibleBucketRow {I : Store → Prop} (principal : RequestPrincipal)
    (bucketId : Str) : Preserves I (visibleBucketRow principal bucketId) :=
  .bind .get fun _ => .orThrow _ _

/-- What holds of the state a transaction starts in, holds after it raised. -/
theorem wp_transaction_of {α : Type} {x : Tx α} {I : Store → Prop} (hs : I s)
    (h : wp x (fun _ => I) (fun _ _ => True) s) :
    wp (transaction x) (fun _ => I) (fun _ => I) s := by
  rw [wp_transaction]
  exact wp_mono h (fun _ _ h => h) fun _ _ _ => hs

/-! ## The operations -/

theorem logs_addItemToBucket (principal : RequestPrincipal) (bucketId itemId : Str) :
    wp (addItemToBucket principal bucketId itemId) (fun _ => Logs covered s)
      (fun _ => Logs covered s) s := by
  refine wp_transaction_of (.refl _ _) ?_
  refine (preserves_visibleBucketRow principal bucketId).wp_bind (I := fun t => t = s) rfl
    (fun bucket t ht => ?_) fun _ _ _ => trivial
  subst ht
  rw [wp_bind, wp_get, wp_bind, wp_orThrow]
  refine ⟨fun item _ => ?_, fun _ => trivial⟩
  split_ifs
  · trivial
  rw [wp_bind]
  refine wp_mono (insertBucketItem_spec _ t) (fun inserted u hu => ?_) fun _ _ _ => trivial
  cases inserted with
  | false =>
    rw [wp_only_neg Bool.false_ne_true, hu.1 rfl]
    exact .refl _ _
  | true =>
    rw [wp_only_pos rfl]
    exact Edits.logged ⟨.update, itemId, item.spaceId, item.revision⟩
      ((Edits.refl itemId t).silent hu.2.2.1 hu.2.2.2)

theorem logs_removeItemFromBucket (principal : RequestPrincipal) (bucketId itemId : Str) :
    wp (removeItemFromBucket principal bucketId itemId) (fun _ => Logs covered s)
      (fun _ => Logs covered s) s := by
  refine wp_transaction_of (.refl _ _) ?_
  refine (preserves_visibleBucketRow principal bucketId).wp_bind (I := fun t => t = s) rfl
    (fun bucket t ht => ?_) fun _ _ _ => trivial
  subst ht
  rw [wp_bind, wp_get, wp_bind, wp_orThrow]
  refine ⟨fun item _ => ?_, fun _ => trivial⟩
  dsimp only
  rw [wp_bind, wp_set]
  by_cases hany : t.bucketItems.rows.any
      (fun row => row.bucketId = bucketId && row.itemId = itemId) = true
  · rw [wp_only_pos hany]
    refine Edits.logged ⟨.update, itemId, item.spaceId, item.revision⟩ ?_
    refine (Edits.refl itemId t).silent rfl fun id hid => records_congr rfl rfl ?_
    refine Table.filter_delete fun row _ hrow => ?_
    rw [of_decide_eq_true hrow, decide_eq_false hid, Bool.and_false]
  · rw [wp_only_neg hany]
    refine (Logs.refl covered t).silent rfl fun id => Or.inl (records_congr rfl rfl ?_)
    refine Table.filter_delete fun row hrow _ => ?_
    exact Bool.eq_false_iff.mpr fun h => hany (List.any_eq_true.mpr ⟨row, hrow, h⟩)

theorem logs_createBucket (principal : RequestPrincipal) (bucketId name : Str)
    (scope : KnowledgeScope) (isImported : Bool) :
    wp (createBucket principal bucketId name scope isImported) (fun _ => Logs covered s)
      (fun _ => Logs covered s) s := by
  refine wp_transaction_of (.refl _ _) ?_
  dsimp only
  split
  · trivial
  rw [wp_bind, wp_get, wp_bind, wp_orThrow]
  refine ⟨fun buckets _ => ?_, fun _ => trivial⟩
  rw [wp_bind, wp_set]
  refine wp_mono (preserves_visibleBucketRow (I := Logs covered s) principal bucketId _ ?_)
    (fun _ _ h => h) fun _ _ _ => trivial
  exact (Logs.refl covered s).silent rfl fun _ => Or.inl rfl

/-- The deletion of a bucket changes the bucket ids of the items in it. -/
theorem logs_deleteBucket (principal : RequestPrincipal) (bucketId : Str)
    (hcovered : ∀ bucket, s.buckets.get? bucketId = some bucket → visibleBucket principal bucket = true →
      bucket.kind ≠ .system → bucket.createdByUserId = principal.actorUserId →
      ∀ item ∈ s.items.rows, item.active = true →
        (∃ row ∈ s.bucketItems.rows, row.bucketId = bucketId ∧ row.itemId = item.id) →
        covered item.id) :
    wp (deleteBucket principal bucketId) (fun _ => Logs covered s) (fun _ => Logs covered s) s := by
  refine wp_transaction_of (.refl _ _) ?_
  unfold visibleBucketRow
  rw [wp_bind, wp_bind, wp_get, wp_orThrow]
  refine ⟨fun bucket hbucket => ?_, fun _ => trivial⟩
  obtain ⟨hget, hvisible⟩ := Option.filter_eq_some_iff.mp hbucket
  split_ifs with hsystem hcreated
  · trivial
  · trivial
  have hcovered := hcovered bucket hget hvisible hsystem (not_not.mp hcreated)
  refine (Logs.refl covered s).silent rfl fun id => ?_
  by_cases hactive : ∃ item, s.items.get? id = some item ∧ item.active = true
  · obtain ⟨item, hitem, hactive⟩ := hactive
    by_cases hrow : ∃ row ∈ s.bucketItems.rows, row.bucketId = bucketId ∧ row.itemId = id
    · obtain rfl : item.id = id := Table.key_of_get? hitem
      exact Or.inr (hcovered item (Table.mem_of_get? hitem) hactive hrow)
    · refine Or.inl (records_congr rfl rfl (Table.filter_delete fun row hmem hid => ?_))
      exact decide_eq_false fun h => hrow ⟨row, hmem, h, of_decide_eq_true hid⟩
  · refine Or.inl (records_eq_of_inactive rfl fun item hitem => ?_)
    exact Bool.eq_false_iff.mpr fun h => hactive ⟨item, hitem, h⟩

theorem preserves_ensureSystemBucket (bucketIds : BucketIds) (principal : RequestPrincipal)
    (entry : SystemKey × String × KnowledgeScope) :
    Preserves (fun t => t.items = s.items ∧ t.bucketItems = s.bucketItems ∧ Logs covered s t)
      (ensureSystemBucket bucketIds principal entry) := by
  intro t ht
  unfold ensureSystemBucket
  rw [wp_bind, wp_get]
  dsimp only
  refine Preserves.ite _ (fun _ => .pure ()) (fun _ => .modify fun u hu => ?_) t ht
  exact ⟨hu.1, hu.2.1, hu.2.2.silent rfl fun _ => Or.inl rfl⟩

theorem preserves_placeLegacyItem (principal : RequestPrincipal) (entry : Item × ℕ)
    (hcovered : entry.1.active = true → covered entry.1.id)
    (hentry : s.items.get? entry.1.id = some entry.1) :
    Preserves (fun t => t.items = s.items ∧ Logs covered s t) (placeLegacyItem principal entry) := by
  intro t ht
  unfold placeLegacyItem
  rw [wp_bind, wp_get, wp_bind, wp_orThrow]
  refine ⟨fun bucketId _ => ?_, fun _ => ht⟩
  rw [wp_bind]
  refine wp_mono (insertBucketItem_spec _ t) (fun inserted u hu => ?_) fun _ u hu => ?_
  · obtain ⟨-, hitems, hlog, hothers⟩ := hu
    refine ⟨hitems.trans ht.1, ht.2.silent hlog fun id => ?_⟩
    by_cases hid : id = entry.1.id
    · subst hid
      by_cases hactive : entry.1.active = true
      · exact Or.inr (hcovered hactive)
      · refine Or.inl (records_eq_of_inactive (by rw [hitems]) fun item hitem => ?_)
        rw [ht.1, hentry] at hitem
        obtain rfl := Option.some.inj hitem
        exact Bool.eq_false_iff.mpr hactive
    · exact Or.inl (hothers id hid)
  · rw [hu]
    exact ht

/-- Placing an item that no bucket holds changes its bucket ids. -/
theorem logs_ensureSystemBuckets (bucketIds : BucketIds) (principal : RequestPrincipal)
    (hcovered : ∀ item ∈ s.legacyItems principal, item.active = true → covered item.id) :
    wp (ensureSystemBuckets bucketIds principal) (fun _ => Logs covered s)
      (fun _ => Logs covered s) s := by
  refine wp_transaction_of (.refl _ _) ?_
  refine (Preserves.forM fun entry => preserves_ensureSystemBucket bucketIds principal entry).wp_bind
    ⟨rfl, rfl, .refl covered s⟩ (fun _ t ht => ?_) fun _ _ _ => trivial
  rw [wp_bind, wp_get]
  have hlegacy : t.legacyItems principal = s.legacyItems principal := by
    unfold Store.legacyItems
    rw [ht.1, ht.2.1]
  rw [hlegacy]
  refine wp_mono (Preserves.forM_mem (I := fun t => t.items = s.items ∧ Logs covered s t)
    (fun entry hmem => ?_) t ⟨ht.1, ht.2.2⟩) (fun _ _ h => h.2) fun _ _ _ => trivial
  have hentry : entry.1 ∈ s.legacyItems principal :=
    (List.mem_zipIdx' hmem).2 ▸ List.getElem_mem _
  have hget : s.items.get? entry.1.id = some entry.1 := by
    refine Table.get?_of_mem ?_
    unfold Store.legacyItems at hentry
    rw [List.mem_insertionSort] at hentry
    exact (List.mem_filter.mp hentry).1
  exact preserves_placeLegacyItem principal entry (hcovered entry.1 hentry) hget

/-! ## Items -/

/-- A row of an item is changed. -/
theorem get?_update_other {items : Table Item Item.id} {itemId id : Str} {f : Item → Item}
    (hf : ∀ i, (f i).id = i.id) (h : id ≠ itemId) :
    (items.update (fun i => i.id = itemId) f hf).get? id = items.get? id := by
  refine Table.get?_update_of_not hf fun item hitem => ?_
  rw [Table.key_of_get? hitem]
  exact decide_eq_false h

theorem logs_deleteItem (now : DateTime) (principal : RequestPrincipal) (itemId : Str)
    (expectedRevision : ℤ) :
    wp (deleteItem now principal itemId expectedRevision) (fun _ => Logs covered s)
      (fun _ => Logs covered s) s := by
  refine wp_transaction_of (.refl _ _) ?_
  rw [wp_bind, wp_get, wp_bind, wp_orThrow]
  refine ⟨fun item _ => ?_, fun _ => trivial⟩
  split
  · trivial
  dsimp only
  rw [wp_bind, wp_set]
  refine Edits.logged ⟨.delete, itemId, item.spaceId, expectedRevision + 1⟩ ?_
  refine (Edits.refl itemId s).silent rfl fun id hid => ?_
  refine records_congr (get?_update_other ?_ hid) rfl rfl
  exact fun _ => rfl

theorem logs_updateTextItem (now : DateTime) (principal : RequestPrincipal) (itemId : Str)
    (expectedRevision : ℤ) (title text : Str) (generatedSourceAppId : Option Str) :
    wp (updateTextItem now principal itemId expectedRevision title text generatedSourceAppId)
      (fun _ => Logs covered s) (fun _ => Logs covered s) s := by
  refine wp_transaction_of (.refl _ _) ?_
  split
  · trivial
  rw [wp_bind, wp_get, wp_bind, wp_orThrow]
  refine ⟨fun item _ => ?_, fun _ => trivial⟩
  split
  · trivial
  split
  · trivial
  dsimp only
  rw [wp_bind, wp_set]
  refine (preserves_insertChunk ⟨itemId, item.spaceId, 0, strip text⟩).wp_bind
    (I := Edits itemId [] s) ?_ (fun _ t ht => ?_) fun _ _ _ => trivial
  · refine (Edits.refl itemId s).silent rfl fun id hid => ?_
    refine records_congr (get?_update_other ?_ hid) ?_ rfl
    · exact fun _ => rfl
    refine Table.filter_delete fun chunk _ hchunk => ?_
    rw [of_decide_eq_true hchunk]
    exact decide_eq_false hid
  · exact Edits.logged ⟨.update, itemId, item.spaceId, expectedRevision + 1⟩ ht

theorem preserves_placeNewItem (principal : RequestPrincipal) (new : NewItem) (bucketId : Str) :
    Preserves (Edits new.itemId added s) (placeNewItem principal new bucketId) := by
  refine .bind (preserves_visibleBucketRow principal bucketId) fun bucket => ?_
  refine .ite _ (fun _ => .throw _) fun _ => .bind .get fun t => ?_
  refine .bind (preserves_insertBucketItem ⟨bucketId, new.itemId, t.nextPosition bucketId⟩)
    fun inserted => ?_
  exact .ite _ (fun _ => .pure ()) fun _ => .throw _

theorem logs_insertItem (now : DateTime) (principal : RequestPrincipal) (new : NewItem) :
    wp (insertItem now principal new) (fun _ => Logs covered s) (fun _ _ => True) s := by
  unfold insertItem
  rw [wp_bind, wp_get]
  dsimp only
  rw [wp_bind, wp_orThrow]
  refine ⟨fun items hinsert => ?_, fun _ => trivial⟩
  rw [wp_bind, wp_set]
  refine (Preserves.forM fun chunk : Str × ℕ =>
    preserves_insertChunk ⟨new.itemId, new.spaceId, chunk.2, chunk.1⟩).wp_bind
    (I := Edits new.itemId [] s) ?_ (fun _ t ht => ?_) fun _ _ _ => trivial
  · refine (Edits.refl new.itemId s).silent rfl fun id hid => records_congr ?_ rfl rfl
    rw [Table.get?_insert hinsert, if_neg fun h => hid h.symm]
  unfold appendChange
  rw [wp_bind, wp_modify]
  refine (Preserves.forM fun bucketId => preserves_placeNewItem principal new bucketId).wp_bind
    (ht.append ⟨.create, new.itemId, new.spaceId, 1⟩) (fun _ u hu => ?_) fun _ _ _ => trivial
  exact Edits.logs ⟨.create, new.itemId, new.spaceId, 1⟩ hu

theorem logs_createTextItem (now : DateTime) (principal : RequestPrincipal) (new : NewItem) :
    wp (createTextItem now principal new) (fun _ => Logs covered s) (fun _ => Logs covered s) s := by
  refine wp_transaction_of (.refl _ _) ?_
  split
  · trivial
  split
  · trivial
  rw [wp_bind, wp_get]
  split
  · exact logs_insertItem now principal new
  · split
    · exact .refl _ _
    · trivial

end AI2Apps.Knowledge
