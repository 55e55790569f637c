import AI2Apps.Omlx.ExactPrefix

/-!
# When a failed fetch leaves no trace

The walk of `fetch_exact_prefix` is followed from the state it starts in.  Which hash it stops
at, and what it takes before, is read from that state: a hash of the chain leads to a block
there, or its block is on disk and the next block of the queue stands for it.

* `Blocked`, `Held`, `HeldBefore`: where the walk stops, and what it may take before.
* `Walked`: the state during the walk, against the one before it.
* `restored_iff`: when freeing what was taken restores the state.
* `fetch_undone_iff`: a failed fetch leaves no trace exactly when it took held blocks only.
-/

namespace AI2Apps.Omlx.PagedCache

variable {cfg : Config} {s t : Manager} {b c n : ℕ} {h : BlockHash}

/-! ## The condition -/

/-- The walk stops at a hash, after it restored blocks for others from disk. -/
def Blocked (cfg : Config) (hasBlock : BlockHash → Bool) (s : Manager) (restored : List BlockHash)
    (h : BlockHash) : Prop :=
  h ∉ restored ∧ match s.getBlock h with
    | some b => b ∉ s.allocatedBlocks ∨ (s.block b).isNull = true ∨ (s.block b).blockHash ≠ some h
    | none => hasBlock h = false ∨
        s.free.length + (cfg.maxBlocks - s.allocatedCount) ≤ restored.length

/-- What the walk takes for a hash comes back: a block somebody holds, or a free one whose
count is 0. -/
def Held (s : Manager) (restored : List BlockHash) (h : BlockHash) : Prop :=
  h ∈ restored ∨ match s.getBlock h with
    | some b => 1 ≤ (s.block b).refCount
    | none => ∀ b, s.free[restored.length]? = some b → (s.block b).refCount = 0

/-- The hashes restored after one more. -/
def nextRestored (s : Manager) (restored : List BlockHash) (h : BlockHash) : List BlockHash :=
  if h ∈ restored ∨ (s.getBlock h).isSome then restored else restored ++ [h]

/-- The walk stops somewhere. -/
def Fails (cfg : Config) (hasBlock : BlockHash → Bool) (s : Manager) :
    List BlockHash → List BlockHash → Prop
  | _, [] => False
  | restored, h :: rest =>
    Blocked cfg hasBlock s restored h ∨ Fails cfg hasBlock s (nextRestored s restored h) rest

/-- What the walk takes before it stops comes back. -/
def HeldBefore (cfg : Config) (hasBlock : BlockHash → Bool) (s : Manager) :
    List BlockHash → List BlockHash → Prop
  | _, [] => True
  | restored, h :: rest =>
    Blocked cfg hasBlock s restored h ∨
      Held s restored h ∧ HeldBefore cfg hasBlock s (nextRestored s restored h) rest

/-- Every block there was has its count, its place and its hashes, and lookups find what they
found. -/
def Restored (cfg : Config) (s t : Manager) : Prop :=
  (∀ b < s.allocatedCount, (t.block b).refCount = (s.block b).refCount ∧
    (b ∈ t.allocatedBlocks ↔ b ∈ s.allocatedBlocks) ∧
    ∀ h, b ∈ t.cachedBlockHashToBlock h ↔ b ∈ s.cachedBlockHashToBlock h) ∧
  ∀ h, getCachedBlock cfg h t = getCachedBlock cfg h s

/-! ## Allocation during the walk -/

theorem maybeEvict_cached (hb : ∀ h, (s.block b).blockHash = some h →
    b ∉ s.cachedBlockHashToBlock h) :
    (maybeEvictCachedBlock b s).cachedBlockHashToBlock = s.cachedBlockHashToBlock := by
  unfold maybeEvictCachedBlock
  rcases hh : (s.block b).blockHash with _ | h
  · rfl
  · dsimp only
    rw [if_neg (hb h hh)]
    unfold Manager.pop
    have hfilter : (s.cachedBlockHashToBlock h).filter (· ≠ b) = s.cachedBlockHashToBlock h :=
      List.filter_eq_self.mpr fun c hc => decide_eq_true fun hcb => hb h hh (hcb ▸ hc)
    dsimp only
    rw [hfilter, Function.update_eq_self]

/-- What is allocated comes from the front of the queue or is new; nothing else changes. -/
theorem allocateBlock_effect (hsound : Sound cfg t) (hheld : HashesHeld t) :
    t.free = [] ∧ t.allocatedCount = cfg.maxBlocks ∧
        allocateBlock cfg t = (.returned none, t) ∨
      ∃ b u new, allocateBlock cfg t = (.returned (some b), u) ∧ b :: u.free = t.free ++ new ∧
        (∀ c ∈ new, t.allocatedCount ≤ c) ∧ t.allocatedCount ≤ u.allocatedCount ∧
        u.free.length + 1 + (cfg.maxBlocks - u.allocatedCount) =
          t.free.length + (cfg.maxBlocks - t.allocatedCount) ∧
        u.cachedBlockHashToBlock = t.cachedBlockHashToBlock ∧ b ∉ t.allocatedBlocks ∧
        u.allocatedBlocks = insert b t.allocatedBlocks ∧
        ∀ c < t.allocatedCount, c ≠ b → u.block c = t.block c := by
  rcases allocateBlock_cases hsound with hnone | ⟨g, b, l, queue, hg, hgfree, hqueue, heq⟩
  · exact .inl hnone
  · right
    have hgsound : Sound cfg g ∧ HashesHeld g ∧ g.cachedBlockHashToBlock = t.cachedBlockHashToBlock ∧
        g.allocatedBlocks = t.allocatedBlocks ∧
        (∀ c < t.allocatedCount, g.block c = t.block c) ∧
        ∃ new, g.free = t.free ++ new ∧ (∀ c ∈ new, t.allocatedCount ≤ c) ∧
          g.free.length + (cfg.maxBlocks - g.allocatedCount) =
            t.free.length + (cfg.maxBlocks - t.allocatedCount) ∧
          t.allocatedCount ≤ g.allocatedCount := by
      rcases hg with rfl | ⟨hfree, hroom, rfl⟩
      · exact ⟨hsound, hheld, rfl, rfl, fun _ _ => rfl, [], (List.append_nil _).symm,
          fun _ hc => absurd hc List.not_mem_nil, rfl, le_rfl⟩
      · have hmin : min (min 256 (cfg.maxBlocks - t.allocatedCount))
            (cfg.maxBlocks - t.allocatedCount) ≠ 0 := by omega
        obtain ⟨-, hgrown, hcount⟩ := growBlocks_eq hsound hmin
        have hrest : (growBlocks cfg (min 256 (cfg.maxBlocks - t.allocatedCount)) t).2.cachedBlockHashToBlock =
              t.cachedBlockHashToBlock ∧
            (growBlocks cfg (min 256 (cfg.maxBlocks - t.allocatedCount)) t).2.allocatedBlocks =
              t.allocatedBlocks ∧
            ∀ c < t.allocatedCount,
              (growBlocks cfg (min 256 (cfg.maxBlocks - t.allocatedCount)) t).2.block c = t.block c := by
          unfold growBlocks
          simp only [if_neg hmin, true_and]
          exact fun c hc => if_neg (by omega)
        refine ⟨hsound.grow _, hheld.move (.grow t _) hsound, hrest.1, hrest.2.1, hrest.2.2, _,
          hgrown, fun c hc => (List.mem_range'_1.mp hc).1, ?_, by omega⟩
        rw [hgrown, hcount, List.length_append, List.length_range']
        omega
    obtain ⟨hgs, hgheld, hgcached, hgalloc, hgblock, new, hgnew, hnew, hroom, hcount⟩ := hgsound
    have hbfree : b ∈ g.free := hgfree ▸ List.mem_cons_self
    have hb : b ∉ g.allocatedBlocks := hgs.free_apart b hbfree
    have hfree : (claim cfg b { g with freeBlockQueue := queue }).free = l := by
      rw [Manager.free, claim_queue]
      exact hqueue.toList_eq
    refine ⟨b, _, new, heq, ?_, hnew, ?_, ?_, ?_, hgalloc ▸ hb, ?_, fun c hc hne => ?_⟩
    · rw [hfree, ← hgfree, hgnew]
    · rw [claim_count]
      exact hcount
    · rw [hfree, claim_count, ← hroom, hgfree, List.length_cons]
    · rw [← hgcached]
      unfold claim
      split_ifs
      · exact maybeEvict_cached (s := { g with freeBlockQueue := queue }) (hgheld b hb)
      · rfl
    · rw [claim_allocated, ← hgalloc]
    · rw [claim_of_ne hne]
      exact hgblock c hc

/-! ## The walk -/

/-- The manager during a walk: `acquired` was taken, and the blocks of `restored` stand for
hashes that lead nowhere in `s`. -/
structure Walked (cfg : Config) (s t : Manager) (acquired : List ℕ)
    (restored : List (BlockHash × ℕ)) : Prop where
  moves : Moves cfg .namesHeld s t
  queue : ∃ new, restored.map Prod.snd ++ t.free = s.free ++ new ∧
    ∀ b ∈ new, s.allocatedCount ≤ b
  room : t.free.length + (cfg.maxBlocks - t.allocatedCount) + restored.length =
    s.free.length + (cfg.maxBlocks - s.allocatedCount)
  count_le : s.allocatedCount ≤ t.allocatedCount
  nodup : (restored.map Prod.snd).Nodup
  cached_of : ∀ p ∈ restored, t.cachedBlockHashToBlock p.1 = [p.2] ∧
    s.cachedBlockHashToBlock p.1 = []
  cached : ∀ h ∉ restored.map Prod.fst, t.cachedBlockHashToBlock h = s.cachedBlockHashToBlock h
  allocated : ∀ b, b ∈ t.allocatedBlocks ↔ b ∈ s.allocatedBlocks ∨ b ∈ restored.map Prod.snd
  block_of : ∀ p ∈ restored, (t.block p.2).refCount = acquired.count p.2 ∧
    (t.block p.2).blockHash = some p.1
  block : ∀ b < s.allocatedCount, b ∉ restored.map Prod.snd →
    (t.block b).refCount = (s.block b).refCount + acquired.count b ∧
      (t.block b).blockHash = (s.block b).blockHash
  acquired_mem : ∀ b ∈ acquired, b ∈ t.allocatedBlocks ∧ (t.block b).isNull = false

theorem Walked.start (s : Manager) : Walked cfg s s [] [] where
  moves := .refl s
  queue := ⟨[], (List.append_nil _).symm, fun _ hb => absurd hb List.not_mem_nil⟩
  room := rfl
  count_le := le_rfl
  nodup := List.nodup_nil
  cached_of _ hp := absurd hp List.not_mem_nil
  cached _ _ := rfl
  allocated _ := (or_iff_left List.not_mem_nil).symm
  block_of _ hp := absurd hp List.not_mem_nil
  block _ _ _ := ⟨(Int.add_zero _).symm, rfl⟩
  acquired_mem _ hb := absurd hb List.not_mem_nil

section Walk

variable {acquired : List ℕ} {restored : List (BlockHash × ℕ)}

namespace Walked

/-- A restored block was free or is new. -/
theorem restored_cases (hw : Walked cfg s t acquired restored) (hb : b ∈ restored.map Prod.snd) :
    b ∈ s.free ∨ s.allocatedCount ≤ b := by
  obtain ⟨new, heq, hnew⟩ := hw.queue
  have hmem : b ∈ s.free ++ new := heq ▸ List.mem_append_left _ hb
  exact (List.mem_append.mp hmem).imp id (hnew b)

theorem restored_notMem (hw : Walked cfg s t acquired restored) (hs : Sound cfg s)
    (hb : b ∈ restored.map Prod.snd) : b ∉ s.allocatedBlocks := fun hmem =>
  (hw.restored_cases hb).elim (fun hfree => hs.free_apart b hfree hmem) fun hle =>
    absurd (hs.allocated_lt b hmem) (Nat.not_lt.mpr hle)

/-- A reference is taken to an allocated block. -/
theorem acquire (hw : Walked cfg s t acquired restored) (hmem : b ∈ t.allocatedBlocks)
    (hnull : (t.block b).isNull = false) :
    Walked cfg s (t.edit b fun x => { x with refCount := x.refCount + 1 }) (acquired ++ [b])
      restored := by
  have hself : (t.edit b fun x => { x with refCount := x.refCount + 1 }).block b =
      { t.block b with refCount := (t.block b).refCount + 1 } := edit_self t b _
  have hcount : ∀ c, c ≠ b → (acquired ++ [b]).count c = acquired.count c := fun c hne => by
    rw [List.count_append, List.count_singleton, if_neg (by simpa using hne.symm), Nat.add_zero]
  have hcount' : (acquired ++ [b]).count b = acquired.count b + 1 := by
    rw [List.count_append, List.count_singleton_self]
  refine ⟨hw.moves.trans (moves_edit_refCount t b (· + 1)), hw.queue, hw.room, hw.count_le, hw.nodup,
    hw.cached_of, hw.cached, hw.allocated, fun p hp => ?_, fun c hc hnot => ?_, fun c hc => ?_⟩
  · obtain ⟨href, hhash⟩ := hw.block_of p hp
    refine ⟨?_, ?_⟩
    · rcases eq_or_ne p.2 b with hpb | hne
      · rw [hpb] at href ⊢
        rw [hself, hcount']
        simp only
        omega
      · rw [edit_of_ne t _ hne, hcount _ hne, href]
    · rw [edit_field t b p.2 (fun x => { x with refCount := x.refCount + 1 }) CacheBlock.blockHash rfl,
        hhash]
  · obtain ⟨href, hhash⟩ := hw.block c hc hnot
    refine ⟨?_, ?_⟩
    · rcases eq_or_ne c b with rfl | hne
      · rw [hself, hcount']
        simp only
        omega
      · rw [edit_of_ne t _ hne, hcount _ hne, href]
    · rw [edit_field t b c (fun x => { x with refCount := x.refCount + 1 }) CacheBlock.blockHash rfl,
        hhash]
  · rw [edit_field t b c (fun x => { x with refCount := x.refCount + 1 }) CacheBlock.isNull rfl]
    rcases List.mem_append.mp hc with hc | hc
    · exact hw.acquired_mem c hc
    · rw [List.mem_singleton.mp hc]
      exact ⟨hmem, hnull⟩

/-- A block is allocated for a hash that leads nowhere. -/
theorem restore (hw : Walked cfg s t acquired restored) (hs : Sound cfg s) (hheld : HashesHeld s)
    (hh : h ∉ restored.map Prod.fst) (hnone : s.cachedBlockHashToBlock h = []) {u : Manager}
    (heq : allocateBlock cfg t = (.returned (some b), u)) (n : ℕ) :
    b ∉ t.allocatedBlocks ∧
      Walked cfg s (restoreCold h n b u) acquired (restored ++ [(h, b)]) := by
  have ht := hs.moves hw.moves
  have htheld := hheld.moves hs hw.moves
  have hmem := mem_of_allocateBlock ht heq
  have hmoves : Moves cfg .namesHeld t (restoreCold h n b u) := by
    have halloc : Moves cfg .namesHeld t (allocateBlock cfg t).2 := moves_allocateBlock ht
    rw [heq] at halloc
    exact halloc.trans (moves_restoreCold h n hmem)
  rcases allocateBlock_effect ht htheld with ⟨-, -, heq'⟩ |
    ⟨b', u', new, heq', hqueue, hnew, hcount, hroom, hcached, hb, halloc, hblock⟩
  · rw [heq'] at heq
    exact nomatch heq
  · rw [heq'] at heq
    obtain ⟨hbb, rfl⟩ := Prod.mk.inj heq
    obtain rfl : b' = b := by simpa using hbb
    have hcold : (restoreCold h n b' u').block b' = { u'.block b' with
        tokenCount := n, refCount := 0, blockHash := some h, contents := some h } := by
      unfold restoreCold
      rw [store_self, edit_self]
    have hother : ∀ c < t.allocatedCount, c ≠ b' →
        (restoreCold h n b' u').block c = t.block c := fun c hc hne => by
      unfold restoreCold
      rw [store_of_ne _ _ hne, edit_of_ne _ _ hne, hblock c hc hne]
    have hnot : ∀ p ∈ restored, p.2 ≠ b' ∧ p.2 < t.allocatedCount := fun p hp => by
      have hpmem := (hw.allocated p.2).mpr (.inr (List.mem_map_of_mem hp))
      exact ⟨fun hpb => hb (hpb ▸ hpmem), ht.allocated_lt p.2 hpmem⟩
    have hacq : acquired.count b' = 0 :=
      List.count_eq_zero.mpr fun hmem' => hb (hw.acquired_mem b' hmem').1
    have hmap : ∀ h', (restoreCold h n b' u').cachedBlockHashToBlock h' =
        if h' = h then [b'] else t.cachedBlockHashToBlock h' := fun h' => by
      have hempty : u'.cachedBlockHashToBlock h = [] := by
        rw [hcached, hw.cached h hh, hnone]
      change Function.update u'.cachedBlockHashToBlock h _ h' = _
      rcases eq_or_ne h' h with rfl | hne
      · rw [Function.update_self, if_pos rfl]
        change (if b' ∈ u'.cachedBlockHashToBlock h' then u'.cachedBlockHashToBlock h'
          else u'.cachedBlockHashToBlock h' ++ [b']) = [b']
        rw [hempty]
        rfl
      · rw [Function.update_of_ne hne, if_neg hne, hcached]
    obtain ⟨new', heqs, hnew'⟩ := hw.queue
    refine ⟨hb, hw.moves.trans hmoves, ?_, ?_, ?_, ?_, ?_, ?_, ?_, ?_, ?_, ?_⟩
    · refine ⟨new' ++ new, ?_, fun c hc => (List.mem_append.mp hc).elim (hnew' c) fun hc =>
        hw.count_le.trans (hnew c hc)⟩
      rw [List.map_append, List.append_assoc]
      change restored.map Prod.snd ++ b' :: u'.free = _
      rw [hqueue, ← List.append_assoc, heqs, List.append_assoc]
    · rw [List.length_append, List.length_singleton]
      change u'.free.length + (cfg.maxBlocks - u'.allocatedCount) + (restored.length + 1) = _
      have := hw.room
      omega
    · exact hw.count_le.trans hcount
    · rw [List.map_append]
      refine List.nodup_append.mpr ⟨hw.nodup, List.nodup_singleton b', ?_⟩
      rintro c hc d hd rfl
      rw [List.mem_singleton.mp hd] at hc
      exact hb ((hw.allocated b').mpr (.inr hc))
    · intro p hp
      rcases List.mem_append.mp hp with hp | hp
      · have hne : p.1 ≠ h := fun hph => hh (hph ▸ List.mem_map_of_mem hp)
        rw [hmap, if_neg hne]
        exact hw.cached_of p hp
      · rw [List.mem_singleton.mp hp, hmap, if_pos rfl]
        exact ⟨rfl, hnone⟩
    · intro h' hh'
      rw [List.map_append, List.mem_append, not_or] at hh'
      rw [hmap, if_neg fun hsame => hh'.2 (by rw [hsame]; exact List.mem_singleton_self _)]
      exact hw.cached h' hh'.1
    · intro c
      change c ∈ u'.allocatedBlocks ↔ _
      rw [halloc, Finset.mem_insert, hw.allocated, List.map_append, List.mem_append, or_comm,
        or_assoc]
      simp
    · intro p hp
      rcases List.mem_append.mp hp with hp | hp
      · rw [hother p.2 (hnot p hp).2 (hnot p hp).1]
        exact hw.block_of p hp
      · rw [List.mem_singleton.mp hp, hcold, hacq]
        exact ⟨rfl, rfl⟩
    · intro c hc hcnot
      rw [List.map_append, List.mem_append, not_or] at hcnot
      have hne : c ≠ b' := fun hcb => hcnot.2 (hcb ▸ List.mem_singleton_self _)
      rw [hother c (hc.trans_le hw.count_le) hne]
      exact hw.block c hc hcnot.1
    · intro c hc
      obtain ⟨hcmem, hcnull⟩ := hw.acquired_mem c hc
      have hne : c ≠ b' := fun hcb => hb (hcb ▸ hcmem)
      rw [hother c (ht.allocated_lt c hcmem) hne]
      refine ⟨?_, hcnull⟩
      change c ∈ u'.allocatedBlocks
      rw [halloc]
      exact Finset.mem_insert_of_mem hcmem

end Walked

/-- What was taken comes back when it is freed. -/
def HeldSoFar (s : Manager) (acquired : List ℕ) (restored : List (BlockHash × ℕ)) : Prop :=
  (∀ b ∈ acquired, b ∈ s.allocatedBlocks → 1 ≤ (s.block b).refCount) ∧
    ∀ b ∈ restored.map Prod.snd, b < s.allocatedCount → (s.block b).refCount = 0

/-- What freeing does to a restored block. -/
theorem Walked.dropped (hw : Walked cfg s t acquired restored)
    (hall : ∀ b ∈ restored.map Prod.snd, b ∈ acquired) {p : BlockHash × ℕ} (hp : p ∈ restored) :
    p.2 ∉ (rollback acquired t).allocatedBlocks ∧
      ((rollback acquired t).block p.2).refCount = 0 ∧
      p.2 ∉ (rollback acquired t).cachedBlockHashToBlock p.1 := by
  obtain ⟨href, hhash⟩ := hw.block_of p hp
  have hacq := hall p.2 (List.mem_map_of_mem hp)
  obtain ⟨hmem, hnull⟩ := hw.acquired_mem p.2 hacq
  obtain ⟨hnot, hzero, hcached⟩ := rollback_dropped hmem hnull hacq href.le
  refine ⟨hnot, hzero ?_, hcached p.1 hhash⟩
  have := List.count_pos_iff.mpr hacq
  omega

/-- What freeing does to a block that was allocated before. -/
theorem Walked.kept (hw : Walked cfg s t acquired restored) (hs : Sound cfg s)
    (hb : b ∈ acquired) (hmem : b ∈ s.allocatedBlocks) :
    (1 ≤ (s.block b).refCount →
      ((rollback acquired t).block b).refCount = (s.block b).refCount ∧
        b ∈ (rollback acquired t).allocatedBlocks ∧ acquired.count b < (t.block b).refCount) ∧
    ((s.block b).refCount ≤ 0 → b ∉ (rollback acquired t).allocatedBlocks) := by
  have hnot : b ∉ restored.map Prod.snd := fun hr => hw.restored_notMem hs hr hmem
  have href := (hw.block b (hs.allocated_lt b hmem) hnot).1
  obtain ⟨htmem, hnull⟩ := hw.acquired_mem b hb
  refine ⟨fun hpos => ?_, fun hzero => (rollback_dropped htmem hnull hb (by omega)).1⟩
  have hlt : (acquired.count b : ℤ) < (t.block b).refCount := by omega
  obtain ⟨hkept, hkmem⟩ := rollback_kept htmem hnull hlt
  exact ⟨by omega, hkmem, hlt⟩

/-- Freeing what was taken restores the state when it was held, and only then. -/
theorem restored_iff (hw : Walked cfg s t acquired restored) (hs : Sound cfg s)
    (hall : ∀ b ∈ restored.map Prod.snd, b ∈ acquired) :
    Restored cfg s (rollback acquired t) ↔ HeldSoFar s acquired restored := by
  constructor
  · rintro ⟨hblocks, -⟩
    refine ⟨fun b hb hmem => ?_, fun b hb hlt => ?_⟩
    · by_contra hzero
      exact (hw.kept hs hb hmem).2 (by omega)
        ((hblocks b (hs.allocated_lt b hmem)).2.1.mpr hmem)
    · obtain ⟨p, hp, rfl⟩ := List.mem_map.mp hb
      rw [← (hblocks p.2 hlt).1]
      exact (hw.dropped hall hp).2.1
  · rintro ⟨hacquired, hrestored⟩
    have hmap : (rollback acquired t).cachedBlockHashToBlock = s.cachedBlockHashToBlock := by
      funext h
      obtain ⟨keep, hkeep⟩ := rollback_filter t acquired h
      by_cases hh : h ∈ restored.map Prod.fst
      · obtain ⟨p, hp, rfl⟩ := List.mem_map.mp hh
        have hgone := (hw.dropped hall hp).2.2
        obtain ⟨hone, hnone⟩ := hw.cached_of p hp
        rw [hkeep, hone] at hgone ⊢
        rw [hnone]
        exact List.filter_eq_nil_iff.mpr fun c hc hkeepc => hgone
          (List.mem_filter.mpr ⟨List.mem_singleton_self _, List.mem_singleton.mp hc ▸ hkeepc⟩)
      · rw [hkeep, ← hw.cached h hh]
        refine List.filter_eq_self.mpr fun c hc => ?_
        have hfound : c ∈ (rollback acquired t).cachedBlockHashToBlock h :=
          rollback_cached hc fun hhash hcacq => ?_
        · rw [hkeep] at hfound
          exact (List.mem_filter.mp hfound).2
        · have htmem := (hw.allocated c).mp (hw.acquired_mem c hcacq).1
          rcases htmem with hmem | hr
          · exact ((hw.kept hs hcacq hmem).1 (hacquired c hcacq hmem)).2.2
          · obtain ⟨p, hp, rfl⟩ := List.mem_map.mp hr
            rw [(hw.block_of p hp).2] at hhash
            exact absurd (List.mem_map_of_mem hp) (Option.some.inj hhash ▸ hh)
    have hplace : ∀ b < s.allocatedCount,
        ((rollback acquired t).block b).refCount = (s.block b).refCount ∧
          (b ∈ (rollback acquired t).allocatedBlocks ↔ b ∈ s.allocatedBlocks) := by
      intro b hlt
      by_cases hr : b ∈ restored.map Prod.snd
      · obtain ⟨p, hp, rfl⟩ := List.mem_map.mp hr
        obtain ⟨hnot, hzero, -⟩ := hw.dropped hall hp
        exact ⟨hzero.trans (hrestored p.2 hr hlt).symm,
          iff_of_false hnot (hw.restored_notMem hs hr)⟩
      · by_cases hb : b ∈ acquired
        · have hmem := ((hw.allocated b).mp (hw.acquired_mem b hb).1).resolve_right hr
          obtain ⟨href, hkmem, -⟩ := (hw.kept hs hb hmem).1 (hacquired b hb hmem)
          exact ⟨href, iff_of_true hkmem hmem⟩
        · obtain ⟨hblock, hiff⟩ := rollback_of_notMem (s := t) hb
          rw [hblock, hiff, hw.allocated, (hw.block b hlt hr).1, List.count_eq_zero.mpr hb]
          exact ⟨Int.add_zero _, or_iff_left hr⟩
    refine ⟨fun b hlt => ⟨(hplace b hlt).1, (hplace b hlt).2, fun h => by rw [hmap]⟩, fun h => ?_⟩
    · unfold getCachedBlock Manager.getBlock
      rw [hmap]

/-! ## One hash -/

/-- Where the walk is blocked, it stops. -/
theorem Walked.stops (hw : Walked cfg s t acquired restored) (hs : Sound cfg s)
    (hheld : HashesHeld s) {hasBlock : BlockHash → Bool}
    (hblocked : Blocked cfg hasBlock s (restored.map Prod.fst) h) (n : ℕ) :
    findOrRestore cfg hasBlock h n t = (.returned none, t) ∨
      ∃ b, findOrRestore cfg hasBlock h n t = (.returned (some b), t) ∧
        acquireCachedBlock b h t = (false, t) := by
  obtain ⟨hh, hcases⟩ := hblocked
  have ht := hs.moves hw.moves
  have hget : t.getBlock h = s.getBlock h := by
    unfold Manager.getBlock
    rw [hw.cached h hh]
  unfold findOrRestore
  rw [hget]
  rcases hfound : s.getBlock h with _ | b
  · left
    rw [hfound] at hcases
    dsimp only at hcases ⊢
    rcases hcases with hdisk | hfull
    · rw [hdisk, if_neg Bool.false_ne_true]
    · split_ifs
      · unfold restoreBlock
        rcases allocateBlock_effect ht (hheld.moves hs hw.moves) with ⟨-, -, heq⟩ |
          ⟨b, u, new, -, -, -, -, hroom, -⟩
        · rw [heq]
        · have := hw.room
          rw [List.length_map] at hfull
          omega
      · rfl
  · right
    rw [hfound] at hcases
    refine ⟨b, rfl, ?_⟩
    unfold acquireCachedBlock
    rw [if_pos]
    by_contra hacquired
    rw [not_or, not_or, not_not, not_not] at hacquired
    obtain ⟨hmem, hnull, hhash⟩ := hacquired
    rcases (hw.allocated b).mp hmem with hsmem | hr
    · have hnot : b ∉ restored.map Prod.snd := fun hr => hw.restored_notMem hs hr hsmem
      rw [(hw.block b (hs.allocated_lt b hsmem) hnot).2] at hhash
      rcases hcases with hnotMem | hsnull | hother
      · exact hnotMem hsmem
      · exact hnull ((ht.isNull_iff b).mpr ((hs.isNull_iff b).mp hsnull))
      · exact hother hhash
    · obtain ⟨p, hp, rfl⟩ := List.mem_map.mp hr
      rw [(hw.block_of p hp).2] at hhash
      exact hh (Option.some.inj hhash ▸ List.mem_map_of_mem hp)

/-- Where the walk is not blocked, it goes on. -/
theorem Walked.goesOn (hw : Walked cfg s t acquired restored) (hs : Sound cfg s)
    (hheld : HashesHeld s) (hall : ∀ b ∈ restored.map Prod.snd, b ∈ acquired)
    {hasBlock : BlockHash → Bool} (hfree : ¬ Blocked cfg hasBlock s (restored.map Prod.fst) h)
    (n : ℕ) :
    ∃ b u v restored', findOrRestore cfg hasBlock h n t = (.returned (some b), u) ∧
      acquireCachedBlock b h u = (true, v) ∧ Walked cfg s v (acquired ++ [b]) restored' ∧
      (∀ c ∈ restored'.map Prod.snd, c ∈ acquired ++ [b]) ∧
      restored'.map Prod.fst = nextRestored s (restored.map Prod.fst) h ∧
      (HeldSoFar s (acquired ++ [b]) restored' ↔
        HeldSoFar s acquired restored ∧ Held s (restored.map Prod.fst) h) := by
  have ht := hs.moves hw.moves
  -- A block that is found is acquired as it is.
  have hfound : ∀ b, t.getBlock h = some b → b ∈ t.allocatedBlocks →
      (t.block b).isNull = false → (t.block b).blockHash = some h →
      findOrRestore cfg hasBlock h n t = (.returned (some b), t) ∧
        acquireCachedBlock b h t =
          (true, t.edit b fun x => { x with refCount := x.refCount + 1 }) := by
    intro b hget hmem hnull hhash
    constructor
    · unfold findOrRestore
      rw [hget]
    · unfold acquireCachedBlock
      rw [if_neg]
      rw [not_or, not_or, not_not, not_not, hnull]
      exact ⟨hmem, Bool.false_ne_true, hhash⟩
  have hall' : ∀ b, ∀ c ∈ restored.map Prod.snd, c ∈ acquired ++ [b] :=
    fun b c hc => List.mem_append_left _ (hall c hc)
  by_cases hh : h ∈ restored.map Prod.fst
  · obtain ⟨p, hp, rfl⟩ := List.mem_map.mp hh
    have hr : p.2 ∈ restored.map Prod.snd := List.mem_map_of_mem hp
    have hmem := (hw.allocated p.2).mpr (.inr hr)
    have hsnot := hw.restored_notMem hs hr
    have hnull : (t.block p.2).isNull = false := (hw.acquired_mem p.2 (hall p.2 hr)).2
    have hget : t.getBlock p.1 = some p.2 := by
      unfold Manager.getBlock
      rw [(hw.cached_of p hp).1]
      rfl
    obtain ⟨hfind, hacquire⟩ := hfound p.2 hget hmem hnull (hw.block_of p hp).2
    refine ⟨p.2, t, _, restored, hfind, hacquire, hw.acquire hmem hnull, hall' p.2, ?_, ?_⟩
    · rw [nextRestored, if_pos (.inl hh)]
    · rw [and_iff_left (show Held s _ _ from .inl hh)]
      refine and_congr_left fun _ => ⟨fun hheld b hb => hheld b (List.mem_append_left _ hb),
        fun hheld b hb hbmem => ?_⟩
      rcases List.mem_append.mp hb with hb | hb
      · exact hheld b hb hbmem
      · exact absurd (List.mem_singleton.mp hb ▸ hbmem) hsnot
  · have hget : t.getBlock h = s.getBlock h := by
      unfold Manager.getBlock
      rw [hw.cached h hh]
    rcases hsget : s.getBlock h with _ | b
    · have hempty : s.cachedBlockHashToBlock h = [] := List.head?_eq_none_iff.mp hsget
      have hopen : hasBlock h = true ∧
          restored.length < s.free.length + (cfg.maxBlocks - s.allocatedCount) := by
        by_contra hno
        refine hfree ⟨hh, ?_⟩
        rw [hsget]
        dsimp only
        rw [List.length_map]
        rw [not_and_or, Bool.not_eq_true, not_lt] at hno
        exact hno
      obtain ⟨b, u, heq⟩ : ∃ b u, allocateBlock cfg t = (.returned (some b), u) := by
        rcases allocateBlock_effect ht (hheld.moves hs hw.moves) with ⟨hnone, hfull, -⟩ |
          ⟨b, u, -, heq, -⟩
        · have := hw.room
          rw [hnone, hfull, List.length_nil] at this
          omega
        · exact ⟨b, u, heq⟩
      obtain ⟨hb, hw'⟩ := hw.restore hs hheld hh hempty heq n
      have hr : b ∈ (restored ++ [(h, b)]).map Prod.snd :=
        List.mem_map_of_mem (List.mem_append_right restored (List.mem_singleton_self (h, b)))
      have hmem := (hw'.allocated b).mpr (.inr hr)
      have hnull : ((restoreCold h n b u).block b).isNull = false := by
        rw [Bool.eq_false_iff, ne_eq, (hs.moves hw'.moves).isNull_iff]
        exact fun hzero => hb (hzero ▸ ht.zero_mem)
      have hhash := (hw'.block_of (h, b) (List.mem_append_right _ (List.mem_singleton_self _))).2
      have hw'' := hw'.acquire hmem hnull
      refine ⟨b, restoreCold h n b u, _, _, ?_, ?_, hw'', fun c hc => ?_, ?_, ?_⟩
      · unfold findOrRestore
        rw [hget, hsget]
        dsimp only
        rw [if_pos hopen.1]
        unfold restoreBlock
        rw [heq]
      · unfold acquireCachedBlock
        rw [if_neg]
        rw [not_or, not_or, not_not, not_not, hnull]
        exact ⟨hmem, Bool.false_ne_true, hhash⟩
      · rw [List.map_append, List.mem_append] at hc
        exact hc.elim (hall' b c) fun hc =>
          List.mem_append_right _ (List.mem_singleton.mp hc ▸ List.mem_singleton_self b)
      · rw [nextRestored, if_neg (by rw [hsget]; exact fun hor => hor.elim hh nofun),
          List.map_append]
        rfl
      · have hsnot := hw'.restored_notMem hs hr
        -- The block is the next of the queue, or new.
        have hheldb : Held s (restored.map Prod.fst) h ↔
            (b < s.allocatedCount → (s.block b).refCount = 0) := by
          obtain ⟨new, hqueue, hnew⟩ := hw''.queue
          have hindex : (s.free ++ new)[restored.length]? = some b := by
            rw [← hqueue, List.map_append, List.append_assoc,
              List.getElem?_append_right (by rw [List.length_map]), List.length_map, Nat.sub_self]
            rfl
          unfold Held
          rw [hsget, or_iff_right hh, List.length_map]
          dsimp only
          constructor
          · intro hqueued hlt
            rcases Nat.lt_or_ge restored.length s.free.length with hin | hout
            · rw [List.getElem?_append_left hin] at hindex
              exact hqueued b hindex
            · rw [List.getElem?_append_right hout] at hindex
              exact absurd hlt (Nat.not_lt.mpr (hnew b (List.mem_of_getElem? hindex)))
          · intro hzero c hc
            obtain ⟨hin, -⟩ := List.getElem?_eq_some_iff.mp hc
            rw [List.getElem?_append_left hin, hc] at hindex
            obtain rfl := Option.some.inj hindex
            exact hzero (hs.free_lt c (List.mem_of_getElem? hc))
        rw [hheldb]
        constructor
        · refine fun hheld => ⟨⟨fun c hc => hheld.1 c (List.mem_append_left _ hc), fun c hc => ?_⟩,
            hheld.2 b hr⟩
          exact hheld.2 c (by rw [List.map_append]; exact List.mem_append_left _ hc)
        · rintro ⟨⟨hacquired, hrestored⟩, hzero⟩
          refine ⟨fun c hc hcmem => ?_, fun c hc => ?_⟩
          · rcases List.mem_append.mp hc with hc | hc
            · exact hacquired c hc hcmem
            · exact absurd (List.mem_singleton.mp hc ▸ hcmem) hsnot
          · rw [List.map_append, List.mem_append] at hc
            rcases hc with hc | hc
            · exact hrestored c hc
            · exact List.mem_singleton.mp hc ▸ hzero
    · have hopen : b ∈ s.allocatedBlocks ∧ (s.block b).isNull = false ∧
          (s.block b).blockHash = some h := by
        by_contra hno
        refine hfree ⟨hh, ?_⟩
        rw [hsget]
        dsimp only
        by_contra hnone
        rw [not_or, not_or, not_not, not_not, Bool.not_eq_true] at hnone
        exact hno hnone
      obtain ⟨hmem, hnull, hhash⟩ := hopen
      have hnot : b ∉ restored.map Prod.snd := fun hr => hw.restored_notMem hs hr hmem
      have htmem := (hw.allocated b).mpr (.inl hmem)
      have htnull : (t.block b).isNull = false := by
        rw [Bool.eq_false_iff, ne_eq, ht.isNull_iff, ← hs.isNull_iff, hnull]
        exact Bool.false_ne_true
      have hthash := (hw.block b (hs.allocated_lt b hmem) hnot).2.trans hhash
      obtain ⟨hfind, hacquire⟩ := hfound b (hget.trans hsget) htmem htnull hthash
      refine ⟨b, t, _, restored, hfind, hacquire, hw.acquire htmem htnull, hall' b, ?_, ?_⟩
      · rw [nextRestored, if_pos (.inr (by rw [hsget]; rfl))]
      · have hheldb : Held s (restored.map Prod.fst) h ↔ 1 ≤ (s.block b).refCount := by
          unfold Held
          rw [hsget, or_iff_right hh]
        rw [hheldb]
        constructor
        · exact fun hheld => ⟨⟨fun c hc => hheld.1 c (List.mem_append_left _ hc), hheld.2⟩,
            hheld.1 b (List.mem_append_right _ (List.mem_singleton_self b)) hmem⟩
        · rintro ⟨⟨hacquired, hrestored⟩, hpos⟩
          refine ⟨fun c hc hcmem => ?_, hrestored⟩
          rcases List.mem_append.mp hc with hc | hc
          · exact hacquired c hc hcmem
          · exact List.mem_singleton.mp hc ▸ hpos

/-! ## The fetch -/

/-- The walk fails where its condition says, and what it took comes back when it was held. -/
theorem fetchFrom_spec (hw : Walked cfg s t acquired restored) (hs : Sound cfg s)
    (hheld : HashesHeld s) (hall : ∀ b ∈ restored.map Prod.snd, b ∈ acquired)
    (hasBlock : BlockHash → Bool) (chain : List (BlockHash × ℕ)) :
    ((fetchFrom cfg hasBlock chain acquired t).1 = .returned none ↔
      Fails cfg hasBlock s (restored.map Prod.fst) (chain.map Prod.fst)) ∧
    (Fails cfg hasBlock s (restored.map Prod.fst) (chain.map Prod.fst) →
      (Restored cfg s (fetchFrom cfg hasBlock chain acquired t).2 ↔
        HeldSoFar s acquired restored ∧
          HeldBefore cfg hasBlock s (restored.map Prod.fst) (chain.map Prod.fst))) := by
  induction chain generalizing t acquired restored with
  | nil => exact ⟨iff_of_false nofun id, False.elim⟩
  | cons link chain ih =>
    obtain ⟨h, n⟩ := link
    rw [List.map_cons]
    by_cases hblocked : Blocked cfg hasBlock s (restored.map Prod.fst) h
    · have hstop : fetchFrom cfg hasBlock ((h, n) :: chain) acquired t =
          (.returned none, rollback acquired t) := by
        unfold fetchFrom
        rcases hw.stops hs hheld hblocked n with hfind | ⟨b, hfind, hacquire⟩
        · rw [hfind]
        · rw [hfind]
          dsimp only
          rw [hacquire]
      rw [hstop]
      refine ⟨iff_of_true rfl (.inl hblocked), fun _ => ?_⟩
      exact (restored_iff hw hs hall).trans (and_iff_left (.inl hblocked)).symm
    · obtain ⟨b, u, v, restored', hfind, hacquire, hw', hall', hnext, hheldSoFar⟩ :=
        hw.goesOn hs hheld hall hblocked n
      have hgo : fetchFrom cfg hasBlock ((h, n) :: chain) acquired t =
          fetchFrom cfg hasBlock chain (acquired ++ [b]) v := by
        rw [fetchFrom, hfind]
        dsimp only
        rw [hacquire]
      obtain ⟨hfails, hundone⟩ := ih hw' hall'
      rw [hnext] at hfails hundone
      rw [hgo]
      simp only [Fails, HeldBefore, hblocked, false_or]
      refine ⟨hfails, fun hlater => ?_⟩
      rw [hundone hlater, hheldSoFar, and_assoc]

end Walk

/-- A fetch leaves no trace when it fails. -/
def AllOrNothing (cfg : Config) (tokens : List ℤ) (extra : ExtraKeys)
    (hasBlock : Option (BlockHash → Bool)) (s : Manager) : Prop :=
  (fetchExactPrefix cfg tokens extra hasBlock s).1 = .returned none →
    Restored cfg s (fetchExactPrefix cfg tokens extra hasBlock s).2

/-- A failed fetch leaves no trace exactly when, before a hash of the chain that stops it, it
takes only blocks that are held, and free ones whose count is 0. -/
theorem fetch_undone_iff {cfg : Config} {s : Manager} (hs : Reachable cfg .namesHeld s)
    (tokens : List ℤ) (extra : ExtraKeys) (hasBlock : Option (BlockHash → Bool)) :
    AllOrNothing cfg tokens extra hasBlock s ↔
      ∀ disk chain, tokens ≠ [] → hasBlock = some disk →
        exactPrefixHashes cfg tokens extra = some chain →
        Fails cfg disk s [] (chain.map Prod.fst) → HeldBefore cfg disk s [] (chain.map Prod.fst) := by
  have hsame : Restored cfg s s := ⟨fun _ _ => ⟨rfl, Iff.rfl, fun _ => Iff.rfl⟩, fun _ => rfl⟩
  unfold AllOrNothing fetchExactPrefix
  rcases tokens with _ | ⟨token, tokens⟩
  · exact iff_of_true (fun _ => hsame) fun _ _ hne => absurd rfl hne
  · rcases hasBlock with _ | disk
    · exact iff_of_true (fun _ => hsame) fun _ _ _ heq => nomatch heq
    · dsimp only
      rcases exactPrefixHashes cfg (token :: tokens) extra with _ | chain
      · exact iff_of_true nofun fun _ _ _ _ heq => nomatch heq
      · obtain ⟨hfails, hundone⟩ := fetchFrom_spec (Walked.start s) hs.sound hs.hashesHeld
          (fun _ hb => absurd hb List.not_mem_nil) disk chain
        have hheldNone : HeldSoFar s [] [] :=
          ⟨fun _ hb => absurd hb List.not_mem_nil, fun _ hb => absurd hb List.not_mem_nil⟩
        dsimp only
        rw [hfails]
        constructor
        · intro h disk' chain' _ hdisk hchain hfail
          obtain rfl := Option.some.inj hdisk
          obtain rfl := Option.some.inj hchain
          exact ((hundone hfail).mp (h hfail)).2
        · exact fun h hfail => (hundone hfail).mpr
            ⟨hheldNone, h disk chain (List.cons_ne_nil _ _) rfl rfl hfail⟩

/-- A pool of two blocks, of one token each. -/
def tokenConfig : Config where
  blockSize := 1
  maxBlocks := 2
  enableCaching := true
  modelName := []
  initialBlocks := 2
  sha256 bytes := bytes

/-- The first token's block is cached without a reference, and the second one's is nowhere. -/
def cachedFirst : List Event :=
  [.allocateBlock, .store (computeBlockHash tokenConfig none [1] none) 1, .releaseForEviction [1]]

theorem cachedFirst_reachable (hs : init tokenConfig = some s) :
    Reachable tokenConfig .namesHeld (cachedFirst.foldl (apply tokenConfig) s) := by
  have hmem : (init tokenConfig).map (fun s =>
      decide (1 ∈ (apply tokenConfig s .allocateBlock).allocatedBlocks)) = some true := by
    decide +kernel
  rw [hs] at hmem
  have hallocate : Reachable tokenConfig .namesHeld (apply tokenConfig s .allocateBlock) :=
    .step .allocateBlock (.start hs) trivial
  have hstore : Reachable tokenConfig .namesHeld _ :=
    .step (.store (computeBlockHash tokenConfig none [1] none) 1) hallocate
      ⟨nofun, fun _ => of_decide_eq_true (Option.some.inj hmem)⟩
  exact .step (.releaseForEviction [1]) hstore trivial

/-- A fetch of the two tokens. -/
theorem fetch_undone_iff_cached :
    ∃ s, init tokenConfig = some s ∧
      (AllOrNothing tokenConfig [1, 2] {} (some fun _ => false)
          (cachedFirst.foldl (apply tokenConfig) s) ↔
        ∀ disk chain, [(1 : ℤ), 2] ≠ [] → some (fun _ : BlockHash => false) = some disk →
          exactPrefixHashes tokenConfig [1, 2] {} = some chain →
          Fails tokenConfig disk (cachedFirst.foldl (apply tokenConfig) s) [] (chain.map Prod.fst) →
          HeldBefore tokenConfig disk (cachedFirst.foldl (apply tokenConfig) s) []
            (chain.map Prod.fst)) :=
  ⟨_, rfl, fetch_undone_iff (cachedFirst_reachable rfl) [1, 2] {} (some fun _ => false)⟩

/-- The fetch fails at the second block, and the first one is not found any more. -/
theorem fetch_loses_cached :
    ∃ s, Reachable tokenConfig .namesHeld s ∧
      getCachedBlock tokenConfig (computeBlockHash tokenConfig none [1] none) s = some 1 ∧
      (fetchExactPrefix tokenConfig [1, 2] {} (some fun _ => false) s).1 = .returned none ∧
      getCachedBlock tokenConfig (computeBlockHash tokenConfig none [1] none)
        (fetchExactPrefix tokenConfig [1, 2] {} (some fun _ => false) s).2 = none ∧
      ¬ AllOrNothing tokenConfig [1, 2] {} (some fun _ => false) s := by
  obtain ⟨hbefore, hfails, hafter⟩ :
      (init tokenConfig).map (fun s => getCachedBlock tokenConfig
          (computeBlockHash tokenConfig none [1] none) (cachedFirst.foldl (apply tokenConfig) s)) =
        some (some 1) ∧
      (init tokenConfig).map (fun s => (fetchExactPrefix tokenConfig [1, 2] {}
          (some fun _ => false) (cachedFirst.foldl (apply tokenConfig) s)).1) =
        some (.returned none) ∧
      (init tokenConfig).map (fun s => getCachedBlock tokenConfig
          (computeBlockHash tokenConfig none [1] none) (fetchExactPrefix tokenConfig [1, 2] {}
            (some fun _ => false) (cachedFirst.foldl (apply tokenConfig) s)).2) = some none := by
    decide +kernel
  rcases hs : init tokenConfig with _ | s
  · rw [hs] at hbefore
    exact nomatch hbefore
  · rw [hs] at hbefore hfails hafter
    obtain hbefore := Option.some.inj hbefore
    obtain hfails := Option.some.inj hfails
    obtain hafter := Option.some.inj hafter
    refine ⟨_, cachedFirst_reachable hs, hbefore, hfails, hafter, fun h => ?_⟩
    have := (h hfails).2 (computeBlockHash tokenConfig none [1] none)
    exact nomatch (hafter.symm.trans (this.trans hbefore))

end AI2Apps.Omlx.PagedCache
