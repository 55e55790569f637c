import AI2Apps.Omlx.PagedCacheMoves

/-!
# Runs of the manager

Each call is made of moves, so what the moves keep holds in every state of a run.

* `allocateBlock_cases`, `getNewBlocks_cases`: what allocation does.
* `Allowed`, `Reachable`: runs that keep to a care.
* `moves_apply`: a call is made of moves.
* `Reachable.sound`: the queue and the allocated blocks stay apart.
-/

namespace AI2Apps.Omlx.PagedCache

variable {cfg : Config} {care : Care} {s t : Manager} {b : ℕ} {queue : Links ℕ} {l : List ℕ}

/-! ## Allocation -/

theorem Sound.count_eq (h : Sound cfg s) : s.freeBlockQueue.count = s.free.length := h.queue.count

/-- Growing the pool. -/
theorem growBlocks_eq (h : Sound cfg s) {n : ℕ} (hn : min n (cfg.maxBlocks - s.allocatedCount) ≠ 0) :
    (growBlocks cfg n s).1 = min n (cfg.maxBlocks - s.allocatedCount) ∧
      (growBlocks cfg n s).2.free =
        s.free ++ List.range' s.allocatedCount (min n (cfg.maxBlocks - s.allocatedCount)) ∧
      (growBlocks cfg n s).2.allocatedCount =
        s.allocatedCount + min n (cfg.maxBlocks - s.allocatedCount) := by
  unfold growBlocks
  simp only [if_neg hn, true_and, and_true]
  exact (h.grow_queue _).toList_eq

/-- Taking the first block of the queue. -/
theorem takeBlock_eq (h : Sound cfg s) (hfree : s.free = b :: l) :
    ∃ queue, queue.Holds l ∧
      takeBlock cfg s = (.returned (some b), claim cfg b { s with freeBlockQueue := queue }) := by
  have hqueue := h.queue
  rw [hfree] at hqueue
  obtain ⟨queue, hpop, hqueue⟩ := Links.popleft_cons hqueue
  refine ⟨queue, hqueue, ?_⟩
  unfold takeBlock
  rw [hpop]

/-- A block is allocated from the queue, which grows first if it is empty and may grow. -/
theorem allocateBlock_cases (h : Sound cfg s) :
    s.free = [] ∧ s.allocatedCount = cfg.maxBlocks ∧ allocateBlock cfg s = (.returned none, s) ∨
      ∃ g b l queue,
        (g = s ∨ s.free = [] ∧ s.allocatedCount < cfg.maxBlocks ∧
          g = (growBlocks cfg (min 256 (cfg.maxBlocks - s.allocatedCount)) s).2) ∧
        g.free = b :: l ∧ queue.Holds l ∧
        allocateBlock cfg s =
          (.returned (some b), claim cfg b { g with freeBlockQueue := queue }) := by
  have hcount := h.count_eq
  have hle := h.count_le
  rcases hfree : s.free with _ | ⟨b, l⟩
  · rw [hfree, List.length_nil, Int.natCast_zero] at hcount
    have hunfold : allocateBlock cfg s =
        if (growBlocks cfg (min 256 (cfg.maxBlocks - s.allocatedCount)) s).1 = 0 then
          (.returned none, (growBlocks cfg (min 256 (cfg.maxBlocks - s.allocatedCount)) s).2)
        else takeBlock cfg (growBlocks cfg (min 256 (cfg.maxBlocks - s.allocatedCount)) s).2 := by
      unfold allocateBlock
      rw [if_pos hcount]
    rcases hle.eq_or_lt with hfull | hroom
    · left
      refine ⟨rfl, hfull, ?_⟩
      rw [hunfold, hfull]
      simp [growBlocks, hfull]
    · right
      have hmin : min (min 256 (cfg.maxBlocks - s.allocatedCount))
          (cfg.maxBlocks - s.allocatedCount) ≠ 0 := by omega
      obtain ⟨hgrown, hgfree, -⟩ := growBlocks_eq h hmin
      obtain ⟨n, hn⟩ := Nat.exists_eq_succ_of_ne_zero hmin
      rw [hfree, List.nil_append, hn, List.range'_succ] at hgfree
      obtain ⟨queue, hqueue, htake⟩ := takeBlock_eq (h.grow _) hgfree
      refine ⟨_, s.allocatedCount, _, queue, .inr ⟨rfl, hroom, rfl⟩, hgfree, hqueue, ?_⟩
      rw [hunfold, if_neg (hgrown ▸ hmin), htake]
  · right
    rw [hfree, List.length_cons] at hcount
    obtain ⟨queue, hqueue, htake⟩ := takeBlock_eq h hfree
    refine ⟨s, b, l, queue, .inl rfl, hfree, hqueue, ?_⟩
    unfold allocateBlock
    rw [if_neg (by omega), htake]

/-- Blocks are taken from the front of the queue, which may grow first. -/
theorem getNewBlocks_cases (h : Sound cfg s) (n : ℕ) :
    ∃ g, (g = s ∨ ∃ m, g = (growBlocks cfg m s).2) ∧
      (getNewBlocks cfg n s = (.raised, g) ∨
        ∃ blocks l queue, g.free = blocks ++ l ∧ queue.Holds l ∧
          getNewBlocks cfg n s = (.returned blocks,
            blocks.foldl (fun s b => claim cfg b s) { g with freeBlockQueue := queue })) := by
  unfold getNewBlocks
  simp only
  generalize hg : (if s.freeBlockQueue.count < n then
      (growBlocks cfg (n - s.freeBlockQueue.count + 128).toNat s).2 else s) = g
  have hgrown : g = s ∨ ∃ m, g = (growBlocks cfg m s).2 := by
    rw [← hg]
    split_ifs
    · exact .inr ⟨_, rfl⟩
    · exact .inl rfl
  have hsound : Sound cfg g := by
    rcases hgrown with rfl | ⟨m, rfl⟩
    · exact h
    · exact h.grow m
  refine ⟨g, hgrown, ?_⟩
  by_cases hlt : g.freeBlockQueue.count < n
  · exact .inl (if_pos hlt)
  · right
    rw [if_neg hlt]
    rw [hsound.count_eq] at hlt
    have hqueue := hsound.queue
    rw [← List.take_append_drop n g.free] at hqueue
    obtain ⟨queue, hpop, hqueue⟩ := Links.popleftN_append hqueue
    rw [List.length_take, min_eq_left (by omega)] at hpop
    refine ⟨_, _, queue, (List.take_append_drop n g.free).symm, hqueue, ?_⟩
    rw [hpop]

theorem moves_claims {blocks : List ℕ} (h : Sound cfg s) (hnodup : blocks.Nodup)
    (hblocks : ∀ b ∈ blocks, b < s.allocatedCount ∧ b ∉ s.free ∧ b ∉ s.allocatedBlocks) :
    Moves cfg care s (blocks.foldl (fun s b => claim cfg b s) s) := by
  induction blocks generalizing s with
  | nil => exact .refl s
  | cons b blocks ih =>
    obtain ⟨hb, hnodup⟩ := List.nodup_cons.mp hnodup
    obtain ⟨hlt, hfree, hnotMem⟩ := hblocks b List.mem_cons_self
    have hmove : Move cfg care s (claim cfg b s) := .claim s b hlt hfree hnotMem
    refine hmove.moves.trans (ih (h.move hmove) hnodup fun c hc => ?_)
    obtain ⟨hclt, hcfree, hcnotMem⟩ := hblocks c (List.mem_cons_of_mem _ hc)
    refine ⟨by rwa [claim_count], by rwa [Manager.free, claim_queue], ?_⟩
    rw [claim_allocated, Finset.mem_insert, not_or]
    exact ⟨fun hcb => hb (hcb ▸ hc), hcnotMem⟩

/-- Blocks that leave the queue may be claimed. -/
theorem moves_leave_claims (blocks : List ℕ) (h : Sound cfg s) (hfree : s.free = blocks ++ l)
    (hqueue : queue.Holds l) :
    Moves cfg care s
      (blocks.foldl (fun s b => claim cfg b s) { s with freeBlockQueue := queue }) := by
  have hnodup := h.queue.nodup
  rw [hfree] at hnodup
  obtain ⟨hblocks, -, hapart⟩ := List.nodup_append.mp hnodup
  have hmove : Move cfg care s { s with freeBlockQueue := queue } :=
    .leave s queue l hqueue (hfree ▸ List.sublist_append_right blocks l)
  refine hmove.moves.trans (moves_claims (h.move hmove) hblocks fun b hb => ?_)
  have hmem : b ∈ s.free := hfree ▸ List.mem_append_left l hb
  refine ⟨h.free_lt b hmem, fun hbl => ?_, h.free_apart b hmem⟩
  rw [Manager.free, hqueue.toList_eq] at hbl
  exact hapart b hb b hbl rfl

theorem moves_allocateBlock (h : Sound cfg s) : Moves cfg care s (allocateBlock cfg s).2 := by
  rcases allocateBlock_cases h with ⟨-, -, heq⟩ | ⟨g, b, l, queue, hg, hfree, hqueue, heq⟩
  · rw [heq]
    exact .refl s
  · rw [heq]
    rcases hg with rfl | ⟨-, -, rfl⟩
    · exact moves_leave_claims [b] h hfree hqueue
    · exact (Move.grow s _).moves.trans (moves_leave_claims [b] (h.grow _) hfree hqueue)

theorem moves_getNewBlocks (h : Sound cfg s) (n : ℕ) :
    Moves cfg care s (getNewBlocks cfg n s).2 := by
  obtain ⟨g, hg, hcases⟩ := getNewBlocks_cases h n
  have hmoves : Moves cfg care s g ∧ Sound cfg g := by
    rcases hg with rfl | ⟨m, rfl⟩
    · exact ⟨.refl g, h⟩
    · exact ⟨(Move.grow s m).moves, h.grow m⟩
  rcases hcases with heq | ⟨blocks, l, queue, hfree, hqueue, heq⟩
  · rw [heq]
    exact hmoves.1
  · rw [heq]
    exact hmoves.1.trans (moves_leave_claims blocks hmoves.2 hfree hqueue)

/-- An allocated block is allocated. -/
theorem mem_of_allocateBlock {t : Manager} (h : Sound cfg s)
    (heq : allocateBlock cfg s = (.returned (some b), t)) : b ∈ t.allocatedBlocks := by
  rcases allocateBlock_cases h with ⟨-, -, heq'⟩ | ⟨g, c, l, queue, -, -, -, heq'⟩
  · rw [heq'] at heq
    exact nomatch heq
  · rw [heq'] at heq
    obtain ⟨hbc, rfl⟩ := Prod.mk.inj heq
    obtain rfl : c = b := by simpa using hbc
    rw [claim_allocated]
    exact Finset.mem_insert_self _ _

/-! ## References -/

@[simp] theorem popOwn_queue (s : Manager) (b : ℕ) :
    (s.popOwn b).freeBlockQueue = s.freeBlockQueue := by
  unfold Manager.popOwn
  split <;> rfl

@[simp] theorem popOwn_allocated (s : Manager) (b : ℕ) :
    (s.popOwn b).allocatedBlocks = s.allocatedBlocks := by
  unfold Manager.popOwn
  split <;> rfl

@[simp] theorem popOwn_count (s : Manager) (b : ℕ) :
    (s.popOwn b).allocatedCount = s.allocatedCount := by
  unfold Manager.popOwn
  split <;> rfl

@[simp] theorem popOwn_block (s : Manager) (b : ℕ) : (s.popOwn b).block = s.block := by
  unfold Manager.popOwn
  split <;> rfl

/-- A block's own hash no longer leads to it. -/
theorem notMem_popOwn {h : BlockHash} (hb : (s.block b).blockHash = some h) :
    b ∉ (s.popOwn b).cachedBlockHashToBlock h := by
  unfold Manager.popOwn
  rw [hb]
  exact fun hmem => (mem_pop_cached.mp hmem).2 ⟨rfl, rfl⟩

theorem moves_popOwn
    (hcare : care = .freesUnnamed → (s.block b).blockHash = none ∨ b ∈ s.allocatedBlocks) :
    Moves cfg care s (s.popOwn b) := by
  unfold Manager.popOwn
  rcases hb : (s.block b).blockHash with _ | h
  · exact .refl s
  · refine (Move.forget s h b fun hc _ => ?_).moves
    exact (hcare hc).resolve_left (hb ▸ Option.some_ne_none h)

/-- A block's count changes, and nothing else. -/
theorem moves_edit_refCount (s : Manager) (b : ℕ) (f : ℤ → ℤ) :
    Moves cfg care s (s.edit b fun x => { x with refCount := f x.refCount }) := by
  have hmove : Move cfg care s (s.edit b fun x => { x with refCount := f x.refCount }) :=
    .recount s b (f (s.block b).refCount) (s.block b).tokenCount
  exact hmove.moves

/-- A block that is not the null block is no longer allocated. -/
theorem moves_dropBlock (hnull : (s.block b).isNull = false)
    (hcare : care = .freesUnnamed → (s.block b).blockHash = none) :
    Moves cfg care s { s.popOwn b with
      allocatedBlocks := (s.popOwn b).allocatedBlocks.erase b } := by
  refine (moves_popOwn fun hc => .inl (hcare hc)).step (.drop _ b ?_ ?_ ?_)
  · rwa [popOwn_block]
  · exact fun hc _ => by rw [popOwn_block, hcare hc]
  · intro h hb
    rw [popOwn_block] at hb
    exact notMem_popOwn hb

theorem moves_freeBlock (h : Sound cfg s) (b : ℕ)
    (hcare : care = .freesUnnamed → b ∈ s.allocatedBlocks → (s.block b).isNull = false →
      (s.block b).refCount ≤ 1 → (s.block b).blockHash = none) :
    Moves cfg care s (freeBlock b s).2 := by
  unfold freeBlock
  by_cases hmem : b ∈ s.allocatedBlocks
  · rw [if_neg (not_not_intro hmem)]
    rcases hnull : (s.block b).isNull with _ | _
    · rw [if_neg Bool.false_ne_true]
      have hlower : Moves cfg care s (s.edit b fun x => { x with refCount := x.refCount - 1 }) :=
        moves_edit_refCount s b (· - 1)
      simp only
      split_ifs with hzero
      · rw [edit_self] at hzero
        simp only at hzero
        have hunnamed : care = .freesUnnamed → ((s.edit b fun x =>
            { x with refCount := x.refCount - 1 }).block b).blockHash = none := fun hc => by
          rw [edit_self]
          exact hcare hc hmem hnull (by omega)
        have hmoves := hlower.trans (moves_dropBlock (by rw [edit_self]; exact hnull) hunnamed)
        have hsound := h.moves hmoves
        refine hmoves.step (.enter _ _ [b] (Links.holds_append hsound.queue ?_) ?_)
        · simp only [Manager.free, popOwn_queue]
          exact fun hfree => h.free_apart b hfree hmem
        · intro c hc
          rw [List.mem_singleton.mp hc]
          simp only [popOwn_count, popOwn_allocated]
          exact ⟨h.allocated_lt b hmem, Finset.notMem_erase b _⟩
      · exact hlower
    · rw [if_pos rfl]
      exact .refl s
  · rw [if_pos hmem]
    exact .refl s

/-- Where references to all these are dropped, those that are allocated, no block goes that has a
hash. -/
def DropsUnnamed (s : Manager) (blocks : List ℕ) : Prop :=
  ∀ b ∈ blocks, b ∈ s.allocatedBlocks → (s.block b).isNull = false →
    (s.block b).refCount ≤ blocks.count b → (s.block b).blockHash = none

/-- What `DropsUnnamed` says after the first reference was dropped, or was no reference. -/
theorem DropsUnnamed.tail {blocks : List ℕ} (h : DropsUnnamed s (b :: blocks))
    (hallocated : t.allocatedBlocks ⊆ s.allocatedBlocks)
    (hblock : t.block = s.block ∨ t.block = (s.edit b fun x =>
      { x with refCount := x.refCount - 1 }).block) : DropsUnnamed t blocks := by
  intro c hc hmem hnull hcount
  have hcons := h c (List.mem_cons_of_mem b hc) (hallocated hmem)
  rcases hblock with hblock | hblock
  · rw [hblock] at hnull hcount ⊢
    exact hcons hnull (hcount.trans (Int.ofNat_le.mpr List.count_le_count_cons))
  · rw [hblock] at hnull hcount ⊢
    rcases eq_or_ne c b with rfl | hcb
    · rw [edit_self] at hnull hcount ⊢
      rw [List.count_cons_self] at hcons
      refine hcons hnull ?_
      simp only at hcount
      omega
    · rw [edit_of_ne s _ hcb] at hnull hcount ⊢
      rw [List.count_cons_of_ne hcb.symm] at hcons
      exact hcons hnull hcount

theorem moves_touchBlock (h : Sound cfg s) (b : ℕ) : Moves cfg care s (touchBlock s b) := by
  unfold touchBlock
  simp only
  split_ifs with hb
  · by_cases hmem : b ∈ s.free
    · obtain ⟨l, m, hfree⟩ := List.append_of_mem hmem
      have hqueue := h.queue
      rw [hfree] at hqueue
      have hnodup := hqueue.nodup
      obtain ⟨queue, hremove, hqueue⟩ := Links.remove_append hqueue
      rw [hremove]
      have hleave : Move cfg care s { s with freeBlockQueue := queue } :=
        .leave s queue _ hqueue (hfree ▸ (List.sublist_cons_self b m).append_left l)
      have hadopt : Move cfg care { s with freeBlockQueue := queue } _ :=
        .adopt _ b (h.free_lt b hmem) ?_
      · exact (hleave.moves.step hadopt).trans (moves_edit_refCount _ b (· + 1))
      · rw [Manager.free, hqueue.toList_eq]
        intro hb
        rw [List.nodup_middle, List.nodup_cons] at hnodup
        exact hnodup.1 hb
    · rw [Links.remove_of_notMem h.queue hmem]
      exact moves_edit_refCount s b (· + 1)
  · exact moves_edit_refCount s b (· + 1)

/-- A loop over blocks is made of moves when each turn is. -/
theorem moves_foldl {f : Manager → ℕ → Manager}
    (hf : ∀ s b, Sound cfg s → Moves cfg care s (f s b)) (h : Sound cfg s) (blocks : List ℕ) :
    Moves cfg care s (blocks.foldl f s) := by
  induction blocks generalizing s with
  | nil => exact .refl s
  | cons b blocks ih => exact (hf s b h).trans (ih (h.moves (hf s b h)))

theorem moves_incrementRef (s : Manager) (b : ℕ) : Moves cfg care s (incrementRef b s).2 := by
  unfold incrementRef
  split_ifs
  · exact moves_edit_refCount s b (· + 1)
  · exact .refl s

theorem moves_acquireCachedBlock (s : Manager) (b : ℕ) (h : BlockHash) :
    Moves cfg care s (acquireCachedBlock b h s).2 := by
  unfold acquireCachedBlock
  split_ifs
  · exact .refl s
  · exact moves_edit_refCount s b (· + 1)

theorem moves_releaseBlock (s : Manager) (b : ℕ) : Moves cfg care s (releaseBlock s b) := by
  unfold releaseBlock
  split_ifs
  · exact .refl s
  · exact moves_edit_refCount s b (· - 1)
  · exact .refl s

theorem freeBlock_block (s : Manager) (b : ℕ) :
    (freeBlock b s).2.block = s.block ∨ (freeBlock b s).2.block = (s.edit b fun x =>
      { x with refCount := x.refCount - 1 }).block := by
  unfold freeBlock
  simp only
  split_ifs
  · exact .inl rfl
  · exact .inr (popOwn_block _ b)
  · exact .inr rfl
  · exact .inl rfl

theorem freeBlock_allocated (s : Manager) (b : ℕ) :
    (freeBlock b s).2.allocatedBlocks ⊆ s.allocatedBlocks := by
  unfold freeBlock
  simp only
  split_ifs
  · exact Finset.Subset.refl _
  · simp only [popOwn_allocated]
    exact Finset.erase_subset b _
  · exact Finset.Subset.refl _
  · exact Finset.Subset.refl _

theorem moves_deleteBlockTable (h : Sound cfg s) (blocks : List ℕ)
    (hcare : care = .freesUnnamed → DropsUnnamed s blocks) :
    Moves cfg care s (deleteBlockTable blocks s) := by
  unfold deleteBlockTable
  induction blocks generalizing s with
  | nil => exact .refl s
  | cons b blocks ih =>
    have hfirst : Moves cfg care s (freeBlock b s).2 :=
      moves_freeBlock h b fun hc hmem hnull hone => by
        refine hcare hc b List.mem_cons_self hmem hnull (hone.trans ?_)
        rw [List.count_cons_self]
        omega
    exact hfirst.trans (ih (h.moves hfirst) fun hc =>
      (hcare hc).tail (freeBlock_allocated s b) (freeBlock_block s b))

/-! ## Hashes -/

theorem moves_store (h : BlockHash) (hcare : care = .freesUnnamed →
      b ∈ s.allocatedBlocks ∨ cfg.enableCaching = true)
    (hcare' : care = .namesHeld → b ∈ s.allocatedBlocks) : Moves cfg care s (store h b s) :=
  (Move.store s h b hcare hcare').moves

theorem moves_cacheFrom {blocks : List ℕ} {tokenIds : List ℤ} {extraKeys : Option (List Str)}
    {n i : ℕ} {parentHash : Option BlockHash} (hcaching : cfg.enableCaching = true)
    (hcare : care = .namesHeld → ∀ b ∈ blocks, b ∈ s.allocatedBlocks) :
    Moves cfg care s (cacheFrom cfg blocks tokenIds extraKeys n i parentHash s).2 := by
  induction n generalizing i parentHash s with
  | zero => exact .refl s
  | succ n ih =>
    unfold cacheFrom
    rcases hi : blocks[i]? with _ | b
    · exact .refl s
    · dsimp only
      rcases hb : (s.block b).blockHash with _ | h
      · dsimp only
        generalize computeBlockHash cfg parentHash (cfg.blockTokens tokenIds i) extraKeys = h
        have hrecount : Move cfg care s (s.edit b fun x =>
            { x with tokenCount := (cfg.blockTokens tokenIds i).length }) :=
          .recount s b (s.block b).refCount _
        refine (hrecount.moves.trans (moves_store h (fun _ => .inr hcaching) fun hc => ?_)).trans
          (ih ?_)
        · exact hcare hc b (List.mem_of_getElem? hi)
        · exact hcare
      · exact ih hcare

theorem moves_cacheFullBlocks (blocks : List ℕ) (tokenIds : List ℤ) (m n : ℕ)
    (extraKeys : Option (List Str))
    (hcare : care = .namesHeld → ∀ b ∈ blocks, b ∈ s.allocatedBlocks) :
    Moves cfg care s (cacheFullBlocks cfg blocks tokenIds m n extraKeys s).2 := by
  unfold cacheFullBlocks
  by_cases hcaching : cfg.enableCaching = false ∨ n ≤ m
  · rw [if_pos hcaching]
    exact .refl s
  · rw [if_neg hcaching]
    rw [not_or, Bool.not_eq_false] at hcaching
    split_ifs
    · exact moves_cacheFrom hcaching.1 hcare
    · split
      · exact .refl s
      · exact moves_cacheFrom hcaching.1 hcare

theorem moves_restoreCold (h : BlockHash) (n : ℕ) (hb : b ∈ s.allocatedBlocks) :
    Moves cfg care s (restoreCold h n b s) := by
  have hrecount : Move cfg care s (s.edit b fun x => { x with tokenCount := n, refCount := 0 }) :=
    .recount s b 0 n
  exact hrecount.moves.trans (moves_store h (fun _ => .inl hb) fun _ => hb)

theorem moves_computedFrom {tokenIds : List ℤ} {extra : ExtraKeys}
    {hasBlock : Option (BlockHash → Bool)} {n i : ℕ} {parentHash : Option BlockHash}
    {found : List ℕ} (h : Sound cfg s) :
    Moves cfg care s (computedFrom cfg tokenIds extra hasBlock n i parentHash found s).2 := by
  induction n generalizing i parentHash found s with
  | zero => exact .refl s
  | succ n ih =>
    unfold computedFrom
    rcases resolveBlockExtraKeys ((i * cfg.blockSize + cfg.blockSize : ℕ) : ℤ) extra
      with _ | extraKeys
    · exact .refl s
    · dsimp only
      generalize computeBlockHash cfg parentHash (cfg.blockTokens tokenIds i) extraKeys = hash
      rcases s.getBlock hash with _ | b
      · dsimp only
        split_ifs
        · have halloc : Moves cfg care s (allocateBlock cfg s).2 := moves_allocateBlock h
          rcases heq : allocateBlock cfg s with ⟨(_ | b) | _, s'⟩
          · rwa [heq] at halloc
          · rw [heq] at halloc
            have hmoves := halloc.trans
              (moves_restoreCold hash cfg.blockSize (mem_of_allocateBlock h heq))
            exact hmoves.trans (ih (h.moves hmoves))
          · rwa [heq] at halloc
        · exact .refl s
      · exact ih h

theorem moves_getComputedBlocks (h : Sound cfg s) (tokenIds : List ℤ) (extra : ExtraKeys)
    (hasBlock : Option (BlockHash → Bool)) :
    Moves cfg care s (getComputedBlocks cfg tokenIds extra hasBlock s).2 := by
  unfold getComputedBlocks
  split_ifs
  · exact .refl s
  · exact .refl s
  · exact moves_computedFrom h

theorem moves_restoreBlock (h : Sound cfg s) (hash : BlockHash) (n : ℕ) :
    Moves cfg care s (restoreBlock cfg hash n s).2 := by
  have halloc : Moves cfg care s (allocateBlock cfg s).2 := moves_allocateBlock h
  unfold restoreBlock
  split
  · next b s' heq =>
    rw [heq] at halloc
    exact halloc.trans (moves_restoreCold hash n (mem_of_allocateBlock h heq))
  · exact halloc

theorem moves_getBlocksForGeneration (h : Sound cfg s) (blocks : List ℕ) :
    Moves cfg care s (getBlocksForGeneration cfg blocks s).2 := by
  induction blocks generalizing s with
  | nil => exact .refl s
  | cons b blocks ih =>
    unfold getBlocksForGeneration
    split_ifs
    · have hcopy : Moves cfg care s (cowCopyBlock cfg b s).2 := by
        have halloc : Moves cfg care s (allocateBlock cfg s).2 := moves_allocateBlock h
        unfold cowCopyBlock
        split
        · next c s' heq =>
          rw [heq] at halloc
          exact (halloc.step (.copy s' c b _ (mem_of_allocateBlock h heq))).trans
            (moves_edit_refCount _ b (· - 1))
        · exact halloc
      split
      · next heq => rwa [heq] at hcopy
      · next heq =>
        rw [heq] at hcopy
        exact hcopy.trans (ih (h.moves hcopy))
    · exact ih h

/-! ## Eviction -/

theorem evictLoop_nil (h : Sound cfg s) (hfree : s.free = []) (n : ℕ) : evictLoop n s = s := by
  have hqueue := h.queue
  rw [hfree] at hqueue
  cases n with
  | zero => rfl
  | succ n =>
    unfold evictLoop
    rw [Links.popleft_nil hqueue]

/-- A turn of the loop takes the first block of the queue to its end. -/
theorem evictLoop_cons (care : Care) (h : Sound cfg s) (hfree : s.free = b :: l) (n : ℕ) :
    ∃ t, Moves cfg care s t ∧ t.free = l ++ [b] ∧ t.allocatedCount = s.allocatedCount ∧
      evictLoop (n + 1) s = evictLoop n t := by
  have hqueue := h.queue
  rw [hfree] at hqueue
  obtain ⟨hb, -⟩ := List.nodup_cons.mp hqueue.nodup
  obtain ⟨queue, hpop, hqueue⟩ := Links.popleft_cons hqueue
  have hmem : b ∈ s.free := hfree ▸ List.mem_cons_self
  have hleave : Move cfg care s { s with freeBlockQueue := queue } :=
    .leave s queue l hqueue (hfree ▸ List.sublist_cons_self b l)
  have hmoves := hleave.moves.step (.evict _ b)
  have hafter : (maybeEvictCachedBlock b { s with freeBlockQueue := queue }).free = l := by
    rw [Manager.free, maybeEvict_queue]
    exact hqueue.toList_eq
  have happend := Links.holds_append (h.moves hmoves).queue (a := b) (by rwa [hafter])
  have henter := hmoves.step (.enter _ _ [b] happend fun c hc => by
    rw [List.mem_singleton.mp hc]
    simp only [maybeEvict_count, maybeEvict_allocated]
    exact ⟨h.free_lt b hmem, h.free_apart b hmem⟩)
  refine ⟨_, henter, ?_, maybeEvict_count b _, ?_⟩
  · rw [Manager.free, happend.toList_eq, hafter]
  · rw [evictLoop, hpop]

theorem moves_evictLoop (h : Sound cfg s) (n : ℕ) : Moves cfg care s (evictLoop n s) := by
  induction n generalizing s with
  | zero => exact .refl s
  | succ n ih =>
    rcases hfree : s.free with _ | ⟨b, l⟩
    · rw [evictLoop_nil h hfree]
      exact .refl s
    · obtain ⟨t, hmoves, -, -, heq⟩ := evictLoop_cons care h hfree n
      rw [heq]
      exact hmoves.trans (ih (h.moves hmoves))

/-- Eviction turns the queue round. -/
theorem evictLoop_pool (h : Sound cfg s) (n : ℕ) :
    (evictLoop n s).free.length = s.free.length ∧
      (evictLoop n s).allocatedCount = s.allocatedCount := by
  induction n generalizing s with
  | zero => exact ⟨rfl, rfl⟩
  | succ n ih =>
    rcases hfree : s.free with _ | ⟨b, l⟩
    · rw [evictLoop_nil h hfree, hfree]
      exact ⟨rfl, rfl⟩
    · obtain ⟨t, hmoves, htfree, hcount, heq⟩ := evictLoop_cons .plain h hfree n
      obtain ⟨hlength, hcount'⟩ := ih (h.moves hmoves)
      rw [heq, hlength, hcount', htfree, hcount, List.length_append, List.length_singleton,
        List.length_cons]
      exact ⟨rfl, rfl⟩

theorem moves_handleMemoryPressure (h : Sound cfg s) (n : ℕ) :
    Moves cfg care s (handleMemoryPressure n s).2 := by
  unfold handleMemoryPressure
  split_ifs
  · exact .refl s
  · exact moves_evictLoop h _

/-- What is evicted has no hash, however it lost it. -/
theorem edit_maybeEvict (s : Manager) (b n : ℕ) :
    ((maybeEvictCachedBlock b s).edit b fun x => { x with blockHash := none, tokenCount := n }) =
      (s.popOwn b).edit b fun x => { x with blockHash := none, tokenCount := n } := by
  unfold maybeEvictCachedBlock Manager.popOwn
  rcases (s.block b).blockHash with _ | h
  · rfl
  · dsimp only
    split_ifs
    · simp [Manager.edit]
    · rfl

theorem moves_evictBlockPermanently (h : Sound cfg s) (hb : b ∉ s.free) :
    Moves cfg care s (evictBlockPermanently b s).2 := by
  unfold evictBlockPermanently
  split_ifs with hlt href hnull
  · exact .refl s
  · exact .refl s
  · exact .refl s
  · dsimp only
    rw [← edit_maybeEvict]
    have hevict : Move cfg care s (maybeEvictCachedBlock b s) := .evict s b
    have hunname := hevict.moves.step (.unname _ b 0)
    have hdrop := hunname.step (.drop _ b ?_ ?_ ?_)
    · refine hdrop.step (.enter _ _ [b] (Links.holds_append (h.moves hdrop).queue ?_) ?_)
      · simpa only [Manager.free, Manager.edit, maybeEvict_queue] using hb
      · intro c hc
        rw [List.mem_singleton.mp hc]
        refine ⟨?_, Finset.notMem_erase b _⟩
        simpa only [Manager.edit, maybeEvict_count, not_le] using hlt
    · rw [edit_self]
      exact (maybeEvict_field b b s CacheBlock.isNull fun _ => rfl).trans
        (Bool.eq_false_iff.mpr hnull)
    · exact fun _ _ => by rw [edit_self]
    · intro hash hb
      rw [edit_self] at hb
      cases hb

/-! ## Runs -/

/-- What a run keeps to at an event. -/
def Allowed (cfg : Config) (care : Care) (s : Manager) : Event → Prop
  | .freeBlock b =>
    care = .freesUnnamed → b ∈ s.allocatedBlocks → (s.block b).isNull = false →
      (s.block b).refCount ≤ 1 → (s.block b).blockHash = none
  | .deleteBlockTable blocks => care = .freesUnnamed → DropsUnnamed s blocks
  | .store _ b =>
    (care = .freesUnnamed → b ∈ s.allocatedBlocks ∨ cfg.enableCaching = true) ∧
      (care = .namesHeld → b ∈ s.allocatedBlocks)
  | .registerBlockHash b _ _ _ => care = .namesHeld → b ∈ s.allocatedBlocks
  | .cacheFullBlocks blocks _ _ _ _ => care = .namesHeld → ∀ b ∈ blocks, b ∈ s.allocatedBlocks
  | .evictBlockPermanently b => b ∉ s.free
  | .evict h => ∀ b, s.getBlock h = some b → b ∉ s.free
  | .forgetBlock h b =>
    care = .freesUnnamed → (s.block b).blockHash = some h → b ∈ s.allocatedBlocks
  | _ => True

/-- Every call is made of moves. -/
theorem moves_apply (h : Sound cfg s) {e : Event} (hallowed : Allowed cfg care s e) :
    Moves cfg care s (apply cfg s e) := by
  cases e with
  | allocateBlock => exact moves_allocateBlock h
  | getNewBlocks n => exact moves_getNewBlocks h n
  | freeBlock b => exact moves_freeBlock h b hallowed
  | touch blocks => exact moves_foldl (fun s b hs => moves_touchBlock hs b) h blocks
  | incrementRef b => exact moves_incrementRef s b
  | acquireCachedBlock b hash => exact moves_acquireCachedBlock s b hash
  | releaseForEviction blocks => exact moves_foldl (fun s b _ => moves_releaseBlock s b) h blocks
  | store hash b => exact moves_store hash hallowed.1 hallowed.2
  | registerBlockHash b tokens parentHash extraKeys =>
    simp only [apply, registerBlockHash]
    split_ifs with hcaching
    · exact moves_store _ (fun _ => .inr hcaching) hallowed
    · exact .refl s
  | cacheFullBlocks blocks tokenIds m n extraKeys =>
    exact moves_cacheFullBlocks blocks tokenIds m n extraKeys hallowed
  | getComputedBlocks tokenIds extra hasBlock =>
    exact moves_getComputedBlocks h tokenIds extra hasBlock
  | deleteBlockTable blocks => exact moves_deleteBlockTable h blocks hallowed
  | addBlockToTable b n => exact (Move.recount s b (s.block b).refCount n).moves
  | forkBlockTable blocks => exact moves_foldl (fun s b _ => moves_incrementRef s b) h blocks
  | getBlocksForGeneration blocks => exact moves_getBlocksForGeneration h blocks
  | evictLruBlocks n => exact moves_evictLoop h _
  | handleMemoryPressure n => exact moves_handleMemoryPressure h n
  | resetPrefixCache => exact (Move.reset s).moves
  | clear => exact (Move.clear s).moves
  | evictBlockPermanently b => exact moves_evictBlockPermanently h hallowed
  | evict hash =>
    simp only [apply]
    rcases hb : s.getBlock hash with _ | b
    · exact .refl s
    · exact moves_evictBlockPermanently h (hallowed b hb)
  | assignHash hash b =>
    simp only [apply]
    split_ifs with hb
    · exact (Move.label s hash b hb).moves
    · exact .refl s
  | restoreBlock hash n => exact moves_restoreBlock h hash n
  | forgetBlock hash b => exact (Move.forget s hash b hallowed).moves

/-- The states of the runs that keep to a care. -/
inductive Reachable (cfg : Config) (care : Care) : Manager → Prop where
  | start {s : Manager} : init cfg = some s → Reachable cfg care s
  | step {s : Manager} (e : Event) : Reachable cfg care s → Allowed cfg care s e →
    Reachable cfg care (apply cfg s e)

theorem Reachable.sound (h : Reachable cfg care s) : Sound cfg s := by
  induction h with
  | start hinit => exact Sound.init hinit
  | step e _ hallowed ih => exact ih.moves (moves_apply ih hallowed)

/-- What the moves keep of a sound manager holds in every state of a run. -/
theorem Reachable.keeps {P : Manager → Prop} (hinit : ∀ s, init cfg = some s → P s)
    (hmove : ∀ {s t}, Move cfg care s t → Sound cfg s → P s → P t) (h : Reachable cfg care s) :
    P s := by
  induction h with
  | start hs => exact hinit _ hs
  | step e hs hallowed ih =>
    have hboth := (moves_apply hs.sound hallowed).keeps (P := fun t => Sound cfg t ∧ P t)
      (fun hm hst => ⟨hst.1.move hm, hmove hm hst.1 hst.2⟩) ⟨hs.sound, ih⟩
    exact hboth.2

end AI2Apps.Omlx.PagedCache
