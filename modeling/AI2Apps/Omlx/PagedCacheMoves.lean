import AI2Apps.Omlx.PagedCache

/-!
# What the manager's calls are made of

Every call is a sequence of a few moves: blocks leave the queue and enter it, they are
claimed, dropped and adopted, they get a hash and lose it.  An invariant of the moves is one
of every run, as `Sound.moves` is.

A run keeps to a `Care`.  The plain one is that a block that is free is not evicted for
good: `evict_block_permanently` would put it into the queue a second time.

* `Move`, `Moves`: the moves, with what each may assume.
* `Sound`: the queue and the allocated blocks are apart, and the null block is allocated.
-/

namespace AI2Apps.Omlx.PagedCache

/-- What a run keeps to. -/
inductive Care where
  /-- A block that is free is not evicted for good. -/
  | plain
  /-- Nor is the last reference to a block dropped while the block has a hash. -/
  | freesUnnamed
  /-- Nor is a hash given to a block that is not allocated. -/
  | namesHeld
  deriving DecidableEq

/-- The blocks in the queue. -/
def Manager.free (s : Manager) : List ℕ := s.freeBlockQueue.toList

/-! ## Moves -/

inductive Move (cfg : Config) (care : Care) : Manager → Manager → Prop where
  /-- The counts of a block change. -/
  | recount (s : Manager) (b : ℕ) (r : ℤ) (n : ℕ) :
    Move cfg care s (s.edit b fun x => { x with refCount := r, tokenCount := n })
  | grow (s : Manager) (n : ℕ) : Move cfg care s (growBlocks cfg n s).2
  /-- Blocks leave the queue. -/
  | leave (s : Manager) (queue : Links ℕ) (l : List ℕ) : queue.Holds l → l.Sublist s.free →
    Move cfg care s { s with freeBlockQueue := queue }
  /-- Blocks enter the queue that are neither there nor allocated. -/
  | enter (s : Manager) (queue : Links ℕ) (bs : List ℕ) : queue.Holds (s.free ++ bs) →
    (∀ b ∈ bs, b < s.allocatedCount ∧ b ∉ s.allocatedBlocks) →
    Move cfg care s { s with freeBlockQueue := queue }
  | claim (s : Manager) (b : ℕ) : b < s.allocatedCount → b ∉ s.free → b ∉ s.allocatedBlocks →
    Move cfg care s (claim cfg b s)
  | evict (s : Manager) (b : ℕ) : Move cfg care s (maybeEvictCachedBlock b s)
  /-- A block that has left the queue is allocated as it is. -/
  | adopt (s : Manager) (b : ℕ) : b < s.allocatedCount → b ∉ s.free →
    Move cfg care s { s with allocatedBlocks := insert b s.allocatedBlocks }
  | drop (s : Manager) (b : ℕ) : (s.block b).isNull = false →
    (care = .freesUnnamed → b ∈ s.allocatedBlocks → (s.block b).blockHash = none) →
    (∀ h, (s.block b).blockHash = some h → b ∉ s.cachedBlockHashToBlock h) →
    Move cfg care s { s with allocatedBlocks := s.allocatedBlocks.erase b }
  | forget (s : Manager) (h : BlockHash) (b : ℕ) :
    (care = .freesUnnamed → (s.block b).blockHash = some h → b ∈ s.allocatedBlocks) →
    Move cfg care s (s.pop h b)
  | unname (s : Manager) (b n : ℕ) :
    Move cfg care s (s.edit b fun x => { x with blockHash := none, tokenCount := n })
  | store (s : Manager) (h : BlockHash) (b : ℕ) :
    (care = .freesUnnamed → b ∈ s.allocatedBlocks ∨ cfg.enableCaching = true) →
    (care = .namesHeld → b ∈ s.allocatedBlocks) → Move cfg care s (store h b s)
  | label (s : Manager) (h : BlockHash) (b : ℕ) : b ∈ s.allocatedBlocks →
    Move cfg care s (s.edit b fun x => { x with blockHash := some h, contents := some h })
  | copy (s : Manager) (b c n : ℕ) : b ∈ s.allocatedBlocks →
    Move cfg care s (s.edit b fun x => { x with
      tokenCount := n
      blockHash := (s.block c).blockHash
      contents := (s.block c).contents })
  | reset (s : Manager) : Move cfg care s (resetPrefixCache cfg s).2
  | clear (s : Manager) : Move cfg care s (clear cfg s)

/-- A sequence of moves. -/
inductive Moves (cfg : Config) (care : Care) : Manager → Manager → Prop where
  | refl (s : Manager) : Moves cfg care s s
  | step {s t u : Manager} : Moves cfg care s t → Move cfg care t u → Moves cfg care s u

variable {cfg : Config} {care : Care} {s t u : Manager} {b : ℕ}

theorem Move.moves (h : Move cfg care s t) : Moves cfg care s t := (Moves.refl s).step h

theorem Moves.trans (h : Moves cfg care s t) (h' : Moves cfg care t u) : Moves cfg care s u := by
  induction h' with
  | refl => exact h
  | step _ hmove ih => exact ih.step hmove

/-- What every move keeps is kept along a sequence. -/
theorem Moves.keeps {P : Manager → Prop} (hmove : ∀ {s t}, Move cfg care s t → P s → P t)
    (h : Moves cfg care s t) (hs : P s) : P t := by
  induction h with
  | refl => exact hs
  | step _ hlast ih => exact hmove hlast ih

/-! ## Reading an edited manager -/

@[simp] theorem edit_self (s : Manager) (b : ℕ) (f : CacheBlock → CacheBlock) :
    (s.edit b f).block b = f (s.block b) := Function.update_self ..

theorem edit_of_ne (s : Manager) (f : CacheBlock → CacheBlock) {b c : ℕ} (h : c ≠ b) :
    (s.edit b f).block c = s.block c := Function.update_of_ne h ..

/-- An edit that keeps a field. -/
theorem edit_field {γ : Type} (s : Manager) (b c : ℕ) (f : CacheBlock → CacheBlock)
    (p : CacheBlock → γ) (h : p (f (s.block b)) = p (s.block b)) :
    p ((s.edit b f).block c) = p (s.block c) := by
  rcases eq_or_ne c b with rfl | hne
  · rw [edit_self, h]
  · rw [edit_of_ne s f hne]

theorem store_self (h : BlockHash) (b : ℕ) (s : Manager) :
    (store h b s).block b = { s.block b with blockHash := some h, contents := some h } :=
  edit_self s b fun x => { x with blockHash := some h, contents := some h }

theorem store_of_ne (h : BlockHash) (s : Manager) {b c : ℕ} (hne : c ≠ b) :
    (store h b s).block c = s.block c :=
  edit_of_ne s (fun x => { x with blockHash := some h, contents := some h }) hne

theorem mem_insert_cached {h h' : BlockHash} {b c : ℕ} :
    c ∈ (s.insert h b).cachedBlockHashToBlock h' ↔
      c ∈ s.cachedBlockHashToBlock h' ∨ h' = h ∧ c = b := by
  unfold Manager.insert
  rcases eq_or_ne h' h with rfl | hne
  · simp only [Function.update_self, true_and]
    split_ifs with hb
    · exact ⟨.inl, fun hc => hc.elim id fun hcb => hcb ▸ hb⟩
    · rw [List.mem_append, List.mem_singleton]
  · simp only [Function.update_of_ne hne, hne, false_and, or_false]

theorem mem_pop_cached {h h' : BlockHash} {b c : ℕ} :
    c ∈ (s.pop h b).cachedBlockHashToBlock h' ↔
      c ∈ s.cachedBlockHashToBlock h' ∧ ¬(h' = h ∧ c = b) := by
  unfold Manager.pop
  rcases eq_or_ne h' h with rfl | hne
  · simp only [Function.update_self, List.mem_filter, decide_eq_true_eq, true_and]
  · simp only [Function.update_of_ne hne, hne, false_and, not_false_eq_true, and_true]

/-! ## The queue and the allocated blocks -/

structure Sound (cfg : Config) (s : Manager) : Prop where
  queue : s.freeBlockQueue.Holds s.free
  free_lt : ∀ b ∈ s.free, b < s.allocatedCount
  free_apart : ∀ b ∈ s.free, b ∉ s.allocatedBlocks
  allocated_lt : ∀ b ∈ s.allocatedBlocks, b < s.allocatedCount
  isNull_iff : ∀ b, (s.block b).isNull = true ↔ b = 0
  zero_mem : 0 ∈ s.allocatedBlocks
  count_le : s.allocatedCount ≤ cfg.maxBlocks

variable {queue : Links ℕ} {l : List ℕ}

theorem free_of_holds (h : s.freeBlockQueue.Holds l) : s.free = l := h.toList_eq

theorem queue_of_holds (h : s.freeBlockQueue.Holds l) : s.freeBlockQueue.Holds s.free := by
  rw [free_of_holds h]
  exact h

@[simp] theorem maybeEvict_queue (b : ℕ) (s : Manager) :
    (maybeEvictCachedBlock b s).freeBlockQueue = s.freeBlockQueue := by
  unfold maybeEvictCachedBlock
  split
  · rfl
  · split_ifs <;> rfl

@[simp] theorem maybeEvict_allocated (b : ℕ) (s : Manager) :
    (maybeEvictCachedBlock b s).allocatedBlocks = s.allocatedBlocks := by
  unfold maybeEvictCachedBlock
  split
  · rfl
  · split_ifs <;> rfl

@[simp] theorem maybeEvict_count (b : ℕ) (s : Manager) :
    (maybeEvictCachedBlock b s).allocatedCount = s.allocatedCount := by
  unfold maybeEvictCachedBlock
  split
  · rfl
  · split_ifs <;> rfl

/-- Eviction leaves a block as it is, apart from its hash. -/
theorem maybeEvict_field {γ : Type} (b c : ℕ) (s : Manager) (p : CacheBlock → γ)
    (hp : ∀ x : CacheBlock, p { x with blockHash := none } = p x) :
    p ((maybeEvictCachedBlock b s).block c) = p (s.block c) := by
  unfold maybeEvictCachedBlock
  split
  · rfl
  · split_ifs
    · exact edit_field (s.pop _ b) b c _ p (hp _)
    · rfl

@[simp] theorem claim_queue (cfg : Config) (b : ℕ) (s : Manager) :
    (claim cfg b s).freeBlockQueue = s.freeBlockQueue := by
  unfold claim
  split_ifs
  · exact maybeEvict_queue b s
  · rfl

@[simp] theorem claim_allocated (cfg : Config) (b : ℕ) (s : Manager) :
    (claim cfg b s).allocatedBlocks = insert b s.allocatedBlocks := by
  unfold claim
  split_ifs
  · exact congrArg (insert b) (maybeEvict_allocated b s)
  · rfl

@[simp] theorem claim_count (cfg : Config) (b : ℕ) (s : Manager) :
    (claim cfg b s).allocatedCount = s.allocatedCount := by
  unfold claim
  split_ifs
  · exact maybeEvict_count b s
  · rfl

/-- A claim leaves a block as it is, apart from its hash, its count and its contents. -/
theorem claim_field {γ : Type} (cfg : Config) (b c : ℕ) (s : Manager) (p : CacheBlock → γ)
    (hp : ∀ x : CacheBlock, p { x with blockHash := none } = p x)
    (hp' : ∀ x : CacheBlock, p { x with refCount := 1, contents := none } = p x) :
    p ((claim cfg b s).block c) = p (s.block c) := by
  unfold claim
  refine (edit_field _ b c (fun x => { x with refCount := 1, contents := none }) p (hp' _)).trans ?_
  split_ifs
  · exact maybeEvict_field b c s p hp
  · rfl

theorem maybeEvict_of_ne {c : ℕ} (hne : c ≠ b) : (maybeEvictCachedBlock b s).block c = s.block c := by
  unfold maybeEvictCachedBlock
  split
  · rfl
  · split_ifs
    · exact edit_of_ne _ _ hne
    · rfl

theorem claim_of_ne {c : ℕ} (hne : c ≠ b) : (claim cfg b s).block c = s.block c := by
  unfold claim
  refine (edit_of_ne _ (fun x => { x with refCount := 1, contents := none }) hne).trans ?_
  split_ifs
  · exact maybeEvict_of_ne hne
  · rfl

namespace Sound

/-- Managers with one queue, one set of allocated blocks and the same null block. -/
theorem of_eq (h : Sound cfg s) (hqueue : t.freeBlockQueue = s.freeBlockQueue)
    (hallocated : t.allocatedBlocks = s.allocatedBlocks)
    (hcount : t.allocatedCount = s.allocatedCount)
    (hnull : ∀ b, (t.block b).isNull = (s.block b).isNull) : Sound cfg t := by
  have hfree : t.free = s.free := by rw [Manager.free, Manager.free, hqueue]
  refine ⟨?_, ?_, ?_, ?_, ?_, ?_, ?_⟩
  · rw [hqueue, hfree]
    exact h.queue
  · rw [hfree, hcount]
    exact h.free_lt
  · rw [hfree, hallocated]
    exact h.free_apart
  · rw [hallocated, hcount]
    exact h.allocated_lt
  · intro b
    rw [hnull]
    exact h.isNull_iff b
  · rw [hallocated]
    exact h.zero_mem
  · rw [hcount]
    exact h.count_le

theorem count_pos (h : Sound cfg s) : 0 < s.allocatedCount := h.allocated_lt 0 h.zero_mem

theorem edit (h : Sound cfg s) (b : ℕ) {f : CacheBlock → CacheBlock}
    (hf : (f (s.block b)).isNull = (s.block b).isNull) : Sound cfg (s.edit b f) :=
  h.of_eq rfl rfl rfl fun c => edit_field s b c f CacheBlock.isNull hf

/-- New blocks go to the back of the queue. -/
theorem grow_queue (h : Sound cfg s) (n : ℕ) :
    (s.freeBlockQueue.appendN (List.range' s.allocatedCount n)).Holds
      (s.free ++ List.range' s.allocatedCount n) := by
  refine Links.holds_appendN h.queue List.nodup_range' fun b hb hfree => ?_
  have := h.free_lt b hfree
  rw [List.mem_range'_1] at hb
  omega

theorem grow (h : Sound cfg s) (n : ℕ) : Sound cfg (growBlocks cfg n s).2 := by
  unfold growBlocks
  simp only
  split_ifs with hzero
  · exact h
  · have hqueue := h.grow_queue (min n (cfg.maxBlocks - s.allocatedCount))
    have hcount := h.count_le
    have hpos := h.count_pos
    have hfree := hqueue.toList_eq
    refine ⟨?_, ?_, ?_, ?_, ?_, h.zero_mem, ?_⟩
    · exact queue_of_holds (l := _) hqueue
    · intro b hb
      rw [Manager.free, hfree, List.mem_append, List.mem_range'_1] at hb
      rcases hb with hb | hb
      · exact Nat.lt_add_right _ (h.free_lt b hb)
      · exact hb.2
    · intro b hb hmem
      rw [Manager.free, hfree, List.mem_append, List.mem_range'_1] at hb
      rcases hb with hb | hb
      · exact h.free_apart b hb hmem
      · exact absurd (h.allocated_lt b hmem) (Nat.not_lt.mpr hb.1)
    · exact fun b hb => Nat.lt_add_right _ (h.allocated_lt b hb)
    · intro b
      simp only
      split_ifs with hnew
      · exact iff_of_false (by decide) (by omega)
      · exact h.isNull_iff b
    · simp only
      omega

theorem leave (h : Sound cfg s) (hqueue : queue.Holds l) (hl : l.Sublist s.free) :
    Sound cfg { s with freeBlockQueue := queue } := by
  have hfree : Manager.free { s with freeBlockQueue := queue } = l := hqueue.toList_eq
  refine ⟨queue_of_holds hqueue, ?_, ?_, h.allocated_lt, h.isNull_iff, h.zero_mem, h.count_le⟩
  · intro b hb
    rw [hfree] at hb
    exact h.free_lt b (hl.subset hb)
  · intro b hb
    rw [hfree] at hb
    exact h.free_apart b (hl.subset hb)

theorem enter (h : Sound cfg s) (hqueue : queue.Holds (s.free ++ l))
    (hl : ∀ b ∈ l, b < s.allocatedCount ∧ b ∉ s.allocatedBlocks) :
    Sound cfg { s with freeBlockQueue := queue } := by
  have hfree : Manager.free { s with freeBlockQueue := queue } = s.free ++ l := hqueue.toList_eq
  refine ⟨queue_of_holds hqueue, ?_, ?_, h.allocated_lt, h.isNull_iff, h.zero_mem, h.count_le⟩
  · intro b hb
    rw [hfree, List.mem_append] at hb
    exact hb.elim (h.free_lt b) fun hb => (hl b hb).1
  · intro b hb
    rw [hfree, List.mem_append] at hb
    exact hb.elim (h.free_apart b) fun hb => (hl b hb).2

theorem adopt (h : Sound cfg s) (hlt : b < s.allocatedCount) (hfree : b ∉ s.free) :
    Sound cfg { s with allocatedBlocks := insert b s.allocatedBlocks } := by
  refine ⟨h.queue, h.free_lt, ?_, ?_, h.isNull_iff, Finset.mem_insert_of_mem h.zero_mem, h.count_le⟩
  · intro c hc hmem
    rcases Finset.mem_insert.mp hmem with rfl | hmem
    · exact hfree hc
    · exact h.free_apart c hc hmem
  · intro c hc
    rcases Finset.mem_insert.mp hc with rfl | hc
    · exact hlt
    · exact h.allocated_lt c hc

theorem claim (h : Sound cfg s) (hlt : b < s.allocatedCount) (hfree : b ∉ s.free) :
    Sound cfg (claim cfg b s) :=
  (h.adopt hlt hfree).of_eq (claim_queue cfg b s) (claim_allocated cfg b s) (claim_count cfg b s)
    fun c => claim_field cfg b c s CacheBlock.isNull (fun _ => rfl) fun _ => rfl

theorem drop (h : Sound cfg s) (hb : (s.block b).isNull = false) :
    Sound cfg { s with allocatedBlocks := s.allocatedBlocks.erase b } := by
  refine ⟨h.queue, h.free_lt, fun c hc hmem => h.free_apart c hc (Finset.mem_of_mem_erase hmem),
    fun c hc => h.allocated_lt c (Finset.mem_of_mem_erase hc), h.isNull_iff, ?_, h.count_le⟩
  refine Finset.mem_erase_of_ne_of_mem (fun h0 => ?_) h.zero_mem
  rw [(h.isNull_iff b).mpr h0.symm] at hb
  exact Bool.noConfusion hb

theorem init (hs : init cfg = some s) : Sound cfg s := by
  unfold PagedCache.init at hs
  have hqueue := Links.holds_appendN (Links.holds_empty (α := ℕ))
    (List.nodup_range (n := min cfg.initialBlocks cfg.maxBlocks)) fun _ _ => List.not_mem_nil
  rw [List.nil_append] at hqueue
  rcases hn : min cfg.initialBlocks cfg.maxBlocks with _ | n
  · rw [hn, List.range_zero] at hqueue
    simp only [hn, List.range_zero, Links.popleft_nil hqueue, reduceCtorEq] at hs
  · rw [hn, List.range_eq_range', List.range'_succ] at hqueue
    obtain ⟨queue, hpop, hqueue⟩ := Links.popleft_cons hqueue
    simp only [hn, List.range_eq_range', List.range'_succ, hpop, Option.some.injEq] at hs
    subst hs
    have hfree := hqueue.toList_eq
    refine ⟨queue_of_holds hqueue, ?_, ?_, ?_, ?_, Finset.mem_singleton_self 0, ?_⟩
    · intro b hb
      rw [Manager.free, hfree, List.mem_range'_1] at hb
      simp only
      omega
    · intro b hb hmem
      rw [Manager.free, hfree, List.mem_range'_1] at hb
      rw [Finset.mem_singleton] at hmem
      omega
    · intro b hb
      rw [Finset.mem_singleton] at hb
      simp only
      omega
    · intro b
      rcases eq_or_ne b 0 with rfl | hb
      · simp
      · simp [hb]
    · simp only
      omega

/-- Every move keeps the queue and the allocated blocks apart. -/
theorem move (hmove : Move cfg care s t) (h : Sound cfg s) : Sound cfg t := by
  cases hmove with
  | recount b r n => exact h.edit b rfl
  | grow n => exact h.grow n
  | leave queue l hqueue hl => exact h.leave hqueue hl
  | enter queue bs hqueue hbs => exact h.enter hqueue hbs
  | claim b hlt hfree _ => exact h.claim hlt hfree
  | evict b =>
    exact h.of_eq (maybeEvict_queue b s) (maybeEvict_allocated b s) (maybeEvict_count b s)
      fun c => maybeEvict_field b c s CacheBlock.isNull fun _ => rfl
  | adopt b hlt hfree => exact h.adopt hlt hfree
  | drop b hb _ _ => exact h.drop hb
  | forget hash b _ => exact h.of_eq rfl rfl rfl fun _ => rfl
  | unname b n => exact h.edit b rfl
  | store hash b _ _ =>
    have hedit : Sound cfg (s.edit b fun x =>
      { x with blockHash := some hash, contents := some hash }) := h.edit b rfl
    exact hedit.of_eq rfl rfl rfl fun _ => rfl
  | label hash b _ => exact h.edit b rfl
  | copy b c n _ => exact h.edit b rfl
  | reset =>
    unfold resetPrefixCache
    simp only
    split_ifs
    · exact h
    · refine h.of_eq rfl rfl rfl fun b => ?_
      simp only
      split_ifs <;> rfl
  | clear =>
    unfold PagedCache.clear
    rcases hinit : PagedCache.init cfg with _ | s'
    · exact h
    · exact init hinit

theorem moves (hmoves : Moves cfg care s t) (h : Sound cfg s) : Sound cfg t :=
  hmoves.keeps move h

end Sound

end AI2Apps.Omlx.PagedCache
