import Mathlib.Data.Finset.Card
import Mathlib.Data.Finset.Range
import AI2Apps.Omlx.PagedCacheRuns

/-!
# What the manager says of its room

`reset_prefix_cache` and `handle_memory_pressure` are asked about blocks, and answer from
`max_blocks` and from the length of the queue.  The pool need not have grown to `max_blocks`:
then an unused cache is not reset, and a request is refused that would be served.

* `length_free_add_card_le`: the queue and the allocated blocks share the pool.
* `allocatesAll_iff`: how many blocks can be allocated.
* `capacity_answers`: when both answers are right.
-/

namespace AI2Apps.Omlx.PagedCache

variable {cfg : Config} {care : Care} {s t : Manager} {b n : ℕ}

/-! ## The pool -/

/-- Every block is allocated or waits in the queue. -/
def Covered (s : Manager) : Prop :=
  ∀ b < s.allocatedCount, b ∈ s.allocatedBlocks ∨ b ∈ s.free

theorem card_free_union (h : Sound cfg s) :
    (s.free.toFinset ∪ s.allocatedBlocks).card = s.free.length + s.allocatedBlocks.card := by
  rw [Finset.card_union_of_disjoint, List.toFinset_card_of_nodup h.queue.nodup]
  rw [Finset.disjoint_left]
  exact fun b hb => h.free_apart b (List.mem_toFinset.mp hb)

theorem free_union_subset (h : Sound cfg s) :
    s.free.toFinset ∪ s.allocatedBlocks ⊆ Finset.range s.allocatedCount := by
  intro b hb
  rw [Finset.mem_union, List.mem_toFinset] at hb
  exact Finset.mem_range.mpr (hb.elim (h.free_lt b) (h.allocated_lt b))

/-- The queue and the allocated blocks share the pool. -/
theorem length_free_add_card_le (h : Sound cfg s) :
    s.free.length + s.allocatedBlocks.card ≤ s.allocatedCount := by
  have hcard := Finset.card_le_card (free_union_subset h)
  rwa [card_free_union h, Finset.card_range] at hcard

theorem covered_iff (h : Sound cfg s) :
    Covered s ↔ s.free.length + s.allocatedBlocks.card = s.allocatedCount := by
  constructor
  · intro hcovered
    have heq : s.free.toFinset ∪ s.allocatedBlocks = Finset.range s.allocatedCount := by
      refine (free_union_subset h).antisymm fun b hb => ?_
      rw [Finset.mem_union, List.mem_toFinset]
      exact (hcovered b (Finset.mem_range.mp hb)).symm
    rw [← card_free_union h, heq, Finset.card_range]
  · intro hcard b hb
    have heq := Finset.eq_of_subset_of_card_le (free_union_subset h)
      (by rw [card_free_union h, hcard, Finset.card_range])
    have hmem : b ∈ s.free.toFinset ∪ s.allocatedBlocks := heq ▸ Finset.mem_range.mpr hb
    rw [Finset.mem_union, List.mem_toFinset] at hmem
    exact hmem.symm

/-- A block other than the null block is allocated, or none is. -/
theorem card_allocated (h : Sound cfg s) :
    s.allocatedBlocks = {0} ∧ s.allocatedBlocks.card = 1 ∨
      s.allocatedBlocks ≠ {0} ∧ 2 ≤ s.allocatedBlocks.card := by
  by_cases hzero : s.allocatedBlocks = {0}
  · exact .inl ⟨hzero, by rw [hzero, Finset.card_singleton]⟩
  · refine .inr ⟨hzero, ?_⟩
    by_contra hlt
    have hpos : 0 < s.allocatedBlocks.card := Finset.card_pos.mpr ⟨0, h.zero_mem⟩
    obtain ⟨a, ha⟩ := Finset.card_eq_one.mp (show s.allocatedBlocks.card = 1 by omega)
    have hmem := h.zero_mem
    rw [ha, Finset.mem_singleton] at hmem
    exact hzero (by rw [ha, hmem])

/-! ## The answers -/

/-- `reset_prefix_cache` says whether only the null block is allocated, and then no hash is
left. -/
def ResetAnswers (cfg : Config) (s : Manager) : Prop :=
  ((resetPrefixCache cfg s).1 = true ↔ s.allocatedBlocks = {0}) ∧
    ((resetPrefixCache cfg s).1 = true →
      (∀ h, (resetPrefixCache cfg s).2.cachedBlockHashToBlock h = []) ∧
        ∀ b < (resetPrefixCache cfg s).2.allocatedCount,
          ((resetPrefixCache cfg s).2.block b).blockHash = none)

/-- The next `n` calls of `allocate_block` all succeed. -/
def allocatesAll (cfg : Config) : ℕ → Manager → Bool
  | 0, _ => true
  | n + 1, s =>
    match allocateBlock cfg s with
    | (.returned (some _), s') => allocatesAll cfg n s'
    | _ => false

/-- `handle_memory_pressure` says whether the next `n` allocations succeed. -/
def PressureAnswers (cfg : Config) (s : Manager) (n : ℕ) : Prop :=
  (handleMemoryPressure n s).1 = true ↔ allocatesAll cfg n (handleMemoryPressure n s).2 = true

theorem resetPrefixCache_iff (h : Sound cfg s) :
    (resetPrefixCache cfg s).1 = true ↔ cfg.maxBlocks ≤ s.free.length + 1 := by
  unfold resetPrefixCache
  simp only [h.count_eq]
  split_ifs with hused
  · simp only [false_iff]
    omega
  · simp only [true_iff]
    omega

theorem resetAnswers_iff (h : Sound cfg s) :
    ResetAnswers cfg s ↔
      s.allocatedBlocks ≠ {0} ∨ s.allocatedCount = cfg.maxBlocks ∧ Covered s := by
  have hle := length_free_add_card_le h
  have hmax := h.count_le
  have hclean : (resetPrefixCache cfg s).1 = true →
      (∀ h, (resetPrefixCache cfg s).2.cachedBlockHashToBlock h = []) ∧
        ∀ b < (resetPrefixCache cfg s).2.allocatedCount,
          ((resetPrefixCache cfg s).2.block b).blockHash = none := by
    unfold resetPrefixCache
    simp only
    split_ifs
    · exact nofun
    · exact fun _ => ⟨fun _ => rfl, fun b hb => by simp only [if_pos hb]⟩
  rw [ResetAnswers, and_iff_left hclean, resetPrefixCache_iff h, covered_iff h]
  rcases card_allocated h with ⟨hzero, hcard⟩ | ⟨hzero, hcard⟩
  · simp only [hzero, ne_eq, not_true_eq_false, false_or, iff_true]
    rw [← hzero, hcard]
    omega
  · simp only [hzero, ne_eq, not_false_eq_true, true_or, iff_true, iff_false]
    omega

/-- How many blocks can be allocated: what is free, and what the pool may still grow by. -/
theorem allocatesAll_iff (h : Sound cfg s) (n : ℕ) :
    allocatesAll cfg n s = true ↔ n ≤ s.free.length + (cfg.maxBlocks - s.allocatedCount) := by
  induction n generalizing s with
  | zero => exact iff_of_true rfl (Nat.zero_le _)
  | succ n ih =>
    unfold allocatesAll
    rcases allocateBlock_cases h with ⟨hfree, hfull, heq⟩ | ⟨g, b, l, queue, hg, hgfree, hqueue, heq⟩
    · rw [heq, hfree, hfull]
      simp
    · have hmoves : Moves cfg .plain s (allocateBlock cfg s).2 := moves_allocateBlock h
      have hsound := h.moves hmoves
      have hafter : (claim cfg b { g with freeBlockQueue := queue }).free = l := by
        rw [Manager.free, claim_queue]
        exact hqueue.toList_eq
      rw [heq] at hsound
      rw [heq, ih hsound, hafter, claim_count]
      dsimp only
      have hlength := congrArg List.length hgfree
      rw [List.length_cons] at hlength
      rcases hg with rfl | ⟨hfree, hroom, rfl⟩
      · omega
      · have hmin : min (min 256 (cfg.maxBlocks - s.allocatedCount))
            (cfg.maxBlocks - s.allocatedCount) ≠ 0 := by omega
        obtain ⟨-, hgrown, hcount⟩ := growBlocks_eq h hmin
        rw [hgrown, hfree, List.nil_append, List.length_range'] at hlength
        rw [hcount, hfree, List.length_nil]
        omega

theorem pressureAnswers_iff (h : Sound cfg s) (n : ℕ) :
    PressureAnswers cfg s n ↔
      n ≤ s.free.length ∨ s.free.length + (cfg.maxBlocks - s.allocatedCount) < n := by
  have hmoves : Moves cfg .plain s (handleMemoryPressure n s).2 := moves_handleMemoryPressure h n
  have hsound := h.moves hmoves
  rw [PressureAnswers, allocatesAll_iff hsound]
  have hanswer : ((handleMemoryPressure n s).1 = true ↔ n ≤ s.free.length) ∧
      (handleMemoryPressure n s).2.free.length = s.free.length ∧
      (handleMemoryPressure n s).2.allocatedCount = s.allocatedCount := by
    unfold handleMemoryPressure
    by_cases hle : n ≤ s.freeBlockQueue.count
    · rw [if_pos hle]
      rw [h.count_eq] at hle
      exact ⟨iff_of_true rfl (by omega), rfl, rfl⟩
    · rw [if_neg hle]
      unfold evictLruBlocks
      generalize min (n - s.freeBlockQueue.count).toNat s.freeBlockQueue.count.toNat = m
      have hpool := evictLoop_pool h m
      have hevicted : Moves cfg .plain s (evictLoop m s) := moves_evictLoop h m
      have hcount := (h.moves hevicted).count_eq
      refine ⟨decide_eq_true_iff.trans ?_, hpool⟩
      rw [hcount, hpool.1]
      omega
  rw [hanswer.1, hanswer.2.1, hanswer.2.2]
  omega

/-- Both answers of a manager, in every state of every run that does not evict for good what
is free. -/
theorem capacity_answers {cfg : Config} {s : Manager} (hs : Reachable cfg .plain s) (n : ℕ) :
    (ResetAnswers cfg s ↔
      s.allocatedBlocks ≠ {0} ∨ s.allocatedCount = cfg.maxBlocks ∧ Covered s) ∧
    (PressureAnswers cfg s n ↔
      n ≤ s.free.length ∨ s.free.length + (cfg.maxBlocks - s.allocatedCount) < n) :=
  ⟨resetAnswers_iff hs.sound, pressureAnswers_iff hs.sound n⟩

/-- A pool of one block that may grow to three. -/
def growingConfig : Config where
  blockSize := 4
  maxBlocks := 3
  enableCaching := true
  modelName := []
  initialBlocks := 1
  sha256 bytes := bytes

/-- A manager that has grown, with one block released and evicted for good. -/
theorem capacity_answers_grown :
    ∃ s₀ s, init growingConfig = some s₀ ∧
      s = [.getNewBlocks 2, .releaseForEviction [1], .evictBlockPermanently 1].foldl
        (apply growingConfig) s₀ ∧
      (ResetAnswers growingConfig s ↔
        s.allocatedBlocks ≠ {0} ∨ s.allocatedCount = growingConfig.maxBlocks ∧ Covered s) ∧
      (PressureAnswers growingConfig s 1 ↔
        1 ≤ s.free.length ∨
          s.free.length + (growingConfig.maxBlocks - s.allocatedCount) < 1) := by
  refine ⟨_, _, rfl, rfl, capacity_answers ?_ 1⟩
  have hreleased := @Reachable.step growingConfig .plain _ (.releaseForEviction [1])
    (.step (.getNewBlocks 2) (.start rfl) trivial) trivial
  exact hreleased.step (.evictBlockPermanently 1) (by
    show 1 ∉ Manager.free _
    decide +kernel)

/-- Nothing is allocated, but the cache is not reset; a block could be allocated, but the
pressure is not handled. -/
theorem capacity_misjudged :
    ∃ s, Reachable growingConfig .plain s ∧ s.allocatedBlocks = {0} ∧
      ¬ ResetAnswers growingConfig s ∧ ¬ PressureAnswers growingConfig s 1 := by
  refine ⟨_, .start rfl, rfl, fun h => ?_, fun h => ?_⟩
  · rcases (resetAnswers_iff (Sound.init rfl)).mp h with h | ⟨h, -⟩
    · exact h rfl
    · exact absurd h (by decide)
  · exact absurd ((pressureAnswers_iff (Sound.init rfl) 1).mp h) (by decide)

end AI2Apps.Omlx.PagedCache
