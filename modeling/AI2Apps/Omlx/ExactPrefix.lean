import AI2Apps.Omlx.PagedCacheRuns

/-!
# Exact prefixes

`fetch_exact_prefix` walks the chain of a prompt, terminal block included.  It takes a
reference to each block, which it finds in memory or restores from disk, and where it cannot
go on it frees what it took.  `free_block` drops what it brings to no reference, so a block
that was cached with none is lost.

* `exactPrefixHashes`, `fetchExactPrefix`: the operations.
* `HashesHeld`: a block that is not allocated is not found through its own hash.
* `rollback_kept`, `rollback_dropped`, `rollback_cached`: what freeing does to each block.
-/

namespace AI2Apps.Omlx.PagedCache

variable {cfg : Config} {s t : Manager} {b c : ℕ} {h : BlockHash}

/-! ## The operations -/

/-- The text of `_EXACT_PREFIX_TERMINAL_KEY`. -/
def exactPrefixTerminalKey : Str := str "'specprefill-static-exact-v1'"

/-- The loop of `_exact_prefix_hashes`, over the next `n` blocks; the last is the terminal. -/
def exactHashesFrom (cfg : Config) (tokens : List ℤ) (extra : ExtraKeys) :
    ℕ → ℕ → Option BlockHash → Option (List (BlockHash × ℕ))
  | 0, _, _ => some []
  | n + 1, i, parentHash =>
    let blockTokens := cfg.blockTokens tokens i
    match resolveBlockExtraKeys ((i * cfg.blockSize + blockTokens.length : ℕ) : ℤ) extra with
    | none => none
    | some keys =>
      let extraKeys := if n = 0 then some (keys.getD [] ++ [exactPrefixTerminalKey]) else keys
      let h := computeBlockHash cfg parentHash blockTokens extraKeys
      (exactHashesFrom cfg tokens extra n (i + 1) (some h)).map ((h, blockTokens.length) :: ·)

/-- `_exact_prefix_hashes`; `none` where it raises. -/
def exactPrefixHashes (cfg : Config) (tokens : List ℤ) (extra : ExtraKeys) :
    Option (List (BlockHash × ℕ)) :=
  if cfg.blockSize = 0 then none
  else exactHashesFrom cfg tokens extra ((tokens.length + cfg.blockSize - 1) / cfg.blockSize) 0 none

/-- The block of a hash, from memory or from disk. -/
def findOrRestore (cfg : Config) (hasBlock : BlockHash → Bool) (h : BlockHash) (tokenCount : ℕ)
    (s : Manager) : Outcome (Option ℕ) × Manager :=
  match s.getBlock h with
  | some b => (.returned (some b), s)
  | none => if hasBlock h then restoreBlock cfg h tokenCount s else (.returned none, s)

/-- What was acquired is freed. -/
def rollback (acquired : List ℕ) (s : Manager) : Manager :=
  acquired.foldl (fun s b => (freeBlock b s).2) s

/-- The loop of `fetch_exact_prefix`. -/
def fetchFrom (cfg : Config) (hasBlock : BlockHash → Bool) :
    List (BlockHash × ℕ) → List ℕ → Manager → Outcome (Option (List ℕ)) × Manager
  | [], acquired, s => (.returned (some acquired), s)
  | (h, tokenCount) :: rest, acquired, s =>
    match findOrRestore cfg hasBlock h tokenCount s with
    | (.raised, s') => (.raised, s')
    | (.returned none, s') => (.returned none, rollback acquired s')
    | (.returned (some b), s') =>
      match acquireCachedBlock b h s' with
      | (true, s'') => fetchFrom cfg hasBlock rest (acquired ++ [b]) s''
      | (false, s'') => (.returned none, rollback acquired s'')

/-- `fetch_exact_prefix`: the blocks of the table it returns.  `hasBlock` is the lookup of the
cache on disk, where there is one. -/
def fetchExactPrefix (cfg : Config) (tokens : List ℤ) (extra : ExtraKeys)
    (hasBlock : Option (BlockHash → Bool)) (s : Manager) :
    Outcome (Option (List ℕ)) × Manager :=
  match tokens, hasBlock with
  | [], _ => (.returned none, s)
  | _, none => (.returned none, s)
  | tokens, some hasBlock =>
    match exactPrefixHashes cfg tokens extra with
    | none => (.raised, s)
    | some chain => fetchFrom cfg hasBlock chain [] s

/-! ## Hashes of blocks that are not allocated -/

/-- A block that is not allocated is not found through its own hash. -/
def HashesHeld (s : Manager) : Prop :=
  ∀ b ∉ s.allocatedBlocks, ∀ h, (s.block b).blockHash = some h → b ∉ s.cachedBlockHashToBlock h

namespace HashesHeld

/-- Managers where no more is found, and where hashes changed at allocated blocks only. -/
theorem of_le (hs : HashesHeld s) (hallocated : s.allocatedBlocks ⊆ t.allocatedBlocks)
    (hcached : ∀ b ∉ t.allocatedBlocks, ∀ h, b ∈ t.cachedBlockHashToBlock h →
      b ∈ s.cachedBlockHashToBlock h)
    (hblock : ∀ b ∉ t.allocatedBlocks, ∀ h, (t.block b).blockHash = some h →
      (s.block b).blockHash = some h) : HashesHeld t :=
  fun b hb h hh hmem =>
    hs b (fun hold => hb (hallocated hold)) h (hblock b hb h hh) (hcached b hb h hmem)

theorem maybeEvict (hs : HashesHeld s) (b : ℕ) : HashesHeld (maybeEvictCachedBlock b s) := by
  refine hs.of_le (maybeEvict_allocated b s).ge (fun c _ h' hc => ?_) fun c _ h' hh => ?_
  · unfold maybeEvictCachedBlock at hc
    split at hc
    · exact hc
    · split_ifs at hc
      · exact (mem_pop_cached.mp hc).1
      · exact (mem_pop_cached.mp hc).1
  · unfold maybeEvictCachedBlock at hh
    split at hh
    · exact hh
    · split_ifs at hh
      · rcases eq_or_ne c b with rfl | hne
        · rw [edit_self] at hh
          exact nomatch hh
        · rw [edit_of_ne _ _ hne] at hh
          exact hh
      · exact hh

theorem init (hs : PagedCache.init cfg = some s) : HashesHeld s := by
  unfold PagedCache.init at hs
  dsimp only at hs
  split at hs
  · exact nomatch hs
  · obtain rfl := Option.some.inj hs
    exact fun _ _ _ _ => List.not_mem_nil

theorem move (hmove : Move cfg .namesHeld s t) (_ : Sound cfg s) (hs : HashesHeld s) :
    HashesHeld t := by
  cases hmove with
  | recount b r n =>
    exact hs.of_le (Finset.Subset.refl _) (fun _ _ _ => id) fun c _ h' hh => by
      rwa [edit_field s b c _ CacheBlock.blockHash rfl] at hh
  | grow n =>
    unfold growBlocks
    simp only
    split_ifs
    · exact hs
    · refine hs.of_le (Finset.Subset.refl _) (fun _ _ _ => id) fun c _ h' hh => ?_
      simp only at hh
      split_ifs at hh
      exact hh
  | leave queue l _ _ => exact hs.of_le (Finset.Subset.refl _) (fun _ _ _ => id) fun _ _ _ => id
  | enter queue bs _ _ => exact hs.of_le (Finset.Subset.refl _) (fun _ _ _ => id) fun _ _ _ => id
  | claim b _ _ _ =>
    have hevicted : HashesHeld (if cfg.enableCaching then maybeEvictCachedBlock b s else s) := by
      split_ifs
      · exact hs.maybeEvict b
      · exact hs
    refine hevicted.of_le (Finset.subset_insert b _) (fun _ _ _ => id) fun c hc h' hh => ?_
    rwa [show (PagedCache.claim cfg b s).block c = (Manager.edit
      (if cfg.enableCaching then maybeEvictCachedBlock b s else s) b
        fun x => { x with refCount := 1, contents := none }).block c from rfl,
      edit_field _ b c _ CacheBlock.blockHash rfl] at hh
  | evict b => exact hs.maybeEvict b
  | adopt b _ _ => exact hs.of_le (Finset.subset_insert b _) (fun _ _ _ => id) fun _ _ _ => id
  | drop b _ _ hown =>
    intro c hc h' hh
    by_cases hmem : c ∈ s.allocatedBlocks
    · obtain rfl : c = b := by
        by_contra hne
        exact hc (Finset.mem_erase_of_ne_of_mem hne hmem)
      exact hown h' hh
    · exact hs c hmem h' hh
  | forget hash b _ =>
    exact hs.of_le (Finset.Subset.refl _) (fun _ _ _ hc => (mem_pop_cached.mp hc).1) fun _ _ _ => id
  | unname b n =>
    refine hs.of_le (Finset.Subset.refl _) (fun _ _ _ => id) fun c _ h' hh => ?_
    rcases eq_or_ne c b with rfl | hne
    · rw [edit_self] at hh
      exact nomatch hh
    · rwa [edit_of_ne s _ hne] at hh
  | store hash b _ hheld =>
    have hb : ∀ c ∉ s.allocatedBlocks, c ≠ b := fun c hc hcb => hc (hcb ▸ hheld rfl)
    refine hs.of_le (Finset.Subset.refl _) (fun c hc h' hmem => ?_) fun c hc h' hh => ?_
    · exact (mem_insert_cached.mp hmem).resolve_right fun heq => hb c hc heq.2
    · rwa [store_of_ne hash s (hb c hc)] at hh
  | label hash b hb =>
    refine hs.of_le (Finset.Subset.refl _) (fun _ _ _ => id) fun c hc h' hh => ?_
    have hne : c ≠ b := fun hcb => hc (by rw [hcb]; exact hb)
    rwa [edit_of_ne s _ hne] at hh
  | copy b d n hb =>
    refine hs.of_le (Finset.Subset.refl _) (fun _ _ _ => id) fun c hc h' hh => ?_
    have hne : c ≠ b := fun hcb => hc (by rw [hcb]; exact hb)
    rwa [edit_of_ne s _ hne] at hh
  | reset =>
    unfold resetPrefixCache
    simp only
    split_ifs
    · exact hs
    · exact fun _ _ _ _ => List.not_mem_nil
  | clear =>
    unfold PagedCache.clear
    rcases hinit : PagedCache.init cfg with _ | s'
    · exact hs
    · exact init hinit

theorem moves (hs : HashesHeld s) (hsound : Sound cfg s) (hmoves : Moves cfg .namesHeld s t) :
    HashesHeld t :=
  (hmoves.keeps (P := fun t => Sound cfg t ∧ HashesHeld t)
    (fun hm ht => ⟨ht.1.move hm, ht.2.move hm ht.1⟩) ⟨hsound, hs⟩).2

end HashesHeld

theorem Reachable.hashesHeld (hs : Reachable cfg .namesHeld s) : HashesHeld s :=
  hs.keeps (fun _ => HashesHeld.init) HashesHeld.move

/-! ## Freeing what was acquired -/

/-- A call of `free_block` does nothing, lowers a count, or drops the block. -/
theorem freeBlock_cases (s : Manager) (b : ℕ) :
    (b ∉ s.allocatedBlocks ∨ (s.block b).isNull = true) ∧ (freeBlock b s).2 = s ∨
    (b ∈ s.allocatedBlocks ∧ (s.block b).isNull = false ∧ 1 < (s.block b).refCount ∧
      (freeBlock b s).2 = s.edit b fun x => { x with refCount := x.refCount - 1 }) ∨
    (b ∈ s.allocatedBlocks ∧ (s.block b).isNull = false ∧ (s.block b).refCount ≤ 1 ∧
      b ∉ (freeBlock b s).2.allocatedBlocks ∧
      (∀ c ≠ b, c ∈ (freeBlock b s).2.allocatedBlocks ↔ c ∈ s.allocatedBlocks) ∧
      (freeBlock b s).2.block = (s.edit b fun x => { x with refCount := x.refCount - 1 }).block ∧
      (freeBlock b s).2.cachedBlockHashToBlock = (s.popOwn b).cachedBlockHashToBlock) := by
  unfold freeBlock
  by_cases hmem : b ∈ s.allocatedBlocks
  · rw [if_neg (not_not_intro hmem)]
    rcases hnull : (s.block b).isNull with _ | _
    · rw [if_neg Bool.false_ne_true]
      simp only [edit_self]
      split_ifs with hzero
      · refine .inr (.inr ⟨hmem, trivial, by omega, ?_, fun c hc => ?_, popOwn_block _ b, ?_⟩)
        · exact Finset.notMem_erase b _
        · simp only [popOwn_allocated, Finset.mem_erase, ne_eq, hc, not_false_eq_true, true_and]
          exact Iff.rfl
        · unfold Manager.popOwn
          rw [edit_field s b b (fun x => { x with refCount := x.refCount - 1 })
            CacheBlock.blockHash rfl]
          rcases (s.block b).blockHash with _ | h
          · rfl
          · rfl
      · exact .inr (.inl ⟨hmem, trivial, by omega, rfl⟩)
    · rw [if_pos rfl]
      exact .inl ⟨.inr rfl, rfl⟩
  · rw [if_pos hmem]
    exact .inl ⟨.inl hmem, rfl⟩

theorem freeBlock_of_ne (s : Manager) (hne : c ≠ b) :
    (freeBlock b s).2.block c = s.block c ∧
      (c ∈ (freeBlock b s).2.allocatedBlocks ↔ c ∈ s.allocatedBlocks) := by
  rcases freeBlock_cases s b with ⟨-, heq⟩ | ⟨-, -, -, heq⟩ | ⟨-, -, -, -, hmem, hblock, -⟩
  · rw [heq]
    exact ⟨rfl, Iff.rfl⟩
  · rw [heq]
    exact ⟨edit_of_ne s _ hne, Iff.rfl⟩
  · rw [hblock]
    exact ⟨edit_of_ne s _ hne, hmem c hne⟩

/-- A hash leads to what it led to, unless it is the hash of a block that was dropped. -/
theorem freeBlock_cached (s : Manager) (b : ℕ) (h : BlockHash) :
    (freeBlock b s).2.cachedBlockHashToBlock h = s.cachedBlockHashToBlock h ∨
      (s.block b).refCount ≤ 1 ∧ (s.block b).blockHash = some h ∧
        (freeBlock b s).2.cachedBlockHashToBlock h =
          (s.cachedBlockHashToBlock h).filter (· ≠ b) := by
  rcases freeBlock_cases s b with ⟨-, heq⟩ | ⟨-, -, -, heq⟩ | ⟨-, -, hone, -, -, -, hcached⟩
  · exact .inl (by rw [heq])
  · exact .inl (by rw [heq]; rfl)
  · rw [hcached]
    unfold Manager.popOwn
    rcases hhash : (s.block b).blockHash with _ | h'
    · exact .inl rfl
    · rcases eq_or_ne h h' with rfl | hne
      · exact .inr ⟨hone, rfl, Function.update_self ..⟩
      · exact .inl (Function.update_of_ne hne ..)

section Rollback

variable {acquired : List ℕ}

theorem rollback_cons (s : Manager) (b : ℕ) (acquired : List ℕ) :
    rollback (b :: acquired) s = rollback acquired (freeBlock b s).2 := rfl

/-- What was not acquired stays as it is. -/
theorem rollback_of_notMem (hc : c ∉ acquired) :
    (rollback acquired s).block c = s.block c ∧
      (c ∈ (rollback acquired s).allocatedBlocks ↔ c ∈ s.allocatedBlocks) := by
  induction acquired generalizing s with
  | nil => exact ⟨rfl, Iff.rfl⟩
  | cons b acquired ih =>
    rw [List.mem_cons, not_or] at hc
    rw [rollback_cons, (ih hc.2).1, (ih hc.2).2]
    exact freeBlock_of_ne s hc.1

/-- A block keeps the references that were not acquired. -/
theorem rollback_kept (hmem : b ∈ s.allocatedBlocks) (hnull : (s.block b).isNull = false)
    (href : acquired.count b < (s.block b).refCount) :
    ((rollback acquired s).block b).refCount = (s.block b).refCount - acquired.count b ∧
      b ∈ (rollback acquired s).allocatedBlocks := by
  induction acquired generalizing s with
  | nil => exact ⟨by rw [List.count_nil]; exact (Int.sub_zero _).symm, hmem⟩
  | cons c acquired ih =>
    rw [rollback_cons]
    rcases eq_or_ne b c with rfl | hne
    · rw [List.count_cons_self] at href ⊢
      rcases freeBlock_cases s b with ⟨hb | hb, -⟩ | ⟨-, -, -, heq⟩ | ⟨-, -, hone, -⟩
      · exact absurd hmem hb
      · rw [hnull] at hb
        exact nomatch hb
      · have hself : (s.edit b fun x => { x with refCount := x.refCount - 1 }).block b =
            { s.block b with refCount := (s.block b).refCount - 1 } := edit_self s b _
        rw [heq]
        have := ih (s := s.edit b fun x => { x with refCount := x.refCount - 1 }) hmem
          (by rw [hself]; exact hnull) (by rw [hself]; simp only; omega)
        rw [hself] at this
        refine ⟨this.1.trans ?_, this.2⟩
        simp only
        omega
      · omega
    · obtain ⟨hblock, hiff⟩ := freeBlock_of_ne s hne
      rw [List.count_cons_of_ne hne.symm] at href ⊢
      rw [← hblock] at hnull href ⊢
      exact ih (hiff.mpr hmem) hnull href

theorem rollback_allocated_subset (s : Manager) (acquired : List ℕ) :
    (rollback acquired s).allocatedBlocks ⊆ s.allocatedBlocks := by
  induction acquired generalizing s with
  | nil => exact Finset.Subset.refl _
  | cons b acquired ih => exact (ih _).trans (freeBlock_allocated s b)

/-- What is not allocated is not freed. -/
theorem rollback_unallocated (hb : b ∉ s.allocatedBlocks) :
    (rollback acquired s).block b = s.block b := by
  induction acquired generalizing s with
  | nil => rfl
  | cons c acquired ih =>
    rw [rollback_cons, ih fun hmem => hb (freeBlock_allocated s c hmem)]
    rcases eq_or_ne b c with rfl | hne
    · rcases freeBlock_cases s b with ⟨-, heq⟩ | ⟨hmem, -⟩ | ⟨hmem, -⟩
      · rw [heq]
      · exact absurd hmem hb
      · exact absurd hmem hb
    · exact (freeBlock_of_ne s hne).1

/-- Freeing finds no more than was found. -/
theorem rollback_filter (s : Manager) (acquired : List ℕ) (h : BlockHash) :
    ∃ p : ℕ → Bool,
      (rollback acquired s).cachedBlockHashToBlock h = (s.cachedBlockHashToBlock h).filter p := by
  induction acquired generalizing s with
  | nil => exact ⟨fun _ => true, (List.filter_true _).symm⟩
  | cons b acquired ih =>
    obtain ⟨p, hp⟩ := ih (freeBlock b s).2
    rw [rollback_cons, hp]
    rcases freeBlock_cached s b h with heq | ⟨-, -, heq⟩
    · exact ⟨p, by rw [heq]⟩
    · exact ⟨_, by rw [heq, List.filter_filter]⟩

/-- A block all of whose references were acquired is dropped. -/
theorem rollback_dropped (hmem : b ∈ s.allocatedBlocks) (hnull : (s.block b).isNull = false)
    (hb : b ∈ acquired) (href : (s.block b).refCount ≤ acquired.count b) :
    b ∉ (rollback acquired s).allocatedBlocks ∧
      (1 ≤ (s.block b).refCount → ((rollback acquired s).block b).refCount = 0) ∧
      ∀ h, (s.block b).blockHash = some h →
        b ∉ (rollback acquired s).cachedBlockHashToBlock h := by
  induction acquired generalizing s with
  | nil => exact absurd hb List.not_mem_nil
  | cons c acquired ih =>
    rw [rollback_cons]
    rcases eq_or_ne b c with rfl | hne
    · have hself : (s.edit b fun x => { x with refCount := x.refCount - 1 }).block b =
          { s.block b with refCount := (s.block b).refCount - 1 } := edit_self s b _
      rw [List.count_cons_self] at href
      rcases freeBlock_cases s b with ⟨hb' | hb', -⟩ | ⟨-, -, hone, heq⟩ |
        ⟨-, -, hone, hnot, -, hblock, hcached⟩
      · exact absurd hmem hb'
      · rw [hnull] at hb'
        exact nomatch hb'
      · have hrest : b ∈ acquired := List.count_pos_iff.mp (by omega)
        have := ih (s := s.edit b fun x => { x with refCount := x.refCount - 1 }) hmem
          (by rw [hself]; exact hnull) hrest (by rw [hself]; simp only; omega)
        rw [hself] at this
        rw [heq]
        exact ⟨this.1, fun _ => this.2.1 (by simp only; omega), this.2.2⟩
      · refine ⟨fun hmem' => hnot (rollback_allocated_subset _ acquired hmem'), fun hpos => ?_,
          fun h hh hfound => ?_⟩
        · rw [rollback_unallocated hnot, hblock, hself]
          simp only
          omega
        · obtain ⟨p, hp⟩ := rollback_filter (freeBlock b s).2 acquired h
          rw [hp, hcached] at hfound
          exact notMem_popOwn hh (List.mem_filter.mp hfound).1
    · obtain ⟨hblock, hiff⟩ := freeBlock_of_ne s hne
      rw [List.count_cons_of_ne hne.symm] at href
      rw [← hblock] at hnull href ⊢
      exact ih (hiff.mpr hmem) hnull ((List.mem_cons.mp hb).resolve_left hne) href

/-- A hash still leads to a block that was not dropped, or that had another hash. -/
theorem rollback_cached (hc : c ∈ s.cachedBlockHashToBlock h)
    (hkept : (s.block c).blockHash = some h → c ∈ acquired →
      acquired.count c < (s.block c).refCount) :
    c ∈ (rollback acquired s).cachedBlockHashToBlock h := by
  induction acquired generalizing s with
  | nil => exact hc
  | cons b acquired ih =>
    rw [rollback_cons]
    refine ih ?_ fun hhash hmem => ?_
    · rcases freeBlock_cached s b h with heq | ⟨hone, hhash, heq⟩
      · rwa [heq]
      · rw [heq, List.mem_filter]
        refine ⟨hc, decide_eq_true fun hcb => ?_⟩
        subst hcb
        have := hkept hhash List.mem_cons_self
        rw [List.count_cons_self] at this
        omega
    · rcases eq_or_ne c b with rfl | hne
      · have hself : (s.edit c fun x => { x with refCount := x.refCount - 1 }).block c =
            { s.block c with refCount := (s.block c).refCount - 1 } := edit_self s c _
        rcases freeBlock_block s c with hblock | hblock
        · rw [hblock] at hhash ⊢
          have := hkept hhash List.mem_cons_self
          rw [List.count_cons_self] at this
          omega
        · rw [hblock, hself] at hhash ⊢
          have := hkept hhash List.mem_cons_self
          rw [List.count_cons_self] at this
          simp only
          omega
      · have hblock := (freeBlock_of_ne s hne).1
        rw [hblock] at hhash ⊢
        have := hkept hhash (List.mem_cons_of_mem b hmem)
        rwa [List.count_cons_of_ne hne.symm] at this

end Rollback

end AI2Apps.Omlx.PagedCache
