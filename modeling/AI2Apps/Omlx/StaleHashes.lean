import AI2Apps.Omlx.PagedCacheRuns

/-!
# Hashes that outlive their blocks

A block whose last reference is dropped leaves the lookup but keeps its hash.  When it is
allocated again the eviction finds it in no lookup, and does not reset the hash either.  So a
new block may carry the identity of an old one: `cache_full_blocks` takes it for cached, and
`acquire_cached_block` hands it out for what it no longer holds.

* `Named`: what an unallocated block's hash and any block's hash say.
* `Named.move`: the moves of a run that frees no block with a hash keep it.
* `no_stale_identity`: in such runs, new blocks carry no hash.
-/

namespace AI2Apps.Omlx.PagedCache

variable {cfg : Config} {s t : Manager} {b c n : ℕ}

structure Named (cfg : Config) (s : Manager) : Prop where
  /-- Allocation will find the hash of a block that is not allocated, and reset it. -/
  evictable : ∀ b < s.allocatedCount, b ∉ s.allocatedBlocks → ∀ h,
    (s.block b).blockHash = some h → cfg.enableCaching = true ∧ b ∈ s.cachedBlockHashToBlock h
  registered : ∀ b h, (s.block b).blockHash = some h → (s.block b).contents = some h

/-! ## Eviction -/

theorem mem_maybeEvict {h : BlockHash} (hne : c ≠ b) :
    c ∈ (maybeEvictCachedBlock b s).cachedBlockHashToBlock h ↔ c ∈ s.cachedBlockHashToBlock h := by
  have hpop : ∀ h', c ∈ (s.pop h' b).cachedBlockHashToBlock h ↔ c ∈ s.cachedBlockHashToBlock h :=
    fun h' => mem_pop_cached.trans (and_iff_left fun heq => hne heq.2)
  unfold maybeEvictCachedBlock
  split
  · exact Iff.rfl
  · split_ifs
    · exact hpop _
    · exact hpop _

/-- Eviction of a block that its hash leads to resets the hash. -/
theorem maybeEvict_hash
    (hb : ∀ h, (s.block b).blockHash = some h → b ∈ s.cachedBlockHashToBlock h) :
    ((maybeEvictCachedBlock b s).block b).blockHash = none := by
  unfold maybeEvictCachedBlock
  split
  · next hnone => exact hnone
  · next h hsome => rw [if_pos (hb h hsome), edit_self]

theorem maybeEvict_hash_cases (s : Manager) (b : ℕ) :
    ((maybeEvictCachedBlock b s).block b).blockHash = none ∨
      ((maybeEvictCachedBlock b s).block b).blockHash = (s.block b).blockHash := by
  unfold maybeEvictCachedBlock
  split
  · exact .inr rfl
  · split_ifs
    · exact .inl (by rw [edit_self])
    · exact .inr rfl

theorem mem_claim {h : BlockHash} (hne : c ≠ b) :
    c ∈ (claim cfg b s).cachedBlockHashToBlock h ↔ c ∈ s.cachedBlockHashToBlock h := by
  unfold claim
  split_ifs
  · exact mem_maybeEvict hne
  · exact Iff.rfl

/-- An allocated block carries no hash. -/
theorem Named.claim_hash (hs : Named cfg s) (hlt : b < s.allocatedCount)
    (hb : b ∉ s.allocatedBlocks) : ((claim cfg b s).block b).blockHash = none := by
  unfold claim
  refine (edit_field _ b b (fun x => { x with refCount := 1, contents := none })
    CacheBlock.blockHash rfl).trans ?_
  split_ifs with hcaching
  · exact maybeEvict_hash fun h hh => (hs.evictable b hlt hb h hh).2
  · rcases hh : (s.block b).blockHash with _ | h
    · rfl
    · exact absurd (hs.evictable b hlt hb h hh).1 hcaching

/-! ## The moves -/

namespace Named

/-- Managers with one set of allocated blocks, and hashes that lead to as much. -/
theorem of_eq (h : Named cfg s) (hcount : t.allocatedCount = s.allocatedCount)
    (hallocated : s.allocatedBlocks ⊆ t.allocatedBlocks)
    (hcached : ∀ b ∉ t.allocatedBlocks, ∀ h, b ∈ s.cachedBlockHashToBlock h →
      b ∈ t.cachedBlockHashToBlock h)
    (hblock : ∀ b, (t.block b).blockHash = (s.block b).blockHash ∧
      (t.block b).contents = (s.block b).contents) : Named cfg t := by
  constructor
  · intro b hlt hb hash hh
    rw [hcount] at hlt
    rw [(hblock b).1] at hh
    obtain ⟨hcaching, hmem⟩ := h.evictable b hlt (fun hmem => hb (hallocated hmem)) hash hh
    exact ⟨hcaching, hcached b hb hash hmem⟩
  · intro b hash hh
    rw [(hblock b).1] at hh
    rw [(hblock b).2]
    exact h.registered b hash hh

/-- One block got a new hash. -/
theorem rename (h : Named cfg s) (hcount : t.allocatedCount = s.allocatedCount)
    (hallocated : t.allocatedBlocks = s.allocatedBlocks)
    (hcached : ∀ c ≠ b, ∀ h, c ∈ s.cachedBlockHashToBlock h → c ∈ t.cachedBlockHashToBlock h)
    (hblock : ∀ c ≠ b, t.block c = s.block c)
    (hb : ∀ h, (t.block b).blockHash = some h → (t.block b).contents = some h ∧
      (b < s.allocatedCount → b ∉ s.allocatedBlocks →
        cfg.enableCaching = true ∧ b ∈ t.cachedBlockHashToBlock h)) :
    Named cfg t := by
  constructor
  · intro c hlt hc hash hh
    rw [hallocated] at hc
    rw [hcount] at hlt
    rcases eq_or_ne c b with rfl | hne
    · exact (hb hash hh).2 hlt hc
    · rw [hblock c hne] at hh
      obtain ⟨hcaching, hmem⟩ := h.evictable c hlt hc hash hh
      exact ⟨hcaching, hcached c hne hash hmem⟩
  · intro c hash hh
    rcases eq_or_ne c b with rfl | hne
    · exact (hb hash hh).1
    · rw [hblock c hne] at hh ⊢
      exact h.registered c hash hh

theorem grow (h : Named cfg s) (n : ℕ) : Named cfg (growBlocks cfg n s).2 := by
  unfold growBlocks
  simp only
  split_ifs
  · exact h
  · constructor
    · intro b hlt hb hash hh
      simp only at hlt hb hh ⊢
      split_ifs at hh with hnew
      exact h.evictable b (by omega) hb hash hh
    · intro b hash hh
      simp only at hh ⊢
      split_ifs at hh ⊢
      exact h.registered b hash hh

theorem claim (h : Named cfg s) (hlt : b < s.allocatedCount) (hb : b ∉ s.allocatedBlocks) :
    Named cfg (claim cfg b s) := by
  have hhash := h.claim_hash hlt hb
  constructor
  · intro c hclt hc hash hh
    rw [claim_allocated, Finset.mem_insert, not_or] at hc
    rw [claim_count] at hclt
    rw [claim_of_ne hc.1] at hh
    rw [mem_claim hc.1]
    exact h.evictable c hclt hc.2 hash hh
  · intro c hash hh
    rcases eq_or_ne c b with rfl | hne
    · rw [hhash] at hh
      exact nomatch hh
    · rw [claim_of_ne hne] at hh ⊢
      exact h.registered c hash hh

/-- At first no block has a hash. -/
theorem init (hs : PagedCache.init cfg = some s) : Named cfg s := by
  have hnone : ∀ b, (s.block b).blockHash = none := by
    unfold PagedCache.init at hs
    dsimp only at hs
    split at hs
    · exact nomatch hs
    · next b queue _ =>
      obtain rfl := Option.some.inj hs
      intro c
      rcases eq_or_ne c b with rfl | hne
      · simp
      · simp [hne]
  refine ⟨fun b _ _ h hh => ?_, fun b h hh => ?_⟩
  · rw [hnone] at hh
    exact nomatch hh
  · rw [hnone] at hh
    exact nomatch hh

theorem move (hmove : Move cfg .freesUnnamed s t) (_ : Sound cfg s) (h : Named cfg s) :
    Named cfg t := by
  cases hmove with
  | recount b r n =>
    refine h.of_eq rfl (Finset.Subset.refl _) (fun _ _ _ => id) fun c => ⟨?_, ?_⟩
    · exact edit_field s b c _ CacheBlock.blockHash rfl
    · exact edit_field s b c _ CacheBlock.contents rfl
  | grow n => exact h.grow n
  | leave queue l _ _ =>
    exact h.of_eq rfl (Finset.Subset.refl _) (fun _ _ _ => id) fun _ => ⟨rfl, rfl⟩
  | enter queue bs _ _ =>
    exact h.of_eq rfl (Finset.Subset.refl _) (fun _ _ _ => id) fun _ => ⟨rfl, rfl⟩
  | claim b hlt _ hb => exact h.claim hlt hb
  | evict b =>
    refine h.rename (b := b) (maybeEvict_count b s) (maybeEvict_allocated b s)
      (fun c hne h' => (mem_maybeEvict hne).mpr) (fun c hne => maybeEvict_of_ne hne) fun h' hh => ?_
    rw [maybeEvict_field b b s CacheBlock.contents fun _ => rfl]
    rcases maybeEvict_hash_cases s b with hnone | hsame
    · rw [hnone] at hh
      exact nomatch hh
    · rw [hsame] at hh
      refine ⟨h.registered b h' hh, fun hlt hb => ?_⟩
      rw [maybeEvict_hash fun h'' hh' => (h.evictable b hlt hb h'' hh').2] at hsame
      rw [← hsame] at hh
      exact nomatch hh
  | adopt b _ _ =>
    exact h.of_eq rfl (Finset.subset_insert b _) (fun _ _ _ => id) fun _ => ⟨rfl, rfl⟩
  | drop b _ hunnamed _ =>
    refine ⟨fun c hlt hc hash hh => ?_, h.registered⟩
    by_cases hmem : c ∈ s.allocatedBlocks
    · rw [Finset.mem_erase, not_and] at hc
      obtain rfl : c = b := by
        by_contra hne
        exact hc hne hmem
      rw [hunnamed rfl hmem] at hh
      exact nomatch hh
    · exact h.evictable c hlt hmem hash hh
  | forget hash b hheld =>
    refine h.rename (b := b) rfl rfl (fun c hne h' hc => ?_) (fun _ _ => rfl) fun h' hh => ?_
    · exact mem_pop_cached.mpr ⟨hc, fun heq => hne heq.2⟩
    · refine ⟨h.registered b h' hh, fun hlt hb => ?_⟩
      obtain ⟨hcaching, hmem⟩ := h.evictable b hlt hb h' hh
      refine ⟨hcaching, mem_pop_cached.mpr ⟨hmem, fun heq => ?_⟩⟩
      rw [heq.1] at hh
      exact hb (hheld rfl hh)
  | unname b n =>
    refine h.rename (b := b) rfl rfl (fun _ _ _ => id) (fun c hne => edit_of_ne s _ hne)
      fun h' hh => ?_
    rw [edit_self] at hh
    exact nomatch hh
  | store hash b hheld _ =>
    refine h.rename (b := b) rfl rfl (fun c hne h' hc => mem_insert_cached.mpr (.inl hc))
      (fun c hne => store_of_ne hash s hne) fun h' hh => ?_
    rw [store_self] at hh ⊢
    obtain rfl := Option.some.inj hh
    refine ⟨rfl, fun _ hb => ⟨(hheld rfl).resolve_left hb, ?_⟩⟩
    exact mem_insert_cached.mpr (.inr ⟨rfl, rfl⟩)
  | label hash b hb =>
    refine h.rename (b := b) rfl rfl (fun _ _ _ => id) (fun c hne => edit_of_ne s _ hne)
      fun h' hh => ?_
    rw [edit_self] at hh ⊢
    exact ⟨hh, fun _ hnot => absurd hb hnot⟩
  | copy b c n hb =>
    refine h.rename (b := b) rfl rfl (fun _ _ _ => id) (fun c hne => edit_of_ne s _ hne)
      fun h' hh => ?_
    rw [edit_self] at hh ⊢
    exact ⟨h.registered c h' hh, fun _ hnot => absurd hb hnot⟩
  | reset =>
    unfold resetPrefixCache
    simp only
    split_ifs
    · exact h
    · constructor
      · intro b hlt hb hash hh
        simp only at hlt hh
        rw [if_pos hlt] at hh
        exact nomatch hh
      · intro b hash hh
        simp only at hh ⊢
        split_ifs at hh ⊢
        exact h.registered b hash hh
  | clear =>
    unfold PagedCache.clear
    rcases hinit : PagedCache.init cfg with _ | s'
    · exact h
    · exact init hinit

end Named

theorem Reachable.named (h : Reachable cfg .freesUnnamed s) : Named cfg s :=
  h.keeps (fun _ => Named.init) Named.move

/-! ## Chains -/

/-- The hash of the chain of the first `i` blocks of a prompt. -/
def prefixHash (cfg : Config) (tokenIds : List ℤ) (extraKeys : Option (List Str)) :
    ℕ → Option BlockHash
  | 0 => none
  | i + 1 => some (computeBlockHash cfg (prefixHash cfg tokenIds extraKeys i)
      (cfg.blockTokens tokenIds i) extraKeys)

section Chains

variable {blocks : List ℕ} {tokenIds : List ℤ} {extraKeys : Option (List Str)} {i : ℕ}
  {parentHash : Option BlockHash}

/-- The loop gives hashes, and takes none. -/
theorem cacheFrom_keeps {h : BlockHash} (hb : (s.block b).blockHash = some h) :
    ((cacheFrom cfg blocks tokenIds extraKeys n i parentHash s).2.block b).blockHash = some h := by
  induction n generalizing i parentHash s with
  | zero => exact hb
  | succ n ih =>
    unfold cacheFrom
    split
    · exact hb
    · next c _ =>
      dsimp only
      split
      · exact ih hb
      · next hc =>
        have hne : b ≠ c := fun heq => by
          rw [heq, hc] at hb
          cases hb
        refine ih ?_
        rw [store_of_ne _ _ hne, edit_of_ne s _ hne, hb]

theorem cacheFrom_cached {h : BlockHash} (hb : b ∈ s.cachedBlockHashToBlock h) :
    b ∈ (cacheFrom cfg blocks tokenIds extraKeys n i parentHash s).2.cachedBlockHashToBlock h := by
  induction n generalizing i parentHash s with
  | zero => exact hb
  | succ n ih =>
    unfold cacheFrom
    split
    · exact hb
    · dsimp only
      split
      · exact ih hb
      · exact ih (mem_insert_cached.mpr (.inl hb))

/-- Blocks without a hash get the hashes of their chain, and these lead to them. -/
theorem cacheFrom_registers (hnodup : blocks.Nodup) (hlength : i + n ≤ blocks.length)
    (hfresh : ∀ j, i ≤ j → j < i + n → ∀ b, blocks[j]? = some b → (s.block b).blockHash = none)
    (hparent : parentHash = prefixHash cfg tokenIds extraKeys i) {j : ℕ} (hij : i ≤ j)
    (hj : j < i + n) (hb : blocks[j]? = some b) :
    ∃ h, prefixHash cfg tokenIds extraKeys (j + 1) = some h ∧
      ((cacheFrom cfg blocks tokenIds extraKeys n i parentHash s).2.block b).blockHash = some h ∧
      b ∈ (cacheFrom cfg blocks tokenIds extraKeys n i parentHash s).2.cachedBlockHashToBlock h := by
  induction n generalizing i parentHash s with
  | zero => omega
  | succ n ih =>
    unfold cacheFrom
    have hi : i < blocks.length := by omega
    rw [List.getElem?_eq_getElem hi]
    dsimp only
    have hnone := hfresh i le_rfl (by omega) _ (List.getElem?_eq_getElem hi)
    rw [hnone]
    dsimp only
    rcases hij.eq_or_lt with rfl | hlt
    · rw [List.getElem?_eq_getElem hi] at hb
      obtain rfl := Option.some.inj hb
      refine ⟨_, rfl, cacheFrom_keeps ?_, cacheFrom_cached ?_⟩
      · rw [hparent, store_self]
      · rw [hparent]
        exact mem_insert_cached.mpr (.inr ⟨rfl, rfl⟩)
    · refine ih (by omega) (fun k hik hk c hc => ?_) ?_ hlt (by omega)
      · have hne : c ≠ blocks[i] := fun heq => by
          have hik : i = k := (List.getElem?_inj hi hnodup).mp (by
            rw [hc, heq, List.getElem?_eq_getElem hi])
          omega
        rw [store_of_ne _ _ hne, edit_of_ne s _ hne]
        exact hfresh k (by omega) (by omega) c hc
      · rw [hparent]
        rfl

end Chains

/-! ## New blocks -/

/-- What holds where no block keeps the identity of what it held before. -/
structure NoStaleIdentity (cfg : Config) (s : Manager) : Prop where
  allocated : ∀ b t, allocateBlock cfg s = (.returned (some b), t) →
    (t.block b).blockHash = none
  newBlocks : ∀ n blocks t, getNewBlocks cfg n s = (.returned blocks, t) →
    ∀ b ∈ blocks, (t.block b).blockHash = none
  /-- Blocks under whose hash nothing was registered since they were allocated get the hashes
  of their chain, if the block before them has its hash. -/
  registers : ∀ (blocks : List ℕ) (tokenIds : List ℤ) (m n : ℕ) (extraKeys : Option (List Str)),
    cfg.enableCaching = true → blocks.Nodup → n ≤ blocks.length →
    (∀ i b, m ≤ i → i < n → blocks[i]? = some b → (s.block b).contents = none) →
    (0 < m → ∀ b, blocks[m - 1]? = some b →
      (s.block b).blockHash = prefixHash cfg tokenIds extraKeys m) →
    ∀ i b, m ≤ i → i < n → blocks[i]? = some b →
      ∃ h, prefixHash cfg tokenIds extraKeys (i + 1) = some h ∧
        ((cacheFullBlocks cfg blocks tokenIds m n extraKeys s).2.block b).blockHash = some h ∧
        b ∈ (cacheFullBlocks cfg blocks tokenIds m n extraKeys s).2.cachedBlockHashToBlock h
  acquired : ∀ b h t, acquireCachedBlock b h s = (true, t) → (s.block b).contents = some h

/-- Blocks that are claimed in turn carry no hash. -/
theorem claims_hash {blocks : List ℕ} (h : Named cfg s) (hnodup : blocks.Nodup)
    (hblocks : ∀ b ∈ blocks, b < s.allocatedCount ∧ b ∉ s.allocatedBlocks) (hb : b ∈ blocks) :
    ((blocks.foldl (fun s b => claim cfg b s) s).block b).blockHash = none := by
  induction blocks generalizing s with
  | nil => exact absurd hb List.not_mem_nil
  | cons c blocks ih =>
    obtain ⟨hc, hnodup⟩ := List.nodup_cons.mp hnodup
    obtain ⟨hclt, hcnot⟩ := hblocks c List.mem_cons_self
    rcases List.mem_cons.mp hb with rfl | hb
    · have hkeep : ∀ (l : List ℕ) (t : Manager), b ∉ l →
          (l.foldl (fun s b => claim cfg b s) t).block b = t.block b := by
        intro l
        induction l with
        | nil => exact fun _ _ => rfl
        | cons d l ihl =>
          intro t hd
          rw [List.mem_cons, not_or] at hd
          exact (ihl _ hd.2).trans (claim_of_ne hd.1)
      rw [List.foldl_cons, hkeep _ _ hc]
      exact h.claim_hash hclt hcnot
    · refine ih (h.claim hclt hcnot) hnodup (fun d hd => ?_) hb
      obtain ⟨hdlt, hdnot⟩ := hblocks d (List.mem_cons_of_mem c hd)
      rw [claim_count, claim_allocated, Finset.mem_insert, not_or]
      exact ⟨hdlt, fun hdc => hc (hdc ▸ hd), hdnot⟩

/-- What is taken from the front of the queue and claimed carries no hash. -/
theorem leave_claims_hash (blocks : List ℕ) {l : List ℕ} {queue : Links ℕ} (hs : Sound cfg s)
    (h : Named cfg s) (hfree : s.free = blocks ++ l) (hb : b ∈ blocks) :
    ((blocks.foldl (fun s b => claim cfg b s)
      { s with freeBlockQueue := queue }).block b).blockHash = none := by
  have hnodup := hs.queue.nodup
  rw [hfree] at hnodup
  have hleave : Named cfg { s with freeBlockQueue := queue } :=
    h.of_eq rfl (Finset.Subset.refl _) (fun _ _ _ => id) fun _ => ⟨rfl, rfl⟩
  refine claims_hash hleave (List.nodup_append.mp hnodup).1 (fun c hc => ?_) hb
  have hmem : c ∈ s.free := hfree ▸ List.mem_append_left l hc
  exact ⟨hs.free_lt c hmem, hs.free_apart c hmem⟩

/-- In a run that frees no block with a hash, nothing has a stale identity. -/
theorem no_stale_identity {cfg : Config} {s : Manager} (hs : Reachable cfg .freesUnnamed s) :
    NoStaleIdentity cfg s := by
  have hsound := hs.sound
  have hnamed := hs.named
  constructor
  · intro b t heq
    rcases allocateBlock_cases hsound with ⟨-, -, heq'⟩ | ⟨g, c, l, queue, hg, hfree, -, heq'⟩
    · rw [heq'] at heq
      exact nomatch heq
    · rw [heq'] at heq
      obtain ⟨hbc, rfl⟩ := Prod.mk.inj heq
      obtain rfl : c = b := by simpa using hbc
      have hboth : Sound cfg g ∧ Named cfg g := by
        rcases hg with rfl | ⟨-, -, rfl⟩
        · exact ⟨hsound, hnamed⟩
        · exact ⟨hsound.grow _, hnamed.grow _⟩
      exact leave_claims_hash [c] hboth.1 hboth.2 hfree List.mem_cons_self
  · intro n blocks t heq b hb
    obtain ⟨g, hg, hcases⟩ := getNewBlocks_cases hsound n
    have hboth : Sound cfg g ∧ Named cfg g := by
      rcases hg with rfl | ⟨m, rfl⟩
      · exact ⟨hsound, hnamed⟩
      · exact ⟨hsound.grow m, hnamed.grow m⟩
    rcases hcases with heq' | ⟨blocks', l, queue, hfree, -, heq'⟩
    · rw [heq'] at heq
      exact nomatch heq
    · rw [heq'] at heq
      obtain ⟨hblocks, rfl⟩ := Prod.mk.inj heq
      obtain rfl : blocks' = blocks := by simpa using hblocks
      exact leave_claims_hash blocks' hboth.1 hboth.2 hfree hb
  · intro blocks tokenIds m n extraKeys hcaching hnodup hlength hfresh hparent i b hmi hin hb
    have hnone : ∀ j, m ≤ j → j < n → ∀ b, blocks[j]? = some b →
        (s.block b).blockHash = none := by
      intro j hmj hjn c hc
      rcases hh : (s.block c).blockHash with _ | h
      · rfl
      · have := hnamed.registered c h hh
        rw [hfresh j c hmj hjn hc] at this
        exact nomatch this
    unfold cacheFullBlocks
    rw [if_neg (by rw [not_or, Bool.not_eq_false]; exact ⟨hcaching, by omega⟩)]
    rcases Nat.eq_zero_or_pos m with rfl | hpos
    · rw [if_pos rfl]
      exact cacheFrom_registers hnodup (by omega)
        (fun j hj hjn => hnone j hj (by omega)) rfl hmi (by omega) hb
    · have hlast : m - 1 < blocks.length := by omega
      rw [if_neg (by omega), List.getElem?_eq_getElem hlast]
      exact cacheFrom_registers hnodup (by omega) (fun j hj hjn => hnone j hj (by omega))
        (hparent hpos _ (List.getElem?_eq_getElem hlast)) hmi (by omega) hb
  · intro b h t heq
    unfold acquireCachedBlock at heq
    split_ifs at heq with hb
    · exact nomatch heq
    · rw [not_or, not_or, not_not, not_not] at hb
      exact hnamed.registered b h hb.2.2

/-- A pool of two blocks. -/
def pairConfig : Config where
  blockSize := 4
  maxBlocks := 2
  enableCaching := true
  modelName := []
  initialBlocks := 2
  sha256 bytes := bytes

/-- A block is allocated, registered, released and evicted for good, and is allocated and
registered again. -/
theorem no_stale_identity_kept :
    ∃ s, init pairConfig = some s ∧
      NoStaleIdentity pairConfig ([.allocateBlock, .store [7] 1, .releaseForEviction [1],
        .evictBlockPermanently 1, .allocateBlock, .store [8] 1].foldl (apply pairConfig) s) := by
  refine ⟨_, rfl, no_stale_identity ?_⟩
  have hnamed := @Reachable.step pairConfig .freesUnnamed _ (.store [7] 1)
    (.step .allocateBlock (.start rfl) trivial) ⟨fun _ => .inr rfl, nofun⟩
  have hevicted := (hnamed.step (.releaseForEviction [1]) trivial).step (.evictBlockPermanently 1) (by
    show 1 ∉ Manager.free _
    decide +kernel)
  exact (hevicted.step .allocateBlock trivial).step (.store [8] 1) ⟨fun _ => .inr rfl, nofun⟩

/-- A block is allocated, registered and freed.  Allocated again it has its old hash, and is
acquired for what it held before. -/
theorem stale_identity :
    ∃ s, Reachable pairConfig .plain s ∧
      (allocateBlock pairConfig s).1 = .returned (some 1) ∧
      ((allocateBlock pairConfig s).2.block 1).blockHash = some [7] ∧
      (acquireCachedBlock 1 [7] (allocateBlock pairConfig s).2).1 = true ∧
      ((allocateBlock pairConfig s).2.block 1).contents = none := by
  refine ⟨_, .step (.freeBlock 1) (.step (.store [7] 1) (.step .allocateBlock (.start rfl) trivial)
    ⟨nofun, nofun⟩) nofun, ?_⟩
  decide +kernel

end AI2Apps.Omlx.PagedCache
