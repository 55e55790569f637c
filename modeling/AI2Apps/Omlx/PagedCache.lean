import Mathlib.Data.Finset.Insert
import Mathlib.Data.Finset.Erase
import AI2Apps.Lib.JsonText
import AI2Apps.Lib.LinkedQueue

/-!
# The paged cache

`omlx/cache/paged_cache.py`, with what `prefix_cache.py` does to its blocks.  A block is
known by its index.  A free block waits in a linked queue, an allocated one is in
`allocatedBlocks`, and a block found through its hash may be allocated with no reference.

`CacheBlock.contents` is no field of the source and no operation reads it.  It is the hash
under which what the block holds was registered since the block was last allocated.

* `computeBlockHash`, `resolveBlockExtraKeys`: the hash of a block in its chain.
* `allocateBlock`, `getNewBlocks`, `freeBlock`, …: the operations.
* `Event`, `apply`: one call of any of them.
-/

namespace AI2Apps.Omlx.PagedCache

/-! ## Blocks and hashes -/

abbrev BlockHash := List ℕ

structure CacheBlock where
  refCount : ℤ := 0
  blockHash : Option BlockHash := none
  isNull : Bool := false
  tokenCount : ℕ := 0
  contents : Option BlockHash := none

structure Config where
  blockSize : ℕ
  maxBlocks : ℕ
  enableCaching : Bool
  /-- The model's name in UTF-8. -/
  modelName : List ℕ
  initialBlocks : ℕ
  /-- `hashlib.sha256`. -/
  sha256 : List ℕ → BlockHash

/-- The text of a tuple whose members have the given texts. -/
def tupleText : List Str → Str
  | [] => str "()"
  | [x] => str "(" ++ x ++ str ",)"
  | x :: xs => str "(" ++ x ++ xs.flatMap (fun y => str ", " ++ y) ++ str ")"

/-- `compute_block_hash`; extra keys are given by their texts. -/
def computeBlockHash (cfg : Config) (parentHash : Option BlockHash) (tokenIds : List ℤ)
    (extraKeys : Option (List Str)) : BlockHash :=
  let parent := match parentHash with
    | some (b :: bytes) => b :: bytes
    | _ => str "omlx-root"
  let extra := match extraKeys with
    | some (key :: keys) => tupleText (key :: keys)
    | _ => []
  cfg.sha256 (cfg.modelName ++ parent ++ tupleText (tokenIds.map JsonText.intText) ++ extra)

/-- The keys that salt a chain: for all blocks, or from a token on, or by ranges. -/
structure ExtraKeys where
  keys : Option (List Str) := none
  tokenStart : Option ℤ := none
  ranges : List (ℤ × List Str) := []

/-- `resolve_block_extra_keys`; `none` where the ranges are not sorted. -/
def resolveBlockExtraKeys (blockEnd : ℤ) (extra : ExtraKeys) : Option (Option (List Str)) :=
  if extra.ranges ≠ [] then
    if extra.ranges.Pairwise (fun r r' => r.1 ≤ r'.1) then
      some ((extra.ranges.takeWhile fun r => r.1 < blockEnd).getLast?.map Prod.snd)
    else none
  else if extra.keys.isSome ∧ (extra.tokenStart.all fun start => start < blockEnd) then
    some extra.keys
  else some none

/-- The tokens of the block at an index. -/
def Config.blockTokens (cfg : Config) (tokenIds : List ℤ) (i : ℕ) : List ℤ :=
  (tokenIds.drop (i * cfg.blockSize)).take cfg.blockSize

/-! ## The manager -/

/-- The manager's blocks, its queue and its two lookups.  `allocatedCount` is
`_current_allocated_count`, the number of blocks there are; a hash leads to the indices of
its blocks in the order they were inserted. -/
structure Manager where
  block : ℕ → CacheBlock
  allocatedCount : ℕ
  freeBlockQueue : Links ℕ
  cachedBlockHashToBlock : BlockHash → List ℕ
  allocatedBlocks : Finset ℕ

/-- What a call ends in. -/
inductive Outcome (α : Type) where
  | returned (a : α)
  | raised
  deriving DecidableEq

namespace Manager

/-- A block is edited. -/
def edit (s : Manager) (b : ℕ) (f : CacheBlock → CacheBlock) : Manager :=
  { s with block := Function.update s.block b (f (s.block b)) }

/-- `BlockHashToBlockMap.get_block`. -/
def getBlock (s : Manager) (h : BlockHash) : Option ℕ := (s.cachedBlockHashToBlock h).head?

/-- `BlockHashToBlockMap.insert`. -/
def insert (s : Manager) (h : BlockHash) (b : ℕ) : Manager :=
  { s with
    cachedBlockHashToBlock :=
      Function.update s.cachedBlockHashToBlock h
        (if b ∈ s.cachedBlockHashToBlock h then s.cachedBlockHashToBlock h
          else s.cachedBlockHashToBlock h ++ [b]) }

/-- `BlockHashToBlockMap.pop`; it returns a block where `b ∈ s.cachedBlockHashToBlock h`. -/
def pop (s : Manager) (h : BlockHash) (b : ℕ) : Manager :=
  { s with
    cachedBlockHashToBlock :=
      Function.update s.cachedBlockHashToBlock h ((s.cachedBlockHashToBlock h).filter (· ≠ b)) }

/-- A block's own hash no longer leads to it. -/
def popOwn (s : Manager) (b : ℕ) : Manager :=
  match (s.block b).blockHash with
  | some h => s.pop h b
  | none => s

end Manager

/-- `__init__`; there is no manager without a block to be the null block. -/
def init (cfg : Config) : Option Manager :=
  let initialCount := min cfg.initialBlocks cfg.maxBlocks
  match (Links.empty.appendN (List.range initialCount)).popleft with
  | none => none
  | some (b, queue) => some
    { block := Function.update (fun _ => {}) b { isNull := true, refCount := 1 }
      allocatedCount := initialCount
      freeBlockQueue := queue
      cachedBlockHashToBlock := fun _ => []
      allocatedBlocks := {b} }

/-! ## Allocation -/

/-- `_grow_blocks`. -/
def growBlocks (cfg : Config) (additionalBlocks : ℕ) (s : Manager) : ℕ × Manager :=
  let toCreate := min additionalBlocks (cfg.maxBlocks - s.allocatedCount)
  if toCreate = 0 then (0, s)
  else (toCreate,
    { s with
      block := fun b => if s.allocatedCount ≤ b ∧ b < s.allocatedCount + toCreate then {}
        else s.block b
      allocatedCount := s.allocatedCount + toCreate
      freeBlockQueue := s.freeBlockQueue.appendN (List.range' s.allocatedCount toCreate) })

/-- `_maybe_evict_cached_block`. -/
def maybeEvictCachedBlock (b : ℕ) (s : Manager) : Manager :=
  match (s.block b).blockHash with
  | none => s
  | some h =>
    if b ∈ s.cachedBlockHashToBlock h then
      (s.pop h b).edit b fun x => { x with blockHash := none }
    else s.pop h b

/-- A block that was taken from the queue is allocated. -/
def claim (cfg : Config) (b : ℕ) (s : Manager) : Manager :=
  let evicted := if cfg.enableCaching then maybeEvictCachedBlock b s else s
  { evicted.edit b fun x => { x with refCount := 1, contents := none } with
    allocatedBlocks := insert b evicted.allocatedBlocks }

/-- `allocate_block` once the queue is not empty. -/
def takeBlock (cfg : Config) (s : Manager) : Outcome (Option ℕ) × Manager :=
  match s.freeBlockQueue.popleft with
  | none => (.raised, s)
  | some (b, queue) => (.returned (some b), claim cfg b { s with freeBlockQueue := queue })

/-- `allocate_block`. -/
def allocateBlock (cfg : Config) (s : Manager) : Outcome (Option ℕ) × Manager :=
  if s.freeBlockQueue.count = 0 then
    let grown := growBlocks cfg (min 256 (cfg.maxBlocks - s.allocatedCount)) s
    if grown.1 = 0 then (.returned none, grown.2) else takeBlock cfg grown.2
  else takeBlock cfg s

/-- `get_new_blocks`. -/
def getNewBlocks (cfg : Config) (numBlocks : ℕ) (s : Manager) : Outcome (List ℕ) × Manager :=
  let grown := if s.freeBlockQueue.count < numBlocks then
      (growBlocks cfg (numBlocks - s.freeBlockQueue.count + 128).toNat s).2
    else s
  if grown.freeBlockQueue.count < numBlocks then (.raised, grown)
  else
    match grown.freeBlockQueue.popleftN numBlocks with
    | (none, queue) => (.raised, { grown with freeBlockQueue := queue })
    | (some blocks, queue) =>
      (.returned blocks,
        blocks.foldl (fun s b => claim cfg b s) { grown with freeBlockQueue := queue })

/-! ## References -/

/-- `free_block`, `decrement_ref`. -/
def freeBlock (b : ℕ) (s : Manager) : Bool × Manager :=
  if b ∉ s.allocatedBlocks then (false, s)
  else if (s.block b).isNull then (false, s)
  else
    let lower := s.edit b fun x => { x with refCount := x.refCount - 1 }
    if (lower.block b).refCount ≤ 0 then
      let popped := lower.popOwn b
      (true, { popped with
        allocatedBlocks := popped.allocatedBlocks.erase b
        freeBlockQueue := popped.freeBlockQueue.append b })
    else (false, lower)

/-- `touch`, for one block. -/
def touchBlock (s : Manager) (b : ℕ) : Manager :=
  let taken := if (s.block b).refCount = 0 ∧ (s.block b).isNull = false then
      match s.freeBlockQueue.remove b with
      | some queue => { s with
          freeBlockQueue := queue, allocatedBlocks := insert b s.allocatedBlocks }
      | none => s
    else s
  taken.edit b fun x => { x with refCount := x.refCount + 1 }

/-- `touch`. -/
def touch (blocks : List ℕ) (s : Manager) : Manager := blocks.foldl touchBlock s

/-- `increment_ref`. -/
def incrementRef (b : ℕ) (s : Manager) : Bool × Manager :=
  if b ∉ s.allocatedBlocks then (false, s)
  else (true, s.edit b fun x => { x with refCount := x.refCount + 1 })

/-- `acquire_cached_block`; it returns the block where it returns one. -/
def acquireCachedBlock (b : ℕ) (expectedHash : BlockHash) (s : Manager) : Bool × Manager :=
  if b ∉ s.allocatedBlocks ∨ (s.block b).isNull = true ∨
      (s.block b).blockHash ≠ some expectedHash then (false, s)
  else (true, s.edit b fun x => { x with refCount := x.refCount + 1 })

/-- `release_for_eviction`, for one block. -/
def releaseBlock (s : Manager) (b : ℕ) : Manager :=
  if b ∉ s.allocatedBlocks ∨ (s.block b).isNull = true then s
  else if 0 < (s.block b).refCount then s.edit b fun x => { x with refCount := x.refCount - 1 }
  else s

/-- `release_for_eviction`. -/
def releaseForEviction (blocks : List ℕ) (s : Manager) : Manager := blocks.foldl releaseBlock s

/-! ## Prefix caching -/

/-- `get_cached_block`. -/
def getCachedBlock (cfg : Config) (h : BlockHash) (s : Manager) : Option ℕ :=
  if cfg.enableCaching then s.getBlock h else none

/-- A block is named by a hash, and the hash leads to it: `store`. -/
def store (h : BlockHash) (b : ℕ) (s : Manager) : Manager :=
  (s.edit b fun x => { x with blockHash := some h, contents := some h }).insert h b

/-- `register_block_hash`. -/
def registerBlockHash (cfg : Config) (b : ℕ) (tokens : List ℤ) (parentHash : Option BlockHash)
    (extraKeys : Option (List Str)) (s : Manager) : Manager :=
  if cfg.enableCaching then store (computeBlockHash cfg parentHash tokens extraKeys) b s else s

/-- The loop of `cache_full_blocks`, over the next `n` indices. -/
def cacheFrom (cfg : Config) (blocks : List ℕ) (tokenIds : List ℤ) (extraKeys : Option (List Str)) :
    ℕ → ℕ → Option BlockHash → Manager → Outcome Unit × Manager
  | 0, _, _, s => (.returned (), s)
  | n + 1, i, parentHash, s =>
    match blocks[i]? with
    | none => (.raised, s)
    | some b =>
      match (s.block b).blockHash with
      -- Already cached.
      | some h => cacheFrom cfg blocks tokenIds extraKeys n (i + 1) (some h) s
      | none =>
        let blockTokens := cfg.blockTokens tokenIds i
        let h := computeBlockHash cfg parentHash blockTokens extraKeys
        cacheFrom cfg blocks tokenIds extraKeys n (i + 1) (some h)
          (store h b (s.edit b fun x => { x with tokenCount := blockTokens.length }))

/-- `cache_full_blocks`. -/
def cacheFullBlocks (cfg : Config) (blocks : List ℕ) (tokenIds : List ℤ)
    (numCachedBlocks numFullBlocks : ℕ) (extraKeys : Option (List Str)) (s : Manager) :
    Outcome Unit × Manager :=
  if cfg.enableCaching = false ∨ numFullBlocks ≤ numCachedBlocks then (.returned (), s)
  else if numCachedBlocks = 0 then cacheFrom cfg blocks tokenIds extraKeys numFullBlocks 0 none s
  else
    match blocks[numCachedBlocks - 1]? with
    | none => (.raised, s)
    | some last =>
      cacheFrom cfg blocks tokenIds extraKeys (numFullBlocks - numCachedBlocks) numCachedBlocks
        (s.block last).blockHash s

/-- A block that was just allocated stands for one that is on disk: it has the hash, and no
reference until a request claims it. -/
def restoreCold (h : BlockHash) (tokenCount : ℕ) (b : ℕ) (s : Manager) : Manager :=
  store h b (s.edit b fun x => { x with tokenCount := tokenCount, refCount := 0 })

/-- The loop of `get_computed_blocks`, over the next `n` indices.  `hasBlock` is the lookup
of the cache on disk, where there is one. -/
def computedFrom (cfg : Config) (tokenIds : List ℤ) (extra : ExtraKeys)
    (hasBlock : Option (BlockHash → Bool)) :
    ℕ → ℕ → Option BlockHash → List ℕ → Manager → Outcome (List ℕ) × Manager
  | 0, _, _, found, s => (.returned found, s)
  | n + 1, i, parentHash, found, s =>
    match resolveBlockExtraKeys ((i * cfg.blockSize + cfg.blockSize : ℕ) : ℤ) extra with
    | none => (.raised, s)
    | some extraKeys =>
      let h := computeBlockHash cfg parentHash (cfg.blockTokens tokenIds i) extraKeys
      match s.getBlock h with
      | some b => computedFrom cfg tokenIds extra hasBlock n (i + 1) (some h) (found ++ [b]) s
      | none =>
        if hasBlock.any fun f => f h then
          match allocateBlock cfg s with
          | (.raised, s') => (.raised, s')
          | (.returned none, s') => (.returned found, s')
          | (.returned (some b), s') =>
            computedFrom cfg tokenIds extra hasBlock n (i + 1) (some h) (found ++ [b])
              (restoreCold h cfg.blockSize b s')
        else (.returned found, s)

/-- `get_computed_blocks`, `find_shared_prefix`. -/
def getComputedBlocks (cfg : Config) (tokenIds : List ℤ) (extra : ExtraKeys)
    (hasBlock : Option (BlockHash → Bool)) (s : Manager) : Outcome (List ℕ) × Manager :=
  if cfg.enableCaching = false then (.returned [], s)
  else if cfg.blockSize = 0 then (.raised, s)
  else computedFrom cfg tokenIds extra hasBlock (tokenIds.length / cfg.blockSize) 0 none [] s

/-! ## Tables -/

/-- The blocks of a table: `delete_block_table`. -/
def deleteBlockTable (blocks : List ℕ) (s : Manager) : Manager :=
  blocks.foldl (fun s b => (freeBlock b s).2) s

/-- `add_block_to_table`. -/
def addBlockToTable (b tokens : ℕ) (s : Manager) : Manager :=
  s.edit b fun x => { x with tokenCount := tokens }

/-- `fork_block_table`. -/
def forkBlockTable (blocks : List ℕ) (s : Manager) : Manager :=
  blocks.foldl (fun s b => (incrementRef b s).2) s

/-- `_cow_copy_block`. -/
def cowCopyBlock (cfg : Config) (source : ℕ) (s : Manager) : Outcome (Option ℕ) × Manager :=
  match allocateBlock cfg s with
  | (.returned (some b), s') =>
    let copied := s'.edit b fun x => { x with
      tokenCount := (s'.block source).tokenCount
      blockHash := (s'.block source).blockHash
      contents := (s'.block source).contents }
    (.returned (some b), copied.edit source fun x => { x with refCount := x.refCount - 1 })
  | other => other

/-- `get_blocks_for_generation`. -/
def getBlocksForGeneration (cfg : Config) : List ℕ → Manager → Outcome Unit × Manager
  | [], s => (.returned (), s)
  | b :: rest, s =>
    if b ∈ s.allocatedBlocks ∧ 1 < (s.block b).refCount then
      match cowCopyBlock cfg b s with
      | (.raised, s') => (.raised, s')
      | (.returned _, s') => getBlocksForGeneration cfg rest s'
    else getBlocksForGeneration cfg rest s

/-! ## Eviction -/

/-- The loop of `evict_lru_blocks`. -/
def evictLoop : ℕ → Manager → Manager
  | 0, s => s
  | n + 1, s =>
    match s.freeBlockQueue.popleft with
    | none => s
    | some (b, queue) =>
      let evicted := maybeEvictCachedBlock b { s with freeBlockQueue := queue }
      evictLoop n { evicted with freeBlockQueue := evicted.freeBlockQueue.append b }

/-- `evict_lru_blocks`. -/
def evictLruBlocks (numBlocks : ℕ) (s : Manager) : Manager :=
  evictLoop (min numBlocks s.freeBlockQueue.count.toNat) s

/-- `handle_memory_pressure`. -/
def handleMemoryPressure (requestedBlocks : ℕ) (s : Manager) : Bool × Manager :=
  if requestedBlocks ≤ s.freeBlockQueue.count then (true, s)
  else
    let evicted := evictLruBlocks (requestedBlocks - s.freeBlockQueue.count).toNat s
    (decide (requestedBlocks ≤ evicted.freeBlockQueue.count), evicted)

/-- `reset_prefix_cache`. -/
def resetPrefixCache (cfg : Config) (s : Manager) : Bool × Manager :=
  let numUsed := cfg.maxBlocks - s.freeBlockQueue.count
  if 1 < numUsed then (false, s)
  else (true,
    { s with
      cachedBlockHashToBlock := fun _ => []
      block := fun b => if b < s.allocatedCount then { s.block b with blockHash := none }
        else s.block b })

/-- `clear`. -/
def clear (cfg : Config) (s : Manager) : Manager := (init cfg).getD s

/-- `evict_block_permanently`. -/
def evictBlockPermanently (b : ℕ) (s : Manager) : Bool × Manager :=
  if s.allocatedCount ≤ b then (false, s)
  else if 0 < (s.block b).refCount then (false, s)
  else if (s.block b).isNull then (false, s)
  else
    let popped := s.popOwn b
    let reset := popped.edit b fun x => { x with blockHash := none, tokenCount := 0 }
    (true, { reset with
      allocatedBlocks := reset.allocatedBlocks.erase b
      freeBlockQueue := reset.freeBlockQueue.append b })

/-! ## Events -/

/-- A call of the manager, or what the prefix cache does to its blocks.  The method `free_blocks` is
none: the class defines the property of that name after it. -/
inductive Event where
  | allocateBlock
  | getNewBlocks (numBlocks : ℕ)
  | freeBlock (b : ℕ)
  | touch (blocks : List ℕ)
  | incrementRef (b : ℕ)
  | acquireCachedBlock (b : ℕ) (expectedHash : BlockHash)
  | releaseForEviction (blocks : List ℕ)
  | store (h : BlockHash) (b : ℕ)
  | registerBlockHash (b : ℕ) (tokens : List ℤ) (parentHash : Option BlockHash)
      (extraKeys : Option (List Str))
  | cacheFullBlocks (blocks : List ℕ) (tokenIds : List ℤ) (numCachedBlocks numFullBlocks : ℕ)
      (extraKeys : Option (List Str))
  | getComputedBlocks (tokenIds : List ℤ) (extra : ExtraKeys)
      (hasBlock : Option (BlockHash → Bool))
  | deleteBlockTable (blocks : List ℕ)
  | addBlockToTable (b tokens : ℕ)
  | forkBlockTable (blocks : List ℕ)
  | getBlocksForGeneration (blocks : List ℕ)
  | evictLruBlocks (numBlocks : ℕ)
  | handleMemoryPressure (requestedBlocks : ℕ)
  | resetPrefixCache
  | clear
  | evictBlockPermanently (b : ℕ)
  /-- `evict` by a hash. -/
  | evict (h : BlockHash)
  /-- The prefix cache names an allocated block without a hash leading to it. -/
  | assignHash (h : BlockHash) (b : ℕ)
  /-- The prefix cache restores a block from disk, without looking for it in memory. -/
  | restoreBlock (h : BlockHash) (tokenCount : ℕ)
  /-- `_forget_incompatible_ssd_block`: a hash no longer leads to a block. -/
  | forgetBlock (h : BlockHash) (b : ℕ)

/-- The prefix cache allocates a block for one that is on disk. -/
def restoreBlock (cfg : Config) (h : BlockHash) (tokenCount : ℕ) (s : Manager) :
    Outcome (Option ℕ) × Manager :=
  match allocateBlock cfg s with
  | (.returned (some b), s') => (.returned (some b), restoreCold h tokenCount b s')
  | other => other

/-- The manager after an event. -/
def apply (cfg : Config) (s : Manager) : Event → Manager
  | .allocateBlock => (allocateBlock cfg s).2
  | .getNewBlocks n => (getNewBlocks cfg n s).2
  | .freeBlock b => (freeBlock b s).2
  | .touch blocks => touch blocks s
  | .incrementRef b => (incrementRef b s).2
  | .acquireCachedBlock b h => (acquireCachedBlock b h s).2
  | .releaseForEviction blocks => releaseForEviction blocks s
  | .store h b => store h b s
  | .registerBlockHash b tokens parentHash extraKeys =>
    registerBlockHash cfg b tokens parentHash extraKeys s
  | .cacheFullBlocks blocks tokenIds m n extraKeys =>
    (cacheFullBlocks cfg blocks tokenIds m n extraKeys s).2
  | .getComputedBlocks tokenIds extra hasBlock => (getComputedBlocks cfg tokenIds extra hasBlock s).2
  | .deleteBlockTable blocks => deleteBlockTable blocks s
  | .addBlockToTable b tokens => addBlockToTable b tokens s
  | .forkBlockTable blocks => forkBlockTable blocks s
  | .getBlocksForGeneration blocks => (getBlocksForGeneration cfg blocks s).2
  | .evictLruBlocks n => evictLruBlocks n s
  | .handleMemoryPressure n => (handleMemoryPressure n s).2
  | .resetPrefixCache => (resetPrefixCache cfg s).2
  | .clear => clear cfg s
  | .evictBlockPermanently b => (evictBlockPermanently b s).2
  | .evict h =>
    match s.getBlock h with
    | some b => (evictBlockPermanently b s).2
    | none => s
  | .assignHash h b =>
    if b ∈ s.allocatedBlocks then
      s.edit b fun x => { x with blockHash := some h, contents := some h }
    else s
  | .restoreBlock h n => (restoreBlock cfg h n s).2
  | .forgetBlock h b => s.pop h b

end AI2Apps.Omlx.PagedCache
