import MemTier.Embedding.Tiers
import MemTier.Trace.CacheSimulation

/-!
# The analyzer and the runtime

The DRAM cache of the runtime evicts before it inserts, with slots and a linked list; the analyzer
inserts into an ordered dictionary before it pops.  On every sequence of blocks they hit and evict
together, and hold the same blocks in the same order.
-/

namespace MemTier.Trace

open Containers MemTier.Embedding

/-! ## Both caches, block by block -/

/-- The DRAM cache, with the numbers of hits and misses so far. -/
structure Replay where
  cache : DramCache
  hits : Nat
  misses : Nat

/-- Get a block, and a slot for it if that was in vain. -/
def Replay.step (replay : Replay) (block : BlockId) : Replay :=
  match replay.cache.get block with
  | (some _, cache) => { replay with cache, hits := replay.hits + 1 }
  | (none, cache) =>
      { replay with cache := (cache.allocateSlotForLoad block).2, misses := replay.misses + 1 }

def replayBlocks (cache : DramCache) (blocks : List BlockId) : Replay :=
  blocks.foldl Replay.step { cache, hits := 0, misses := 0 }

/-- Number of calls of `popitem` while blocks are used. -/
def LruSim.popitems (sim : LruSim) : List Nat → Nat
  | [] => 0
  | block :: blocks => (if sim.pops block then 1 else 0) + (sim.use block).popitems blocks

/-! ## Simulation -/

/-- A block that the cache holds is found. -/
theorem get_of_address {cache : DramCache} {block : BlockId} {ptr : Nat}
    (held : cache.slots.address block = some ptr) :
    cache.get block = (some ptr,
      { slots := (cache.slots.get block).2
        stats := { cache.stats with dramHit := cache.stats.dramHit + 1 } }) := by
  obtain ⟨entry, present, rfl⟩ := SlotCache.address_eq_some.mp held
  have found : cache.slots.get block = (some entry.ptr, cache.slots.touch block entry) := by
    rw [SlotCache.get, present]
  rw [DramCache.get, found]

/-- A block that it does not hold is missed. -/
theorem get_of_not_held {cache : DramCache} {block : BlockId}
    (missed : cache.slots.address block = none) :
    cache.get block =
      (none, { cache with stats := { cache.stats with dramMiss := cache.stats.dramMiss + 1 } }) := by
  have absent : cache.slots.entries.lookup block = none := Option.map_eq_none_iff.mp missed
  have nothing : cache.slots.get block = (none, cache.slots) := by
    rw [SlotCache.get, absent]
  rw [DramCache.get, nothing]

/-- The state of the runtime's cache and that of a simulated one, with the numbers of accesses and
of evictions so far. -/
structure Agrees (replay : Replay) (sim : LruSim) (accesses evictions : Nat) : Prop where
  wellFormed : replay.cache.slots.WellFormed
  cap : replay.cache.slots.capacity = sim.cap
  order : replay.cache.slots.recency.map UInt64.toNat = sim.cache.reverse
  hits : replay.hits = sim.hits
  misses : replay.hits + replay.misses = accesses
  stats : replay.cache.stats =
    { dramHit := UInt64.ofNat replay.hits
      dramMiss := UInt64.ofNat replay.misses
      evictionCount := UInt64.ofNat evictions }

namespace Agrees

variable {replay : Replay} {sim : LruSim} {accesses evictions : Nat}

theorem mem_iff (agrees : Agrees replay sim accesses evictions) (block : BlockId) :
    block.toNat ∈ sim.cache ↔ block ∈ replay.cache.slots.recency := by
  rw [← List.mem_reverse, ← agrees.order]
  exact List.mem_map_of_injective fun _ _ => UInt64.toNat_inj.mp

theorem distinct (agrees : Agrees replay sim accesses evictions) : sim.cache.Nodup := by
  rw [← List.nodup_reverse, ← agrees.order]
  exact agrees.wellFormed.distinct.map fun _ _ => UInt64.toNat_inj.mp

/-- The runtime evicts when the analyzer pops. -/
theorem pops_iff (agrees : Agrees replay sim accesses evictions) (block : BlockId) :
    sim.pops block.toNat = true ↔
      block ∉ replay.cache.slots.recency ∧ replay.cache.slots.freeSlots = [] := by
  have length := agrees.wellFormed.length_eq
  have same : replay.cache.slots.recency.length = sim.cache.length := by
    rw [← @List.length_reverse _ sim.cache, ← agrees.order, List.length_map]
  rw [LruSim.pops, Bool.and_eq_true, decide_eq_true_eq, decide_eq_true_eq, agrees.mem_iff,
    List.length_append, List.length_singleton, ← agrees.cap, ← same, ← List.length_eq_zero_iff]
  apply and_congr_right
  intro _
  omega

/-- A hit of both. -/
theorem hit (agrees : Agrees replay sim accesses evictions) {block : BlockId} {ptr : Nat}
    (held : replay.cache.slots.address block = some ptr) :
    Agrees (replay.step block) (sim.use block.toNat) (accesses + 1) evictions := by
  have present : block ∈ replay.cache.slots.recency := by
    rw [agrees.wellFormed.keys]
    by_contra absent
    rw [SlotCache.address_eq_none.mpr absent] at held
    simp at held
  have positive : 0 < sim.cap := agrees.cap ▸ agrees.wellFormed.nonempty
  obtain ⟨-, kept, used, -⟩ := agrees.wellFormed.get block
  have stepped : replay.step block = { replay with
      cache :=
        { slots := (replay.cache.slots.get block).2
          stats := { replay.cache.stats with dramHit := replay.cache.stats.dramHit + 1 } }
      hits := replay.hits + 1 } := by
    rw [Replay.step, get_of_address held]
  rw [stepped]
  constructor
  · exact kept
  · rw [LruSim.cap_use, ← agrees.cap]
    exact congrArg (·.2.2) (replay.cache.slots.region_get block)
  · rw [LruSim.reverse_use positive agrees.distinct, ← agrees.order,
      ← Recency.map_access fun _ _ => UInt64.toNat_inj.mp, Recency.access, if_pos present, used,
      Recency.use, if_pos present]
  · rw [LruSim.hits_use, if_pos ((agrees.mem_iff block).mpr present), agrees.hits]
  · have misses := agrees.misses
    dsimp only
    omega
  · rw [agrees.stats]
    simp

/-- A miss of both. -/
theorem miss (agrees : Agrees replay sim accesses evictions) {block : BlockId}
    (missed : replay.cache.slots.address block = none) :
    Agrees (replay.step block) (sim.use block.toNat) (accesses + 1)
      (evictions + if sim.pops block.toNat then 1 else 0) := by
  have absent : block ∉ replay.cache.slots.recency := by
    rw [agrees.wellFormed.keys]
    exact SlotCache.address_eq_none.mp missed
  have positive : 0 < sim.cap := agrees.cap ▸ agrees.wellFormed.nonempty
  obtain ⟨kept, entered, -⟩ := agrees.wellFormed.allocate_absent missed
  have stepped : replay.step block = { replay with
      cache :=
        { slots := (replay.cache.slots.allocate block).2
          stats := { replay.cache.stats with
            dramMiss := replay.cache.stats.dramMiss + 1
            evictionCount := replay.cache.stats.evictionCount +
              if sim.pops block.toNat then 1 else 0 } }
      misses := replay.misses + 1 } := by
    have evicts : (((replay.cache.slots.entries.lookup block).isNone &&
        replay.cache.slots.freeSlots.isEmpty) = true) ↔ sim.pops block.toNat = true := by
      rw [agrees.pops_iff, Option.map_eq_none_iff.mp missed, Option.isNone_none,
        Bool.true_and, List.isEmpty_iff]
      simp [absent]
    rw [Replay.step, get_of_not_held missed]
    simp only [DramCache.allocateSlotForLoad, evicts]
  rw [stepped]
  constructor
  · exact kept
  · rw [LruSim.cap_use, ← agrees.cap]
    exact congrArg (·.2.2) (replay.cache.slots.region_allocate block)
  · rw [LruSim.reverse_use positive agrees.distinct, ← agrees.order,
      ← Recency.map_access fun _ _ => UInt64.toNat_inj.mp, Recency.access, if_neg absent, entered,
      agrees.cap]
  · rw [LruSim.hits_use, if_neg (mt (agrees.mem_iff block).mp absent), agrees.hits]
  · have misses := agrees.misses
    dsimp only
    omega
  · rw [agrees.stats]
    simp only [DramCacheStats.mk.injEq, true_and]
    constructor
    · simp
    · split <;> simp

theorem step (agrees : Agrees replay sim accesses evictions) (block : BlockId) :
    Agrees (replay.step block) (sim.use block.toNat) (accesses + 1)
      (evictions + if sim.pops block.toNat then 1 else 0) := by
  cases held : replay.cache.slots.address block with
  | none => exact agrees.miss held
  | some ptr =>
      have stays : ¬ sim.pops block.toNat = true := by
        rw [agrees.pops_iff, agrees.wellFormed.keys, ← SlotCache.address_eq_none, held]
        simp
      rw [if_neg stays]
      exact agrees.hit held

theorem foldl (agrees : Agrees replay sim accesses evictions) (blocks : List BlockId) :
    Agrees (blocks.foldl Replay.step replay) ((blocks.map UInt64.toNat).foldl LruSim.use sim)
      (accesses + blocks.length) (evictions + sim.popitems (blocks.map UInt64.toNat)) := by
  induction blocks generalizing replay sim accesses evictions with
  | nil => exact agrees
  | cons block blocks induction =>
      have after := induction (agrees.step block)
      rw [Nat.add_assoc, Nat.add_assoc, Nat.add_comm 1] at after
      exact after

end Agrees

theorem agrees_new {base cacheBytes blockBytes : Nat} {cache : DramCache}
    (opened : DramCache.new base cacheBytes blockBytes = some cache) :
    Agrees { cache, hits := 0, misses := 0 } (LruSim.new (max 1 (cacheBytes / blockBytes))) 0 0 := by
  rw [DramCache.new] at opened
  split at opened
  · simp at opened
  · obtain rfl := Option.some.inj opened
    exact ⟨SlotCache.wellFormed_new _ _ _, rfl, rfl, rfl, rfl, rfl⟩

theorem LruSim.popitems_le (sim : LruSim) (blocks : List Nat) :
    sim.popitems blocks ≤ blocks.length := by
  induction blocks generalizing sim with
  | nil => exact Nat.le_refl 0
  | cons block blocks induction =>
      have rest := induction (sim.use block)
      rw [popitems, List.length_cons]
      split <;> omega

/-- The DRAM cache of the runtime and the simulated cache of the same capacity have the same hits
and misses on every sequence of blocks, and in the end hold the same blocks in the same order.
Evictions are counted as often as `popitem` is called. -/
theorem runtime_cache_is_simulated {base cacheBytes blockBytes : Nat} {cache : DramCache}
    (opened : DramCache.new base cacheBytes blockBytes = some cache) (blocks : List BlockId) :
    let sim := LruSim.new (max 1 (cacheBytes / blockBytes))
    let trace := blocks.map UInt64.toNat
    let after := replayBlocks cache blocks
    ∃ simulated, updateLruSims trace [sim] = (blocks.length, [simulated]) ∧
      after.hits = simulated.hits ∧ after.misses = blocks.length - simulated.hits ∧
      after.cache.slots.recency.map UInt64.toNat = simulated.cache.reverse ∧
      (∀ block, (after.cache.slots.address block).isSome ↔ block.toNat ∈ simulated.cache) ∧
      after.cache.stats.evictionCount = UInt64.ofNat (sim.popitems trace) ∧
      (blocks.length < 2 ^ 64 → after.cache.stats.evictionCount.toNat = sim.popitems trace) := by
  intro sim trace after
  have agrees : Agrees after (trace.foldl LruSim.use sim) (0 + blocks.length)
      (0 + sim.popitems trace) := (agrees_new opened).foldl blocks
  have counted : after.cache.stats.evictionCount = UInt64.ofNat (sim.popitems trace) := by
    rw [agrees.stats, Nat.zero_add]
  refine ⟨trace.foldl LruSim.use sim, ?_, agrees.hits, ?_, agrees.order, ?_, counted, ?_⟩
  · rw [updateLruSims_eq, List.length_map]
    rfl
  · have hits := agrees.hits
    have misses := agrees.misses
    omega
  · intro block
    rw [agrees.mem_iff, agrees.wellFormed.keys, Option.isSome_iff_ne_none, Ne,
      SlotCache.address_eq_none, not_not]
  · intro short
    have bound := sim.popitems_le trace
    rw [List.length_map] at bound
    rw [counted, UInt64.toNat_ofNat_of_lt' (bound.trans_lt short)]

/-- A cache of one block, and blocks that replace each other. -/
theorem runtime_cache_is_simulated_single :
    ∃ cache simulated, DramCache.new 0 4 4 = some cache ∧
      updateLruSims [1, 2, 2] [LruSim.new 1] = (3, [simulated]) ∧
      (replayBlocks cache [1, 2, 2]).hits = simulated.hits ∧
      (replayBlocks cache [1, 2, 2]).cache.slots.recency.map UInt64.toNat =
        simulated.cache.reverse := by
  obtain ⟨cache, opened⟩ : ∃ cache, DramCache.new 0 4 4 = some cache := ⟨_, rfl⟩
  obtain ⟨simulated, used, hits, -, order, -⟩ := runtime_cache_is_simulated opened [1, 2, 2]
  exact ⟨cache, simulated, opened, used, hits, order⟩

end MemTier.Trace
