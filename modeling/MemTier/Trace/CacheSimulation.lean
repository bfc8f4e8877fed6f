import Mathlib
import MemTier.Trace.RankOverlap

/-!
# Simulated cache sizes

The simulated caches are least-recently-used caches over one history of blocks.  By the stack
property a larger one holds what a smaller one does, so that reported hit rates grow with the size.
-/

namespace MemTier.Trace

open Containers

/-! ## One simulation -/

namespace LruSim

/-- A simulated cache is the reference cache, read from the other end. -/
structure Follows (sim : LruSim) (cap : Nat) (history : List Nat) : Prop where
  cap_eq : sim.cap = cap
  cache : sim.cache.reverse = (Recency.run cap history).1
  hits : sim.hits = (Recency.run cap history).2

variable {sim : LruSim} {cap : Nat} {history : List Nat}

theorem follows_new (cap : Nat) : (new cap).Follows cap [] := ⟨rfl, rfl, rfl⟩

/-- Inserting before popping comes to the same as evicting before inserting. -/
theorem reverse_insert (positive : 0 < cap) (cache : List Nat) (block : Nat) :
    (if cap < (cache ++ [block]).length then (cache ++ [block]).tail
      else cache ++ [block]).reverse = Recency.enter cap block cache.reverse := by
  rw [Recency.enter, if_neg positive.ne', List.length_append, List.length_singleton,
    List.length_reverse]
  by_cases room : cache.length < cap
  · rw [if_neg (by omega), if_pos room, List.reverse_append]
    rfl
  · have nonempty : cache ≠ [] := by
      rintro rfl
      exact room positive
    rw [if_pos (by omega), if_neg room, List.tail_append_of_ne_nil nonempty, List.reverse_append,
      List.dropLast_reverse]
    rfl

/-- A simulated cache is used like the reference cache. -/
theorem reverse_use (positive : 0 < sim.cap) (distinct : sim.cache.Nodup) (block : Nat) :
    (sim.use block).cache.reverse = Recency.access sim.cap block sim.cache.reverse := by
  rw [LruSim.use, Recency.access]
  by_cases held : block ∈ sim.cache
  · rw [if_pos held, if_pos (List.mem_reverse.mpr held),
      (List.nodup_reverse.mpr distinct).erase_eq_filter, distinct.erase_eq_filter,
      List.reverse_append, List.filter_reverse]
    rfl
  · rw [if_neg held, if_neg (mt List.mem_reverse.mp held), ← reverse_insert positive]

theorem cap_use (sim : LruSim) (block : Nat) : (sim.use block).cap = sim.cap := by
  rw [LruSim.use]
  split <;> rfl

theorem hits_use (sim : LruSim) (block : Nat) :
    (sim.use block).hits = if block ∈ sim.cache then sim.hits + 1 else sim.hits := by
  rw [LruSim.use]
  split <;> rfl

theorem Follows.use (follows : sim.Follows cap history) (positive : 0 < cap) (block : Nat) :
    (sim.use block).Follows cap (history ++ [block]) := by
  have member : block ∈ sim.cache ↔ block ∈ (Recency.run cap history).1 := by
    rw [← follows.cache, List.mem_reverse]
  have distinct : sim.cache.Nodup := by
    rw [← List.nodup_reverse, follows.cache, Recency.run_eq_take positive]
    exact (Recency.recent_nodup history).sublist (List.take_sublist _ _)
  obtain rfl := follows.cap_eq
  constructor
  · rw [cap_use]
  · rw [reverse_use positive distinct, Recency.run_concat, Recency.count, follows.cache]
  · rw [hits_use, Recency.run_concat, Recency.count, follows.hits]
    simp only [member]

theorem Follows.foldl (follows : sim.Follows cap history) (positive : 0 < cap)
    (blocks : List Nat) : (blocks.foldl LruSim.use sim).Follows cap (history ++ blocks) := by
  induction blocks generalizing sim history with
  | nil => rwa [List.append_nil]
  | cons block blocks induction =>
      have after := induction (follows.use positive block)
      rwa [List.append_assoc] at after

end LruSim

/-! ## All simulations -/

/-- A batch of blocks, fed to the simulations; the number of accesses is kept beside them. -/
def feed (state : Nat × List LruSim) (blocks : List Nat) : Nat × List LruSim :=
  let (accesses, sims) := updateLruSims blocks state.2
  (state.1 + accesses, sims)

/-- Batches of blocks, fed to simulations of some capacities. -/
def simulate (caps : List Nat) (batches : List (List Nat)) : Nat × List LruSim :=
  batches.foldl feed (0, caps.dedup.map LruSim.new)

/-- Every simulation sees every block. -/
theorem updateLruSims_eq (blocks : List Nat) (sims : List LruSim) :
    updateLruSims blocks sims = (blocks.length, sims.map fun sim => blocks.foldl LruSim.use sim) := by
  have general : ∀ total (sims : List LruSim), blocks.foldl
      (fun (total, sims) block => (total + 1, sims.map (·.use block))) (total, sims) =
        (total + blocks.length, sims.map fun sim => blocks.foldl LruSim.use sim) := by
    induction blocks with
    | nil => simp
    | cons block blocks induction =>
        intro total sims
        rw [List.foldl_cons, induction, List.length_cons, List.map_map]
        simp only [Prod.mk.injEq]
        exact ⟨by omega, rfl⟩
  rw [updateLruSims, general, Nat.zero_add]

theorem simulate_eq (caps : List Nat) (batches : List (List Nat)) :
    simulate caps batches = (batches.flatten.length,
      caps.dedup.map fun cap => batches.flatten.foldl LruSim.use (LruSim.new cap)) := by
  have general : ∀ total (sims : List LruSim), batches.foldl feed (total, sims) =
      (total + batches.flatten.length,
        sims.map fun sim => batches.flatten.foldl LruSim.use sim) := by
    induction batches with
    | nil => simp
    | cons blocks batches induction =>
        intro total sims
        rw [List.foldl_cons, feed, updateLruSims_eq, induction, List.flatten_cons,
          List.length_append, List.map_map]
        simp only [Prod.mk.injEq]
        refine ⟨by omega, List.map_congr_left fun sim _ => ?_⟩
        rw [List.foldl_append]
        rfl
  rw [simulate, general, Nat.zero_add, List.map_map]
  rfl

/-- What one simulation has come to. -/
theorem mem_simulate {caps : List Nat} (positive : ∀ cap ∈ caps, 1 ≤ cap)
    {batches : List (List Nat)} {sim : LruSim} (member : sim ∈ (simulate caps batches).2) :
    1 ≤ sim.cap ∧ sim.cache.reverse = (Recency.recent batches.flatten).take sim.cap ∧
      sim.hits = (Recency.run sim.cap batches.flatten).2 := by
  rw [simulate_eq] at member
  obtain ⟨cap, listed, rfl⟩ := List.mem_map.mp member
  have nonzero := positive cap (List.mem_dedup.mp listed)
  have follows := (LruSim.follows_new cap).foldl nonzero batches.flatten
  rw [List.nil_append] at follows
  rw [follows.cap_eq]
  exact ⟨nonzero, follows.cache.trans (Recency.run_eq_take nonzero _), follows.hits⟩

/-! ## Reported rates -/

theorem tally_foldl (rows : Nat) (batches : List (List Nat)) (tally : Tally) :
    let after := batches.foldl (Tally.batch rows) tally
    (after.simTotal, after.sims) =
      (batches.map fun ids => Arrays.unique (ids.map (· / rows))).foldl feed
        (tally.simTotal, tally.sims) := by
  induction batches generalizing tally with
  | nil => rfl
  | cons ids batches induction => exact induction _

theorem one_le_of_mem_capacities {blockBytes cap : Nat} (member : cap ∈ capacities blockBytes) :
    1 ≤ cap := by
  obtain ⟨gb, -, rfl⟩ := List.mem_map.mp member
  exact Nat.le_max_left _ _

/-- Larger sizes have larger capacities. -/
theorem capacities_mono {blockBytes : Nat} {small large : Nat × Nat}
    (member : small ∈ dramGb.zip (capacities blockBytes))
    (member' : large ∈ dramGb.zip (capacities blockBytes)) (le : small.1 ≤ large.1) :
    small.2 ≤ large.2 := by
  have capacity : ∀ pair ∈ dramGb.zip (capacities blockBytes),
      pair.2 = max 1 (pair.1 * 1024 ^ 3 / max blockBytes 1) := by
    rw [capacities, List.zip_map_right, List.zip_eq_zipWith, List.zipWith_self]
    simp
  rw [capacity small member, capacity large member']
  exact max_le_max_left 1 (Nat.div_le_div_right (Nat.mul_le_mul_right _ le))

/-- A dictionary keyed by the texts of numbers. -/
theorem lookup_repr {caps : List Nat} {cap : Nat} (rate : Nat → ℚ) (member : cap ∈ caps) :
    (caps.map fun cap => (cap.repr, rate cap)).lookup cap.repr = some (rate cap) := by
  induction caps with
  | nil => simp at member
  | cons first caps induction =>
      rw [List.map_cons, List.lookup_cons]
      by_cases same : cap = first
      · subst same
        simp
      · have different : (cap.repr == first.repr) = false := by
          rw [beq_eq_false_iff_ne]
          exact fun equal => same (Nat.repr_injective equal)
        rw [different]
        exact induction ((List.mem_cons.mp member).resolve_left same)

/-- The simulation of a capacity is found. -/
theorem find?_simulate {caps : List Nat} {cap : Nat} (batches : List (List Nat))
    (member : cap ∈ caps) : ∃ sim ∈ (simulate caps batches).2, sim.cap = cap ∧
      (simulate caps batches).2.find? (·.cap = cap) = some sim := by
  have kept : ∀ (blocks : List Nat) (sim : LruSim),
      (blocks.foldl LruSim.use sim).cap = sim.cap := by
    intro blocks
    induction blocks with
    | nil => exact fun _ => rfl
    | cons block blocks induction =>
        intro sim
        rw [List.foldl_cons, induction, LruSim.cap_use]
  have there : ((simulate caps batches).2.find? (·.cap = cap)).isSome = true := by
    rw [List.find?_isSome, simulate_eq]
    refine ⟨_, List.mem_map.mpr ⟨cap, List.mem_dedup.mpr member, rfl⟩, ?_⟩
    exact decide_eq_true (kept _ _)
  obtain ⟨sim, found⟩ := Option.isSome_iff_exists.mp there
  have capacity := List.find?_some (p := fun sim : LruSim => decide (sim.cap = cap)) found
  exact ⟨sim, List.mem_of_find?_eq_some found, of_decide_eq_true capacity, found⟩

/-- The blocks that the analyzer feeds. -/
def blockBatches (rows : Nat) (batches : List (List Nat)) : List (List Nat) :=
  batches.map fun ids => Arrays.unique (ids.map (· / rows))

/-- A reported rate is that of the reference cache of its capacity. -/
theorem mem_cacheSimulation {trace : EmbeddingTrace} {rowsPerBlock blockBytes : Nat}
    {batches : List (List Nat)} {tally : Tally} (read : trace.iterBatches = .ok batches)
    (tallied : tallyTrace trace rowsPerBlock blockBytes = .ok tally) {entry : Nat × ℚ}
    (member : entry ∈ tally.cacheSimulation blockBytes) :
    ∃ cap, (entry.1, cap) ∈ dramGb.zip (capacities blockBytes) ∧
      entry.2 = (Recency.run cap (blockBatches rowsPerBlock batches).flatten).2 /
        (max (blockBatches rowsPerBlock batches).flatten.length 1 : Nat) := by
  obtain rfl := tallyTrace_eq_ok read tallied
  obtain ⟨⟨gb, cap⟩, listed, rfl⟩ := List.mem_map.mp member
  have capacity : cap ∈ capacities blockBytes := (List.of_mem_zip listed).2
  refine ⟨cap, listed, ?_⟩
  obtain ⟨total, sims⟩ := Prod.mk.inj (tally_foldl rowsPerBlock batches (Tally.initial blockBytes))
  have state : (batches.map fun ids => Arrays.unique (ids.map (· / rowsPerBlock))).foldl feed
      ((Tally.initial blockBytes).simTotal, (Tally.initial blockBytes).sims) =
        simulate (capacities blockBytes) (blockBatches rowsPerBlock batches) := rfl
  obtain ⟨sim, simulated, sim_cap, found⟩ :=
    find?_simulate (blockBatches rowsPerBlock batches) capacity
  obtain ⟨-, -, hits⟩ := mem_simulate (fun _ => one_le_of_mem_capacities) simulated
  dsimp only
  rw [lookup_repr _ capacity, Option.getD_some, Tally.hitRate, total, sims, state, found,
    Option.map_some, Option.getD_some, hits, sim_cap, simulate_eq]

/-- The simulated caches are monotone in their size.  After any batches, a simulation holds the
most recent blocks, as many as fit, and every first access is a miss; a larger one holds and hits
what a smaller one does.  The reported hit rates never decrease with the size. -/
theorem simulated_lru_monotone (caps : List Nat) (positive : ∀ cap ∈ caps, 1 ≤ cap)
    (batches : List (List Nat)) :
    (∀ sim ∈ (simulate caps batches).2,
      sim.cache.reverse = (Recency.recent batches.flatten).take sim.cap ∧
        sim.hits + (Recency.recent batches.flatten).length ≤ (simulate caps batches).1) ∧
      (∀ small ∈ (simulate caps batches).2, ∀ large ∈ (simulate caps batches).2,
        small.cap ≤ large.cap → small.cache ⊆ large.cache ∧ small.hits ≤ large.hits) ∧
      ∀ (trace : EmbeddingTrace) (rowsPerBlock blockBytes : Nat) (read : List (List Nat))
        (tally : Tally), trace.iterBatches = .ok read →
          tallyTrace trace rowsPerBlock blockBytes = .ok tally →
            ∀ small ∈ tally.cacheSimulation blockBytes, ∀ large ∈ tally.cacheSimulation blockBytes,
              small.1 ≤ large.1 → small.2 ≤ large.2 := by
  refine ⟨fun sim member => ?_, fun small member large member' le => ?_, ?_⟩
  · obtain ⟨nonzero, cache, hits⟩ := mem_simulate positive member
    rw [hits, simulate_eq]
    exact ⟨cache, Recency.hits_add_distinct_le nonzero _⟩
  · obtain ⟨nonzero, cache, hits⟩ := mem_simulate positive member
    obtain ⟨-, cache', hits'⟩ := mem_simulate positive member'
    rw [hits, hits']
    refine ⟨fun block held => ?_, Recency.hits_mono nonzero le _⟩
    rw [← List.mem_reverse, cache] at held
    rw [← List.mem_reverse, cache']
    exact List.take_subset_take_left _ le held
  · intro trace rowsPerBlock blockBytes read tally iterated tallied small member large member' le
    obtain ⟨cap, listed, rate⟩ := mem_cacheSimulation iterated tallied member
    obtain ⟨cap', listed', rate'⟩ := mem_cacheSimulation iterated tallied member'
    have nonzero := one_le_of_mem_capacities (List.of_mem_zip listed).2
    have more := Recency.hits_mono nonzero (capacities_mono listed listed' le)
      (blockBatches rowsPerBlock read).flatten
    rw [rate, rate']
    gcongr

/-- Two capacities, and the analysis of a batch of two ids. -/
theorem simulated_lru_monotone_pair :
    (∀ small ∈ (simulate [1, 2] [[0, 1], [0]]).2, ∀ large ∈ (simulate [1, 2] [[0, 1], [0]]).2,
      small.cap ≤ large.cap → small.cache ⊆ large.cache ∧ small.hits ≤ large.hits) ∧
      ∃ tally, tallyTrace (singleBatch [0, 8]) 4 1 = .ok tally ∧
        ∀ small ∈ tally.cacheSimulation 1, ∀ large ∈ tally.cacheSimulation 1,
          small.1 ≤ large.1 → small.2 ≤ large.2 := by
  obtain ⟨-, pairs, reported⟩ := simulated_lru_monotone [1, 2] (by decide) [[0, 1], [0]]
  have read : (singleBatch [0, 8]).iterBatches = .ok [[0, 8]] := by decide +kernel
  obtain ⟨tally, tallied⟩ : ∃ tally, tallyTrace (singleBatch [0, 8]) 4 1 = .ok tally := ⟨_, rfl⟩
  exact ⟨pairs, tally, tallied, reported (singleBatch [0, 8]) 4 1 [[0, 8]] tally read tallied⟩

end MemTier.Trace
