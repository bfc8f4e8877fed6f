import MemTier.Containers.Counter
import MemTier.Containers.Visits
import MemTier.Trace.CacheSimulation

/-!
# Statistics of reuse

Beside the simulated caches, `analyze_trace_file` counts ids and blocks, and notes after how many
batches a block comes again.  All of this is kept in variables of its own, but the numbers hang
together.
-/

namespace MemTier.Trace

open Containers

/-- The order in which Python runs through a set. -/
structure SetOrder where
  list : Finset Nat → List Nat
  nodup : ∀ set, (list set).Nodup
  toFinset : ∀ set, (list set).toFinset = set

def SetOrder.sorted : SetOrder where
  list set := set.sort (· ≤ ·)
  nodup set := set.sort_nodup (· ≤ ·)
  toFinset set := set.sort_toFinset (· ≤ ·)

/-- The loop variables that count ids and blocks. -/
structure Usage where
  idCounter : Counter Nat := []
  blockCounter : Counter Nat := []
  uniqueBlocksPerBatch : List Nat := []
  uniqueIdsPerBatch : List Nat := []
  reuseRatios : List ℚ := []
  reuseDistances : List Int := []
  lastSeen : Nat → Option Nat := fun _ => none
  previousBlocks : Finset Nat := ∅
  totalLookups : Nat := 0

/-- The body of the loop over the blocks of a batch. -/
def Usage.see (batchIdx : Nat) (usage : Usage) (block : Nat) : Usage :=
  { usage with
    reuseDistances :=
      match usage.lastSeen block with
      | none => usage.reuseDistances
      | some last => usage.reuseDistances ++ [(batchIdx : Int) - last]
    lastSeen := Function.update usage.lastSeen block (some batchIdx) }

/-- What a batch adds before the loop over its blocks. -/
def Usage.countBatch (rows : Nat) (usage : Usage) (ids : List Nat) : Usage :=
  let blocks := Arrays.unique (ids.map (· / rows))
  let currentBlocks := blocks.toFinset
  { usage with
    totalLookups := usage.totalLookups + ids.length
    idCounter := usage.idCounter.update ids
    blockCounter := usage.blockCounter.update blocks
    uniqueIdsPerBatch := usage.uniqueIdsPerBatch ++ [ids.toFinset.card]
    uniqueBlocksPerBatch := usage.uniqueBlocksPerBatch ++ [currentBlocks.card]
    reuseRatios :=
      if usage.previousBlocks = ∅ then usage.reuseRatios
      else usage.reuseRatios ++
        [((currentBlocks ∩ usage.previousBlocks).card : ℚ) / (max currentBlocks.card 1 : Nat)]
    previousBlocks := currentBlocks }

/-- One round of the loop over batches. -/
def Usage.batch (order : SetOrder) (rows : Nat) (usage : Usage) (item : List Nat × Nat) : Usage :=
  let counted := usage.countBatch rows item.1
  (order.list counted.previousBlocks).foldl (Usage.see item.2) counted

/-- The loop variables after all batches. -/
def traceUsage (order : SetOrder) (trace : EmbeddingTrace) (rowsPerBlock : Nat) :
    Except PyError Usage := do
  let batches ← trace.iterBatches
  if batches ≠ [] then
    let _ ← uint64 rowsPerBlock
  return batches.zipIdx.foldl (Usage.batch order rowsPerBlock) {}

/-! ## Frequencies -/

/-- What is reported of a counter.  The number of keys that a fraction stands for is rounded in
floating point. -/
structure Coverage where
  topk : List (Nat × Nat)
  covered : List ℚ

/-- `coverage`, for numbers of keys that the fractions come to. -/
def coverage (counter : Counter Nat) (shares : List (Nat → Nat)) (topk : Nat) : Coverage where
  topk := counter.mostCommon.take topk
  covered := shares.map fun share =>
    let n := if counter.length = 0 then 0 else max 1 (share counter.length)
    (((counter.mostCommon.take n).map Prod.snd).sum : ℚ) / (max counter.total 1 : Nat)

/-- What is reported of the ids and blocks of a trace. -/
structure UsageStats where
  totalLookups : Nat
  uniqueIds : Nat
  uniqueBlocks : Nat
  idFrequency : Coverage
  blockFrequency : Coverage
  avgUniqueIdsPerBatch : ℚ
  avgUniqueBlocksPerBatch : ℚ
  blockReuseRate : ℚ
  avgReuseDistance : ℚ

def Usage.stats (usage : Usage) (shares : List (Nat → Nat)) (topk : Nat) : UsageStats where
  totalLookups := usage.totalLookups
  uniqueIds := usage.idCounter.length
  uniqueBlocks := usage.blockCounter.length
  idFrequency := coverage usage.idCounter shares topk
  blockFrequency := coverage usage.blockCounter shares topk
  avgUniqueIdsPerBatch := meanOf (usage.uniqueIdsPerBatch.map (↑))
  avgUniqueBlocksPerBatch := meanOf (usage.uniqueBlocksPerBatch.map (↑))
  blockReuseRate := meanOf usage.reuseRatios
  avgReuseDistance := meanOf (usage.reuseDistances.map (↑))

/-! ## What the variables hold -/

/-- The blocks of each batch. -/
def blockSets (rows : Nat) (batches : List (List Nat)) : List (Finset Nat) :=
  (blockBatches rows batches).map List.toFinset

/-- The batches that follow upon a batch with blocks, beside that batch. -/
def followers (sets : List (Finset Nat)) : List (Finset Nat × Finset Nat) :=
  sets.consecutivePairs.filter (·.1 ≠ ∅)

section

variable {order : SetOrder} {rows : Nat} {batches : List (List Nat)} {ids : List Nat} {usage : Usage}

/-- The loop over the blocks of a batch, which are all different. -/
theorem foldl_see {batchIdx : Nat} {listing : List Nat} (distinct : listing.Nodup) (usage : Usage) :
    listing.foldl (Usage.see batchIdx) usage =
      { usage with
        reuseDistances := usage.reuseDistances ++ listing.filterMap fun block =>
          (usage.lastSeen block).map fun last : Nat => (batchIdx : Int) - last
        lastSeen := fun block =>
          if block ∈ listing then some batchIdx else usage.lastSeen block } := by
  induction listing generalizing usage with
  | nil => simp
  | cons block listing induction =>
      obtain ⟨fresh, distinct⟩ := List.nodup_cons.mp distinct
      have others : listing.filterMap (fun other =>
          ((usage.see batchIdx block).lastSeen other).map fun last : Nat => (batchIdx : Int) - last) =
          listing.filterMap fun other =>
            (usage.lastSeen other).map fun last : Nat => (batchIdx : Int) - last := by
        refine List.filterMap_congr fun other member => ?_
        dsimp only [Usage.see]
        rw [Function.update_of_ne (ne_of_mem_of_not_mem member fresh)]
      rw [List.foldl_cons, induction distinct, others]
      simp only [Usage.see, Usage.mk.injEq, true_and, and_true]
      constructor
      · rw [List.filterMap_cons]
        cases usage.lastSeen block with
        | none => rfl
        | some last => exact List.append_assoc _ _ _
      · funext other
        by_cases same : other = block
        · subst same
          simp
        · simp [same]

/-- What the loop variables say about the batches so far. -/
structure Usage.Follows (rows : Nat) (batches : List (List Nat)) (usage : Usage) : Prop where
  idCounter : usage.idCounter.Counts batches.flatten
  blockCounter : usage.blockCounter.Counts (blockBatches rows batches).flatten
  totalLookups : usage.totalLookups = batches.flatten.length
  uniqueIds : usage.uniqueIdsPerBatch = batches.map fun ids => ids.toFinset.card
  uniqueBlocks : usage.uniqueBlocksPerBatch = (blockSets rows batches).map Finset.card
  reuseRatios : usage.reuseRatios = (followers (blockSets rows batches)).map fun pair =>
    ((pair.2 ∩ pair.1).card : ℚ) / (max pair.2.card 1 : Nat)
  reuseDistances : Visits.Accounts (blockSets rows batches) usage.reuseDistances
  lastSeen : ∀ block, usage.lastSeen block =
    if block ∈ Visits.visited (blockSets rows batches) then
      some (Visits.last (blockSets rows batches) block) else none
  previousBlocks : usage.previousBlocks = Visits.current (blockSets rows batches)

theorem Usage.follows_nil (rows : Nat) : Usage.Follows rows [] {} where
  idCounter := Counter.counts_nil
  blockCounter := Counter.counts_nil
  totalLookups := rfl
  uniqueIds := rfl
  uniqueBlocks := rfl
  reuseRatios := rfl
  reuseDistances := Visits.accounts_nil
  lastSeen _ := rfl
  previousBlocks := rfl

theorem blockBatches_concat : blockBatches rows (batches ++ [ids]) =
    blockBatches rows batches ++ [Arrays.unique (ids.map (· / rows))] :=
  List.map_append

theorem blockSets_concat : blockSets rows (batches ++ [ids]) =
    blockSets rows batches ++ [(Arrays.unique (ids.map (· / rows))).toFinset] := by
  rw [blockSets, blockBatches_concat, List.map_append]
  rfl

theorem followers_concat {sets : List (Finset Nat)} {keys : Finset Nat} :
    followers (sets ++ [keys]) =
      if Visits.current sets = ∅ then followers sets
      else followers sets ++ [(Visits.current sets, keys)] := by
  rcases List.eq_nil_or_concat' sets with rfl | ⟨earlier, newest, rfl⟩
  · rfl
  · rw [followers, Visits.consecutivePairs_concat
      (List.append_ne_nil_of_right_ne_nil _ (List.cons_ne_nil _ _)), List.filter_append, followers]
    split_ifs with empty
    · simp [empty]
    · simp [empty]

theorem Usage.Follows.batch (follows : Usage.Follows rows batches usage) (order : SetOrder)
    (ids : List Nat) :
    Usage.Follows rows (batches ++ [ids]) (usage.batch order rows (ids, batches.length)) := by
  have count : (blockSets rows batches).length = batches.length := by
    rw [blockSets, blockBatches, List.length_map, List.length_map]
  rw [Usage.batch, foldl_see (order.nodup _)]
  have listed : ∀ block, block ∈ order.list (usage.countBatch rows ids).previousBlocks ↔
      block ∈ (Arrays.unique (ids.map (· / rows))).toFinset := by
    intro block
    rw [← List.mem_toFinset, order.toFinset]
    rfl
  constructor
  · rw [List.flatten_append, List.flatten_singleton]
    exact follows.idCounter.update ids
  · rw [blockBatches_concat, List.flatten_append, List.flatten_singleton]
    exact follows.blockCounter.update _
  · rw [List.flatten_append, List.flatten_singleton, List.length_append, ← follows.totalLookups]
    rfl
  · rw [List.map_append, ← follows.uniqueIds]
    rfl
  · rw [blockSets_concat, List.map_append, ← follows.uniqueBlocks]
    rfl
  · rw [blockSets_concat, followers_concat, ← follows.previousBlocks]
    dsimp only [Usage.countBatch]
    split_ifs with empty
    · exact follows.reuseRatios
    · rw [List.map_append, follows.reuseRatios]
      rfl
  · rw [blockSets_concat]
    have accounts := follows.reuseDistances.concat (order.nodup _)
      (order.toFinset (usage.countBatch rows ids).previousBlocks)
    refine (congrArg₂ Visits.Accounts rfl (congrArg (_ ++ ·)
      (List.filterMap_congr fun block _ => ?_))).mp accounts
    rw [Visits.gap, count, Usage.countBatch, follows.lastSeen]
    split_ifs <;> rfl
  · intro block
    rw [blockSets_concat, Visits.visited_concat]
    dsimp only
    simp only [listed, Finset.mem_union]
    split_ifs with here earlier earlier
    · rw [Visits.last_concat_of_mem here, count]
    · exact absurd (.inr here) earlier
    · rw [Visits.last_concat_of_notMem here]
      exact (follows.lastSeen block).trans (if_pos (earlier.resolve_right here))
    · exact (follows.lastSeen block).trans (if_neg fun seen => earlier (.inl seen))
  · rw [blockSets_concat, Visits.current, List.getLast?_concat]
    rfl

theorem Usage.follows_foldl (order : SetOrder) (rows : Nat) (batches : List (List Nat)) :
    Usage.Follows rows batches (batches.zipIdx.foldl (Usage.batch order rows) {}) := by
  induction batches using List.reverseRecOn with
  | nil => exact Usage.follows_nil rows
  | append_singleton batches ids induction =>
      rw [List.zipIdx_append, List.foldl_append, Nat.zero_add]
      exact induction.batch order ids

variable {trace : EmbeddingTrace} {rowsPerBlock blockBytes : Nat} {tally : Tally}

theorem traceUsage_follows (read : trace.iterBatches = .ok batches)
    (counted : traceUsage order trace rowsPerBlock = .ok usage) :
    Usage.Follows rowsPerBlock batches usage := by
  rw [traceUsage] at counted
  obtain ⟨batches', read', counted⟩ := bind_eq_ok.mp counted
  obtain rfl := Except.ok.inj (read.symm.trans read')
  dsimp only at counted
  have follows := Usage.follows_foldl order rowsPerBlock batches
  split at counted
  · obtain ⟨_, -, counted⟩ := bind_eq_ok.mp counted
    exact Except.ok.inj counted ▸ follows
  · exact Except.ok.inj counted ▸ follows

theorem visited_blockSets :
    Visits.visited (blockSets rows batches) = (blockBatches rows batches).flatten.toFinset := by
  ext block
  rw [Visits.mem_visited, List.mem_toFinset, List.mem_flatten, blockSets]
  simp

theorem sum_card_blockSets :
    ((blockSets rows batches).map Finset.card).sum = (blockBatches rows batches).flatten.length := by
  rw [List.length_flatten, blockSets, blockBatches, List.map_map, List.map_map, List.map_map]
  refine congrArg List.sum (List.map_congr_left fun ids _ => ?_)
  exact List.toFinset_card_of_nodup ((Arrays.unique_increasing _).imp ne_of_lt)

theorem simTotal_eq (read : trace.iterBatches = .ok batches)
    (tallied : tallyTrace trace rowsPerBlock blockBytes = .ok tally) :
    tally.simTotal = (blockBatches rowsPerBlock batches).flatten.length := by
  obtain rfl := tallyTrace_eq_ok read tallied
  obtain ⟨total, -⟩ :=
    Prod.mk.inj (tally_foldl rowsPerBlock batches (Tally.initial blockBytes))
  have simulated := congrArg Prod.fst
    (simulate_eq (capacities blockBytes) (blockBatches rowsPerBlock batches))
  exact total.trans simulated

/-- The shared blocks of all pairs of successive batches, those of an empty batch being none. -/
theorem sum_followers (sets : List (Finset Nat)) :
    ((followers sets).map fun pair => (pair.2 ∩ pair.1).card).sum =
      (sets.consecutivePairs.map fun pair => (pair.2 ∩ pair.1).card).sum := by
  rw [followers]
  induction sets.consecutivePairs with
  | nil => rfl
  | cons pair pairs induction =>
      rw [List.map_cons, List.sum_cons, ← induction]
      by_cases empty : pair.1 = ∅
      · rw [List.filter_cons_of_neg (by simpa using empty), empty, Finset.inter_empty,
          Finset.card_empty, Nat.zero_add]
      · rw [List.filter_cons_of_pos (by simpa using empty), List.map_cons, List.sum_cons]

end

/-- A trace of given batches. -/
def jsonTrace (batches : List (List Nat)) : EmbeddingTrace where
  rowsPerBlock := some 4
  metadata := {}
  jsonlRows := some (batches.map fun ids => ⟨none, some ids⟩)
  ids := none
  blockIds := none

section

variable {counter : Counter Nat} {history : List Nat} {shares : List (Nat → Nat)} {topk : Nat}

/-- What a reported table says of the keys counted: the most frequent ones with their exact counts,
and for each fraction the part of all that as many keys make up, which is at least their share. -/
structure Coverage.Describes (coverage : Coverage) (history : List Nat) (shares : List (Nat → Nat))
    (topk : Nat) : Prop where
  length : coverage.topk.length = min topk history.toFinset.card
  distinct : (coverage.topk.map Prod.fst).Nodup
  counts : ∀ entry ∈ coverage.topk, entry.2 = history.count entry.1 ∧ entry.1 ∈ history
  falling : coverage.topk.Pairwise fun first second => second.2 ≤ first.2
  others : ∀ key ∈ history, key ∉ coverage.topk.map Prod.fst → ∀ entry ∈ coverage.topk,
    history.count key ≤ entry.2
  covered : List.Forall₂ (fun share (part : ℚ) => history ≠ [] →
    ((min (max 1 (share history.toFinset.card)) history.toFinset.card : Nat) : ℚ) /
      history.toFinset.card ≤ part ∧ part ≤ 1) shares coverage.covered

theorem coverage_describes (counts : counter.Counts history) :
    (coverage counter shares topk).Describes history shares topk := by
  have perm := counter.mostCommon_perm
  have size := counts.length_eq
  have sorted := counter.mostCommon_pairwise
  constructor
  · rw [coverage, List.length_take, perm.length_eq, size]
  · dsimp only [coverage]
    rw [List.map_take]
    exact ((perm.map Prod.fst).nodup_iff.mpr counts.nodup).sublist (List.take_sublist _ _)
  · intro entry member
    have listed := perm.subset (List.mem_of_mem_take member)
    exact ⟨counts.count entry listed, (counts.mem _).mp (List.mem_map_of_mem listed)⟩
  · exact sorted.sublist (List.take_sublist _ _)
  · intro key member unlisted entry among
    obtain ⟨other, held, rfl⟩ := List.mem_map.mp ((counts.mem key).mpr member)
    rw [← counts.count other held]
    rw [← List.take_append_drop topk counter.mostCommon, List.pairwise_append] at sorted
    have present := perm.symm.subset held
    rw [← List.take_append_drop topk counter.mostCommon, List.mem_append] at present
    rcases present with front | back
    · exact absurd (List.mem_map_of_mem front) unlisted
    · exact sorted.2.2 entry among other back
  · rw [coverage, List.forall₂_map_right_iff, List.forall₂_same]
    intro share _ nonempty
    have some_key : 0 < counter.length := by
      rw [size, Finset.card_pos, List.toFinset_nonempty_iff]
      exact nonempty
    have total : (counter.mostCommon.map Prod.snd).sum = counter.total :=
      (perm.map Prod.snd).sum_eq
    have positive : 0 < counter.total := by
      rw [counts.total]
      exact List.length_pos_iff.mpr nonempty
    have lower := @Counter.share_le_sum_take (counter.mostCommon.map Prod.snd)
      ((List.pairwise_map).mpr sorted) (max 1 (share counter.length))
    rw [List.length_map, perm.length_eq, total] at lower
    have upper : ((counter.mostCommon.map Prod.snd).take (max 1 (share counter.length))).sum ≤
        counter.total :=
      total ▸ (List.take_sublist _ _).sum_le_sum fun _ _ => Nat.zero_le _
    rw [← size, if_neg some_key.ne']
    dsimp only
    rw [List.map_take, max_eq_left (Nat.succ_le_of_lt positive)]
    constructor
    · rw [div_le_div_iff₀ (by exact_mod_cast some_key) (by exact_mod_cast positive)]
      exact_mod_cast lower
    · rw [div_le_one (by exact_mod_cast positive)]
      exact_mod_cast upper

/-- In how many batches a block comes. -/
theorem count_blockBatches (rows block : Nat) (batches : List (List Nat)) :
    (blockBatches rows batches).flatten.count block =
      batches.countP fun ids => block ∈ ids.map (· / rows) := by
  induction batches with
  | nil => rfl
  | cons ids batches induction =>
      rw [blockBatches, List.map_cons, List.flatten_cons, List.count_append, List.countP_cons,
        ← induction, Nat.add_comm, blockBatches, Nat.add_left_cancel_iff]
      have distinct : (Arrays.unique (ids.map (· / rows))).Nodup :=
        (Arrays.unique_increasing _).imp ne_of_lt
      rw [distinct.count]
      simp only [Arrays.mem_unique, decide_eq_true_eq]

end

end MemTier.Trace
