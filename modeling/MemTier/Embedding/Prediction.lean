import MemTier.Containers.RecencyStore
import MemTier.Embedding.ArrivalOrder
import MemTier.Embedding.Traffic
import MemTier.Trace.ReuseStatistics

/-!
# What the analysis of a trace predicts

`analyze_trace.py` simulates one least-recently-used cache of blocks, and `memtier_embedding.py` sends
the same blocks through two tiers that are no such cache.  The reported hit rates bound the traffic
of a run from both sides all the same.
-/

namespace MemTier.Embedding

open Containers Resumption

/-- The analysis sees the blocks that a run asks for. -/
theorem flatten_blockBatches (rowsPerBlock : Nat) (batches : List (List UInt64)) :
    (Trace.blockBatches rowsPerBlock (batches.map intIds)).flatten =
      traceBlocks rowsPerBlock batches := by
  rw [Trace.blockBatches, List.map_map, traceBlocks, List.flatMap_def]
  rfl

theorem toNat_traceBlocks (rowsPerBlock : Nat) (batches : List (List UInt64)) :
    ((traceBlocks rowsPerBlock batches).map UInt64.ofNat).map UInt64.toNat =
      traceBlocks rowsPerBlock batches := by
  rw [List.map_map]
  exact (List.map_congr_left fun block member =>
    UInt64.toNat_ofNat_of_lt' (lt_of_mem_traceBlocks member)).trans (List.map_id _)

/-- A reported hit rate, and the capacity that it goes with. -/
theorem hitRate_of_mem {trace : Trace.EmbeddingTrace} {rowsPerBlock blockBytes : Nat}
    {batches : List (List UInt64)} {tally : Trace.Tally}
    (read : trace.iterBatches = .ok (batches.map intIds))
    (tallied : Trace.tallyTrace trace rowsPerBlock blockBytes = .ok tally) {entry : Nat × ℚ}
    (member : entry ∈ tally.cacheSimulation blockBytes) :
    entry.2 = (Recency.run (max 1 (entry.1 * 1024 ^ 3 / max blockBytes 1))
        ((traceBlocks rowsPerBlock batches).map UInt64.ofNat)).2 /
      (max (traceBlocks rowsPerBlock batches).length 1 : Nat) := by
  obtain ⟨cap, listed, rate⟩ := Trace.mem_cacheSimulation read tallied member
  have capacities : ∀ pair ∈ Trace.dramGb.zip (Trace.capacities blockBytes),
      pair.2 = max 1 (pair.1 * 1024 ^ 3 / max blockBytes 1) := by
    rw [Trace.capacities, List.zip_map_right, List.zip_eq_zipWith, List.zipWith_self]
    simp
  have renamed := Recency.run_map (fun _ _ => UInt64.toNat_inj.mp) cap
    ((traceBlocks rowsPerBlock batches).map UInt64.ofNat)
  rw [toNat_traceBlocks] at renamed
  have capacity : cap = max 1 (entry.1 * 1024 ^ 3 / max blockBytes 1) := capacities _ listed
  rw [rate, flatten_blockBatches, renamed, capacity]

section

variable {file : Bytes} {mode : CopyMode} {permits : (op : Op) → Reply op → Prop} {sizes : Sizes}
  {kind : String} {dramBase hbmBase : Nat} {bag bag' : MemTierEmbeddingBag}
  {batches : List (List UInt64)} {result : RunResult} {before after : Machine}

/-- What a run moves, as misses of the two levels. -/
theorem memtierRun_moves (fits : sizes.Fits) (small : file.length < 2 ^ 63)
    (created : MemTierEmbeddingBag.new sizes dramBase hbmBase = some bag)
    (idle : before.pending = [])
    (evaluation : (memtierRun sizes kind bag batches).Evaluates
      (environment file mode permits) before (bag', some result) after)
    (short : (traceBlocks sizes.rowsPerBlock batches).length *
      (sizes.rowsPerBlock * sizes.embeddingDim * sizes.dtypeSize) < 2 ^ 64) :
    let blockBytes := sizes.rowsPerBlock * sizes.embeddingDim * sizes.dtypeSize
    let passed := (traceBlocks sizes.rowsPerBlock batches).map UInt64.ofNat
    result.ssdReadBytes = (TwoLevel.wholeStore sizes.config.hbmCapacity
        sizes.config.dramCapacity).misses .empty passed * blockBytes ∧
      result.dramToGpuBytes = (TwoLevel.upperStore sizes.config.hbmCapacity
        sizes.config.dramCapacity).misses .empty passed * blockBytes := by
  intro blockBytes passed
  obtain ⟨rfl, reported, metered⟩ := memtierRun_metered created idle evaluation
  have size := fits.blockSize.2
  have positive := (metered.reachable.wellFormed small).positive
  rw [size] at positive
  have blockSize : bag'.handle.blockBytes.toNat = blockBytes :=
    (metered.reachable.wellFormed small).size.trans size
  have loads : positions .posixRead reported = _ := metered.positions_eq small .outside
  have hits : positions .hbmHit reported = _ := metered.positions_eq small .upper
  have split : positions .hbmHit reported + (TwoLevel.upperStore sizes.config.hbmCapacity
      sizes.config.dramCapacity).misses .empty passed = passed.length :=
    hits ▸ TwoLevel.count_upper .empty passed
  obtain ⟨accounts, -, length⟩ := metered.accounts
  have sum := positions_sum accounts.plain
  rw [List.length_map] at length
  rw [show passed.length = (traceBlocks sizes.rowsPerBlock batches).length from
    List.length_map _] at split
  have passes : reported.length < 2 ^ 64 := by
    rw [length]
    exact lt_of_le_of_lt (Nat.le_mul_of_pos_right _ positive) short
  obtain ⟨-, dramHits, misses⟩ := accounts.toNat passes
  have reads : bag'.handle.metrics.bytesReadFromSsd =
      bag'.handle.blockBytes * bag'.handle.metrics.posixReads := accounts.addsUp.bytesRead
  have copies : bag'.handle.metrics.bytesCopiedDramToGpu = bag'.handle.blockBytes *
      (bag'.handle.metrics.dramHits + bag'.handle.metrics.dramMisses) :=
    accounts.addsUp.bytesCopied
  have posixReads : bag'.handle.metrics.posixReads = bag'.handle.metrics.dramMisses :=
    accounts.addsUp.posixReads
  change bag'.handle.metrics.dramMisses.toNat = _ at misses
  change bag'.handle.metrics.dramHits.toNat = _ at dramHits
  have product : ∀ count ≤ (traceBlocks sizes.rowsPerBlock batches).length,
      count * blockBytes < 2 ^ 64 := fun count few =>
    lt_of_le_of_lt (Nat.mul_le_mul_right _ few) short
  constructor
  · rw [← TwoLevel.count_outside, ← loads, RunResult.of]
    dsimp only
    rw [reads, posixReads, UInt64.toNat_mul, misses, blockSize, Nat.mul_comm,
      Nat.mod_eq_of_lt (product _ (by omega))]
  · have moved : (TwoLevel.upperStore sizes.config.hbmCapacity
        sizes.config.dramCapacity).misses .empty passed =
          positions .dramHit reported + positions .posixRead reported := by omega
    rw [moved, RunResult.of]
    dsimp only
    rw [copies, UInt64.toNat_mul, UInt64.toNat_add, dramHits, misses,
      Nat.mod_eq_of_lt (a := positions .dramHit reported + positions .posixRead reported)
        (by omega), blockSize, Nat.mul_comm, Nat.mod_eq_of_lt (product _ (by omega))]

/-- The analysis of a trace and a run over the same trace, for any size of the analysed cache.  What
the analysis predicts to be read, which is the reported miss rate of all accesses, and the bytes that
the run reads from the file bound each other by as much as the analysed cache and the two tiers
differ in size; and likewise for the bytes that are copied to the device. -/
theorem simulation_brackets_traffic (fits : sizes.Fits) (small : file.length < 2 ^ 63)
    (created : MemTierEmbeddingBag.new sizes dramBase hbmBase = some bag)
    (idle : before.pending = [])
    (evaluation : (memtierRun sizes kind bag batches).Evaluates
      (environment file mode permits) before (bag', some result) after)
    (short : (traceBlocks sizes.rowsPerBlock batches).length *
      (sizes.rowsPerBlock * sizes.embeddingDim * sizes.dtypeSize) < 2 ^ 64)
    {trace : Trace.EmbeddingTrace} {analysed : Nat} {tally : Trace.Tally}
    (read : trace.iterBatches = .ok (batches.map intIds))
    (tallied : Trace.tallyTrace trace sizes.rowsPerBlock analysed = .ok tally) {gb : Nat}
    {rate : ℚ} (reported : (gb, rate) ∈ tally.cacheSimulation analysed) :
    let cap := max 1 (gb * 1024 ^ 3 / max analysed 1)
    let dram := sizes.config.dramCapacity
    let hbm := sizes.config.hbmCapacity
    let predicted := (1 - rate) * tally.simTotal *
      (sizes.rowsPerBlock * sizes.embeddingDim * sizes.dtypeSize : Nat)
    ((cap ≤ dram → (dram + 1 - cap : Nat) * result.ssdReadBytes ≤ dram * predicted) ∧
      (hbm + dram ≤ cap →
        (cap + 1 - (hbm + dram) : Nat) * predicted ≤ cap * result.ssdReadBytes)) ∧
    (cap ≤ hbm → (hbm + 1 - cap : Nat) * result.dramToGpuBytes ≤ hbm * predicted) ∧
    (hbm ≤ cap → (cap + 1 - hbm : Nat) * predicted ≤ cap * result.dramToGpuBytes) := by
  intro cap dram hbm predicted
  obtain ⟨bytes, copied⟩ := memtierRun_moves fits small created idle evaluation short
  set block := sizes.rowsPerBlock * sizes.embeddingDim * sizes.dtypeSize
  set passed := (traceBlocks sizes.rowsPerBlock batches).map UInt64.ofNat
  have length : passed.length = (traceBlocks sizes.rowsPerBlock batches).length :=
    List.length_map _
  -- The prediction is a number of blocks after all.
  have whole : predicted = ((passed.length - (Recency.run cap passed).2) * block : Nat) := by
    have total : tally.simTotal = passed.length := by
      rw [Trace.simTotal_eq read tallied, flatten_blockBatches, length]
    have hit : rate = (Recency.run cap passed).2 / (max passed.length 1 : Nat) :=
      length ▸ hitRate_of_mem read tallied reported
    have fewer : (Recency.run cap passed).2 ≤ passed.length :=
      (Nat.le_add_right _ _).trans (Recency.hits_add_distinct_le (by omega) passed)
    have share : (1 - rate) * tally.simTotal =
        ((passed.length - (Recency.run cap passed).2 : Nat) : ℚ) := by
      rw [hit, total, Nat.cast_sub fewer]
      rcases Nat.eq_zero_or_pos passed.length with none | some
      · rw [none] at fewer ⊢
        rw [Nat.le_zero.mp fewer]
        simp
      · rw [Nat.max_eq_left some]
        field_simp
    exact (congrArg (· * (block : ℚ)) share).trans (Nat.cast_mul _ _).symm
  obtain ⟨loads, loads'⟩ := @TwoLevel.misses_whole_run _ _ hbm dram
    sizes.config.hbmCapacity_pos cap (by omega) passed
  obtain ⟨copies, copies'⟩ := @TwoLevel.misses_upper_run _ _ hbm dram
    sizes.config.hbmCapacity_pos cap (by omega) passed
  have scale : ∀ {left right some_factor other : Nat}, left * some_factor ≤ right * other →
      ((left : ℚ) * (some_factor * block : Nat)) ≤ right * (other * block : Nat) := by
    intro left right some_factor other bound
    have scaled := Nat.mul_le_mul_right block bound
    rw [Nat.mul_assoc, Nat.mul_assoc] at scaled
    exact_mod_cast scaled
  rw [whole, bytes, copied]
  exact ⟨⟨fun smaller => scale (loads smaller), fun larger => scale (loads' larger)⟩,
    fun smaller => scale (copies smaller), fun larger => scale (copies' larger)⟩

end

/-- Tiers of two blocks each, beside analysed caches of one block and of four. -/
theorem simulation_brackets_traffic_four :
    ∃ bag bag' result machine tally,
      MemTierEmbeddingBag.new .twoBytes 0 0 = some bag ∧
      (memtierRun .twoBytes "sum" bag [[0, 1, 0], [1, 2], [0]]).Evaluates
        (environment [1, 2, 3, 4, 5, 6] .atIssue AnyReply) Machine.blank (bag', some result)
        machine ∧
      Trace.tallyTrace (Trace.jsonTrace [[0, 1, 0], [1, 2], [0]]) 1 (1024 ^ 3) = .ok tally ∧
      (∀ rate, (1, rate) ∈ tally.cacheSimulation (1024 ^ 3) →
        ((2 + 1 - 1 : Nat) : ℚ) * result.ssdReadBytes ≤
          (2 : Nat) * ((1 - rate) * tally.simTotal * (1 * 1 * 2 : Nat))) ∧
      ∀ rate, (4, rate) ∈ tally.cacheSimulation (1024 ^ 3) →
        ((4 + 1 - (2 + 2) : Nat) : ℚ) * ((1 - rate) * tally.simTotal * (1 * 1 * 2 : Nat)) ≤
          (4 : Nat) * result.ssdReadBytes := by
  obtain ⟨bag, created, later⟩ := (Option.any_eq_true _ _).mp (show
    (MemTierEmbeddingBag.new .twoBytes 0 0).any (fun bag =>
      (Prog.evaluate? (environment [1, 2, 3, 4, 5, 6] .atIssue AnyReply)
        (List.replicate 17 (.take 2)) (memtierRun .twoBytes "sum" bag [[0, 1, 0], [1, 2], [0]])
        Machine.blank).any fun outcome => outcome.1.2.isSome) from by decide +kernel)
  obtain ⟨⟨⟨bag', outcome⟩, machine⟩, evaluated, returned⟩ := (Option.any_eq_true _ _).mp later
  obtain ⟨result, rfl⟩ := Option.isSome_iff_exists.mp returned
  have evaluation := Prog.Evaluates.of_evaluate? evaluated
  have read : (Trace.jsonTrace [[0, 1, 0], [1, 2], [0]]).iterBatches =
      .ok (([[0, 1, 0], [1, 2], [0]] : List (List UInt64)).map intIds) := by decide +kernel
  obtain ⟨tally, tallied⟩ : ∃ tally, Trace.tallyTrace (Trace.jsonTrace [[0, 1, 0], [1, 2], [0]]) 1
    (1024 ^ 3) = .ok tally := ⟨_, rfl⟩
  have brackets := fun gb rate reported => @simulation_brackets_traffic _ _ _ _ _ _ _ _ _ _ _ _ _
    ⟨by decide, by decide, by decide, by decide⟩ (by decide) created rfl evaluation (by decide) _ _ _
    read tallied gb rate reported
  exact ⟨bag, bag', result, machine, tally, created, evaluation, tallied,
    fun rate reported => (brackets 1 rate reported).1.1 (by decide),
    fun rate reported => (brackets 4 rate reported).1.2 (by decide)⟩

end MemTier.Embedding
