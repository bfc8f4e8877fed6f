import MemTier.Embedding.Benchmark

/-!
# Traffic of a run

Every block of a trace is read once at least, and by the baseline once in every batch that needs it.
A run of the embedding runtime lies between the two.
-/

namespace MemTier.Embedding

open Containers Resumption

/-! ## What the loops do -/

/-- The blocks that the batches of a trace need, batch after batch. -/
def traceBlocks (rowsPerBlock : Nat) (batches : List (List UInt64)) : List Nat :=
  batches.flatMap fun batch => idsToBlocks (intIds batch) rowsPerBlock

theorem traceBlocks_cons (rowsPerBlock : Nat) (batch : List UInt64) (batches : List (List UInt64)) :
    traceBlocks rowsPerBlock (batch :: batches) =
      idsToBlocks (intIds batch) rowsPerBlock ++ traceBlocks rowsPerBlock batches :=
  List.flatMap_cons

/-- Numbers of blocks fit into 64 bits as the identifiers do. -/
theorem lt_of_mem_traceBlocks {rowsPerBlock block : Nat} {batches : List (List UInt64)}
    (member : block ∈ traceBlocks rowsPerBlock batches) : block < 2 ^ 64 := by
  obtain ⟨batch, -, member⟩ := List.mem_flatMap.mp member
  rw [idsToBlocks, Arrays.mem_unique] at member
  obtain ⟨id, listed, rfl⟩ := List.mem_map.mp member
  obtain ⟨word, -, rfl⟩ := List.mem_map.mp listed
  exact lt_of_le_of_lt (Nat.div_le_self _ _) (UInt64.toNat_lt word)

section

variable {file : Bytes} {mode : CopyMode} {permits : (op : Op) → Reply op → Prop}
  {config : Config} {kind : String} {bag bag' : MemTierEmbeddingBag} {before after : Machine}

/-- A `forward` that does not raise is a lookup that returns 0. -/
theorem forward_lookup {ids : List UInt64} {output : MemTierEmbeddingBag.Output}
    (evaluation : (bag.forward ids kind).Evaluates
      (environment file mode permits) before (bag', some output) after) :
    ∃ result, (memtierLookupBlocks bag.handle
        ((idsToBlocks (intIds ids) bag.rowsPerBlock).map UInt64.ofNat)).Evaluates
          (environment file mode permits) before (bag'.handle, result) after ∧
      result.rc = 0 ∧ bag'.rowsPerBlock = bag.rowsPerBlock ∧
      output = {
        numBlocks := (idsToBlocks (intIds ids) bag.rowsPerBlock).length
        paths := result.served.map Served.path
        devicePtrs := result.served.map Served.devicePtr } := by
  rw [MemTierEmbeddingBag.forward] at evaluation
  split at evaluation
  · obtain ⟨returned, -⟩ := evaluation
    simp at returned
  · obtain ⟨⟨next, outcome⟩, middle, lookup, rest⟩ := Prog.evaluates_bind.mp evaluation
    obtain ⟨⟨handle, result⟩, final, evaluated, branch⟩ := Prog.evaluates_bind.mp lookup
    dsimp only at branch
    split at branch
    · obtain ⟨returned, rfl⟩ := branch
      obtain ⟨rfl, rfl⟩ := Prod.mk.inj returned
      obtain ⟨returned, -⟩ := rest
      simp at returned
    · rename_i zero
      obtain ⟨returned, rfl⟩ := branch
      obtain ⟨rfl, rfl⟩ := Prod.mk.inj returned
      obtain ⟨returned, rfl⟩ := rest
      obtain ⟨rfl, same⟩ := Prod.mk.inj returned
      exact ⟨result, evaluated, not_not.mp zero, rfl, (Option.some.inj same).symm⟩

/-- The batches of a run, as a session. -/
theorem runBatches_metered {batches : List (List UInt64)} {statistics statistics' : Statistics}
    {passed : List BlockId} {reported : List Served}
    (metered : Metered file mode permits config passed reported ⟨bag.handle, before⟩)
    (evaluation : (runBatches kind bag statistics batches).Evaluates
      (environment file mode permits) before (bag', some statistics') after) :
    statistics' = batches.foldl (fun statistics => statistics.add bag.rowsPerBlock) statistics ∧
      ∃ later, Metered file mode permits config
        (passed ++ (traceBlocks bag.rowsPerBlock batches).map UInt64.ofNat) later
        ⟨bag'.handle, after⟩ := by
  induction batches generalizing bag statistics before passed reported with
  | nil =>
      obtain ⟨returned, rfl⟩ := evaluation
      obtain ⟨rfl, same⟩ := Prod.mk.inj returned
      exact ⟨(Option.some.inj same).symm, reported, by simpa [traceBlocks] using metered⟩
  | cons batch batches induction =>
      obtain ⟨⟨next, outcome⟩, middle, forward, rest⟩ := Prog.evaluates_bind.mp evaluation
      cases outcome with
      | none =>
          obtain ⟨returned, -⟩ := rest
          simp at returned
      | some output =>
          obtain ⟨result, lookup, success, rows, -⟩ := forward_lookup forward
          have called : Metered file mode permits config
              (passed ++ (idsToBlocks (intIds batch) bag.rowsPerBlock).map UInt64.ofNat) _
                ⟨next.handle, middle⟩ :=
            @Metered.call file mode permits config passed reported ⟨bag.handle, before⟩
              ⟨next.handle, middle⟩ (.lookup _) result metered lookup (.inl success)
          obtain ⟨added, later, metered'⟩ := induction called rest
          rw [rows, List.append_assoc, ← List.map_append] at metered'
          rw [rows] at added
          exact ⟨added, later, metered'⟩

end

section

variable {file : Bytes} {blockBytes : Nat} {torchCopy : Bool} {staging staging' : Staging}

/-- The baseline reads every block of a batch, whole. -/
theorem stageBlocks_read {blocks : List Nat}
    (evaluation : (stageBlocks blockBytes torchCopy staging blocks).Evaluates
      (stagingEnvironment file) () (some staging') ()) :
    staging'.bytesRead = staging.bytesRead + blocks.length * blockBytes ∧
      staging'.posixReads = staging.posixReads + blocks.length := by
  induction blocks generalizing staging with
  | nil =>
      obtain ⟨returned, -⟩ := evaluation
      obtain rfl := Option.some.inj returned
      simp
  | cons block blocks induction =>
      obtain ⟨reply, middle, -, rest⟩ := Prog.evaluates_bind.mp evaluation
      cases reply with
      | none =>
          obtain ⟨returned, -⟩ := rest
          simp at returned
      | some data =>
          dsimp only at rest
          split at rest
          · obtain ⟨returned, -⟩ := rest
            simp at returned
          · rename_i whole
            obtain ⟨bytes, reads⟩ := induction rest
            have length : data.length = blockBytes := not_not.mp whole
            dsimp only at bytes reads
            rw [List.length_cons, Nat.succ_mul]
            omega

theorem stageBatches_read {rowsPerBlock : Nat} {batches : List (List UInt64)}
    {statistics statistics' : Statistics}
    (evaluation : (stageBatches rowsPerBlock blockBytes torchCopy statistics staging batches).Evaluates
      (stagingEnvironment file) () (some (statistics', staging')) ()) :
    statistics' = batches.foldl (fun statistics => statistics.add rowsPerBlock) statistics ∧
      staging'.bytesRead =
        staging.bytesRead + (traceBlocks rowsPerBlock batches).length * blockBytes ∧
      staging'.posixReads = staging.posixReads + (traceBlocks rowsPerBlock batches).length := by
  induction batches generalizing statistics staging with
  | nil =>
      obtain ⟨returned, -⟩ := evaluation
      obtain ⟨rfl, rfl⟩ := Prod.mk.inj (Option.some.inj returned)
      simp [traceBlocks]
  | cons batch batches induction =>
      obtain ⟨outcome, middle, stage, rest⟩ := Prog.evaluates_bind.mp evaluation
      cases outcome with
      | none =>
          obtain ⟨returned, -⟩ := rest
          simp at returned
      | some staged =>
          obtain ⟨bytes, reads⟩ := stageBlocks_read stage
          obtain ⟨added, bytes', reads'⟩ := induction rest
          refine ⟨added, ?_, ?_⟩
          · rw [bytes', bytes, traceBlocks_cons, List.length_append, Nat.add_mul, Nat.add_assoc]
          · rw [reads', reads, traceBlocks_cons, List.length_append, Nat.add_assoc]

end

/-- The blocks that the statistics of a trace count. -/
theorem allUniqueBlocks_foldl (rowsPerBlock : Nat) (batches : List (List UInt64))
    (statistics : Statistics) :
    (batches.foldl (fun statistics => statistics.add rowsPerBlock) statistics).allUniqueBlocks =
      statistics.allUniqueBlocks ∪ (traceBlocks rowsPerBlock batches).toFinset := by
  induction batches generalizing statistics with
  | nil => simp [traceBlocks]
  | cons batch batches induction =>
      rw [List.foldl_cons, induction, traceBlocks_cons, List.toFinset_append, ← Finset.union_assoc]
      rfl

/-! ## Counting -/

theorem positions_eq_count (path : ServedBy) (reported : List Served) :
    positions path reported = (reported.map Served.path).count path := by
  rw [positions, List.count, List.countP_map]
  refine List.countP_congr fun served _ => ?_
  simp

theorem ServedBy.ofLevel_injective : Function.Injective ServedBy.ofLevel := by
  rintro (_ | _ | _) (_ | _ | _) same <;> first | rfl | simp [ofLevel] at same

section

variable {file : Bytes} {mode : CopyMode} {permits : (op : Op) → Reply op → Prop}
  {config : Config} {passed : List BlockId} {reported : List Served} {world : World}

/-- Positions of a kind are requests that find their block at the level that goes with it. -/
theorem Metered.positions_eq (small : file.length < 2 ^ 63)
    (metered : Metered file mode permits config passed reported world) (level : Level) :
    positions (.ofLevel level) reported =
      (TwoLevel.levels config.hbmCapacity config.dramCapacity .empty passed).count level := by
  rw [positions_eq_count, (metered.fetch small).1,
    List.count_map_of_injective _ _ ServedBy.ofLevel_injective]

/-- Every block is loaded once at least, and only once if host memory has room for all of them.  If
device memory has room for all of them, only the first request for a block is no hit there. -/
theorem Metered.loads (small : file.length < 2 ^ 63)
    (metered : Metered file mode permits config passed reported world) :
    passed.toFinset.card ≤ positions .posixRead reported ∧
      (passed.toFinset.card ≤ config.dramCapacity →
        positions .posixRead reported = passed.toFinset.card) ∧
      (passed.toFinset.card ≤ config.hbmCapacity →
        positions .hbmHit reported + passed.toFinset.card = passed.length) := by
  have loads : positions .posixRead reported = _ := metered.positions_eq small .outside
  have hits : positions .hbmHit reported = _ := metered.positions_eq small .upper
  rw [loads, hits]
  exact ⟨TwoLevel.card_le_count_outside passed, TwoLevel.count_outside_eq_card,
    TwoLevel.count_upper_add_card⟩

end

/-! ## Runs -/

/-- The sizes go through the fields of the configuration unchanged, and a block is not larger than
a 64-bit number. -/
structure Sizes.Fits (sizes : Sizes) : Prop where
  embeddingDim : sizes.embeddingDim < 2 ^ 32
  rowsPerBlock : sizes.rowsPerBlock < 2 ^ 32
  dtypeSize : sizes.dtypeSize < 2 ^ 32
  block : sizes.rowsPerBlock * sizes.embeddingDim * sizes.dtypeSize < 2 ^ 64

theorem Sizes.Fits.blockSize {sizes : Sizes} (fits : sizes.Fits) :
    sizes.config.exactBlockSize = sizes.rowsPerBlock * sizes.embeddingDim * sizes.dtypeSize ∧
      sizes.config.blockSizeBytes.toNat =
        sizes.rowsPerBlock * sizes.embeddingDim * sizes.dtypeSize := by
  have exact_size : sizes.config.exactBlockSize =
      sizes.rowsPerBlock * sizes.embeddingDim * sizes.dtypeSize := by
    rw [Config.exactBlockSize, config]
    simp only [UInt32.toNat_ofNat']
    rw [Nat.mod_eq_of_lt fits.rowsPerBlock, Nat.mod_eq_of_lt fits.embeddingDim,
      Nat.mod_eq_of_lt fits.dtypeSize]
  refine ⟨exact_size, ?_⟩
  rw [Config.toNat_blockSizeBytes, exact_size, Nat.mod_eq_of_lt fits.block]

theorem MemTierEmbeddingBag.new_eq_some {sizes : Sizes} {dramBase hbmBase : Nat}
    {bag : MemTierEmbeddingBag}
    (created : MemTierEmbeddingBag.new sizes dramBase hbmBase = some bag) :
    memtierInitEmbedding sizes.config dramBase hbmBase = some bag.handle ∧
      bag.rowsPerBlock = sizes.rowsPerBlock := by
  obtain ⟨handle, found, returned⟩ := Option.bind_eq_some_iff.mp created
  obtain rfl := Option.some.inj returned
  exact ⟨found, rfl⟩

/-- A run that does not raise, from the constructor on. -/
theorem memtierRun_metered {file : Bytes} {mode : CopyMode}
    {permits : (op : Op) → Reply op → Prop} {sizes : Sizes} {kind : String}
    {dramBase hbmBase : Nat} {bag bag' : MemTierEmbeddingBag} {batches : List (List UInt64)}
    {result : RunResult} {before after : Machine}
    (created : MemTierEmbeddingBag.new sizes dramBase hbmBase = some bag)
    (idle : before.pending = [])
    (evaluation : (memtierRun sizes kind bag batches).Evaluates
      (environment file mode permits) before (bag', some result) after) :
    result = .of sizes (batches.foldl (fun statistics => statistics.add sizes.rowsPerBlock) {})
        bag'.handle.metrics ∧
      ∃ reported, Metered file mode permits sizes.config
        ((traceBlocks sizes.rowsPerBlock batches).map UInt64.ofNat) reported
        ⟨bag'.handle, after⟩ := by
  obtain ⟨made, rows⟩ := MemTierEmbeddingBag.new_eq_some created
  obtain ⟨⟨last, outcome⟩, middle, loop, rest⟩ := Prog.evaluates_bind.mp evaluation
  cases outcome with
  | none =>
      obtain ⟨returned, -⟩ := rest
      simp at returned
  | some statistics =>
      obtain ⟨returned, rfl⟩ := rest
      obtain ⟨rfl, same⟩ := Prod.mk.inj returned
      obtain ⟨added, reported, metered⟩ := runBatches_metered (.init made idle) loop
      rw [List.nil_append, rows] at metered
      rw [rows] at added
      exact ⟨by rw [← Option.some.inj same, added], reported, metered⟩

/-- Different blocks stay different as 64-bit numbers. -/
theorem card_traceBlocks (rowsPerBlock : Nat) (batches : List (List UInt64)) :
    ((traceBlocks rowsPerBlock batches).map UInt64.ofNat).toFinset.card =
      (traceBlocks rowsPerBlock batches).toFinset.card := by
  have image : ((traceBlocks rowsPerBlock batches).map UInt64.ofNat).toFinset =
      (traceBlocks rowsPerBlock batches).toFinset.image UInt64.ofNat := by
    ext block
    simp
  rw [image, Finset.card_image_of_injOn]
  intro first here second there same
  have first_lt := lt_of_mem_traceBlocks (List.mem_toFinset.mp here)
  have second_lt := lt_of_mem_traceBlocks (List.mem_toFinset.mp there)
  have numbers := congrArg UInt64.toNat same
  rwa [UInt64.toNat_ofNat_of_lt' first_lt, UInt64.toNat_ofNat_of_lt' second_lt] at numbers

section

variable {file : Bytes} {mode : CopyMode} {permits : (op : Op) → Reply op → Prop} {sizes : Sizes}
  {kind : String} {dramBase hbmBase : Nat} {bag bag' : MemTierEmbeddingBag}
  {batches : List (List UInt64)} {result : RunResult} {before after : Machine}

/-- What a run counts, as numbers of blocks. -/
theorem memtierRun_counts (fits : sizes.Fits) (small : file.length < 2 ^ 63)
    (created : MemTierEmbeddingBag.new sizes dramBase hbmBase = some bag)
    (idle : before.pending = [])
    (evaluation : (memtierRun sizes kind bag batches).Evaluates
      (environment file mode permits) before (bag', some result) after)
    (short : (traceBlocks sizes.rowsPerBlock batches).length *
      (sizes.rowsPerBlock * sizes.embeddingDim * sizes.dtypeSize) < 2 ^ 64) :
    ∃ hits loads : Nat, result.ssdReadBytes =
        loads * (sizes.rowsPerBlock * sizes.embeddingDim * sizes.dtypeSize) ∧
      result.hbmHitRate = hits / (max (traceBlocks sizes.rowsPerBlock batches).length 1 : Nat) ∧
      loads ≤ (traceBlocks sizes.rowsPerBlock batches).length ∧
      result.numUniqueBlocks ≤ loads ∧
      (result.numUniqueBlocks ≤ sizes.config.dramCapacity → loads = result.numUniqueBlocks) ∧
      (result.numUniqueBlocks ≤ sizes.config.hbmCapacity →
        hits + result.numUniqueBlocks = (traceBlocks sizes.rowsPerBlock batches).length) := by
  obtain ⟨rfl, reported, metered⟩ := memtierRun_metered created idle evaluation
  have size := fits.blockSize.2
  have positive := (metered.reachable.wellFormed small).positive
  have blockBytes : bag'.handle.blockBytes.toNat = sizes.config.blockSizeBytes.toNat :=
    (metered.reachable.wellFormed small).size
  have loads := metered.loads small
  have unique : (RunResult.of sizes (batches.foldl (fun statistics =>
      statistics.add sizes.rowsPerBlock) {}) bag'.handle.metrics).numUniqueBlocks =
        (traceBlocks sizes.rowsPerBlock batches).toFinset.card := by
    rw [RunResult.of, allUniqueBlocks_foldl, Finset.empty_union]
  rw [card_traceBlocks, List.length_map] at loads
  obtain ⟨accounts, -, length⟩ := metered.accounts
  rw [List.length_map] at length
  have sum := positions_sum accounts.plain
  have passes : (traceBlocks sizes.rowsPerBlock batches).length < 2 ^ 64 := by
    rw [size] at positive
    exact lt_of_le_of_lt (Nat.le_mul_of_pos_right _ positive) short
  obtain ⟨hbmHits, -, misses⟩ := accounts.toNat (length.symm ▸ passes)
  have reads : bag'.handle.metrics.bytesReadFromSsd =
      bag'.handle.blockBytes * bag'.handle.metrics.posixReads := accounts.addsUp.bytesRead
  have posixReads : bag'.handle.metrics.posixReads = bag'.handle.metrics.dramMisses :=
    accounts.addsUp.posixReads
  change bag'.handle.metrics.dramMisses.toNat = _ at misses
  change bag'.handle.metrics.hbmHits.toNat = _ at hbmHits
  have bounded : positions .posixRead reported ≤ (traceBlocks sizes.rowsPerBlock batches).length := by
    omega
  refine ⟨positions .hbmHit reported, positions .posixRead reported, ?_, ?_, bounded, ?_, ?_, ?_⟩
  · have product := Nat.mul_le_mul_right
      (sizes.rowsPerBlock * sizes.embeddingDim * sizes.dtypeSize) bounded
    rw [RunResult.of]
    dsimp only
    rw [reads, posixReads, UInt64.toNat_mul, misses, blockBytes, size, Nat.mul_comm,
      Nat.mod_eq_of_lt (by omega)]
  · have lookups := metered.lookups_eq (by rwa [List.length_map])
    rw [List.length_map] at lookups
    rw [RunResult.of, ← hbmHits, ← lookups]
  · exact unique ▸ loads.1
  · exact unique ▸ loads.2.1
  · exact unique ▸ loads.2.2

/-- A run that does not raise reads at least one block from the file for every different block of
the trace, and not more than the baseline does for the same trace.  The traffic reduction that it
reports is therefore never positive.  With room for all the blocks in host memory the lower bound is
attained, and with room for all of them in device memory only the first request for a block is no
hit there. -/
theorem ssd_traffic_bounds (fits : sizes.Fits) (small : file.length < 2 ^ 63)
    (created : MemTierEmbeddingBag.new sizes dramBase hbmBase = some bag)
    (idle : before.pending = [])
    (evaluation : (memtierRun sizes kind bag batches).Evaluates
      (environment file mode permits) before (bag', some result) after)
    (short : (traceBlocks sizes.rowsPerBlock batches).length *
      (sizes.rowsPerBlock * sizes.embeddingDim * sizes.dtypeSize) < 2 ^ 64) :
    let blockBytes := sizes.rowsPerBlock * sizes.embeddingDim * sizes.dtypeSize
    let total := (traceBlocks sizes.rowsPerBlock batches).length
    result.numUniqueBlocks * blockBytes ≤ result.ssdReadBytes ∧
      (∀ torchCopy statistics staging,
        (cpuStagingRun sizes torchCopy batches).Evaluates (stagingEnvironment file) ()
          (some (statistics, staging)) () →
        result.statistics = statistics ∧ result.ssdReadBytes ≤ staging.bytesRead) ∧
      (0 < result.numUniqueBlocks → result.ssdTrafficReductionVsCpuStaging ≤ 0) ∧
      (result.numUniqueBlocks ≤ sizes.config.dramCapacity →
        result.ssdReadBytes = result.numUniqueBlocks * blockBytes ∧
          (0 < result.numUniqueBlocks → result.ssdTrafficReductionVsCpuStaging = 0)) ∧
      (result.numUniqueBlocks ≤ sizes.config.hbmCapacity →
        result.hbmHitRate = (total - result.numUniqueBlocks : Nat) / (max total 1 : Nat)) := by
  intro blockBytes total
  obtain ⟨hits, loads, bytes, rate, bounded, least, once, resident⟩ :=
    memtierRun_counts fits small created idle evaluation short
  obtain ⟨form, reported, metered⟩ := memtierRun_metered created idle evaluation
  have positive : 0 < blockBytes := by
    have positive := (metered.reachable.wellFormed small).positive
    rwa [fits.blockSize.2] at positive
  have reduction : 0 < result.numUniqueBlocks → result.ssdTrafficReductionVsCpuStaging =
      1 - ((result.ssdReadBytes : ℚ) / (result.numUniqueBlocks * blockBytes : Nat)) := by
    intro some_block
    have product := Nat.mul_pos some_block positive
    have denominator : max (result.numUniqueBlocks * sizes.rowsPerBlock * sizes.embeddingDim *
        sizes.dtypeSize) 1 = result.numUniqueBlocks * blockBytes := by
      rw [Nat.mul_assoc, Nat.mul_assoc, ← Nat.mul_assoc sizes.rowsPerBlock]
      exact Nat.max_eq_left product
    rw [← denominator, form]
    rfl
  have quotient : 0 < result.numUniqueBlocks →
      (0 : ℚ) < (result.numUniqueBlocks * blockBytes : Nat) :=
    fun some_block => Nat.cast_pos.mpr (Nat.mul_pos some_block positive)
  refine ⟨?_, ?_, ?_, ?_, ?_⟩
  · rw [bytes]
    exact Nat.mul_le_mul_right _ least
  · intro torchCopy statistics staging staged
    obtain ⟨added, read, -⟩ := stageBatches_read staged
    constructor
    · rw [form, added]
      rfl
    · rw [bytes, read]
      exact (Nat.mul_le_mul_right _ bounded).trans (Nat.le_add_left _ _)
  · intro some_block
    rw [reduction some_block, sub_nonpos, one_le_div (quotient some_block), Nat.cast_le, bytes]
    exact Nat.mul_le_mul_right _ least
  · intro room
    have exactly : result.ssdReadBytes = result.numUniqueBlocks * blockBytes := by
      rw [bytes, once room]
    refine ⟨exactly, fun some_block => ?_⟩
    rw [reduction some_block, exactly, div_self (quotient some_block).ne', sub_self]
  · intro room
    have first := resident room
    rw [rate, show total - result.numUniqueBlocks = hits from Nat.sub_eq_of_eq_add first.symm]

end

/-- Rows of two bytes, a row in a block, and room for two blocks in either memory. -/
def Sizes.twoBytes : Sizes where
  embeddingDim := 1
  rowsPerBlock := 1
  dtypeSize := 2
  dramCacheBytes := 4
  hbmCacheBytes := 4

/-- Three blocks are read four times, and five times by the baseline. -/
theorem ssd_traffic_bounds_evicted :
    ∃ bag bag' result machine statistics staging,
      MemTierEmbeddingBag.new .twoBytes 0 0 = some bag ∧
      (memtierRun .twoBytes "sum" bag [[0, 1, 0], [1, 2], [0]]).Evaluates
        (environment [1, 2, 3, 4, 5, 6] .atIssue AnyReply) Machine.blank (bag', some result)
        machine ∧
      (cpuStagingRun .twoBytes false [[0, 1, 0], [1, 2], [0]]).Evaluates
        (stagingEnvironment [1, 2, 3, 4, 5, 6]) () (some (statistics, staging)) () ∧
      result.numUniqueBlocks = 3 ∧ result.ssdReadBytes = 8 ∧ staging.bytesRead = 10 ∧
      result.ssdTrafficReductionVsCpuStaging ≤ 0 := by
  obtain ⟨bag, created, later⟩ := (Option.any_eq_true _ _).mp (show
    (MemTierEmbeddingBag.new .twoBytes 0 0).any (fun bag =>
      (Prog.evaluate? (environment [1, 2, 3, 4, 5, 6] .atIssue AnyReply)
        (List.replicate 17 (.take 2)) (memtierRun .twoBytes "sum" bag [[0, 1, 0], [1, 2], [0]])
        Machine.blank).any fun outcome => outcome.1.2.any fun result =>
          result.numUniqueBlocks = 3 ∧ result.ssdReadBytes = 8) from by decide +kernel)
  obtain ⟨⟨⟨bag', outcome⟩, machine⟩, evaluated, later⟩ := (Option.any_eq_true _ _).mp later
  obtain ⟨result, returned, numbers⟩ := (Option.any_eq_true _ _).mp later
  obtain ⟨unique, bytes⟩ := of_decide_eq_true numbers
  dsimp only at returned
  subst returned
  have evaluation := Prog.Evaluates.of_evaluate? evaluated
  obtain ⟨⟨staged, done⟩, evaluated', read⟩ := (Option.any_eq_true _ _).mp (show
    (Prog.evaluate? (stagingEnvironment [1, 2, 3, 4, 5, 6]) (List.replicate 5 (.take 2))
      (cpuStagingRun .twoBytes false [[0, 1, 0], [1, 2], [0]]) ()).any fun outcome =>
        outcome.1.any fun totals => totals.2.bytesRead = 10 from by decide +kernel)
  obtain ⟨⟨statistics, staging⟩, returned, read⟩ := (Option.any_eq_true _ _).mp read
  dsimp only at returned
  subst returned
  have bounds := ssd_traffic_bounds ⟨by decide, by decide, by decide, by decide⟩ (by decide)
    created rfl evaluation (by decide)
  exact ⟨bag, bag', result, machine, statistics, staging, created, evaluation,
    Prog.Evaluates.of_evaluate? evaluated', unique, bytes, of_decide_eq_true read,
    bounds.2.2.1 (by rw [unique]; decide)⟩

end MemTier.Embedding
