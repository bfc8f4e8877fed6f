import MemTier.Embedding.BlockedBags
import MemTier.Embedding.DeferredCopies
import MemTier.Embedding.Traffic

/-!
# Bags over served blocks

The runtime brings the blocks of a batch into device memory, and the kernels take the pointers that
it returns.  Together they compute what accumulating rows of the whole table would give.
-/

namespace MemTier.Embedding

open Containers Resumption

/-! ## From pointers to bags -/

/-- The launch for rows whose elements have the size that it expects. -/
theorem Prepared.launch {float : Type} {ops : FloatOps float} {dtypeSize : Int} {dim size : Nat}
    {table : EmbeddingTable dim size} {memory : Memory} {batchSize bagSize rowsPerBlock : Nat}
    {args : BagArgs} (prepared : Prepared table memory batchSize bagSize rowsPerBlock args)
    (element : size = elementSize dtypeSize) {order : List Thread}
    (perm : order.Perm (threads (grid args))) {output : List float}
    (length : output.length = batchSize * dim) :
    ∃ after, launchEmbeddingBag ops memory args dtypeSize order output = some (0, after) ∧
      after.length = output.length ∧ ∀ bag < batchSize, ∀ column < dim,
        after[bag * dim + column]? = some (finish ops args
          (flatBag ops (loadElement ops dtypeSize) table args.ids bagSize bag column)) := by
  subst element
  obtain ⟨after, ran, same_length, cells⟩ :=
    @Prepared.run_eq _ ops _ _ _ _ _ _ _ _ prepared (loadElement ops dtypeSize) _ perm _ length
  refine ⟨after, ?_, same_length, cells⟩
  have kernel : (if dtypeSize = 2 then embeddingBagFp16Kernel ops memory args
      else embeddingBagFp32Kernel ops memory args) =
        embeddingBagKernel ops (elementSize dtypeSize) (loadElement ops dtypeSize) memory args := by
    rw [elementSize, loadElement]
    split <;> rfl
  rw [launchEmbeddingBag, if_pos prepared.grid_eq.2, kernel]
  dsimp only
  rw [ran]
  rfl

/-- A kernel call for a batch of bags: the identifiers, their blocks, and where the blocks are. -/
def bagArgs (sizes : Sizes) (ids : List UInt64) (batchSize bagSize : Nat) (devicePtrs : List Nat)
    (meanMode : Int) : BagArgs where
  ids := ids
  batchSize := batchSize
  bagSize := bagSize
  blockPtrs := devicePtrs
  blockIds := (idsToBlocks (intIds ids) sizes.rowsPerBlock).map UInt64.ofNat
  numBlocks := (idsToBlocks (intIds ids) sizes.rowsPerBlock).length
  rowsPerBlock := sizes.rowsPerBlock
  embeddingDim := sizes.embeddingDim
  meanMode := meanMode

/-- Sizes that the kernels can work with, and a table for them. -/
structure KernelSizes (sizes : Sizes) {dim size : Nat} (table : EmbeddingTable dim size) : Prop where
  fits : sizes.Fits
  dim_eq : sizes.embeddingDim = dim
  size_eq : sizes.dtypeSize = size
  positive : 0 < sizes.rowsPerBlock ∧ 0 < dim ∧ 0 < size
  rows_int : sizes.rowsPerBlock < 2 ^ 31
  dim_grid : dim ≤ 65535 * 128
  small : table.bytes.length < 2 ^ 63

/-- Bags of identifiers of the table. -/
structure KernelBags {dim size : Nat} (table : EmbeddingTable dim size) (ids : List UInt64)
    (batchSize bagSize : Nat) : Prop where
  length : ids.length = batchSize * bagSize
  batchSize_int : 0 < batchSize ∧ batchSize < 2 ^ 31
  bagSize_int : 0 < bagSize ∧ bagSize < 2 ^ 31
  rows : ∀ id ∈ ids, id.toNat < table.rows.length

section

variable {sizes : Sizes} {dim size : Nat} {table : EmbeddingTable dim size}

theorem EmbeddingTable.length_bytes (table : EmbeddingTable dim size) :
    table.bytes.length = table.rows.length * (dim * size) := by
  have lengths : (table.rows.map List.flatten).map List.length =
      List.replicate table.rows.length (dim * size) := by
    rw [List.eq_replicate_iff]
    simpa using fun row member => table.length_flatten_row member
  rw [EmbeddingTable.bytes, List.length_flatten, lengths, List.sum_replicate, smul_eq_mul]

/-- Blocks of rows of the table have no offset that wraps around. -/
theorem KernelSizes.addressable (kernel : KernelSizes sizes table) {id : Nat}
    (valid : id < table.rows.length) :
    sizes.config.Addressable (UInt64.ofNat (id / sizes.rowsPerBlock)) := by
  have length := table.length_bytes
  have small := kernel.small
  rw [length] at small
  obtain ⟨rows_pos, dim_pos, size_pos⟩ := kernel.positive
  have row_pos := Nat.mul_pos dim_pos size_pos
  have rows := Nat.mul_le_mul_right (dim * size) valid.le
  have id_le : id ≤ id * (dim * size) := Nat.le_mul_of_pos_right _ row_pos
  have block_le : id / sizes.rowsPerBlock ≤ id := Nat.div_le_self _ _
  have number : (UInt64.ofNat (id / sizes.rowsPerBlock)).toNat = id / sizes.rowsPerBlock := by
    rw [UInt64.toNat_ofNat', Nat.mod_eq_of_lt (by omega)]
  have exact_size : sizes.config.exactBlockSize = sizes.rowsPerBlock * (dim * size) := by
    rw [kernel.fits.blockSize.1, kernel.dim_eq, kernel.size_eq, Nat.mul_assoc]
  rw [Config.Addressable, number]
  constructor
  · rw [kernel.fits.blockSize.1]
    exact kernel.fits.block
  · have start : id / sizes.rowsPerBlock * sizes.config.exactBlockSize ≤ id * (dim * size) := by
      rw [exact_size, ← Nat.mul_assoc]
      exact Nat.mul_le_mul_right _ (Nat.div_mul_le_self _ _)
    omega

theorem HoldsBlock.holdsRows_of {config : Config} {memory : Memory} {ptr : Nat} {block : BlockId}
    (holds : HoldsBlock config table.bytes memory ptr block)
    (dim_eq : config.embeddingDim.toNat = dim) (size_eq : config.dtypeSize.toNat = size)
    (small : table.bytes.length < 2 ^ 63) :
    HoldsRows table config.rowsPerBlock.toNat memory ptr block.toNat := by
  subst dim_eq size_eq
  exact holds.holdsRows small

/-- Right pointers prepare a launch. -/
theorem KernelSizes.prepared (kernel : KernelSizes sizes table) {ids : List UInt64}
    {batchSize bagSize : Nat} (bags : KernelBags table ids batchSize bagSize) {memory : Memory}
    {served : List Served} {meanMode : Int}
    (holds : List.Forall₂ (fun block (result : Served) =>
      HoldsBlock sizes.config table.bytes memory result.devicePtr block)
      ((idsToBlocks (intIds ids) sizes.rowsPerBlock).map UInt64.ofNat) served) :
    Prepared table memory batchSize bagSize sizes.rowsPerBlock
      (bagArgs sizes ids batchSize bagSize (served.map Served.devicePtr) meanMode) := by
  obtain ⟨fits, rfl, rfl, ⟨rows_pos, dim_pos, -⟩, rows_int, dim_grid, small⟩ := kernel
  have dim_eq : sizes.config.embeddingDim.toNat = sizes.embeddingDim := by
    rw [Sizes.config, UInt32.toNat_ofNat', Nat.mod_eq_of_lt fits.embeddingDim]
  have size_eq : sizes.config.dtypeSize.toNat = sizes.dtypeSize := by
    rw [Sizes.config, UInt32.toNat_ofNat', Nat.mod_eq_of_lt fits.dtypeSize]
  have rows_eq : sizes.config.rowsPerBlock.toNat = sizes.rowsPerBlock := by
    rw [Sizes.config, UInt32.toNat_ofNat', Nat.mod_eq_of_lt fits.rowsPerBlock]
  have lengths := holds.length_eq
  rw [List.length_map] at lengths
  constructor
  case batchSize_eq | bagSize_eq | rowsPerBlock_eq | embeddingDim_eq => rfl
  case batchSize_int => exact bags.batchSize_int
  case bagSize_int => exact bags.bagSize_int
  case rowsPerBlock_int => exact ⟨rows_pos, rows_int⟩
  case embeddingDim_int => exact ⟨dim_pos, dim_grid⟩
  case ids => exact bags.length
  case blockIds => simp [bagArgs]
  case blockPtrs => simp [bagArgs, lengths]
  case rows => exact bags.rows
  case listed =>
    intro id member
    refine ⟨UInt64.ofNat (id.toNat / sizes.rowsPerBlock), List.mem_map_of_mem ?_, ?_⟩
    · rw [idsToBlocks, Arrays.mem_unique]
      exact List.mem_map_of_mem (List.mem_map_of_mem member)
    · rw [UInt64.toNat_ofNat', Nat.mod_eq_of_lt]
      exact lt_of_le_of_lt (Nat.div_le_self _ _) (UInt64.toNat_lt id)
  case holds =>
    intro k block ptr listed pointed
    have placed : List.Forall₂ (fun block ptr =>
        HoldsBlock sizes.config table.bytes memory ptr block)
        ((idsToBlocks (intIds ids) sizes.rowsPerBlock).map UInt64.ofNat)
        (served.map Served.devicePtr) := List.forall₂_map_right_iff.mpr holds
    obtain ⟨inside, rfl⟩ := List.getElem?_eq_some_iff.mp listed
    obtain ⟨inside', rfl⟩ := List.getElem?_eq_some_iff.mp pointed
    have held := (List.forall₂_iff_get.mp placed).2 k inside inside'
    exact rows_eq ▸ held.holdsRows_of dim_eq size_eq small

end

/-! ## Sessions and pointers -/

section

variable {file : Bytes} {permits : (op : Op) → Reply op → Prop} {config : Config}
  {passed : List BlockId} {reported : List Served} {world : World}

/-- The pointers of a successful lookup, when no miss of the batch evicts a block that was asked
for. -/
theorem lookup_pointers_hold (small : file.length < 2 ^ 63) {handle handle' : Handle}
    {before after : Machine} (wellFormed : handle.tiers.WellFormed config)
    (steady : Steady config file handle.tiers before) {batch : List BlockId}
    {result : LookupResult} (proper : ∀ block ∈ batch, block ≠ uint64Max)
    (evaluation : (memtierLookupBlocks handle batch).Evaluates
      (environment file .atIssue permits) before (handle', result) after)
    (success : result.rc = 0) (addressable : ∀ block ∈ batch, config.Addressable block)
    (keeps : KeepsAsked config.hbmCapacity handle.hbmCache.slots.recency [] batch) :
    List.Forall₂ (fun block (served : Served) =>
      HoldsBlock config file after.hbm served.devicePtr block) batch result.served := by
  rcases memtierLookupBlocks_cases small wellFormed.positive_blockBytes evaluation with
    ⟨failed, -, -⟩ | ⟨ready, middle, complete, drains, lookups, drains', finishes⟩
  · simp [failed] at success
  obtain rfl := drains.eq_of_empty steady.loaded.idle
  have finished := (finishes success).1
  obtain ⟨-, steady'⟩ := lookups.steady finished wellFormed proper steady
  obtain rfl := drains'.eq_of_empty steady'.loaded.idle
  have right := lookups.pointers_of_keeps finished wellFormed proper steady
    (List.forall_mem_nil fun pair : BlockId × Served =>
      handle.tiers.hbm.address pair.1 = some pair.2.devicePtr) keeps
  refine List.forall₂_iff_zip.mpr ⟨lookups.length_eq finished, fun {block served} member => ?_⟩
  have held := right (block, served) (.inr member)
  exact ((steady'.loaded.hbm block _ held).holdsBlock_iff small).mpr
    (addressable block (List.of_mem_zip member).1)

end

/-! ## Room for all blocks -/

section

variable {file : Bytes} {mode : CopyMode} {permits : (op : Op) → Reply op → Prop} {config : Config}
  {keys : Finset BlockId} {batch : List BlockId}

/-- In a queue with room for all blocks, no block of a batch is evicted. -/
theorem KeepsAsked.of_room {capacity : Nat} (room : keys.card ≤ capacity)
    {order asked : List BlockId} (distinct : order.Nodup)
    (inside : ∀ block ∈ order, block ∈ keys) (listed : ∀ block ∈ batch, block ∈ keys) :
    KeepsAsked capacity order asked batch := by
  induction batch generalizing order asked with
  | nil => trivial
  | cons block batch induction =>
      rw [List.forall_mem_cons] at listed
      rw [KeepsAsked]
      split
      · exact induction distinct inside listed.2
      · rename_i missing
        have short := (TwoLevel.length_lt_of_new distinct inside listed.1 missing).trans_le room
        rw [TwoLevel.enter_of_room short, Recency.victim, if_pos short]
        exact ⟨by simp, induction (distinct.cons missing)
          (List.forall_mem_cons.mpr ⟨listed.1, inside⟩) listed.2⟩

/-- With room for all blocks in host memory, no slot is taken from any of them. -/
theorem SlotsKept.of_room (room : keys.card ≤ config.dramCapacity) {residents : Residents}
    (distinct : residents.dram.Nodup) (inside : ∀ block ∈ residents.dram, block ∈ keys)
    (listed : ∀ block ∈ batch, block ∈ keys)
    (addressable : ∀ block ∈ batch, config.Addressable block) :
    SlotsKept config file residents batch := by
  induction batch generalizing residents with
  | nil => trivial
  | cons block batch induction =>
      rw [List.forall_mem_cons] at listed addressable
      rw [SlotsKept]
      split
      · exact induction distinct inside listed.2 addressable.2
      · have short : block ∉ residents.dram → residents.dram.length < config.dramCapacity :=
          fun missing =>
            (TwoLevel.length_lt_of_new distinct inside listed.1 missing).trans_le room
        refine ⟨fun missing => ?_, fun _ => ⟨addressable.1, ?_⟩⟩
        · simp [Recency.victim, short missing]
        · apply induction ?_ ?_ listed.2 addressable.2 <;> rw [Residents.bring] <;> dsimp only
          · split_ifs with cached
            · exact (Recency.use_perm block residents.dram).nodup_iff.mpr distinct
            · rw [TwoLevel.enter_of_room (short cached)]
              exact distinct.cons cached
          · intro other member
            split_ifs at member with cached
            · exact inside other ((Recency.use_perm block residents.dram).subset member)
            · rw [TwoLevel.enter_of_room (short cached)] at member
              rcases List.mem_cons.mp member with rfl | held
              · exact listed.1
              · exact inside other held

variable {passed : List BlockId} {reported : List Served} {world : World}

/-- After successful calls, the caches hold nothing that was not passed to a lookup. -/
theorem Metered.recency_subset (small : file.length < 2 ^ 63)
    (metered : Metered file mode permits config passed reported world) :
    world.handle.tiers.hbm.recency ⊆ passed ∧ world.handle.tiers.dram.recency ⊆ passed := by
  obtain ⟨-, levels, -⟩ := metered.fetch small
  have held := (TwoLevel.wholeStore config.hbmCapacity config.dramCapacity).held_foldl_subset
    TwoLevel.empty passed
  rw [show passed.foldl (TwoLevel.wholeStore config.hbmCapacity config.dramCapacity).serve
    TwoLevel.empty = world.handle.tiers.levels from levels.symm] at held
  simp only [TwoLevel.wholeStore_held, Tiers.levels, TwoLevel.empty, List.append_nil,
    List.append_subset] at held
  exact held

/-- With room for all blocks in host memory, a stream may execute its copies whenever it likes. -/
theorem Metered.deferred_of_room (small : file.length < 2 ^ 63)
    (room : keys.card ≤ config.dramCapacity)
    (metered : Metered file .queued permits config passed reported world)
    (listed : ∀ block ∈ passed, block ∈ keys)
    (addressable : ∀ block ∈ passed, config.Addressable block) :
    Deferred file permits config passed reported world := by
  induction metered with
  | init created idle => exact .init created idle
  | @call passed reported before after request result earlier evaluation success induction =>
      rw [List.forall_mem_append] at listed addressable
      apply Deferred.call (induction listed.1 addressable.1) ?_ evaluation success
      apply SlotsKept.of_room room (earlier.reachable.wellFormed small).dram.distinct ?_ listed.2
        addressable.2
      intro block cached
      exact listed.1 block ((earlier.recency_subset small).2 cached)

end

/-! ## Bags -/

section

variable {float : Type} {sizes : Sizes} {dim size : Nat} {table : EmbeddingTable dim size}
  {permits : (op : Op) → Reply op → Prop} {passed : List BlockId} {reported : List Served}
  {bag bag' : MemTierEmbeddingBag} {before after : Machine} {ids : List UInt64}
  {batchSize bagSize : Nat} {kind : String} {output : MemTierEmbeddingBag.Output}

theorem KernelSizes.addressable_blocks (kernel : KernelSizes sizes table)
    (bags : KernelBags table ids batchSize bagSize) :
    ∀ block ∈ (idsToBlocks (intIds ids) sizes.rowsPerBlock).map UInt64.ofNat,
      sizes.config.Addressable block := by
  intro block member
  obtain ⟨number, listed, rfl⟩ := List.mem_map.mp member
  rw [idsToBlocks, Arrays.mem_unique] at listed
  obtain ⟨id, among, rfl⟩ := List.mem_map.mp listed
  rw [intIds] at among
  obtain ⟨word, here, rfl⟩ := List.mem_map.mp among
  exact kernel.addressable (bags.rows word here)

/-- Right pointers make right bags. -/
theorem KernelSizes.launch (kernel : KernelSizes sizes table)
    (element : sizes.dtypeSize = 2 ∨ sizes.dtypeSize = 4)
    (bags : KernelBags table ids batchSize bagSize) {memory : Memory} {served : List Served}
    (holds : List.Forall₂ (fun block (result : Served) =>
      HoldsBlock sizes.config table.bytes memory result.devicePtr block)
      ((idsToBlocks (intIds ids) sizes.rowsPerBlock).map UInt64.ofNat) served)
    (ops : FloatOps float) (meanMode : Int) {order : List Thread} {cells : List float} :
    let args := bagArgs sizes ids batchSize bagSize (served.map Served.devicePtr) meanMode
    order.Perm (threads (grid args)) → cells.length = batchSize * dim →
    ∃ sums, launchEmbeddingBag ops memory args sizes.dtypeSize order cells = some (0, sums) ∧
      sums.length = cells.length ∧ ∀ bag < batchSize, ∀ column < dim,
        sums[bag * dim + column]? = some (finish ops args
          (flatBag ops (loadElement ops sizes.dtypeSize) table ids bagSize bag column)) := by
  intro args perm length
  refine Prepared.launch (kernel.prepared bags holds) ?_ perm length
  rw [← kernel.size_eq, elementSize]
  rcases element with half | single
  · rw [half]
    rfl
  · rw [single]
    rfl

/-- After any session of calls whose lookups return 0, with copies executed at issue: when `forward`
returns and no miss of its batch evicted a block that the batch had asked for, a launch with the
pointers that it returns computes, in whatever order the threads run, the bags of the table, row by
row. -/
theorem served_bags_flat (ops : FloatOps float) (kernel : KernelSizes sizes table)
    (element : sizes.dtypeSize = 2 ∨ sizes.dtypeSize = 4)
    (metered : Metered table.bytes .atIssue permits sizes.config passed reported
      ⟨bag.handle, before⟩)
    (rows : bag.rowsPerBlock = sizes.rowsPerBlock)
    (bags : KernelBags table ids batchSize bagSize)
    (evaluation : (bag.forward ids kind).Evaluates (environment table.bytes .atIssue permits)
      before (bag', some output) after)
    (keeps : KeepsAsked sizes.config.hbmCapacity bag.handle.hbmCache.slots.recency []
      ((idsToBlocks (intIds ids) sizes.rowsPerBlock).map UInt64.ofNat))
    (meanMode : Int) (order : List Thread) (cells : List float) :
    let args := bagArgs sizes ids batchSize bagSize output.devicePtrs meanMode
    order.Perm (threads (grid args)) → cells.length = batchSize * dim →
    ∃ sums, launchEmbeddingBag ops after.hbm args sizes.dtypeSize order cells = some (0, sums) ∧
      sums.length = cells.length ∧ ∀ bag < batchSize, ∀ column < dim,
        sums[bag * dim + column]? = some (finish ops args
          (flatBag ops (loadElement ops sizes.dtypeSize) table ids bagSize bag column)) := by
  intro args perm length
  obtain ⟨result, lookup, success, -, rfl⟩ := forward_lookup evaluation
  rw [rows] at lookup
  have called := @Metered.call table.bytes .atIssue permits sizes.config passed reported
    ⟨bag.handle, before⟩ ⟨bag'.handle, after⟩ (.lookup _) result metered lookup (.inl success)
  have holds := lookup_pointers_hold kernel.small (metered.reachable.wellFormed kernel.small)
    (metered.steady kernel.small)
    (List.forall_mem_append.mp (called.proper kernel.small)).2 lookup success
    (kernel.addressable_blocks bags) keeps
  exact kernel.launch element bags holds ops meanMode perm length

end

/-- A table of three rows of one half each. -/
def EmbeddingTable.threeHalves : EmbeddingTable 1 2 where
  rows := [[[1, 2]], [[3, 4]], [[5, 6]]]
  dims := by decide
  sizes := by decide

theorem EmbeddingTable.threeHalves_kernel : KernelSizes .twoBytes EmbeddingTable.threeHalves :=
  ⟨⟨by decide, by decide, by decide, by decide⟩, rfl, rfl, by decide, by decide, by decide,
    by decide⟩

/-- Rows 0 and 1 were looked up, in this order.  A bag of rows 2 and 1 evicts row 0. -/
theorem served_bags_flat_newest :
    ∃ (bag bag' : MemTierEmbeddingBag) (output : MemTierEmbeddingBag.Output)
      (before after : Machine) (sums : List Nat),
      (bag.forward [2, 1] "sum").Evaluates
        (environment EmbeddingTable.threeHalves.bytes .atIssue AnyReply)
        before (bag', some output) after ∧
      launchEmbeddingBag .sums after.hbm
        (bagArgs .twoBytes [2, 1] 1 2 output.devicePtrs 0) 2 (threads (1, 1)) [0] = some (0, sums) ∧
      sums[0]? = some 18 := by
  obtain ⟨world, found, later⟩ := (Option.any_eq_true _ _).mp (show
    (session? EmbeddingTable.threeHalves.bytes .atIssue AnyReply LooksUp Sizes.twoBytes.config
      [(.lookup [0], List.replicate 5 (.take 2)), (.lookup [1], List.replicate 5 (.take 2))]).any
        (fun world => world.handle.hbmCache.slots.recency = [1, 0] ∧
          (Prog.evaluate? (environment EmbeddingTable.threeHalves.bytes .atIssue AnyReply)
            (List.replicate 5 (.take 2))
            ((MemTierEmbeddingBag.mk 1 world.handle).forward [2, 1] "sum") world.machine).any
              fun outcome => outcome.1.2.isSome) from by decide +kernel)
  obtain ⟨order, later⟩ := of_decide_eq_true later
  obtain ⟨reported, metered⟩ := Metered.of_session? found
  obtain ⟨⟨⟨bag', outcome⟩, machine⟩, evaluated, returned⟩ := (Option.any_eq_true _ _).mp later
  obtain ⟨output, rfl⟩ := Option.isSome_iff_exists.mp returned
  have evaluation := Prog.Evaluates.of_evaluate? evaluated
  have bags : KernelBags EmbeddingTable.threeHalves [2, 1] 1 2 :=
    ⟨rfl, by decide, by decide, by simp [EmbeddingTable.threeHalves]⟩
  have keeps : KeepsAsked Sizes.twoBytes.config.hbmCapacity world.handle.hbmCache.slots.recency []
      ((idsToBlocks (intIds [2, 1]) 1).map UInt64.ofNat) := by
    rw [order]
    decide
  obtain ⟨sums, launched, -, cells⟩ := served_bags_flat FloatOps.sums
    EmbeddingTable.threeHalves_kernel (.inl rfl) metered rfl bags evaluation keeps 0 (threads (1, 1)) [0] (.refl _) rfl
  refine ⟨_, bag', output, world.machine, machine, sums, evaluation, launched, ?_⟩
  exact (cells 0 (by decide) 0 (by decide)).trans rfl

end MemTier.Embedding
