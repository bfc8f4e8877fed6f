import Mathlib.Data.List.GetD
import MemTier.Embedding.BagKernel

/-!
# Blocked bags are flat bags

The kernels find every row through a list of blocks.  As long as every identifier has a block in the
list, and the blocks are laid out as `load_block` leaves them, the result is what accumulating rows
of the whole table would give.
-/

namespace MemTier.Embedding

open Containers

/-! ## Tables -/

/-- A table of rows of `dim` elements of `size` bytes each. -/
structure EmbeddingTable (dim size : Nat) where
  rows : List (List Bytes)
  dims : ∀ row ∈ rows, row.length = dim
  sizes : ∀ row ∈ rows, ∀ element ∈ row, element.length = size

namespace EmbeddingTable

variable {dim size : Nat} (table : EmbeddingTable dim size)

/-- The bytes of a row. -/
def rowBytes (row : Nat) : Bytes := (table.rows.getD row []).flatten

/-- The bytes of an element. -/
def element (row dim : Nat) : Bytes := (table.rows.getD row []).getD dim []

/-- The table, row after row. -/
def bytes : Bytes := (table.rows.map List.flatten).flatten

theorem length_flatten_row {row : List Bytes} (member : row ∈ table.rows) :
    row.flatten.length = dim * size := by
  have sizes : row.map List.length = List.replicate row.length size :=
    List.eq_replicate_iff.mpr ⟨List.length_map _, by
      simpa using table.sizes row member⟩
  rw [List.length_flatten, sizes, List.sum_replicate, table.dims row member, smul_eq_mul]

theorem slice_bytes {row : Nat} (inside : row < table.rows.length) :
    slice table.bytes (row * (dim * size)) (dim * size) = table.rowBytes row := by
  refine slice_flatten ?_ ?_
  · intro string member
    obtain ⟨row, listed, rfl⟩ := List.mem_map.mp member
    exact table.length_flatten_row listed
  · rw [List.getElem?_map, List.getElem?_eq_getElem inside, rowBytes,
      List.getD_eq_getElem _ _ inside]
    rfl

theorem slice_rowBytes {row column : Nat} (inside : row < table.rows.length)
    (within : column < dim) :
    slice (table.rowBytes row) (column * size) size = table.element row column := by
  have member := List.getElem_mem inside
  have short : column < table.rows[row].length := by rwa [table.dims _ member]
  rw [rowBytes, element, List.getD_eq_getElem _ _ inside, List.getD_eq_getElem _ _ short]
  exact slice_flatten (table.sizes _ member) (List.getElem?_eq_getElem short)

end EmbeddingTable

/-- At an address the rows of a block are laid out, as far as the table has them. -/
def HoldsRows {dim size : Nat} (table : EmbeddingTable dim size) (rowsPerBlock : Nat)
    (memory : Memory) (ptr block : Nat) : Prop :=
  ∀ row < rowsPerBlock, block * rowsPerBlock + row < table.rows.length →
    memory.read (ptr + row * (dim * size)) (dim * size) =
      table.rowBytes (block * rowsPerBlock + row)

instance {dim size : Nat} (table : EmbeddingTable dim size) (rowsPerBlock : Nat) (memory : Memory)
    (ptr block : Nat) : Decidable (HoldsRows table rowsPerBlock memory ptr block) :=
  inferInstanceAs (Decidable (∀ row < rowsPerBlock, _ → _))

/-- What a load of a block leaves behind. -/
theorem HoldsBlock.holdsRows {config : Config}
    {table : EmbeddingTable config.embeddingDim.toNat config.dtypeSize.toNat} {memory : Memory}
    {ptr : Nat} {block : BlockId} (small : table.bytes.length < 2 ^ 63)
    (holds : HoldsBlock config table.bytes memory ptr block) :
    HoldsRows table config.rowsPerBlock.toNat memory ptr block.toNat := by
  intro row inside listed
  obtain ⟨whole, data⟩ := holds
  have size : config.blockSizeBytes.toNat = config.exactBlockSize :=
    (whole.addressable small).size
  have exact_size : config.exactBlockSize =
      config.rowsPerBlock.toNat * (config.embeddingDim.toNat * config.dtypeSize.toNat) :=
    Nat.mul_assoc _ _ _
  have fits : row * (config.embeddingDim.toNat * config.dtypeSize.toNat) +
      config.embeddingDim.toNat * config.dtypeSize.toNat ≤ config.exactBlockSize := by
    rw [exact_size, ← Nat.succ_mul]
    exact Nat.mul_le_mul_right _ inside
  rw [size] at data
  rw [← Memory.slice_read fits, data, blockBytes, slice_slice fits, ← table.slice_bytes listed,
    exact_size, ← Nat.mul_assoc, ← Nat.add_mul]

/-! ## One thread -/

theorem toInt_eq {value : Nat} (small : value < 2 ^ 31) : toInt value = value :=
  Int.bmod_eq_of_le (by omega) (by omega)

theorem toUInt64_eq {value : Nat} (small : value < 2 ^ 64) : toUInt64 value = value := by
  rw [toUInt64]
  omega

/-- A block that is listed is found. -/
theorem findBlock_spec {blockId : UInt64} {blockIds : List UInt64} {numBlocks : Int}
    (length : blockIds.length = numBlocks) {i : Nat}
    (listed : ∃ k, i ≤ k ∧ blockIds[k]? = some blockId) :
    ∃ k : Nat, findBlock blockId blockIds numBlocks i = some (k : Int) ∧
      blockIds[k]? = some blockId := by
  fun_induction findBlock with
  | case1 i more induction =>
      obtain ⟨k, after, found⟩ := listed
      have inside : i < blockIds.length := by omega
      rw [List.getElem?_eq_getElem inside]
      simp only [Option.bind_eq_bind, Option.bind_some]
      split
      · rename_i here
        exact ⟨i, rfl, here ▸ List.getElem?_eq_getElem inside⟩
      · rename_i elsewhere
        refine induction ⟨k, ?_, found⟩
        rcases Nat.eq_or_lt_of_le after with rfl | later
        · rw [List.getElem?_eq_getElem inside] at found
          exact absurd (Option.some.inj found) elsewhere
        · exact later
  | case2 i done =>
      obtain ⟨k, after, found⟩ := listed
      have inside := (List.getElem?_eq_some_iff.mp found).1
      omega

/-- What the kernels rely on.  The numbers are positive and of type `int`, every identifier is a row
of the table and has its block in the list, and the blocks are laid out. -/
structure Prepared {dim size : Nat} (table : EmbeddingTable dim size) (memory : Memory)
    (batchSize bagSize rowsPerBlock : Nat) (args : BagArgs) : Prop where
  batchSize_eq : args.batchSize = batchSize
  batchSize_int : 0 < batchSize ∧ batchSize < 2 ^ 31
  bagSize_eq : args.bagSize = bagSize
  bagSize_int : 0 < bagSize ∧ bagSize < 2 ^ 31
  rowsPerBlock_eq : args.rowsPerBlock = rowsPerBlock
  rowsPerBlock_int : 0 < rowsPerBlock ∧ rowsPerBlock < 2 ^ 31
  embeddingDim_eq : args.embeddingDim = dim
  embeddingDim_int : 0 < dim ∧ dim ≤ 65535 * 128
  ids : args.ids.length = batchSize * bagSize
  blockIds : args.blockIds.length = args.numBlocks
  blockPtrs : args.blockPtrs.length = args.numBlocks
  rows : ∀ id ∈ args.ids, id.toNat < table.rows.length
  listed : ∀ id ∈ args.ids, ∃ block ∈ args.blockIds, block.toNat = id.toNat / rowsPerBlock
  holds : ∀ (k : Nat) block ptr, args.blockIds[k]? = some block → args.blockPtrs[k]? = some ptr →
    HoldsRows table rowsPerBlock memory ptr block.toNat

section

variable {float : Type} {ops : FloatOps float} {dim size : Nat} {table : EmbeddingTable dim size}
  {memory : Memory} {batchSize bagSize rowsPerBlock : Nat} {args : BagArgs}

/-- Where the element of an identifier is in the block that is found for it. -/
theorem Prepared.read_element (prepared : Prepared table memory batchSize bagSize rowsPerBlock args)
    {id : UInt64} (valid : id.toNat < table.rows.length) {ptr block column : Nat}
    (holds : HoldsRows table rowsPerBlock memory ptr block)
    (same : block = id.toNat / rowsPerBlock) (within : column < dim) :
    memory.read (ptr + (id.toNat % rowsPerBlock * dim + column) * size) size =
      table.element id.toNat column := by
  have split : block * rowsPerBlock + id.toNat % rowsPerBlock = id.toNat := by
    rw [same]
    exact Nat.div_add_mod' _ _
  have inside := Nat.mod_lt id.toNat prepared.rowsPerBlock_int.1
  have row := holds (id.toNat % rowsPerBlock) inside (split.symm ▸ valid)
  have fits : column * size + size ≤ dim * size := by
    rw [← Nat.succ_mul]
    exact Nat.mul_le_mul_right _ within
  rw [split] at row
  rw [← table.slice_rowBytes valid within, ← row, Memory.slice_read fits, Nat.add_mul,
    Nat.mul_assoc, Nat.add_assoc]

/-- One round accumulates one element of the table. -/
theorem Prepared.bagRound_eq (prepared : Prepared table memory batchSize bagSize rowsPerBlock args)
    (load : Bytes → float) {bag column j : Nat} (bag_lt : bag < batchSize) (within : column < dim)
    (j_lt : j < bagSize) (acc : float) :
    bagRound ops size load memory args bag column acc j = some (ops.add acc
      (load (table.element (args.ids.getD (bag * bagSize + j) 0).toNat column))) := by
  obtain ⟨bag_pos, bag_int⟩ := prepared.bagSize_int
  obtain ⟨rows_pos, rows_int⟩ := prepared.rowsPerBlock_int
  have position : bag * bagSize + j < batchSize * bagSize := by
    have next : bag * bagSize + bagSize ≤ batchSize * bagSize := by
      rw [← Nat.succ_mul]
      exact Nat.mul_le_mul_right _ bag_lt
    omega
  have total : batchSize * bagSize < 2 ^ 64 := by
    have product := Nat.mul_lt_mul'' prepared.batchSize_int.2 bag_int
    omega
  have index : toUInt64 ((bag : Int) * args.bagSize + j) = bag * bagSize + j := by
    rw [prepared.bagSize_eq, ← toUInt64_eq (show bag * bagSize + j < 2 ^ 64 by omega)]
    push_cast
    rfl
  have inside : bag * bagSize + j < args.ids.length := prepared.ids ▸ position
  have member := List.getElem_mem inside
  have rows : (UInt64.ofNat (toUInt64 args.rowsPerBlock)).toNat = rowsPerBlock := by
    rw [prepared.rowsPerBlock_eq, toUInt64_eq (by omega), UInt64.toNat_ofNat_of_lt' (by
      change rowsPerBlock < 2 ^ 64
      omega)]
  rw [bagRound, index, List.getElem?_eq_getElem inside, List.getD_eq_getElem _ _ inside]
  generalize args.ids[bag * bagSize + j] = id at member
  obtain ⟨block, block_mem, block_eq⟩ := prepared.listed id member
  have same : block = id / UInt64.ofNat (toUInt64 args.rowsPerBlock) := by
    rw [← UInt64.toNat_inj, UInt64.toNat_div, rows, block_eq]
  obtain ⟨first, listed⟩ := List.getElem?_of_mem block_mem
  obtain ⟨k, found, at_k⟩ := findBlock_spec prepared.blockIds ⟨first, Nat.zero_le _, same ▸ listed⟩
  have k_lt : k < args.blockPtrs.length := by
    have inside := (List.getElem?_eq_some_iff.mp at_k).1
    have lengths := prepared.blockIds.trans prepared.blockPtrs.symm
    omega
  have row : toInt (id % UInt64.ofNat (toUInt64 args.rowsPerBlock)).toNat =
      (id.toNat % rowsPerBlock : Nat) := by
    have less := Nat.mod_lt id.toNat rows_pos
    rw [UInt64.toNat_mod, rows, toInt_eq (by omega)]
  have element : toUInt64 ((id.toNat % rowsPerBlock : Nat) * args.embeddingDim + column) =
      id.toNat % rowsPerBlock * dim + column := by
    have bound : (id.toNat % rowsPerBlock + 1) * dim ≤ 2 ^ 31 * (65535 * 128) :=
      Nat.mul_le_mul ((Nat.mod_lt _ rows_pos).trans rows_int) prepared.embeddingDim_int.2
    rw [Nat.succ_mul] at bound
    rw [prepared.embeddingDim_eq,
      ← toUInt64_eq (show id.toNat % rowsPerBlock * dim + column < 2 ^ 64 by omega)]
    push_cast
    rfl
  have read := prepared.read_element (prepared.rows id member)
    (prepared.holds k _ _ at_k (List.getElem?_eq_getElem k_lt))
    (by rw [UInt64.toNat_div, rows]) within
  simp only [Option.bind_eq_bind, Option.bind_some, found, Int.natCast_nonneg, if_true, row,
    Int.toNat_natCast, List.getElem?_eq_getElem k_lt, element, read]
  rfl

/-- The sum over a bag, row by row from the whole table. -/
def flatBag (ops : FloatOps float) (load : Bytes → float) (table : EmbeddingTable dim size)
    (ids : List UInt64) (bagSize bag column : Nat) : float :=
  (List.range bagSize).foldl (fun acc j =>
    ops.add acc (load (table.element (ids.getD (bag * bagSize + j) 0).toNat column))) ops.zero

/-- A bag, accumulated by a thread. -/
theorem Prepared.bagLoop_eq (prepared : Prepared table memory batchSize bagSize rowsPerBlock args)
    (load : Bytes → float) {bag column : Nat} (bag_lt : bag < batchSize) (within : column < dim) :
    (List.range bagSize).foldlM (bagRound ops size load memory args bag column) ops.zero =
      some (flatBag ops load table args.ids bagSize bag column) := by
  rw [flatBag]
  have rounds : ∀ j ∈ List.range bagSize, ∀ acc,
      bagRound ops size load memory args bag column acc j = some (ops.add acc
        (load (table.element (args.ids.getD (bag * bagSize + j) 0).toNat column))) :=
    fun j member acc => prepared.bagRound_eq load bag_lt within (List.mem_range.mp member) acc
  generalize List.range bagSize = js at rounds ⊢
  generalize ops.zero = acc
  induction js generalizing acc with
  | nil => rfl
  | cons j js induction =>
      rw [List.forall_mem_cons] at rounds
      rw [List.foldlM_cons, rounds.1, List.foldl_cons]
      exact induction rounds.2 _

/-! ## The grid -/

theorem Prepared.grid_eq (prepared : Prepared table memory batchSize bagSize rowsPerBlock args) :
    grid args = (batchSize, (dim + 127) / 128) ∧ AcceptsGrid (grid args) := by
  obtain ⟨batch_pos, batch_int⟩ := prepared.batchSize_int
  obtain ⟨dim_pos, dim_le⟩ := prepared.embeddingDim_int
  have blocks : ((dim : Int) + kThreads - 1).tdiv kThreads = ((dim + 127) / 128 : Nat) := by
    rw [kThreads, Int.tdiv_eq_ediv_of_nonneg (by omega)]
    push_cast
    omega
  have sizes : grid args = (batchSize, (dim + 127) / 128) := by
    rw [grid, prepared.batchSize_eq, prepared.embeddingDim_eq, blocks]
    simp only [Prod.mk.injEq]
    omega
  rw [sizes]
  refine ⟨rfl, ⟨batch_pos, batch_int⟩, ?_⟩
  dsimp only
  omega

theorem mem_threads {sizes : Nat × Nat} {thread : Thread} :
    thread ∈ threads sizes ↔
      thread.blockX < sizes.1 ∧ thread.blockY < sizes.2 ∧ thread.threadX < kThreads := by
  simp only [threads, List.mem_flatMap, List.mem_map, List.mem_range]
  constructor
  · rintro ⟨blockX, less, blockY, less', threadX, less'', rfl⟩
    exact ⟨less, less', less''⟩
  · rintro ⟨less, less', less''⟩
    exact ⟨_, less, _, less', _, less'', rfl⟩

theorem threads_nodup (sizes : Nat × Nat) : (threads sizes).Nodup := by
  have pairs : ∀ blockX, ((List.range sizes.2).flatMap fun blockY =>
      (List.range kThreads).map fun threadX =>
        ({ blockX, blockY, threadX } : Thread)).Nodup := by
    intro blockX
    refine List.nodup_flatMap.mpr ⟨fun blockY _ => ?_, ?_⟩
    · exact List.nodup_range.map fun _ _ same => (Thread.mk.inj same).2.2
    · apply List.nodup_range.imp
      intro first second different thread member member'
      obtain ⟨_, -, rfl⟩ := List.mem_map.mp member
      obtain ⟨_, -, same⟩ := List.mem_map.mp member'
      exact different (Thread.mk.inj same).2.1.symm
  refine List.nodup_flatMap.mpr ⟨fun blockX _ => pairs blockX, ?_⟩
  apply List.nodup_range.imp
  intro first second different thread member member'
  obtain ⟨_, -, inner⟩ := List.mem_flatMap.mp member
  obtain ⟨_, -, inner'⟩ := List.mem_flatMap.mp member'
  obtain ⟨_, -, rfl⟩ := List.mem_map.mp inner
  obtain ⟨_, -, same⟩ := List.mem_map.mp inner'
  exact different (Thread.mk.inj same).1.symm

/-- The bag and the dimension of a thread. -/
theorem Prepared.thread_eq (prepared : Prepared table memory batchSize bagSize rowsPerBlock args)
    {thread : Thread} (member : thread ∈ threads (grid args)) :
    thread.blockX < batchSize ∧ thread.bag = thread.blockX ∧
      thread.dim = (thread.blockY * 128 + thread.threadX : Nat) := by
  obtain ⟨batch_pos, batch_int⟩ := prepared.batchSize_int
  obtain ⟨dim_pos, dim_le⟩ := prepared.embeddingDim_int
  rw [mem_threads, prepared.grid_eq.1, kThreads] at member
  obtain ⟨blockX, blockY, threadX⟩ := thread
  obtain ⟨less, less', less''⟩ := member
  dsimp only at less less' less'' ⊢
  have small : threadX + blockY * 128 < 2 ^ 31 := by omega
  refine ⟨less, toInt_eq (show blockX < 2 ^ 31 by omega), ?_⟩
  rw [Thread.dim, kThreads]
  dsimp only
  rw [Nat.mod_eq_of_lt (by omega), toInt_eq small, Nat.add_comm]

/-- Every dimension of every bag has a thread of its own. -/
theorem Prepared.existsUnique_thread
    (prepared : Prepared table memory batchSize bagSize rowsPerBlock args) {bag column : Nat}
    (bag_lt : bag < batchSize) (within : column < dim) :
    ∃! thread, thread ∈ threads (grid args) ∧ thread.bag = bag ∧ thread.dim = column := by
  have member : { blockX := bag, blockY := column / 128, threadX := column % 128 } ∈
      threads (grid args) := by
    rw [mem_threads, prepared.grid_eq.1, kThreads]
    dsimp only
    omega
  refine ⟨_, ⟨member, ?_, ?_⟩, ?_⟩
  · exact (prepared.thread_eq member).2.1
  · rw [(prepared.thread_eq member).2.2]
    dsimp only
    omega
  · rintro ⟨blockX, blockY, threadX⟩ ⟨other, same_bag, same_dim⟩
    obtain ⟨-, bag_eq, dim_eq⟩ := prepared.thread_eq other
    have threadX_lt := (mem_threads.mp other).2.2
    rw [bag_eq] at same_bag
    rw [dim_eq] at same_dim
    rw [Thread.mk.injEq]
    dsimp only [kThreads] at *
    omega

/-! ## The launch -/

/-- What a thread stores. -/
def stores (ops : FloatOps float) (load : Bytes → float) (table : EmbeddingTable dim size)
    (args : BagArgs) (bagSize : Nat) (thread : Thread) : Option (Nat × float) :=
  let column := thread.blockY * 128 + thread.threadX
  if dim ≤ column then none
  else some (thread.blockX * dim + column,
    finish ops args (flatBag ops load table args.ids bagSize thread.blockX column))

theorem Prepared.kernel_eq (prepared : Prepared table memory batchSize bagSize rowsPerBlock args)
    (load : Bytes → float) {thread : Thread} (member : thread ∈ threads (grid args)) :
    embeddingBagKernel ops size load memory args thread =
      some (stores ops load table args bagSize thread) := by
  obtain ⟨bag_lt, bag_eq, dim_eq⟩ := prepared.thread_eq member
  have rounds : args.bagSize.toNat = bagSize := by rw [prepared.bagSize_eq, Int.toNat_natCast]
  rw [embeddingBagKernel, bag_eq, dim_eq, prepared.batchSize_eq, prepared.embeddingDim_eq, stores,
    rounds]
  generalize thread.blockY * 128 + thread.threadX = column
  by_cases within : column < dim
  · have cell : thread.blockX * dim + column < 2 ^ 64 := by
      have bound : (thread.blockX + 1) * dim ≤ 2 ^ 31 * (65535 * 128) :=
        Nat.mul_le_mul (bag_lt.trans prepared.batchSize_int.2) prepared.embeddingDim_int.2
      rw [Nat.succ_mul] at bound
      omega
    have index : toUInt64 ((thread.blockX : Int) * dim + column) = thread.blockX * dim + column := by
      rw [← toUInt64_eq cell]
      push_cast
      rfl
    rw [if_neg (by omega), if_neg (by omega), prepared.bagLoop_eq load bag_lt within, index]
    rfl
  · rw [if_pos (by omega), if_pos (by omega)]
    rfl

/-- Cells of different bags or dimensions are different. -/
theorem cell_injective {bag other column column' : Nat} (within : column < dim)
    (within' : column' < dim) (same : bag * dim + column = other * dim + column') :
    bag = other ∧ column = column' := by
  have positive : 0 < dim := by omega
  have quotient : ∀ bag column, column < dim → (bag * dim + column) / dim = bag := by
    intro bag column within
    rw [Nat.add_comm, Nat.add_mul_div_right _ _ positive, Nat.div_eq_of_lt within, Nat.zero_add]
  have bags : (bag * dim + column) / dim = (other * dim + column') / dim := by rw [same]
  rw [quotient _ _ within, quotient _ _ within'] at bags
  subst bags
  exact ⟨rfl, Nat.add_left_cancel same⟩

/-- All threads together, in any order. -/
theorem Prepared.run_eq (prepared : Prepared table memory batchSize bagSize rowsPerBlock args)
    (load : Bytes → float) {order : List Thread} (perm : order.Perm (threads (grid args)))
    {output : List float} (length : output.length = batchSize * dim) :
    ∃ after, Scatter.run (embeddingBagKernel ops size load memory args) order output = some after ∧
      after.length = output.length ∧ ∀ bag < batchSize, ∀ column < dim,
        after[bag * dim + column]? =
          some (finish ops args (flatBag ops load table args.ids bagSize bag column)) := by
  have cells : ∀ thread store, store ∈ stores ops load table args bagSize thread →
      thread.blockY * 128 + thread.threadX < dim ∧
        store.1 = thread.blockX * dim + (thread.blockY * 128 + thread.threadX) := by
    intro thread store stored
    rw [stores] at stored
    split at stored
    · simp at stored
    · obtain rfl := Option.some.inj stored
      exact ⟨by omega, rfl⟩
  have distinct : order.Pairwise fun thread other =>
      ∀ store ∈ stores ops load table args bagSize thread,
        ∀ store' ∈ stores ops load table args bagSize other, store.1 ≠ store'.1 := by
    refine (perm.nodup_iff.mpr (threads_nodup _)).pairwise_of_forall_ne ?_
    intro thread member other member' different store stored store' stored' same
    obtain ⟨within, cell⟩ := cells thread store stored
    obtain ⟨within', cell'⟩ := cells other store' stored'
    obtain ⟨same_bag, same_column⟩ := cell_injective within within' (cell ▸ cell' ▸ same)
    have threadX_lt := (mem_threads.mp (perm.mem_iff.mp member)).2.2
    have threadX_lt' := (mem_threads.mp (perm.mem_iff.mp member')).2.2
    rw [kThreads] at threadX_lt threadX_lt'
    exact different (Thread.ext same_bag (by omega) (by omega))
  have inside : ∀ thread ∈ order, ∀ store ∈ stores ops load table args bagSize thread,
      store.1 < output.length := by
    intro thread member store stored
    obtain ⟨within, cell⟩ := cells thread store stored
    have bag_lt := (prepared.thread_eq (perm.mem_iff.mp member)).1
    have bound : (thread.blockX + 1) * dim ≤ batchSize * dim := Nat.mul_le_mul_right _ bag_lt
    rw [Nat.succ_mul] at bound
    omega
  have computes : ∀ thread ∈ order, embeddingBagKernel ops size load memory args thread =
      some (stores ops load table args bagSize thread) :=
    fun thread member => prepared.kernel_eq load (perm.mem_iff.mp member)
  obtain ⟨after, ran, same_length, kept, -⟩ := Scatter.run_distinct computes distinct inside
  refine ⟨after, ran, same_length, fun bag bag_lt column within => ?_⟩
  obtain ⟨thread, ⟨member, same_bag, same_dim⟩, -⟩ :=
    prepared.existsUnique_thread bag_lt within
  obtain ⟨-, bag_eq, dim_eq⟩ := prepared.thread_eq member
  have blockX : thread.blockX = bag := by omega
  have dims : thread.blockY * 128 + thread.threadX = column := by omega
  refine kept thread (perm.mem_iff.mpr member) (bag * dim + column, _) ?_
  rw [stores, blockX, dims, if_neg (by omega)]
  rfl

end

/-- The size of an element in the kernel that a launch selects. -/
def elementSize (dtypeSize : Int) : Nat := if dtypeSize = 2 then 2 else 4

/-- How that kernel reads an element. -/
def loadElement {float : Type} (ops : FloatOps float) (dtypeSize : Int) : Bytes → float :=
  if dtypeSize = 2 then ops.half2float else ops.ofBytes

/-- A blocked bag equals the flat one.  A launch gives every dimension of every bag to exactly one
of its threads, and in whatever order they run, every cell of the output is the sum, or the mean,
of the elements of the table that the identifiers of its bag name, accumulated in their order. -/
theorem blocked_bag_is_flat {float : Type} (ops : FloatOps float) (dtypeSize : Int) {dim : Nat}
    (table : EmbeddingTable dim (elementSize dtypeSize)) (memory : Memory)
    (batchSize bagSize rowsPerBlock : Nat) (args : BagArgs)
    (prepared : Prepared table memory batchSize bagSize rowsPerBlock args) (order : List Thread)
    (perm : order.Perm (threads (grid args))) (output : List float)
    (length : output.length = batchSize * dim) :
    order.Nodup ∧
      (∀ bag < batchSize, ∀ column < dim,
        ∃! thread, thread ∈ order ∧ thread.bag = bag ∧ thread.dim = column) ∧
      ∃ after, launchEmbeddingBag ops memory args dtypeSize order output = some (0, after) ∧
        after.length = output.length ∧ ∀ bag < batchSize, ∀ column < dim,
          after[bag * dim + column]? = some (finish ops args
            (flatBag ops (loadElement ops dtypeSize) table args.ids bagSize bag column)) := by
  refine ⟨perm.nodup_iff.mpr (threads_nodup _), fun bag bag_lt column within => ?_, ?_⟩
  · simp only [perm.mem_iff]
    exact prepared.existsUnique_thread bag_lt within
  · obtain ⟨after, ran, same_length, cells⟩ :=
      (prepared.run_eq (loadElement ops dtypeSize) perm length : ∃ after, Scatter.run
        (embeddingBagKernel ops (elementSize dtypeSize) (loadElement ops dtypeSize) memory args)
        order output = some after ∧ _)
    have kernel : (if dtypeSize = 2 then embeddingBagFp16Kernel ops memory args
        else embeddingBagFp32Kernel ops memory args) =
          embeddingBagKernel ops (elementSize dtypeSize) (loadElement ops dtypeSize) memory args := by
      rw [elementSize, loadElement]
      split <;> rfl
    refine ⟨after, ?_, same_length, cells⟩
    rw [launchEmbeddingBag, if_pos prepared.grid_eq.2, kernel]
    dsimp only
    rw [ran]
    rfl

/-- Sums of bytes, for numbers. -/
def FloatOps.sums : FloatOps Nat where
  zero := 0
  add := (· + ·)
  div := (· / ·)
  ofInt := Int.toNat
  ofBytes bytes := (bytes.map UInt8.toNat).sum
  half2float bytes := (bytes.map UInt8.toNat).sum

/-- Two rows of one half each, in blocks of one row that lie in reverse order. -/
theorem blocked_bag_is_flat_reversed :
    ∃ after, launchEmbeddingBag .sums (Memory.write (fun _ => 0) 0 [3, 4, 1, 2])
      { ids := [1, 0], batchSize := 1, bagSize := 2, blockPtrs := [0, 2], blockIds := [1, 0],
        numBlocks := 2, rowsPerBlock := 1, embeddingDim := 1, meanMode := 1 }
      2 (threads (1, 1)) [0] = some (0, after) ∧ after[0]? = some 5 := by
  let table : EmbeddingTable 1 (elementSize 2) :=
    { rows := [[[1, 2]], [[3, 4]]], dims := by decide, sizes := by decide }
  let args : BagArgs :=
    { ids := [1, 0], batchSize := 1, bagSize := 2, blockPtrs := [0, 2], blockIds := [1, 0],
      numBlocks := 2, rowsPerBlock := 1, embeddingDim := 1, meanMode := 1 }
  have prepared : Prepared table (Memory.write (fun _ => 0) 0 [3, 4, 1, 2]) 1 2 1 args := by
    constructor
    case holds =>
      rintro (_ | _ | k) block ptr ⟨⟩ ⟨⟩
      · decide
      · decide
    case rows => rintro _ (_ | ⟨_, _ | ⟨_, ⟨⟩⟩⟩) <;> decide
    case listed =>
      rintro _ (_ | ⟨_, _ | ⟨_, ⟨⟩⟩⟩)
      · exact ⟨1, by decide, by decide⟩
      · exact ⟨0, by decide, by decide⟩
    all_goals decide
  obtain ⟨-, -, after, launched, -, cells⟩ := blocked_bag_is_flat .sums 2 table _ 1 2 1 args prepared
    (threads (1, 1)) (by rw [prepared.grid_eq.1]) [0] rfl
  refine ⟨after, launched, (cells 0 (by decide) 0 (by decide)).trans ?_⟩
  decide

end MemTier.Embedding
