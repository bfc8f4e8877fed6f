import MemTier.Trace.RoundTrip

/-!
# The block view of a trace

A trace may hold ids, the blocks they lie in, or both.  The reader counts batches by the ids, and
where blocks are stored it hands them out in the granularity they were stored with.
-/

namespace MemTier.Trace

open Containers

/-- The blocks of some ids: each once, in increasing order. -/
structure BlocksOf (rows : Nat) (ids blocks : List Nat) : Prop where
  increasing : blocks.Pairwise (· < ·)
  mem_iff : ∀ block, block ∈ blocks ↔ ∃ id ∈ ids, id / rows = block

/-- Two granularities put some ids into blocks of the same numbers. -/
def SameBlocks (rows rows' : Nat) (ids : List Nat) : Prop :=
  ∀ block, (∃ id ∈ ids, id / rows = block) ↔ ∃ id ∈ ids, id / rows' = block

/-- The rows of a batch. -/
def batchRows (ids : NdArray Nat) (batchSize position : Nat) : List Nat :=
  ids.rows (position * batchSize) (min ids.samples (position * batchSize + batchSize))

/-- One array for each batch, in order; where the stored data determines them, the blocks of the
ids of the batch. -/
def BlockView (archive : Archive) (rows : Nat) (ids : NdArray Nat) (batchSize : Nat)
    (determined : Prop) : Prop :=
  ∃ trace batches, EmbeddingTrace.init (.npz archive) (some rows) = .ok trace ∧
    trace.iterBlockBatches = .ok batches ∧
      batches.length = NdArray.runs ids.samples batchSize ∧
        (determined → ∀ position blocks, batches[position]? = some blocks →
          BlocksOf rows (batchRows ids batchSize position) blocks)

theorem blocksOf_unique_iff {rows rows' : Nat} {ids : List Nat} :
    BlocksOf rows' ids (Arrays.unique (ids.map (· / rows))) ↔ SameBlocks rows rows' ids := by
  constructor
  · intro view block
    rw [← view.mem_iff, Arrays.mem_unique, List.mem_map]
  · intro same
    refine ⟨Arrays.unique_increasing _, fun block => ?_⟩
    rw [Arrays.mem_unique, List.mem_map]
    exact same block

/-! ## Single batches -/

section

variable {trace : EmbeddingTrace} {batchSize bagSize samples width position : Nat}
  {ids : NdArray Nat}

/-- Blocks that are not stored are worked out from the ids. -/
theorem getBatchBlockIds_of_ids {rows : Nat} {batch : List Nat} (absent : trace.blockIds = none)
    (asked : trace.rowsPerBlock = some rows) (positive : 0 < rows)
    (read : trace.getBatchIds position = .ok batch) :
    trace.getBatchBlockIds position =
      if rows < 2 ^ 64 then .ok (Arrays.unique (batch.map (· / rows)))
      else .error .overflowError := by
  have truthy : EmbeddingTrace.truthy (some rows) = true := by
    simp [EmbeddingTrace.truthy, Nat.pos_iff_ne_zero.mp positive]
  rw [EmbeddingTrace.getBatchBlockIds, absent]
  by_cases fits : rows < 2 ^ 64
  · have cast : uint64 rows = .ok rows := if_pos fits
    rw [if_pos fits]
    simp [truthy, asked, read, cast, bind, Except.bind, pure, Except.pure]
  · have refused : uint64 rows = .error .overflowError := if_neg fits
    rw [if_neg fits]
    simp [truthy, asked, read, refused, bind, Except.bind]

/-- Blocks that are stored are handed out. -/
theorem getBatchBlockIds_of_blocks {blockIds : NdArray Nat} {batch : List Nat}
    (held : trace.blockIds = some blockIds)
    (cut : trace.batchFromArray blockIds position = .ok batch)
    (bounded : ∀ block ∈ batch, block < 2 ^ 64) :
    trace.getBatchBlockIds position = .ok (Arrays.unique batch) := by
  have plain : astype .uint64 batch = batch := by
    rw [astype]
    exact (List.map_congr_left fun id member => Nat.mod_eq_of_lt (bounded id member)).trans
      (List.map_id batch)
  rw [EmbeddingTrace.getBatchBlockIds, held]
  simp [bind, Except.bind, pure, Except.pure, cut, plain]

/-- Without ids no batch is counted. -/
theorem iterBlockBatches_of_no_ids (stored : BySamples trace batchSize bagSize)
    (absent : trace.ids = none) : trace.iterBlockBatches = .ok [] := by
  have counted : trace.numBatches = .ok 0 := by
    rw [EmbeddingTrace.numBatches, stored.jsonlRows, absent]
  rw [EmbeddingTrace.iterBlockBatches, counted]
  rfl

theorem mem_of_mem_batchRows {id : Nat} (member : id ∈ batchRows ids batchSize position) :
    id ∈ ids.data :=
  List.mem_of_mem_take (List.mem_of_mem_drop member)

/-- A batch of ids is a run of rows. -/
theorem getBatchIds_of_match (stored : BySamples trace batchSize bagSize)
    (held : trace.ids = some ids) (shape : ids.shape = [samples, bagSize])
    (bounded : ∀ id ∈ ids.data, id < 2 ^ 64) (positive : 0 < batchSize)
    (inside : position < NdArray.runs ids.samples batchSize) :
    trace.getBatchIds position = .ok (batchRows ids batchSize position) := by
  have extent : ids.samples = samples := by rw [NdArray.samples, shape, List.headD_cons]
  have counted := stored.numBatches held shape
  have cut := @BySamples.batchFromArray_of_match trace batchSize bagSize samples bagSize position
    ids stored shape rfl positive
  rw [if_neg (Nat.pos_iff_ne_zero.mp positive), ← extent] at counted
  rw [← extent] at cut
  exact stored.getBatchIds held counted inside cut fun id member =>
    bounded id (mem_of_mem_batchRows member)

/-- Blocks that are stored with the ids. -/
theorem iterBlockBatches_of_blocks {rows : Nat} {f : Nat → Nat}
    (stored : BySamples trace batchSize bagSize) (held : trace.ids = some ids)
    (blocks : trace.blockIds = some (ids.map f)) (shape : ids.shape = [samples, bagSize])
    (bounded : ∀ id ∈ ids.data, id < 2 ^ 64) (divided : ∀ id ∈ ids.data, f id = id / rows)
    (positive : 0 < batchSize) :
    trace.iterBlockBatches = .ok ((List.range (NdArray.runs ids.samples batchSize)).map
      fun position => Arrays.unique ((batchRows ids batchSize position).map (· / rows))) := by
  have extent : ids.samples = samples := by rw [NdArray.samples, shape, List.headD_cons]
  have counted := stored.numBatches held shape
  rw [if_neg (Nat.pos_iff_ne_zero.mp positive)] at counted
  rw [EmbeddingTrace.iterBlockBatches, counted, extent]
  refine mapM_eq_ok_of_forall fun position _ => ?_
  have cut := @BySamples.batchFromArray_of_match trace batchSize bagSize samples bagSize position
    (ids.map f) stored shape rfl positive
  rw [NdArray.rows_map, ← extent] at cut
  have same : (batchRows ids batchSize position).map f =
      (batchRows ids batchSize position).map (· / rows) :=
    List.map_congr_left fun id member => divided id (mem_of_mem_batchRows member)
  rw [getBatchBlockIds_of_blocks blocks cut, ← same, batchRows]
  intro block member
  obtain ⟨id, listed, rfl⟩ := List.mem_map.mp member
  have listed := mem_of_mem_batchRows listed
  rw [divided id listed]
  exact (Nat.div_le_self _ _).trans_lt (bounded id listed)

/-- Blocks that are worked out from the ids. -/
theorem iterBlockBatches_of_ids {rows : Nat} (stored : BySamples trace batchSize bagSize)
    (held : trace.ids = some ids) (absent : trace.blockIds = none)
    (asked : trace.rowsPerBlock = some rows) (granular : 0 < rows)
    (shape : ids.shape = [samples, bagSize]) (bounded : ∀ id ∈ ids.data, id < 2 ^ 64)
    (positive : 0 < batchSize) (some_run : 0 < NdArray.runs ids.samples batchSize)
    {batches : List (List Nat)} :
    trace.iterBlockBatches = .ok batches ↔ rows < 2 ^ 64 ∧
      batches = (List.range (NdArray.runs ids.samples batchSize)).map fun position =>
        Arrays.unique ((batchRows ids batchSize position).map (· / rows)) := by
  have extent : ids.samples = samples := by rw [NdArray.samples, shape, List.headD_cons]
  have counted := stored.numBatches held shape
  rw [if_neg (Nat.pos_iff_ne_zero.mp positive), ← extent] at counted
  have round : ∀ position < NdArray.runs ids.samples batchSize,
      trace.getBatchBlockIds position =
        if rows < 2 ^ 64 then
          .ok (Arrays.unique ((batchRows ids batchSize position).map (· / rows)))
        else .error .overflowError := fun position inside =>
    getBatchBlockIds_of_ids absent asked granular
      (getBatchIds_of_match stored held shape bounded positive inside)
  by_cases fits : rows < 2 ^ 64
  · have view : trace.iterBlockBatches = .ok ((List.range (NdArray.runs ids.samples batchSize)).map
        fun position => Arrays.unique ((batchRows ids batchSize position).map (· / rows))) := by
      rw [EmbeddingTrace.iterBlockBatches, counted]
      refine mapM_eq_ok_of_forall fun position inside => ?_
      rw [round position (List.mem_range.mp inside), if_pos fits]
    rw [view, and_iff_right fits, Except.ok.injEq, eq_comm]
  · refine iff_of_false (fun iterated => ?_) fun agreed => fits agreed.1
    rw [EmbeddingTrace.iterBlockBatches, counted] at iterated
    obtain ⟨blocks, first⟩ := ok_of_mapM_eq_ok iterated (List.mem_range.mpr some_run)
    rw [round 0 some_run, if_neg fits] at first
    simp at first

/-- The block view of a trace whose blocks are the ids divided by a number. -/
theorem blockView_of_unique {archive : Archive} {rows rows' : Nat} {determined : Prop}
    (opened : EmbeddingTrace.init (.npz archive) (some rows') = .ok trace)
    (certain : determined)
    (view : trace.iterBlockBatches = .ok ((List.range (NdArray.runs ids.samples batchSize)).map
      fun position => Arrays.unique ((batchRows ids batchSize position).map (· / rows)))) :
    BlockView archive rows' ids batchSize determined ↔
      ∀ position < NdArray.runs ids.samples batchSize,
        SameBlocks rows rows' (batchRows ids batchSize position) := by
  constructor
  · rintro ⟨trace', batches, opened', iterated, -, blocks⟩ position inside
    obtain rfl := Except.ok.inj (opened.symm.trans opened')
    obtain rfl := Except.ok.inj (view.symm.trans iterated)
    refine blocksOf_unique_iff.mp (blocks certain position _ ?_)
    rw [List.getElem?_map, List.getElem?_range inside, Option.map_some]
  · intro same
    refine ⟨trace, _, opened, view, by simp, fun _ position blocks found => ?_⟩
    obtain ⟨position', here, rfl⟩ := Option.map_eq_some_iff.mp (List.getElem?_map.symm.trans found)
    obtain ⟨inside, rfl⟩ := List.getElem?_eq_some_iff.mp here
    rw [List.length_range] at inside
    rw [List.getElem_range]
    exact blocksOf_unique_iff.mpr (same position inside)

end

/-- When the block view agrees with the ids.  Ids have to be stored; where blocks are stored as
well, their granularity and that of the reader have to give the same blocks in every batch, and
where they are not, that of the reader has to fit 64 bits. -/
theorem block_view_iff (libraries : Libraries) (workspace : Workspace) (args : PreprocessArgs)
    (processed : Processed) (archive : Archive) (square : args.bagSize = args.numFields)
    (_saved : args.saveIds = true ∨ args.saveBlocks = true) (positive : 1 ≤ args.batchSize)
    (_granular : 1 ≤ args.rowsPerBlock) (rows : Nat) (granular : 1 ≤ rows)
    (built : processRows libraries workspace args = .ok processed)
    (written : preprocess libraries workspace args = .ok archive) :
    BlockView archive rows processed.ids args.batchSize
        (args.saveIds = true ∨ args.saveBlocks = true ∧ rows = args.rowsPerBlock) ↔
      args.saveIds = true ∧
        if args.saveBlocks then
          ∀ position < NdArray.runs processed.ids.samples args.batchSize,
            SameBlocks args.rowsPerBlock rows (batchRows processed.ids args.batchSize position)
        else rows < 2 ^ 64 := by
  obtain ⟨processed', built', -, ranked, rfl⟩ := preprocess_eq_ok written
  obtain rfl := Except.ok.inj (built.symm.trans built')
  obtain ⟨⟨samples, nonempty, shape⟩, bounded⟩ := processRows_shape built
  have width : args.width = args.bagSize := by
    rw [PreprocessArgs.width, ← square, Nat.min_self, ite_self]
  rw [width] at shape
  have extent : processed.ids.samples = samples := by
    rw [NdArray.samples, shape, List.headD_cons]
  have wide : 0 < args.bagSize := by
    simpa [NdArray.stride, shape, Nat.pos_iff_ne_zero] using ranked
  have small : 2 ^ args.dtype.bits ≤ 2 ^ 64 := by
    cases args.dtype <;> decide
  have bounded' : ∀ id ∈ processed.ids.data, id < 2 ^ 64 := fun id member =>
    (bounded id member).trans_le small
  have some_run : 0 < NdArray.runs processed.ids.samples args.batchSize := by
    have covered := @NdArray.le_runs_mul processed.ids.samples args.batchSize positive
    exact Nat.pos_of_mul_pos_right ((extent ▸ nonempty).trans_le covered)
  obtain ⟨trace, opened, stored, asked, ids_eq, blocks_eq⟩ :=
    processed.opened args (some rows) wide
  have asked := asked rows rfl
  cases ids_saved : args.saveIds with
  | false =>
      rw [ids_saved, if_neg Bool.false_ne_true] at ids_eq
      refine iff_of_false ?_ (by simp)
      rintro ⟨trace', batches, opened', iterated, counted, -⟩
      obtain rfl := Except.ok.inj (opened.symm.trans opened')
      rw [iterBlockBatches_of_no_ids stored ids_eq] at iterated
      obtain rfl := Except.ok.inj iterated
      exact absurd counted some_run.ne
  | true =>
      rw [ids_saved, if_pos rfl] at ids_eq
      rw [and_iff_right rfl]
      cases blocks_saved : args.saveBlocks with
      | true =>
          rw [Processed.archive, blocks_saved, if_pos rfl] at blocks_eq
          rw [if_pos rfl]
          refine blockView_of_unique opened (.inl rfl)
            (iterBlockBatches_of_blocks stored ids_eq blocks_eq shape bounded' ?_ positive)
          intro id member
          have fits := bounded id member
          rw [Nat.mod_eq_of_lt (fits.trans_le small),
            Nat.mod_eq_of_lt ((Nat.div_le_self _ _).trans_lt fits)]
      | false =>
          rw [Processed.archive, blocks_saved, if_neg Bool.false_ne_true] at blocks_eq
          rw [if_neg Bool.false_ne_true]
          have view := @iterBlockBatches_of_ids trace _ _ _ _ rows stored ids_eq blocks_eq asked
            granular shape bounded' positive some_run
          constructor
          · rintro ⟨trace', batches, opened', iterated, -⟩
            obtain rfl := Except.ok.inj (opened.symm.trans opened')
            exact (view.mp iterated).1
          · intro fits
            exact (blockView_of_unique opened (.inl rfl) (view.mpr ⟨fits, rfl⟩)).mpr
              fun _ _ _ => Iff.rfl

/-- Ids are stored, and blocks in the granularity of the reader. -/
theorem block_view_iff_stored :
    ∃ processed archive, processRows lengthLibraries twoLines (twoRows 1) = .ok processed ∧
      preprocess lengthLibraries twoLines (twoRows 1) = .ok archive ∧
      BlockView archive 4 processed.ids 2 ((twoRows 1).saveIds = true ∨
        (twoRows 1).saveBlocks = true ∧ 4 = (twoRows 1).rowsPerBlock) := by
  have evaluated : (do
      let processed ← processRows lengthLibraries twoLines (twoRows 1)
      let _ ← preprocess lengthLibraries twoLines (twoRows 1)
      return processed.ids.shape) = (.ok [2, 1] : Except PyError (List Nat)) := by
    decide +kernel
  obtain ⟨processed, built, evaluated⟩ := bind_eq_ok.mp evaluated
  obtain ⟨archive, written, -⟩ := bind_eq_ok.mp evaluated
  have view := block_view_iff lengthLibraries twoLines (twoRows 1) processed archive rfl (.inl rfl)
    (by decide) (by decide) 4 (by decide) built written
  exact ⟨processed, archive, built, written, view.mpr ⟨rfl, fun _ _ _ => Iff.rfl⟩⟩

/-- Only blocks are stored, in the granularity of the reader, who finds no batch. -/
theorem block_view_empty :
    ¬ ∀ (libraries : Libraries) (workspace : Workspace) (args : PreprocessArgs)
      (processed : Processed) (archive : Archive), args.bagSize = args.numFields →
      args.saveIds = true ∨ args.saveBlocks = true → 1 ≤ args.batchSize →
      1 ≤ args.rowsPerBlock → ∀ rows, 1 ≤ rows →
      processRows libraries workspace args = .ok processed →
      preprocess libraries workspace args = .ok archive →
        BlockView archive rows processed.ids args.batchSize
          (args.saveIds = true ∨ args.saveBlocks = true ∧ rows = args.rowsPerBlock) := by
  intro views
  let args : PreprocessArgs := { twoRows 1 with saveIds := false }
  have evaluated : (do
      let processed ← processRows lengthLibraries twoLines args
      let archive ← preprocess lengthLibraries twoLines args
      let trace ← EmbeddingTrace.init (.npz archive) (some 4)
      let batches ← trace.iterBlockBatches
      return (NdArray.runs processed.ids.samples 2, batches.length)) =
        (.ok (1, 0) : Except PyError (Nat × Nat)) := by
    decide +kernel
  obtain ⟨processed, built, evaluated⟩ := bind_eq_ok.mp evaluated
  obtain ⟨archive, written, evaluated⟩ := bind_eq_ok.mp evaluated
  obtain ⟨trace, opened, evaluated⟩ := bind_eq_ok.mp evaluated
  obtain ⟨batches, iterated, evaluated⟩ := bind_eq_ok.mp evaluated
  obtain ⟨trace', batches', opened', iterated', counted, -⟩ := views lengthLibraries twoLines args
    processed archive rfl (.inr rfl) (by decide) (by decide) 4 (by decide) built written
  obtain rfl := Except.ok.inj (opened.symm.trans opened')
  obtain rfl := Except.ok.inj (iterated.symm.trans iterated')
  obtain ⟨expected, found⟩ := Prod.mk.inj (Except.ok.inj evaluated)
  rw [found] at counted
  exact absurd (counted.trans expected) (by decide)

end MemTier.Trace
