import MemTier.Trace.Dlrm

/-!
# Traces read back

A trace that was written is read in batches of samples.  The reader takes a batch for a run of
samples only where its bags are as wide as the matrix; elsewhere it takes one sample for a batch.
-/

namespace MemTier.Trace

open Containers

/-- The batches join to the matrix, row by row, and all but the last have as many rows as asked
for. -/
def ReadsBack (archive : Archive) (rowsPerBlock : Option Nat) (ids : NdArray Nat)
    (batchSize : Nat) : Prop :=
  ∃ trace batches, EmbeddingTrace.init (.npz archive) rowsPerBlock = .ok trace ∧
    trace.iterBatches = .ok batches ∧ batches.flatten = ids.data ∧
      ∀ batch ∈ batches.dropLast, batch.length = batchSize * ids.stride

/-! ## Batches of a matrix -/

/-- A trace as the writers leave it. -/
structure BySamples (trace : EmbeddingTrace) (batchSize bagSize : Nat) : Prop where
  nonempty : 0 < bagSize
  jsonlRows : trace.jsonlRows = none
  batchSize : trace.batchSize = some batchSize
  bagSize : trace.bagSize = some bagSize
  layout : trace.metadata.traceLayout = some "samples_by_fields"

namespace BySamples

variable {trace : EmbeddingTrace} {batchSize bagSize samples width position : Nat}
  {ids : NdArray Nat}

theorem columnsMatch (stored : BySamples trace batchSize bagSize)
    (shape : ids.shape = [samples, width]) :
    trace.columnsMatch ids = true ↔ width = bagSize ∧ 0 < batchSize := by
  have nonempty := stored.nonempty
  simp only [EmbeddingTrace.columnsMatch, NdArray.ndim, shape, stored.batchSize, stored.bagSize,
    EmbeddingTrace.truthy, Option.getD_some, Bool.and_eq_true, decide_eq_true_eq]
  simp
  omega

/-- How many batches a matrix has. -/
theorem numBatches (stored : BySamples trace batchSize bagSize) (held : trace.ids = some ids)
    (shape : ids.shape = [samples, width]) :
    trace.numBatches = .ok (if batchSize = 0 then samples else NdArray.runs samples batchSize) := by
  have extent : ids.samples = samples := by rw [NdArray.samples, shape, List.headD_cons]
  rw [EmbeddingTrace.numBatches, stored.jsonlRows, held]
  simp only [NdArray.ndim, shape, stored.layout, stored.batchSize, EmbeddingTrace.truthy, extent,
    Option.getD_some, List.length_cons, List.length_nil]
  by_cases none : batchSize = 0
  · have unmatched : trace.columnsMatch ids = false := by
      rw [← Bool.not_eq_true, stored.columnsMatch shape]
      omega
    simp [none, unmatched]
  · simp [none]

theorem batchFromArray_of_match (stored : BySamples trace batchSize bagSize)
    (shape : ids.shape = [samples, width]) (matched : width = bagSize) (positive : 0 < batchSize) :
    trace.batchFromArray ids position = .ok (ids.rows (position * batchSize)
      (min samples (position * batchSize + batchSize))) := by
  have extent : ids.samples = samples := by rw [NdArray.samples, shape, List.headD_cons]
  rw [EmbeddingTrace.batchFromArray, if_neg (by simp [NdArray.ndim, shape]),
    if_neg (by simp [NdArray.ndim, shape]),
    if_pos ((stored.columnsMatch shape).mpr ⟨matched, positive⟩), stored.batchSize, extent]
  rfl

/-- Elsewhere one row is taken for a batch. -/
theorem batchFromArray_of_mismatch (stored : BySamples trace batchSize bagSize)
    (shape : ids.shape = [samples, width]) (mismatched : ¬ (width = bagSize ∧ 0 < batchSize))
    (inside : position < samples) :
    trace.batchFromArray ids position = .ok ((ids.data.drop (position * width)).take width) := by
  have extent : ids.samples = samples := by rw [NdArray.samples, shape, List.headD_cons]
  have stride : ids.stride = width := by simp [NdArray.stride, shape]
  rw [EmbeddingTrace.batchFromArray, if_neg (by simp [NdArray.ndim, shape]),
    if_neg (by simp [NdArray.ndim, shape]),
    if_neg (by rwa [stored.columnsMatch shape]), EmbeddingTrace.flatIndex,
    NdArray.index, dif_pos (extent.symm ▸ inside)]
  dsimp only
  rw [stride]

/-- Ids of 64 bits are handed out as they are stored. -/
theorem getBatchIds {count : Nat} {batch : List Nat} (stored : BySamples trace batchSize bagSize)
    (held : trace.ids = some ids) (counted : trace.numBatches = .ok count)
    (inside : position < count) (cut : trace.batchFromArray ids position = .ok batch)
    (bounded : ∀ id ∈ batch, id < 2 ^ 64) : trace.getBatchIds position = .ok batch := by
  have plain : astype .uint64 batch = batch := by
    rw [astype]
    exact (List.map_congr_left fun id member => Nat.mod_eq_of_lt (bounded id member)).trans
      (List.map_id batch)
  rw [EmbeddingTrace.getBatchIds, counted, stored.jsonlRows, held]
  simp [bind, Except.bind, pure, Except.pure, Nat.not_le.mpr inside, cut, plain]

/-- The batches are runs of rows where bags are as wide as the matrix. -/
theorem iterBatches_of_match (stored : BySamples trace batchSize bagSize)
    (held : trace.ids = some ids) (shape : ids.shape = [samples, width])
    (bounded : ∀ id ∈ ids.data, id < 2 ^ 64) (matched : width = bagSize)
    (positive : 0 < batchSize) :
    trace.iterBatches = .ok ((List.range (NdArray.runs samples batchSize)).map fun position =>
      ids.rows (position * batchSize) (min samples (position * batchSize + batchSize))) := by
  have counted := stored.numBatches held shape
  rw [if_neg (Nat.pos_iff_ne_zero.mp positive)] at counted
  rw [EmbeddingTrace.iterBatches, counted]
  refine mapM_eq_ok_of_forall fun position inside => ?_
  refine stored.getBatchIds held counted (List.mem_range.mp inside)
    (stored.batchFromArray_of_match shape matched positive) fun id member => ?_
  exact bounded id (List.mem_of_mem_take (List.mem_of_mem_drop member))

/-- Elsewhere they are single rows, as many as there should be runs. -/
theorem iterBatches_of_mismatch (stored : BySamples trace batchSize bagSize)
    (held : trace.ids = some ids) (shape : ids.shape = [samples, width])
    (bounded : ∀ id ∈ ids.data, id < 2 ^ 64) (mismatched : ¬ (width = bagSize ∧ 0 < batchSize)) :
    trace.iterBatches =
      .ok ((List.range (if batchSize = 0 then samples else NdArray.runs samples batchSize)).map
        fun position => (ids.data.drop (position * width)).take width) := by
  have counted := stored.numBatches held shape
  rw [EmbeddingTrace.iterBatches, counted]
  refine mapM_eq_ok_of_forall fun position inside => ?_
  have inside := List.mem_range.mp inside
  refine stored.getBatchIds held counted inside
    (stored.batchFromArray_of_mismatch shape mismatched ?_) fun id member => ?_
  · split at inside
    · exact inside
    · exact inside.trans_le (NdArray.runs_le (Nat.pos_of_ne_zero ‹_›))
  · exact bounded id (List.mem_of_mem_drop (List.mem_of_mem_take member))

end BySamples

/-! ## What is read -/

/-- A trace of a matrix is read back if and only if its bags are as wide as the matrix, or one row
makes a batch, or there is one row at most. -/
theorem readsBack_iff {archive : Archive} {rowsPerBlock : Option Nat} {trace : EmbeddingTrace}
    {batchSize bagSize samples width : Nat} {ids : NdArray Nat}
    (opened : EmbeddingTrace.init (.npz archive) rowsPerBlock = .ok trace)
    (stored : BySamples trace batchSize bagSize) (held : trace.ids = some ids)
    (shape : ids.shape = [samples, width]) (bounded : ∀ id ∈ ids.data, id < 2 ^ 64)
    (wide : 0 < width) :
    ReadsBack archive rowsPerBlock ids batchSize ↔
      (width = bagSize ∧ 0 < batchSize) ∨ batchSize = 1 ∨ samples ≤ 1 := by
  have ranked : ids.shape ≠ [] := by simp [shape]
  have extent : ids.samples = samples := by rw [NdArray.samples, shape, List.headD_cons]
  have stride : ids.stride = width := by simp [NdArray.stride, shape]
  have length : ids.data.length = samples * width := by
    rw [ids.length_data ranked, extent, stride]
  by_cases matched : width = bagSize ∧ 0 < batchSize
  · refine iff_of_true ?_ (.inl matched)
    have batches := stored.iterBatches_of_match held shape bounded matched.1 matched.2
    refine ⟨trace, _, opened, batches, ?_, fun batch member => ?_⟩
    · rw [← List.flatMap_def, ← extent, ids.flatMap_rows ranked matched.2]
    · obtain ⟨position, inside, rfl⟩ := NdArray.mem_dropLast_map_range.mp member
      rw [← extent] at inside ⊢
      exact ids.length_rows ranked matched.2 inside
  · have batches := stored.iterBatches_of_mismatch held shape bounded matched
    rw [or_iff_right matched]
    set count := if batchSize = 0 then samples else NdArray.runs samples batchSize with counted
    constructor
    · rintro ⟨trace', batches', opened', batches_eq, joined, full⟩
      obtain rfl := Except.ok.inj (opened.symm.trans opened')
      obtain rfl := Except.ok.inj (batches.symm.trans batches_eq)
      rw [← List.flatMap_def, NdArray.flatMap_runs] at joined
      have joined := congrArg List.length joined
      rw [List.length_take, length, Nat.mul_min_mul_right] at joined
      have enough := Nat.eq_of_mul_eq_mul_right wide joined
      rcases Nat.eq_zero_or_pos batchSize with none | positive
      · by_contra several
        rw [not_or] at several
        have first := full _ (NdArray.mem_dropLast_map_range.mpr
          ⟨0, by rw [counted, if_pos none]; omega, rfl⟩)
        have room := Nat.mul_le_mul_right width (show 1 ≤ samples by omega)
        rw [List.length_take, List.length_drop, length, none] at first
        omega
      · rw [counted, if_neg (Nat.pos_iff_ne_zero.mp positive)] at enough
        exact (NdArray.runs_eq_self_iff positive).mp
          (le_antisymm (NdArray.runs_le positive) (by omega))
    · intro small
      have enough : count = samples := by
        rw [counted]
        split
        · rfl
        · exact (NdArray.runs_eq_self_iff (Nat.pos_of_ne_zero ‹_›)).mpr small
      rw [enough] at batches
      refine ⟨trace, _, opened, batches, ?_, fun batch member => ?_⟩
      · rw [← List.flatMap_def, NdArray.flatMap_runs, List.take_of_length_le length.le]
      · obtain ⟨position, inside, rfl⟩ := NdArray.mem_dropLast_map_range.mp member
        have one : batchSize = 1 := by omega
        have room := Nat.mul_le_mul_right width (show position + 1 ≤ samples by omega)
        rw [Nat.succ_mul] at room
        rw [List.length_take, List.length_drop, length, stride, one]
        omega

/-- What a reader finds in the archive of `preprocess`. -/
theorem Processed.opened (args : PreprocessArgs) (processed : Processed)
    (rowsPerBlock : Option Nat) (bag : 1 ≤ args.bagSize) :
    ∃ trace, EmbeddingTrace.init (.npz (processed.archive args)) rowsPerBlock = .ok trace ∧
      BySamples trace args.batchSize args.bagSize ∧
        (∀ rows, rowsPerBlock = some rows → trace.rowsPerBlock = some rows) ∧
          trace.ids = (if args.saveIds then some processed.ids else none) ∧
            trace.blockIds = (processed.archive args).blockIds := by
  refine ⟨_, rfl, ⟨bag, rfl, rfl, EmbeddingTrace.bagSize_of_stored rfl bag, rfl⟩, ?_, rfl, rfl⟩
  rintro rows rfl
  rfl

/-- When a trace that was written loses nothing.  What `preprocess` writes is read back exactly if
its rows fill the bags it declares, or batches are of one row, or there is one row only; what
`convert` writes always is. -/
theorem trace_reads_back_iff (libraries : Libraries) (rowsPerBlock : Option Nat) :
    (∀ workspace args processed archive, 1 ≤ args.numFields → 1 ≤ args.bagSize →
      1 ≤ args.batchSize → args.saveIds = true →
      processRows libraries workspace args = .ok processed →
      preprocess libraries workspace args = .ok archive →
        (ReadsBack archive rowsPerBlock processed.ids args.batchSize ↔
          args.dropEmpty = true ∨ args.bagSize ≤ args.numFields ∨ args.batchSize = 1 ∨
            processed.ids.samples = 1)) ∧
      ∀ file args mapped archive, convertIds libraries file args = .ok mapped →
        convert libraries file args = .ok archive →
          (ReadsBack archive rowsPerBlock mapped.ids args.batchSize ↔
            1 ≤ args.batchSize ∨ mapped.ids.samples ≤ 1) := by
  constructor
  · intro workspace args processed archive fields bag positive saved built written
    obtain ⟨processed', built', -, ranked, rfl⟩ := preprocess_eq_ok written
    obtain rfl := Except.ok.inj (built.symm.trans built')
    obtain ⟨⟨samples, nonempty, shape⟩, bounded⟩ := processRows_shape built
    obtain ⟨trace, opened, stored, -, held, -⟩ := processed.opened args rowsPerBlock bag
    rw [saved, if_pos rfl] at held
    have wide : 0 < args.width := by
      simpa [NdArray.stride, shape, Nat.pos_iff_ne_zero] using ranked
    have small : 2 ^ args.dtype.bits ≤ 2 ^ 64 := by
      cases args.dtype <;> decide
    rw [readsBack_iff opened stored held shape
      (fun id member => (bounded id member).trans_le small) wide, NdArray.samples, shape,
      List.headD_cons, PreprocessArgs.width]
    cases args.dropEmpty with
    | false =>
        simp only [Bool.false_eq_true, if_false, false_or]
        omega
    | true => exact iff_of_true (.inl ⟨rfl, positive⟩) (.inl rfl)
  · intro file args mapped archive built written
    obtain ⟨mapped', built', ranked, rfl⟩ := convert_eq_ok written
    obtain rfl := Except.ok.inj (built.symm.trans built')
    obtain ⟨⟨samples, width, shape⟩, bounded⟩ := convertIds_shape built
    have stride : mapped.ids.stride = width := by simp [NdArray.stride, shape]
    have wide : 0 < width := Nat.pos_of_ne_zero (stride ▸ ranked)
    have stored : ∀ trace, EmbeddingTrace.init (.npz (mapped.archive args)) rowsPerBlock =
        .ok trace → BySamples trace args.batchSize width ∧ trace.ids = some mapped.ids := by
      rintro _ ⟨⟩
      exact ⟨⟨wide, rfl, rfl,
        EmbeddingTrace.bagSize_of_stored (congrArg some stride) wide, rfl⟩, rfl⟩
    obtain ⟨stored, held⟩ := stored _ rfl
    rw [readsBack_iff rfl stored held shape bounded wide, NdArray.samples, shape, List.headD_cons]
    omega

/-- Libraries that take texts for their lengths. -/
def lengthLibraries : Libraries where
  int text := some text.toList.length
  blake2b _ text := UInt64.ofNat text.toList.length
  wraps := false

/-- A workspace with one file of two lines. -/
def twoLines : Workspace where
  lines path := if path = "train.txt" then some ["0", "1"] else none
  glob _ := []

/-- Two rows of one field, in batches of two, for bags of a given size. -/
def twoRows (bagSize : Nat) : PreprocessArgs where
  input := some "train.txt"
  inputGlob := none
  maxSamples := none
  numFields := 1
  batchSize := 2
  bagSize
  hashSize := "sixteen"
  globalIdMode := .perFieldOffset
  rowsPerBlock := 4
  dropEmpty := false
  saveIds := true
  saveBlocks := true
  dtype := .uint64
  seed := 0

/-- Bags of one id fill the one column. -/
theorem trace_reads_back_iff_filled :
    ∃ processed archive, processRows lengthLibraries twoLines (twoRows 1) = .ok processed ∧
      preprocess lengthLibraries twoLines (twoRows 1) = .ok archive ∧
      processed.ids.shape = [2, 1] ∧ ReadsBack archive none processed.ids 2 := by
  have built : (processRows lengthLibraries twoLines (twoRows 1)).toOption.any
      (·.ids.shape = [2, 1]) = true := by
    decide +kernel
  have written : (preprocess lengthLibraries twoLines (twoRows 1)).toOption.isSome = true := by
    decide +kernel
  cases processing : processRows lengthLibraries twoLines (twoRows 1) with
  | error error => simp [processing, Except.toOption] at built
  | ok processed =>
      cases writing : preprocess lengthLibraries twoLines (twoRows 1) with
      | error error => simp [writing, Except.toOption] at written
      | ok archive =>
          have read := ((trace_reads_back_iff lengthLibraries none).1 twoLines (twoRows 1) processed
            archive (by decide) (by decide) (by decide) rfl processing writing).mpr
              (.inr (.inl (by decide)))
          exact ⟨processed, archive, rfl, rfl, by simpa [processing, Except.toOption] using built,
            read⟩

/-- Bags of two ids do not.  Two rows in a batch of two are read as one batch of one row. -/
theorem trace_loses_rows :
    ¬ ∀ (libraries : Libraries) (rowsPerBlock : Option Nat) (workspace : Workspace)
      (args : PreprocessArgs) (processed : Processed) (archive : Archive), 1 ≤ args.numFields →
      1 ≤ args.bagSize → 1 ≤ args.batchSize → args.saveIds = true →
      processRows libraries workspace args = .ok processed →
      preprocess libraries workspace args = .ok archive →
        ReadsBack archive rowsPerBlock processed.ids args.batchSize := by
  intro reads
  have evaluated : (do
      let processed ← processRows lengthLibraries twoLines (twoRows 2)
      let archive ← preprocess lengthLibraries twoLines (twoRows 2)
      let trace ← EmbeddingTrace.init (.npz archive) none
      let batches ← trace.iterBatches
      return (processed.ids.data.length, batches.flatten.length)) =
        (.ok (2, 1) : Except PyError (Nat × Nat)) := by
    decide +kernel
  obtain ⟨processed, built, evaluated⟩ := bind_eq_ok.mp evaluated
  obtain ⟨archive, written, evaluated⟩ := bind_eq_ok.mp evaluated
  obtain ⟨trace, opened, evaluated⟩ := bind_eq_ok.mp evaluated
  obtain ⟨batches, iterated, evaluated⟩ := bind_eq_ok.mp evaluated
  obtain ⟨trace', batches', opened', iterated', joined, -⟩ := reads lengthLibraries none twoLines
    (twoRows 2) processed archive (by decide) (by decide) (by decide) rfl built written
  obtain rfl := Except.ok.inj (opened.symm.trans opened')
  obtain rfl := Except.ok.inj (iterated.symm.trans iterated')
  have lengths := Prod.mk.inj (Except.ok.inj evaluated)
  rw [joined, lengths.1] at lengths
  exact absurd lengths.2 (by decide)

end MemTier.Trace
