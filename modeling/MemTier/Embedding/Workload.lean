import MemTier.Embedding.RunOutcome
import MemTier.Trace.CriteoRows
import MemTier.Trace.Synthetic

/-!
# From texts to a run

`run` takes its batches from a trace file, or draws them, and learns the number of rows of its table
from its arguments or from the metadata of the trace.  What the writers of traces declare is what a
run can rely on.
-/

namespace MemTier.Embedding

open Containers Resumption Trace

/-! ## The arguments -/

/-- The arguments of `run` that decide what is looked up. -/
structure RunArgs where
  traceFile : Option TraceFile
  numEmbeddings : Option Nat
  sizes : Sizes
  batchSize : Nat
  bagSize : Nat
  numBatches : Nat
  dist : String
  zipfAlpha : ℚ
  overlapRatio : ℚ
  seed : Int
  mode : String

/-- What is passed to `generate_ids`. -/
def RunArgs.workload (args : RunArgs) : WorkloadArgs where
  numEmbeddings := args.numEmbeddings.getD 0
  batchSize := args.batchSize
  bagSize := args.bagSize
  numBatches := args.numBatches
  dist := args.dist
  zipfAlpha := args.zipfAlpha
  overlapRatio := args.overlapRatio
  seed := args.seed

/-- The batches, and what the metadata of a trace file declares. -/
def openTrace (sampler : Sampler) (args : RunArgs) :
    Except PyError (List (List Nat) × Option Nat) :=
  match args.traceFile with
  | some file => do
      let reader ← EmbeddingTrace.init file (some args.sizes.rowsPerBlock)
      return (← reader.iterBatches, reader.metadata.totalNumEmbeddings)
  | none => do
      let trace ← generateIds sampler args.workload
      return (trace.rowList, none)

/-- The batches of a run and the number of rows of its table. -/
def openWorkload (sampler : Sampler) (args : RunArgs) :
    Except PyError (List (List Nat) × Nat) := do
  let (batches, declared) ← openTrace sampler args
  let numEmbeddings := args.numEmbeddings.getD (declared.getD 0)
  if numEmbeddings = 0 then
    throw (.valueError
      "--num-embeddings is required unless trace metadata contains total_num_embeddings")
  return (batches, numEmbeddings)

/-- `run` from its arguments, for allocations at the given addresses; `none` when it raises. -/
def runFromArgs (sampler : Sampler) (args : RunArgs) (dramBase hbmBase : Nat) :
    Run (Option RunResult) :=
  match openWorkload sampler args, MemTierEmbeddingBag.new args.sizes dramBase hbmBase with
  | .ok (batches, _), some bag => do
      let (_, result) ← memtierRun args.sizes args.mode bag (batches.map (List.map UInt64.ofNat))
      return result
  | _, _ => return none

/-! ## What the writers declare -/

section

variable {libraries : Libraries} {workspace : Workspace}

theorem asDtype_le {dtype : Trace.Dtype} {value result : Nat}
    (converted : asDtype libraries dtype value = .ok result) : result ≤ value := by
  rw [asDtype] at converted
  split_ifs at converted
  · exact (Except.ok.inj converted).ge
  · exact Except.ok.inj converted ▸ Nat.mod_le _ _

/-- The ids that `preprocess` writes lie in the table it declares, which is not empty. -/
theorem processRows_declared {args : PreprocessArgs} {processed : Processed}
    (fields : 1 ≤ args.numFields) (built : processRows libraries workspace args = .ok processed) :
    0 < processed.hashSizes.sum ∧ ∀ id ∈ processed.ids.data, id < processed.hashSizes.sum := by
  obtain ⟨⟨samples, some_row, -⟩, -⟩ := processRows_shape built
  rw [processRows] at built
  obtain ⟨paths, -, built⟩ := bind_eq_ok.mp built
  obtain ⟨hashSizes, sized, built⟩ := bind_eq_ok.mp built
  obtain ⟨⟨rows, labels⟩, collected, built⟩ := bind_eq_ok.mp built
  obtain ⟨length, positive⟩ := parseHashSizes_spec sized
  have nonempty : hashSizes ≠ [] := by
    rintro rfl
    rw [List.length_nil] at length
    omega
  obtain ⟨parsed, front, rows_eq⟩ := collectRows_eq_ok collected
  have inside : ∀ row ∈ rows, ∀ id ∈ row, id < hashSizes.sum := by
    intro row member id listed
    rw [rows_eq] at member
    obtain ⟨source, there, rfl⟩ := List.mem_map.mp member
    have width : source.cats.length = hashSizes.length := by
      rw [length]
      exact length_cats_of_mem (front.mem (List.mem_map_of_mem there))
    exact bagRow_lt width nonempty positive listed
  have total : 0 < hashSizes.sum := by
    obtain ⟨size, present⟩ := List.exists_mem_of_ne_nil _ nonempty
    exact (positive size present).trans_le (List.le_sum_of_mem present)
  dsimp only at built
  split at built
  · simp [bind, Except.bind, throw, throwThe, MonadExceptOf.throw] at built
  · rename_i some_rows
    obtain ⟨converted, conversion, built⟩ := bind_eq_ok.mp built
    split at built
    · simp [throw, throwThe, MonadExceptOf.throw] at built
    · rename_i ids assembled
      obtain rfl := Except.ok.inj built
      refine ⟨total, fun id member => ?_⟩
      rw [NdArray.data_of_ofRows assembled] at member
      obtain ⟨row, listed, member⟩ := List.mem_flatten.mp member
      obtain ⟨source, there, round⟩ := exists_of_mapM_eq_ok conversion listed
      obtain ⟨value, among, cast⟩ := exists_of_mapM_eq_ok round member
      exact (asDtype_le cast).trans_lt (inside source there value among)

/-- Option combinations under which `convert` keeps ids inside the table it declares, whatever they
are. -/
def KeepsToTable (args : ConvertArgs) : Prop :=
  match args.fieldOffsetMode, args.numEmbeddings.filter (· ≠ 0) with
  | .sharedHash, _ => True
  | .direct, given => given.isSome
  | .perFieldOffset, given => given = none

/-- The ids that `convert` writes then lie in the table it declares, which is not empty. -/
theorem convertIds_declared {file : SparseFile} {args : ConvertArgs} {mapped : Mapped}
    (safe : KeepsToTable args) (columns : mapped.ids.stride ≠ 0)
    (small : mapped.hashSizes.sum < 2 ^ 64) (built : convertIds libraries file args = .ok mapped) :
    0 < mapped.totalEmbeddings ∧ ∀ id ∈ mapped.ids.data, id < mapped.totalEmbeddings := by
  rw [convertIds] at built
  obtain ⟨format, -, built⟩ := bind_eq_ok.mp built
  obtain ⟨raw, loaded, result⟩ := bind_eq_ok.mp built
  have shape := (applyIdMapping_shape (loadSparse_shape loaded).2 result).1
  rw [NdArray.stride, shape, ← NdArray.stride] at columns
  rw [applyIdMapping] at result
  obtain ⟨hashSizes, sizes, result⟩ := bind_eq_ok.mp result
  obtain ⟨ids, mapping, result⟩ := bind_eq_ok.mp result
  obtain rfl := Except.ok.inj result
  obtain ⟨complete, positive⟩ := mappingHashSizes_spec sizes
  have nonempty : 0 < hashSizes.sum := by
    obtain ⟨size, member⟩ := List.exists_mem_of_length_pos
      (complete.symm ▸ Nat.pos_of_ne_zero columns)
    exact (positive size member).trans_le (List.le_sum_of_mem member)
  dsimp only at small ⊢
  have total : 0 < (args.numEmbeddings.filter (· ≠ 0)).getD hashSizes.sum := by
    cases given : args.numEmbeddings.filter (· ≠ 0) with
    | none => exact nonempty
    | some number =>
        exact Nat.pos_of_ne_zero (of_decide_eq_true (Option.filter_eq_some_iff.mp given).2)
  refine ⟨total, ?_⟩
  cases mode : args.fieldOffsetMode with
  | sharedHash => exact mapIds_sharedHash mode mapping total
  | direct =>
      have reduced := mapIds_direct mode mapping
      rw [KeepsToTable, mode] at safe
      obtain ⟨number, given⟩ := Option.isSome_iff_exists.mp safe
      rw [given] at reduced ⊢
      exact reduced
  | perFieldOffset =>
      rw [KeepsToTable, mode] at safe
      rw [safe, Option.getD_none]
      intro id member
      obtain ⟨position, rawId, offset, size, -, -, -, rfl, bounded, residue⟩ :=
        (mapIds_perFieldOffset mode complete positive (Nat.pos_of_ne_zero columns) small mapping
          id).mp member
      omega

end

/-! ## What a run finds -/

/-- The batches of a matrix of samples are made of its ids. -/
theorem mem_of_iterBatches {trace : EmbeddingTrace} {batchSize bagSize samples width : Nat}
    {ids : NdArray Nat} (stored : BySamples trace batchSize bagSize) (held : trace.ids = some ids)
    (shape : ids.shape = [samples, width]) (bounded : ∀ id ∈ ids.data, id < 2 ^ 64) :
    ∃ batches, trace.iterBatches = .ok batches ∧ ∀ batch ∈ batches, batch ⊆ ids.data := by
  by_cases matched : width = bagSize ∧ 0 < batchSize
  · refine ⟨_, stored.iterBatches_of_match held shape bounded matched.1 matched.2, ?_⟩
    intro batch member
    obtain ⟨position, -, rfl⟩ := List.mem_map.mp member
    exact fun id among => List.mem_of_mem_take (List.mem_of_mem_drop among)
  · refine ⟨_, stored.iterBatches_of_mismatch held shape bounded matched, ?_⟩
    intro batch member
    obtain ⟨position, -, rfl⟩ := List.mem_map.mp member
    exact fun id among => List.mem_of_mem_drop (List.mem_of_mem_take among)

/-- Where the batches of a run come from, and the number of rows that they are meant for. -/
inductive Produced (sampler : Sampler) (args : RunArgs) : Nat → Prop where
  | drawn {numEmbeddings : Nat} {trace : NdArray Nat} (source : args.traceFile = none)
      (given : args.numEmbeddings = some numEmbeddings) (positive : 0 < numEmbeddings)
      (generated : generateIds sampler args.workload = .ok trace) :
      Produced sampler args numEmbeddings
  | saved {drawing : WorkloadArgs} {trace : NdArray Nat} {rowsPerBlock : Nat}
      (source : args.traceFile = some (drawing.saved rowsPerBlock trace))
      (given : args.numEmbeddings = some drawing.numEmbeddings)
      (positive : 0 < drawing.numEmbeddings)
      (generated : generateIds sampler drawing = .ok trace) :
      Produced sampler args drawing.numEmbeddings
  | criteo {libraries : Libraries} {workspace : Workspace} {options : PreprocessArgs}
      {processed : Processed} {archive : Archive} (source : args.traceFile = some (.npz archive))
      (given : args.numEmbeddings = none) (fields : 1 ≤ options.numFields)
      (built : processRows libraries workspace options = .ok processed)
      (written : preprocess libraries workspace options = .ok archive) :
      Produced sampler args processed.hashSizes.sum
  | dlrm {libraries : Libraries} {file : SparseFile} {options : ConvertArgs} {mapped : Mapped}
      {archive : Archive} (source : args.traceFile = some (.npz archive))
      (given : args.numEmbeddings = none) (safe : KeepsToTable options)
      (small : mapped.hashSizes.sum < 2 ^ 64)
      (built : convertIds libraries file options = .ok mapped)
      (written : convert libraries file options = .ok archive) :
      Produced sampler args mapped.totalEmbeddings

section

variable {sampler : Sampler} {args : RunArgs} {total : Nat}

theorem openTrace_of_file {file : TraceFile} {reader : EmbeddingTrace} {batches : List (List Nat)}
    (source : args.traceFile = some file)
    (opening : EmbeddingTrace.init file (some args.sizes.rowsPerBlock) = .ok reader)
    (read : reader.iterBatches = .ok batches) :
    openTrace sampler args = .ok (batches, reader.metadata.totalNumEmbeddings) := by
  rw [openTrace, source]
  simp only [opening, read, bind, Except.bind]
  rfl

theorem openWorkload_eq_ok {batches : List (List Nat)} {declared : Option Nat}
    (opening : openTrace sampler args = .ok (batches, declared))
    (settled : args.numEmbeddings.getD (declared.getD 0) = total) (positive : 0 < total) :
    openWorkload sampler args = .ok (batches, total) := by
  rw [openWorkload, opening]
  simp only [bind, Except.bind, settled, if_neg (Nat.pos_iff_ne_zero.mp positive)]
  rfl

/-- Whatever the source, a run finds batches of ids below the number of rows it goes by. -/
theorem Produced.opens (produced : Produced sampler args total) :
    ∃ batches, openWorkload sampler args = .ok (batches, total) ∧
      ∀ batch ∈ batches, ∀ id ∈ batch, id < 2 ^ 64 ∧ id < total := by
  have rows : ∀ {drawing : WorkloadArgs} {trace : NdArray Nat},
      generateIds sampler drawing = .ok trace → 0 < drawing.numEmbeddings →
        ∀ batch ∈ trace.rowList, ∀ id ∈ batch, id < 2 ^ 64 ∧ id < drawing.numEmbeddings := by
    intro drawing trace generated positive batch listed id member
    obtain ⟨-, data, -, ids⟩ := generateIds_spec generated
    obtain ⟨small, inside⟩ := ids id (data ▸ List.mem_flatten_of_mem listed member)
    exact ⟨small, inside positive⟩
  cases produced with
  | @drawn _ trace source given positive generated =>
      have opening : openTrace sampler args = .ok (trace.rowList, none) := by
        rw [openTrace, source]
        simp only [generated, bind, Except.bind]
        rfl
      have same : args.workload.numEmbeddings = total := by
        rw [RunArgs.workload, given, Option.getD_some]
      refine ⟨_, openWorkload_eq_ok opening (by rw [given, Option.getD_some]) positive, ?_⟩
      exact same ▸ rows generated (same.symm ▸ positive)
  | @saved drawing trace rowsPerBlock source given positive generated =>
      obtain ⟨shape, -, -, ids⟩ := generateIds_spec generated
      obtain ⟨reader, opening, read⟩ := saved_reads_back shape (fun id member => (ids id member).1)
        rowsPerBlock (some args.sizes.rowsPerBlock)
      exact ⟨_, openWorkload_eq_ok (openTrace_of_file source opening read)
        (by rw [given, Option.getD_some]) positive, rows generated positive⟩
  | @criteo libraries workspace options processed archive source given fields built written =>
      obtain ⟨processed', built', -, ranked, rfl⟩ := preprocess_eq_ok written
      obtain rfl := Except.ok.inj (built.symm.trans built')
      obtain ⟨⟨samples, -, shape⟩, bounded⟩ := processRows_shape built
      obtain ⟨positive, inside⟩ := processRows_declared fields built
      have bag : 1 ≤ options.bagSize := by
        have width : processed.ids.stride = options.width := by simp [NdArray.stride, shape]
        rw [width, PreprocessArgs.width] at ranked
        split_ifs at ranked <;> omega
      have small : ∀ id ∈ processed.ids.data, id < 2 ^ 64 := by
        intro id member
        refine (bounded id member).trans_le ?_
        cases options.dtype <;> decide
      obtain ⟨reader, opening, stored, -, held, -⟩ :=
        processed.opened options (some args.sizes.rowsPerBlock) bag
      have declared : reader.metadata.totalNumEmbeddings = some processed.hashSizes.sum := by
        obtain rfl := Except.ok.inj opening
        rfl
      obtain ⟨batches, read, ids⟩ : ∃ batches, reader.iterBatches = .ok batches ∧
          ∀ batch ∈ batches, batch ⊆ processed.ids.data := by
        split_ifs at held
        · exact mem_of_iterBatches stored held shape small
        · -- Without ids there are no batches.
          refine ⟨[], ?_, by simp⟩
          rw [EmbeddingTrace.iterBatches, EmbeddingTrace.numBatches, stored.jsonlRows, held]
          rfl
      refine ⟨batches, openWorkload_eq_ok (openTrace_of_file source opening read)
        (by rw [given, declared]; rfl) positive, fun batch listed id member => ?_⟩
      exact ⟨small id (ids batch listed member), inside id (ids batch listed member)⟩
  | @dlrm libraries file options mapped archive source given safe small built written =>
      obtain ⟨mapped', built', columns, rfl⟩ := convert_eq_ok written
      obtain rfl := Except.ok.inj (built.symm.trans built')
      obtain ⟨⟨samples, width, shape⟩, bounded⟩ := convertIds_shape built
      obtain ⟨positive, inside⟩ := convertIds_declared safe columns small built
      have stride : mapped.ids.stride = width := by simp [NdArray.stride, shape]
      have wide : 0 < width := Nat.pos_of_ne_zero (stride ▸ columns)
      obtain ⟨reader, opening, stored, held, declared⟩ : ∃ reader,
          EmbeddingTrace.init (.npz (mapped.archive options)) (some args.sizes.rowsPerBlock) =
            .ok reader ∧ BySamples reader options.batchSize width ∧ reader.ids = some mapped.ids ∧
              reader.metadata.totalNumEmbeddings = some mapped.totalEmbeddings :=
        ⟨_, rfl, ⟨wide, rfl, rfl, EmbeddingTrace.bagSize_of_stored (congrArg some stride) wide,
          rfl⟩, rfl, rfl⟩
      obtain ⟨batches, read, ids⟩ := mem_of_iterBatches stored held shape bounded
      refine ⟨batches, openWorkload_eq_ok (openTrace_of_file source opening read)
        (by rw [given, declared]; rfl) positive, fun batch listed id member => ?_⟩
      exact ⟨bounded id (ids batch listed member), inside id (ids batch listed member)⟩

/-- `run` from its arguments is `run` over the batches that were found. -/
theorem runFromArgs_evaluates {env : Environment Machine Choice Reply} {dramBase hbmBase : Nat}
    {batches : List (List Nat)} {bag : MemTierEmbeddingBag} {before after : Machine}
    {result : Option RunResult} (found : openWorkload sampler args = .ok (batches, total))
    (created : MemTierEmbeddingBag.new args.sizes dramBase hbmBase = some bag) :
    (runFromArgs sampler args dramBase hbmBase).Evaluates env before result after ↔
      ∃ bag', (memtierRun args.sizes args.mode bag (batches.map (List.map UInt64.ofNat))).Evaluates
        env before (bag', result) after := by
  simp only [runFromArgs, found, created]
  constructor
  · intro evaluation
    obtain ⟨⟨bag', outcome⟩, middle, run, rfl, rfl⟩ := Prog.evaluates_bind.mp evaluation
    exact ⟨bag', run⟩
  · rintro ⟨bag', run⟩
    exact Prog.evaluates_bind.mpr ⟨_, _, run, rfl, rfl⟩

end

/-- Rows that fill whole blocks. -/
theorem block_full {id rowsPerBlock total : Nat} (inside : id < total)
    (whole : rowsPerBlock ∣ total) : (id / rowsPerBlock + 1) * rowsPerBlock ≤ total := by
  obtain ⟨blocks, rfl⟩ := whole
  have before : id / rowsPerBlock < blocks := Nat.div_lt_of_lt_mul inside
  rw [Nat.mul_comm rowsPerBlock]
  exact Nat.mul_le_mul_right _ before

/-- A run over a trace of Criteo rows. -/
def RunArgs.overArchive (archive : Archive) : RunArgs where
  traceFile := some (.npz archive)
  numEmbeddings := none
  sizes := .twoBytes
  batchSize := 1
  bagSize := 1
  numBatches := 1
  dist := "uniform"
  zipfAlpha := 1
  overlapRatio := 0
  seed := 0
  mode := "sum"

theorem tableOf_sevenRows : TableOf Sizes.twoBytes.config 7 (List.replicate 14 0) where
  generated := by
    refine ⟨.zeros, .fp16, 0, 1, ?_, rfl⟩
    simp [generateEmbeddingFile, writeChunks, Sizes.twoBytes, Sizes.config, Generator.zeros,
      Dtype.itemsize]
  rows_nonzero := by decide
  table_small := by decide
  block_small := by decide

end MemTier.Embedding
