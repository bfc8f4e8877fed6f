import MemTier.Embedding.Hierarchy

/-!
# The benchmark programs

`memtier_embedding.py` sends the batches of a trace through the embedding runtime, and
`baseline_cpu_staging.py` reads the blocks of the same batches from the file.  Both keep the same
statistics.  Times are left out, and ratios are exact numbers.
-/

namespace MemTier.Embedding

open Containers Resumption

/-! ## Statistics of a trace -/

/-- What both programs accumulate over the batches. -/
structure Statistics where
  previousBlocks : Finset Nat := ∅
  uniqueIdsPerBatch : List Nat := []
  uniqueBlocksPerBatch : List Nat := []
  blockReuseRatios : List ℚ := []
  allUniqueIds : Finset Nat := ∅
  allUniqueBlocks : Finset Nat := ∅
  totalLookups : Nat := 0

/-- The identifiers of a batch, as Python integers. -/
def intIds (batch : List UInt64) : List Nat := batch.map UInt64.toNat

/-- A batch is counted before its blocks are fetched. -/
def Statistics.add (statistics : Statistics) (rowsPerBlock : Nat) (batch : List UInt64) :
    Statistics :=
  let blockSet := (idsToBlocks (intIds batch) rowsPerBlock).toFinset
  let idSet := (intIds batch).toFinset
  { previousBlocks := blockSet
    uniqueIdsPerBatch := statistics.uniqueIdsPerBatch ++ [idSet.card]
    uniqueBlocksPerBatch := statistics.uniqueBlocksPerBatch ++ [blockSet.card]
    blockReuseRatios :=
      if statistics.previousBlocks = ∅ then statistics.blockReuseRatios
      else statistics.blockReuseRatios ++
        [((blockSet ∩ statistics.previousBlocks).card : ℚ) / max blockSet.card 1]
    allUniqueIds := statistics.allUniqueIds ∪ idSet
    allUniqueBlocks := statistics.allUniqueBlocks ∪ blockSet
    totalLookups := statistics.totalLookups + batch.length }

/-! ## The embedding runtime from Python -/

/-- The arguments that decide the sizes. -/
structure Sizes where
  embeddingDim : Nat
  rowsPerBlock : Nat
  dtypeSize : Nat
  dramCacheBytes : Nat
  hbmCacheBytes : Nat
  deriving DecidableEq, Repr

/-- The fields of the `ctypes` structure keep the low bits of the arguments. -/
def Sizes.config (sizes : Sizes) : Config where
  embeddingDim := UInt32.ofNat sizes.embeddingDim
  rowsPerBlock := UInt32.ofNat sizes.rowsPerBlock
  dtypeSize := UInt32.ofNat sizes.dtypeSize
  dramCacheBytes := UInt64.ofNat sizes.dramCacheBytes
  hbmCacheBytes := UInt64.ofNat sizes.hbmCacheBytes

structure MemTierEmbeddingBag where
  rowsPerBlock : Nat
  handle : Handle

namespace MemTierEmbeddingBag

/-- The constructor, for allocations at the given addresses; `none` when it raises. -/
def new (sizes : Sizes) (dramBase hbmBase : Nat) : Option MemTierEmbeddingBag := do
  let handle ← memtierInitEmbedding sizes.config dramBase hbmBase
  return { rowsPerBlock := sizes.rowsPerBlock, handle }

/-- `lookup_blocks`: addresses and paths; `none` when it raises. -/
def lookupBlocks (bag : MemTierEmbeddingBag) (blockIds : List Nat) :
    Run (MemTierEmbeddingBag × Option (List Served)) := do
  let (handle, result) ← memtierLookupBlocks bag.handle (blockIds.map UInt64.ofNat)
  if result.rc ≠ 0 then return ({ bag with handle }, none)
  return ({ bag with handle }, some result.served)

/-- What `forward` returns. -/
structure Output where
  numBlocks : Nat
  paths : List ServedBy
  devicePtrs : List Nat
  deriving DecidableEq, Repr

/-- `forward`; `none` when it raises. -/
def forward (bag : MemTierEmbeddingBag) (ids : List UInt64) (mode : String) :
    Run (MemTierEmbeddingBag × Option Output) :=
  if mode ≠ "sum" ∧ mode ≠ "mean" then return (bag, none)
  else do
    let blockIds := idsToBlocks (intIds ids) bag.rowsPerBlock
    match ← bag.lookupBlocks blockIds with
    | (bag, none) => return (bag, none)
    | (bag, some served) =>
        return (bag, some
          { numBlocks := blockIds.length
            paths := served.map Served.path
            devicePtrs := served.map Served.devicePtr })

end MemTierEmbeddingBag

/-- The loop of `run`; no statistics when it raises. -/
def runBatches (mode : String) (bag : MemTierEmbeddingBag) (statistics : Statistics) :
    List (List UInt64) → Run (MemTierEmbeddingBag × Option Statistics)
  | [] => return (bag, some statistics)
  | batch :: batches => do
      match ← bag.forward batch mode with
      | (bag, none) => return (bag, none)
      | (bag, some _) =>
          runBatches mode bag (statistics.add bag.rowsPerBlock batch) batches

/-- What `run` reports of a run that does not raise. -/
structure RunResult where
  statistics : Statistics
  hbmHitRate : ℚ
  dramHitRate : ℚ
  ssdReadBytes : Nat
  dramToGpuBytes : Nat
  posixReads : Nat
  gdsReads : Nat
  numUniqueIds : Nat
  numUniqueBlocks : Nat
  dramCacheHitRate : ℚ
  ssdTrafficReductionVsCpuStaging : ℚ

/-- The result at the end, from the metrics of the runtime. -/
def RunResult.of (sizes : Sizes) (statistics : Statistics) (metrics : Metrics) : RunResult where
  statistics := statistics
  hbmHitRate := metrics.hbmHits.toNat / (metrics.lookups : ℚ)
  dramHitRate := metrics.dramHits.toNat / (metrics.lookups : ℚ)
  ssdReadBytes := metrics.bytesReadFromSsd.toNat
  dramToGpuBytes := metrics.bytesCopiedDramToGpu.toNat
  posixReads := metrics.posixReads.toNat
  gdsReads := metrics.gdsReads.toNat
  numUniqueIds := statistics.allUniqueIds.card
  numUniqueBlocks := statistics.allUniqueBlocks.card
  dramCacheHitRate := metrics.dramHits.toNat /
    (max (metrics.dramHits.toNat + metrics.posixReads.toNat) 1 : Nat)
  ssdTrafficReductionVsCpuStaging := 1 - metrics.bytesReadFromSsd.toNat /
    (max (statistics.allUniqueBlocks.card * sizes.rowsPerBlock * sizes.embeddingDim *
      sizes.dtypeSize) 1 : Nat)

/-- `run`, after the constructor; `none` when it raises. -/
def memtierRun (sizes : Sizes) (mode : String) (bag : MemTierEmbeddingBag)
    (batches : List (List UInt64)) : Run (MemTierEmbeddingBag × Option RunResult) := do
  match ← runBatches mode bag {} batches with
  | (bag, none) => return (bag, none)
  | (bag, some statistics) => return (bag, some (.of sizes statistics bag.handle.metrics))

/-! ## The baseline -/

/-- `os.pread`. -/
inductive StagingOp where
  | pread (count offset : Nat)
  deriving DecidableEq, Repr

/-- The bytes delivered, none when the call raises. -/
abbrev StagingReply : StagingOp → Type
  | .pread _ _ => Option Bytes

/-- Python retries a call that was interrupted. -/
def stagingEnvironment (file : Bytes) : Environment Unit Choice StagingReply where
  serve _ op choice :=
    match op with
    | .pread count offset =>
        match MemTier.pread file count offset choice with
        | none => none
        | some .error => some (none, ())
        | some (.data bytes) => some (some bytes, ())
  background _ _ := True
  permits _ _ := True
  background_refl _ := trivial

instance (file : Bytes) : ∀ op reply, Decidable ((stagingEnvironment file).permits op reply) :=
  fun _ _ => instDecidableTrue

def StagingOp.run (count offset : Nat) : Prog StagingReply (Option Bytes) :=
  Prog.perform (StagingOp.pread count offset)

/-- Bytes read, bytes copied to the device, and reads made. -/
structure Staging where
  bytesRead : Nat := 0
  dramToGpu : Nat := 0
  posixReads : Nat := 0
  deriving DecidableEq, Repr

/-- The loop over the blocks of a batch; `none` when a read fails or is short. -/
def stageBlocks (blockBytes : Nat) (torchCopy : Bool) (staging : Staging) :
    List Nat → Prog StagingReply (Option Staging)
  | [] => return some staging
  | block :: blocks => do
      match ← StagingOp.run blockBytes (block * blockBytes) with
      | none => return none
      | some data =>
          if data.length ≠ blockBytes then return none
          else
            let staging :=
              { bytesRead := staging.bytesRead + data.length
                dramToGpu := staging.dramToGpu + if torchCopy then blockBytes else 0
                posixReads := staging.posixReads + 1 }
            stageBlocks blockBytes torchCopy staging blocks

/-- The loop over the batches. -/
def stageBatches (rowsPerBlock blockBytes : Nat) (torchCopy : Bool) (statistics : Statistics)
    (staging : Staging) : List (List UInt64) → Prog StagingReply (Option (Statistics × Staging))
  | [] => return some (statistics, staging)
  | batch :: batches => do
      match ← stageBlocks blockBytes torchCopy staging
          (idsToBlocks (intIds batch) rowsPerBlock) with
      | none => return none
      | some staging =>
          stageBatches rowsPerBlock blockBytes torchCopy (statistics.add rowsPerBlock batch) staging
            batches

/-- `run` of the baseline: the statistics, and what was read. -/
def cpuStagingRun (sizes : Sizes) (torchCopy : Bool) (batches : List (List UInt64)) :
    Prog StagingReply (Option (Statistics × Staging)) :=
  stageBatches sizes.rowsPerBlock (sizes.rowsPerBlock * sizes.embeddingDim * sizes.dtypeSize)
    torchCopy {} {} batches

end MemTier.Embedding
