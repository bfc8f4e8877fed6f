import Mathlib.Data.List.SplitLengths
import MemTier.Containers.RecencyStack
import MemTier.Trace.Reader

/-!
# Analysing traces

`analyze_trace_file` runs through the batches of a trace.  It simulates caches of several sizes on
the blocks of every batch, and splits the blocks among ranks to see how many they share.
-/

namespace MemTier.Trace

open Containers

/-! ## Simulated caches -/

/-- One of the simulated caches, with its entry of `hits`. -/
structure LruSim where
  cap : Nat
  /-- The keys of the ordered dictionary, the one to be popped first. -/
  cache : List Nat
  hits : Nat
  deriving DecidableEq, Repr

namespace LruSim

def new (cap : Nat) : LruSim where
  cap
  cache := []
  hits := 0

/-- The body of the inner loop of `update_lru_sims`. -/
def use (sim : LruSim) (block : Nat) : LruSim :=
  if block ∈ sim.cache then
    { sim with cache := sim.cache.erase block ++ [block], hits := sim.hits + 1 }
  else
    let cache := sim.cache ++ [block]
    { sim with cache := if sim.cap < cache.length then cache.tail else cache }

/-- Whether `popitem` is called. -/
def pops (sim : LruSim) (block : Nat) : Bool :=
  block ∉ sim.cache && decide (sim.cap < (sim.cache ++ [block]).length)

end LruSim

/-- `update_lru_sims`: the number of accesses, and the caches afterwards. -/
def updateLruSims (blocks : List Nat) (sims : List LruSim) : Nat × List LruSim :=
  blocks.foldl (fun (total, sims) block => (total + 1, sims.map (·.use block))) (0, sims)

/-! ## Ranks -/

/-- The lengths of the parts of `np.array_split`. -/
def partLengths (length parts : Nat) : List Nat :=
  List.replicate (length % parts) (length / parts + 1) ++
    List.replicate (parts - length % parts) (length / parts)

/-- `np.array_split`. -/
def arraySplit (values : List Nat) (parts : Nat) : List (List Nat) :=
  (partLengths values.length parts).splitLengths values

/-- Number of ranks. -/
def ranks : Nat := 4

/-- `batch_multi_gpu_overlap`: the share of duplicates, and their number. -/
def batchMultiGpuOverlap (blocks : List Nat) : ℚ × Int :=
  let sets := (arraySplit blocks ranks).map List.toFinset
  let union := sets.foldl (· ∪ ·) ∅
  let totalRankBlocks := (sets.map Finset.card).sum
  let duplicate : Int := totalRankBlocks - union.card
  (duplicate / (max totalRankBlocks 1 : Nat), duplicate)

/-! ## The analysis -/

/-- The loop variables that the reported results are made of. -/
structure Tally where
  sims : List LruSim
  simTotal : Nat
  overlapRatios : List ℚ
  duplicateBlocks : List Int

/-- One round of the loop over batches. -/
def Tally.batch (rows : Nat) (tally : Tally) (ids : List Nat) : Tally :=
  let blocks := Arrays.unique (ids.map (· / rows))
  let (accesses, sims) := updateLruSims blocks tally.sims
  let (overlapRatio, duplicateCount) := batchMultiGpuOverlap blocks
  { sims
    simTotal := tally.simTotal + accesses
    overlapRatios := tally.overlapRatios ++ [overlapRatio]
    duplicateBlocks := tally.duplicateBlocks ++ [duplicateCount] }

/-- Sizes of DRAM, in gibibytes. -/
def dramGb : List Nat := [1, 4, 8, 16, 32]

def capacities (blockBytes : Nat) : List Nat :=
  dramGb.map fun gb => max 1 (gb * 1024 ^ 3 / max blockBytes 1)

/-- The loop variables at first.  Equal capacities share a simulation. -/
def Tally.initial (blockBytes : Nat) : Tally where
  sims := (capacities blockBytes).dedup.map LruSim.new
  simTotal := 0
  overlapRatios := []
  duplicateBlocks := []

/-- `sim_hits[cap] / max(sim_total, 1)`. -/
def Tally.hitRate (tally : Tally) (cap : Nat) : ℚ :=
  ((tally.sims.find? (·.cap = cap)).map LruSim.hits).getD 0 / (max tally.simTotal 1 : Nat)

/-- `cache_simulation`, through a dictionary from the texts of capacities to rates. -/
def Tally.cacheSimulation (tally : Tally) (blockBytes : Nat) : List (Nat × ℚ) :=
  let rates := (capacities blockBytes).map fun cap => (cap.repr, tally.hitRate cap)
  (dramGb.zip (capacities blockBytes)).map fun (gb, cap) => (gb, (rates.lookup cap.repr).getD 0)

/-- `mean(values) if values else 0.0`. -/
def meanOf (values : List ℚ) : ℚ :=
  if values = [] then 0 else values.sum / values.length

/-- What is reported. -/
structure TraceStats where
  numBatches : Nat
  cacheSimulation : List (Nat × ℚ)
  avgOverlapRatio : ℚ
  avgDuplicateBlocks : ℚ

/-- The loop variables after all batches. -/
def tallyTrace (trace : EmbeddingTrace) (rowsPerBlock blockBytes : Nat) : Except PyError Tally := do
  let batches ← trace.iterBatches
  -- A number of rows that does not fit is noticed in the first round.
  if batches ≠ [] then
    let _ ← uint64 rowsPerBlock
  return batches.foldl (Tally.batch rowsPerBlock) (Tally.initial blockBytes)

def analyzeTraceFile (file : TraceFile) (rowsPerBlock blockBytes : Nat) :
    Except PyError TraceStats := do
  let trace ← EmbeddingTrace.init file (some rowsPerBlock)
  let tally ← tallyTrace trace rowsPerBlock blockBytes
  return ⟨← trace.numBatches, tally.cacheSimulation blockBytes, meanOf tally.overlapRatios,
    meanOf (tally.duplicateBlocks.map fun count => (count : ℚ))⟩

end MemTier.Trace
