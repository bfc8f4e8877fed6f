import MemTier.Containers.Scatter
import MemTier.Embedding.TableFile

/-!
# The embedding bag kernel

`launch_embedding_bag` starts one thread for each dimension of each bag.  A thread looks the block
of every identifier of its bag up in a list, and accumulates one element of the row it finds there.
-/

namespace MemTier.Embedding

open Containers

/-- Floating-point arithmetic, as the kernels use it. -/
structure FloatOps (float : Type) where
  zero : float
  add : float → float → float
  div : float → float → float
  ofInt : Int → float
  /-- Four bytes of memory, taken for a number. -/
  ofBytes : Bytes → float
  /-- Two bytes of memory, taken for a half and widened. -/
  half2float : Bytes → float

/-- What a kernel is launched with.  All numbers are of type `int`. -/
structure BagArgs where
  ids : List UInt64
  batchSize : Int
  bagSize : Int
  blockPtrs : List Nat
  blockIds : List UInt64
  numBlocks : Int
  rowsPerBlock : Int
  embeddingDim : Int
  meanMode : Int

/-- `static_cast<int>` of an unsigned number. -/
def toInt (value : Nat) : Int := Int.bmod value (2 ^ 32)

/-- Conversion to `uint64_t`. -/
def toUInt64 (value : Int) : Nat := (value % 2 ^ 64).toNat

/-- `find_block` from an index on; `none` is an access outside the array. -/
def findBlock (blockId : UInt64) (blockIds : List UInt64) (numBlocks : Int) (i : Nat) :
    Option Int :=
  if _more : i < numBlocks then do
    if (← blockIds[i]?) = blockId then return i
    findBlock blockId blockIds numBlocks (i + 1)
  else return -1
termination_by (numBlocks - i).toNat

/-- One of the threads of a launch. -/
@[ext] structure Thread where
  blockX : Nat
  blockY : Nat
  threadX : Nat
  deriving DecidableEq, Repr

/-- Number of threads of a block. -/
def kThreads : Nat := 128

namespace Thread

def bag (thread : Thread) : Int := toInt thread.blockX

def dim (thread : Thread) : Int :=
  toInt ((thread.threadX + thread.blockY * kThreads) % 2 ^ 32)

end Thread

section

variable {float : Type} (ops : FloatOps float)

/-- One round of the loop over a bag.  Elements have `size` bytes each and are read by `load`. -/
def bagRound (size : Nat) (load : Bytes → float) (memory : Memory) (args : BagArgs) (bag dim : Int)
    (acc : float) (j : Nat) : Option float := do
  let id ← args.ids[toUInt64 (bag * args.bagSize + j)]?
  let rows := UInt64.ofNat (toUInt64 args.rowsPerBlock)
  let row := toInt (id % rows).toNat
  let blockIndex ← findBlock (id / rows) args.blockIds args.numBlocks 0
  if 0 ≤ blockIndex then
    let block ← args.blockPtrs[blockIndex.toNat]?
    let element := toUInt64 (row * args.embeddingDim + dim)
    return ops.add acc (load (memory.read (block + element * size) size))
  else return acc

/-- The mean instead of the sum, if it is asked for. -/
def finish (args : BagArgs) (acc : float) : float :=
  if args.meanMode ≠ 0 ∧ 0 < args.bagSize then ops.div acc (ops.ofInt args.bagSize) else acc

/-- The body of both kernels: the cell of `output` that a thread stores into, with its value. -/
def embeddingBagKernel (size : Nat) (load : Bytes → float) (memory : Memory) (args : BagArgs)
    (thread : Thread) : Option (Option (Nat × float)) :=
  if args.batchSize ≤ thread.bag ∨ args.embeddingDim ≤ thread.dim then return none
  else do
    let acc ← (List.range args.bagSize.toNat).foldlM
      (bagRound ops size load memory args thread.bag thread.dim) ops.zero
    return some (toUInt64 (thread.bag * args.embeddingDim + thread.dim), finish ops args acc)

def embeddingBagFp32Kernel : Memory → BagArgs → Thread → Option (Option (Nat × float)) :=
  embeddingBagKernel ops 4 ops.ofBytes

def embeddingBagFp16Kernel : Memory → BagArgs → Thread → Option (Option (Nat × float)) :=
  embeddingBagKernel ops 2 ops.half2float

/-! ## Launching -/

/-- The grid of a launch. -/
def grid (args : BagArgs) : Nat × Nat :=
  ((args.batchSize % 2 ^ 32).toNat,
    ((args.embeddingDim + kThreads - 1).tdiv kThreads % 2 ^ 32).toNat)

/-- The grids that a device accepts. -/
def AcceptsGrid (grid : Nat × Nat) : Prop :=
  (0 < grid.1 ∧ grid.1 < 2 ^ 31) ∧ 0 < grid.2 ∧ grid.2 ≤ 65535

instance (grid : Nat × Nat) : Decidable (AcceptsGrid grid) := inferInstanceAs (Decidable (_ ∧ _))

/-- The threads of a grid. -/
def threads (grid : Nat × Nat) : List Thread :=
  (List.range grid.1).flatMap fun blockX => (List.range grid.2).flatMap fun blockY =>
    (List.range kThreads).map fun threadX => { blockX, blockY, threadX }

/-- `launch_embedding_bag`, for pointers that are not null: the return code, and the output array
after the threads have run in the given order. -/
def launchEmbeddingBag (memory : Memory) (args : BagArgs) (dtypeSize : Int) (order : List Thread)
    (output : List float) : Option (Int × List float) :=
  if AcceptsGrid (grid args) then do
    let kernel :=
      if dtypeSize = 2 then embeddingBagFp16Kernel ops memory args
      else embeddingBagFp32Kernel ops memory args
    let output ← Scatter.run kernel order output
    return (0, output)
  else return (-1, output)

end

end MemTier.Embedding
