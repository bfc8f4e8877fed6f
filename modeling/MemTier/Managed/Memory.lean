import MemTier.Resumption.Duties
import MemTier.Containers.Intervals

/-!
# Managed memory

The PyTorch extension takes managed memory from the CUDA driver, fills it from files and wraps it as
tensors. It keeps two accounts of what it has taken, the size of each allocation and the sum of all
sizes, each brought up to date in a step of its own after the driver has been called. Programs
follow the source; what the driver, the file system and PyTorch answer is chosen by the
environment. Times are not modelled.
-/

namespace MemTier.Managed

open Resumption Containers.Intervals

/-- An address; zero is the null pointer. -/
abbrev Address := UInt64

/-- Memory that the driver has handed out. `era` is the number of calls of `reset_stats` before
that; no code reads it. -/
structure Block where
  address : Address
  bytes : UInt64
  era : Nat
  deriving DecidableEq, Repr

structure Stats where
  allocatedBytes : UInt64 := 0
  fileReadBytes : UInt64 := 0
  numAllocations : UInt64 := 0
  numPrefetchGpu : UInt64 := 0
  deriving DecidableEq, Repr

/-- What the driver has handed out and what the extension has noted about it. The number of calls
of `reset_stats` and whether the counter was ever decreased below zero are noted for statements
only. -/
structure Memory where
  live : List Block := []
  allocSizes : Address → Option UInt64 := fun _ => none
  stats : Stats := {}
  era : Nat := 0
  wrapped : Bool := false

namespace Memory

/-- `cudaMallocManaged` may hand out memory that is not null and of which nothing is live. -/
def Fresh (memory : Memory) (address : Address) (bytes : UInt64) : Prop :=
  address ≠ 0 ∧ address.toNat + bytes.toNat ≤ 2 ^ 64 ∧
    ∀ block ∈ memory.live, block.address ≠ address ∧
      Apart (fun block => block.address.toNat) (fun block => block.bytes.toNat)
        ⟨address, bytes, memory.era⟩ block

instance (memory : Memory) (address : Address) (bytes : UInt64) :
    Decidable (memory.Fresh address bytes) :=
  inferInstanceAs (Decidable (_ ∧ _ ∧ _))

/-- The effect of `cudaMallocManaged`. -/
def allocated (memory : Memory) (address : Address) (bytes : UInt64) : Memory :=
  { memory with live := ⟨address, bytes, memory.era⟩ :: memory.live }

def IsLive (memory : Memory) (ptr : Address) : Prop := ∃ block ∈ memory.live, block.address = ptr

instance (memory : Memory) (ptr : Address) : Decidable (memory.IsLive ptr) :=
  inferInstanceAs (Decidable (∃ block ∈ memory.live, block.address = ptr))

/-- The effect of `cudaFree` on a live address. -/
def freed (memory : Memory) (ptr : Address) : Memory :=
  { memory with live := memory.live.filter (·.address ≠ ptr) }

/-- `record_allocation`. -/
def recordAllocation (memory : Memory) (ptr : Address) (bytes : UInt64) : Memory :=
  { memory with
    allocSizes := Function.update memory.allocSizes ptr (some bytes)
    stats := { memory.stats with
      allocatedBytes := memory.stats.allocatedBytes + bytes
      numAllocations := memory.stats.numAllocations + 1 } }

/-- `record_free`. -/
def recordFree (memory : Memory) (ptr : Address) (fallbackBytes : UInt64) : Memory :=
  let bytes := (memory.allocSizes ptr).getD fallbackBytes
  { memory with
    allocSizes := Function.update memory.allocSizes ptr none
    stats := { memory.stats with allocatedBytes := memory.stats.allocatedBytes - bytes }
    wrapped := memory.wrapped || memory.stats.allocatedBytes < bytes }

end Memory

/-! ## Operations -/

/-- Calls that only succeed or fail. The CPU as a device is `none`. -/
inductive DriverCall where
  | cudaGuard (device : Int)
  | setPreferredLocation (ptr : Address) (bytes : UInt64) (device : Option Int)
  | setAccessedBy (ptr : Address) (bytes : UInt64) (device : Int)
  | memPrefetchAsync (ptr : Address) (bytes : UInt64) (device : Int)
  | streamSynchronize
  deriving DecidableEq, Repr

/-- What becomes of `torch::from_blob`: a tensor, or an exception, before or after the memory was
put under the care of the deleter. -/
inductive Blob where
  | tensor
  | thrown (owned : Bool)
  deriving DecidableEq, Repr

inductive Op where
  | cudaGetDeviceCount
  | driver (call : DriverCall)
  | cudaMallocManaged (bytes : UInt64)
  | recordAllocation (ptr : Address) (bytes : UInt64)
  | cudaFree (ptr : Address)
  | recordFree (ptr : Address) (fallbackBytes : UInt64)
  | preadExact (path : String) (offset : UInt64) (dst : Address) (bytes : UInt64)
  | countFileRead (bytes : UInt64)
  | fromBlob (ptr : Address) (rows cols : Int64)
  | countPrefetchGpu
  | resetStats
  deriving DecidableEq, Repr

/-- Replies; `none` is an error of the driver, and a text the exception of `pread_exact`. -/
abbrev Reply : Op → Type
  | .cudaGetDeviceCount => Option Int
  | .driver _ => Bool
  | .cudaMallocManaged _ => Option Address
  | .cudaFree _ => Bool
  | .preadExact .. => Option String
  | .fromBlob .. => Blob
  | _ => Unit

/-- What the environment chooses. -/
structure Choice where
  count : Option Int := some 1
  ok : Bool := true
  address : Option Address := none
  exception : Option String := none
  blob : Blob := .tensor
  deriving Repr

def serve : Server Memory Choice Reply
  | memory, .cudaGetDeviceCount, choice => some (choice.count, memory)
  | memory, .driver _, choice => some (choice.ok, memory)
  | memory, .cudaMallocManaged bytes, choice =>
      match choice.address with
      | none => some (none, memory)
      | some address =>
          if memory.Fresh address bytes then some (some address, memory.allocated address bytes)
          else none
  | memory, .recordAllocation ptr bytes, _ => some ((), memory.recordAllocation ptr bytes)
  | memory, .cudaFree ptr, _ =>
      if memory.IsLive ptr then some (true, memory.freed ptr) else some (false, memory)
  | memory, .recordFree ptr fallbackBytes, _ => some ((), memory.recordFree ptr fallbackBytes)
  | memory, .preadExact .., choice => some (choice.exception, memory)
  | memory, .countFileRead bytes, _ =>
      some ((), { memory with stats := { memory.stats with
        fileReadBytes := memory.stats.fileReadBytes + bytes } })
  | memory, .fromBlob .., choice => some (choice.blob, memory)
  | memory, .countPrefetchGpu, _ =>
      some ((), { memory with stats := { memory.stats with
        numPrefetchGpu := memory.stats.numPrefetchGpu + 1 } })
  | memory, .resetStats, _ => some ((), { memory with stats := {}, era := memory.era + 1 })

/-! ## Programs -/

/-- Exceptions. Of a failed CUDA call the text of the call is kept. -/
inductive Failure where
  | cudaError (expr : String)
  | c10Error (source : String)
  | runtimeError (message : String)
  | invalidArgument (message : String)
  deriving DecidableEq, Repr

abbrev Program (α : Type) : Type := Throwing Reply Failure α

abbrev request (op : Op) : Program (Reply op) := issue op

/-- A tensor over managed memory, with what its deleter has captured. -/
structure Tensor where
  ptr : Address
  bytes : UInt64
  deriving DecidableEq, Repr

/-- `MEMTIER_CUDA_CHECK`. -/
def cudaCheck (expr : String) (call : DriverCall) : Program Unit := do
  let ok ← request (.driver call)
  require ok (.cudaError expr)

def ensureCudaDevice (device : Int) : Program Unit := do
  match ← request .cudaGetDeviceCount with
  | none => throw (.cudaError "cudaGetDeviceCount(&count)")
  | some count =>
      require (0 < count)
        (.runtimeError "MemTier requires CUDA, but no CUDA device is visible")
      require (0 ≤ device ∧ device < count)
        (.runtimeError s!"Invalid CUDA device {device}; visible device count is {count}")

/-- The constructor of `c10::cuda::CUDAGuard`. -/
def cudaGuard (device : Int) : Program Unit := do
  let ok ← request (.driver (.cudaGuard device))
  require ok (.c10Error "CUDAGuard")

def cudaFreeNoexcept (ptr : Address) (bytes : UInt64) : Program Unit :=
  if ptr = 0 then pure ()
  else do
    match ← request (.cudaFree ptr) with
    | true => request (.recordFree ptr bytes)
    | false => pure ()

def allocateManaged (bytes : UInt64) (device : Int) : Program Address := do
  ensureCudaDevice device
  cudaGuard device
  match ← request (.cudaMallocManaged bytes) with
  | none => throw (.cudaError "cudaMallocManaged(&ptr, bytes, cudaMemAttachGlobal)")
  | some ptr => do
      request (.recordAllocation ptr bytes)
      pure ptr

def freeManaged (addr : Address) : Program Unit :=
  if addr = 0 then pure ()
  else do
    match ← request (.cudaFree addr) with
    | true => request (.recordFree addr 0)
    | false => throw (.cudaError "cudaFree(ptr)")

def advisePreferredCpu (addr : Address) (bytes : UInt64) : Program Unit :=
  cudaCheck "cudaMemAdvise(ptr, bytes, cudaMemAdviseSetPreferredLocation, cudaCpuDeviceId)"
    (.setPreferredLocation addr bytes none)

def advisePreferredGpu (addr : Address) (bytes : UInt64) (device : Int) : Program Unit := do
  ensureCudaDevice device
  cudaCheck "cudaMemAdvise(ptr, bytes, cudaMemAdviseSetPreferredLocation, device)"
    (.setPreferredLocation addr bytes (some device))

def adviseAccessedByGpu (addr : Address) (bytes : UInt64) (device : Int) : Program Unit := do
  ensureCudaDevice device
  cudaCheck "cudaMemAdvise(ptr, bytes, cudaMemAdviseSetAccessedBy, device)"
    (.setAccessedBy addr bytes device)

def prefetchToGpu (addr : Address) (bytes : UInt64) (device : Int) : Program Unit := do
  ensureCudaDevice device
  cudaGuard device
  cudaCheck "cudaMemPrefetchAsync(ptr, bytes, device, stream)" (.memPrefetchAsync addr bytes device)
  cudaCheck "cudaStreamSynchronize(stream)" .streamSynchronize
  request .countPrefetchGpu

/-- `rows * cols * sizeof(float)` as a `size_t`. -/
def tensorBytes (rows cols : Int64) : UInt64 := rows.toUInt64 * cols.toUInt64 * 4

/-- `torch::from_blob` with `cuda_free_noexcept` as the deleter. -/
def fromBlob (ptr : Address) (rows cols : Int64) (bytes : UInt64) : Program Tensor := do
  match ← request (.fromBlob ptr rows cols) with
  | .tensor => pure { ptr, bytes }
  | .thrown true => do
      cudaFreeNoexcept ptr bytes
      throw (.c10Error "from_blob")
  | .thrown false => throw (.c10Error "from_blob")

/-- The file is read into the managed memory. -/
def readFile (path : String) (offset : UInt64) (ptr : Address) (bytes : UInt64) : Program Unit := do
  match ← request (.preadExact path offset ptr bytes) with
  | some message => throw (.runtimeError message)
  | none => request (.countFileRead bytes)

/-- If the file cannot be read the memory is given back. -/
def readIntoManaged (path : String) (offset : UInt64) (ptr : Address) (bytes : UInt64) :
    Program Unit :=
  tryCatch (readFile path offset ptr bytes) fun failure => do
    cudaFreeNoexcept ptr bytes
    throw failure

def loadFileToManaged (path : String) (offset : UInt64) (rows cols : Int64) (device : Int) :
    Program Tensor := do
  require (0 < rows ∧ 0 < cols) (.invalidArgument "rows and cols must be positive")
  let ptr ← allocateManaged (tensorBytes rows cols) device
  readIntoManaged path offset ptr (tensorBytes rows cols)
  fromBlob ptr rows cols (tensorBytes rows cols)

def applyPrefetchPolicy (prefetchPolicy : String) (addr : Address) (bytes : UInt64) (device : Int) :
    Program Unit :=
  if prefetchPolicy = "cpu" then advisePreferredCpu addr bytes
  else if prefetchPolicy = "gpu" then do
    advisePreferredGpu addr bytes device
    prefetchToGpu addr bytes device
  else if prefetchPolicy = "accessed_by" then adviseAccessedByGpu addr bytes device
  else if prefetchPolicy = "none" then pure ()
  else throw (.invalidArgument s!"Unknown MemTier prefetch policy: {prefetchPolicy}")

/-- When the policy throws, the tensor goes out of scope and its deleter runs. -/
def uvmTensorFromFile (path : String) (rows cols : Int64) (offset : UInt64) (device : Int)
    (prefetchPolicy : String) : Program Tensor := do
  let tensor ← loadFileToManaged path offset rows cols device
  tryCatch (applyPrefetchPolicy prefetchPolicy tensor.ptr (tensorBytes rows cols) device)
    fun failure => do
      cudaFreeNoexcept tensor.ptr tensor.bytes
      throw failure
  pure tensor

def resetStats : Program Unit := request .resetStats

/-! ## Calls -/

/-- What a caller can do. Tensors are named by their place among those that exist. -/
inductive Call where
  | allocateManaged (bytes : UInt64) (device : Int)
  | loadFileToManaged (path : String) (offset : UInt64) (rows cols : Int64) (device : Int)
  | uvmTensorFromFile (path : String) (rows cols : Int64) (offset : UInt64) (device : Int)
      (prefetchPolicy : String)
  | freeManaged (addr : Address)
  | destroyTensor (index : Nat)
  | resetStats
  deriving DecidableEq, Repr

/-- The program of a call and the tensors that exist besides the one it may return; none for a
tensor that does not exist. -/
def Call.program (tensors : List Tensor) : Call → Option (Program (Option Tensor) × List Tensor)
  | .allocateManaged bytes device =>
      some (do let _ ← Managed.allocateManaged bytes device; pure none, tensors)
  | .loadFileToManaged path offset rows cols device =>
      some (do let tensor ← Managed.loadFileToManaged path offset rows cols device
               pure (some tensor), tensors)
  | .uvmTensorFromFile path rows cols offset device prefetchPolicy =>
      some (do let tensor ← Managed.uvmTensorFromFile path rows cols offset device prefetchPolicy
               pure (some tensor), tensors)
  | .freeManaged addr => some (do Managed.freeManaged addr; pure none, tensors)
  | .destroyTensor index =>
      match tensors[index]? with
      | none => none
      | some tensor =>
          some (do cudaFreeNoexcept tensor.ptr tensor.bytes; pure none, tensors.eraseIdx index)
  | .resetStats => some (do Managed.resetStats; pure none, tensors)

/-- The tensors that exist after a call. -/
def keepTensor (tensors : List Tensor) : Except Failure (Option Tensor) → List Tensor
  | .ok (some tensor) => tensors ++ [tensor]
  | _ => tensors

end MemTier.Managed
