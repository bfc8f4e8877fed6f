import MemTier.Embedding.Machine

/-!
# Looking blocks up

`memtier_lookup_blocks` brings every block of a batch into device memory and returns where each
of them is.  An exception leaves the loop where it was thrown; what the handle recorded until then
stays.
-/

namespace MemTier.Embedding

open Containers Resumption

/-- Which tier served a block. -/
inductive ServedBy where
  | hbmHit | dramHit | posixRead | gdsRead | uvmFault
  deriving DecidableEq, Repr

structure Metrics where
  hbmHits : UInt64 := 0
  dramHits : UInt64 := 0
  dramMisses : UInt64 := 0
  posixReads : UInt64 := 0
  gdsReads : UInt64 := 0
  evictionCount : UInt64 := 0
  bytesReadFromSsd : UInt64 := 0
  bytesCopiedDramToGpu : UInt64 := 0
  deriving DecidableEq, Repr

structure Handle where
  config : Config
  blockBytes : UInt64
  residency : ResidencyTable
  dramCache : DramCache
  hbmCache : HbmCache
  metrics : Metrics

/-- `memtier_init_embedding`, for allocations at the given addresses. -/
def memtierInitEmbedding (config : Config) (dramBase hbmBase : Nat) : Option Handle :=
  if config.embeddingDim = 0 ∨ config.rowsPerBlock = 0 ∨ config.dtypeSize = 0 then none
  else do
    let blockBytes := config.blockSizeBytes
    let dramCache ← DramCache.new dramBase config.dramCacheBytes.toNat blockBytes.toNat
    return {
      config
      blockBytes
      residency := ResidencyTable.new
      dramCache
      hbmCache := HbmCache.new hbmBase config.hbmCacheBytes.toNat blockBytes.toNat
      metrics := {} }

/-! ## Bookkeeping of one round -/

namespace Handle

/-- The residency lookup at the start of a round. -/
def noteAccess (handle : Handle) (block : BlockId) : Handle :=
  { handle with residency := (handle.residency.lookup block).2 }

def countHbmHit (handle : Handle) : Handle :=
  { handle with metrics := { handle.metrics with hbmHits := handle.metrics.hbmHits + 1 } }

def countDramHit (handle : Handle) : Handle :=
  { handle with metrics := { handle.metrics with dramHits := handle.metrics.dramHits + 1 } }

def markDram (handle : Handle) (block : BlockId) (dramPtr : Nat) : Handle :=
  { handle with residency := handle.residency.markDram block dramPtr }

/-- Ask the DRAM cache. -/
def searchDram (handle : Handle) (block : BlockId) : Handle :=
  { handle with dramCache := (handle.dramCache.get block).2 }

/-- Count a miss and enter the block into the DRAM cache, before anything is read. -/
def beginLoad (handle : Handle) (block : BlockId) : Handle :=
  { handle with
    metrics := { handle.metrics with dramMisses := handle.metrics.dramMisses + 1 }
    residency := handle.residency.markLoading block
    dramCache := (handle.dramCache.allocateSlotForLoad block).2 }

/-- The slot that `beginLoad` enters the block at. -/
def loadPtr (handle : Handle) (block : BlockId) : Nat :=
  (handle.dramCache.allocateSlotForLoad block).1

def countRead (handle : Handle) (read : Nat) : Handle :=
  { handle with
    metrics := { handle.metrics with
      posixReads := handle.metrics.posixReads + 1
      bytesReadFromSsd := handle.metrics.bytesReadFromSsd + UInt64.ofNat read } }

/-- Enter the block into the HBM cache.  A block evicted for it loses its residency entry, unless
its identifier is the one that stands for no eviction. -/
def beginCopy (handle : Handle) (block : BlockId) : Handle :=
  let ((_, evicted), hbmCache) := handle.hbmCache.allocate block
  { handle with
    hbmCache
    residency :=
      if evicted ≠ uint64Max then handle.residency.erase evicted else handle.residency }

/-- The slot that `beginCopy` enters the block at. -/
def copyPtr (handle : Handle) (block : BlockId) : Nat := (handle.hbmCache.allocate block).1.1

def finishCopy (handle : Handle) (block : BlockId) (devicePtr : Nat) : Handle :=
  { handle with
    metrics := { handle.metrics with
      bytesCopiedDramToGpu := handle.metrics.bytesCopiedDramToGpu + handle.blockBytes }
    residency := handle.residency.markHbm block devicePtr }

end Handle

/-! ## The loop -/

/-- Where a block of the batch is and which tier served it. -/
structure Served where
  devicePtr : Nat
  path : ServedBy
  deriving DecidableEq, Repr

/-- A block that is not recorded anywhere: find it in the DRAM cache or read it. -/
def findInDram (handle : Handle) (block : BlockId) : Run (Handle × Option (Nat × ServedBy)) :=
  let searched := handle.searchDram block
  match (handle.dramCache.get block).1 with
  | some dramPtr => return (searched.countDramHit.markDram block dramPtr, some (dramPtr, .dramHit))
  | none => do
      let dramPtr := searched.loadPtr block
      let loading := searched.beginLoad block
      match ← gdsLoadBlockOrPosix loading.config block dramPtr loading.blockBytes.toNat with
      | none => return (loading, none)
      | some read =>
          return ((loading.countRead read).markDram block dramPtr, some (dramPtr, .posixRead))

/-- From host memory to device memory; `none` when the copy cannot be issued. -/
def copyToHbm (handle : Handle) (block : BlockId) (dramPtr : Nat) (path : ServedBy) :
    Run (Handle × Option Served) := do
  let devicePtr := handle.copyPtr block
  let placed := handle.beginCopy block
  if ← Run.memcpyAsync
      { block, dst := devicePtr, src := dramPtr, bytes := handle.blockBytes.toNat } then
    return (placed.finishCopy block devicePtr, some { devicePtr, path })
  else return (placed, none)

/-- One round of the loop; `none` when an exception was thrown. -/
def lookupBlock (handle : Handle) (block : BlockId) : Run (Handle × Option Served) :=
  let noted := handle.noteAccess block
  match (handle.residency.lookup block).1.location with
  | .hbm devicePtr => return (noted.countHbmHit, some { devicePtr, path := .hbmHit })
  | .dram dramPtr => copyToHbm noted.countDramHit block dramPtr .dramHit
  | .nowhere => do
      match ← findInDram noted block with
      | (handle, none) => return (handle, none)
      | (handle, some (dramPtr, path)) => copyToHbm handle block dramPtr path

/-- The loop over a batch.  Returns what was stored into the output arrays, and whether it ran to
the end. -/
def lookupLoop (handle : Handle) : List BlockId → Run (Handle × List Served × Bool)
  | [] => return (handle, [], true)
  | block :: rest => do
      match ← lookupBlock handle block with
      | (handle, none) => return (handle, [], false)
      | (handle, some served) => do
          let (handle, later, complete) ← lookupLoop handle rest
          return (handle, served :: later, complete)

/-- Result of a lookup: the return code and the output arrays as far as they were written. -/
structure LookupResult where
  rc : Int
  served : List Served
  deriving DecidableEq, Repr

def memtierLookupBlocks (handle : Handle) (blocks : List BlockId) :
    Run (Handle × LookupResult) := do
  if !(← Run.streamCreate) then return (handle, { rc := -1, served := [] })
  let (handle, served, complete) ← lookupLoop handle blocks
  if !complete then return (handle, { rc := -1, served })
  if !(← Run.streamSynchronize) then return (handle, { rc := -1, served })
  if !(← Run.streamDestroy) then return (handle, { rc := -1, served })
  return ({ handle with
    metrics := { handle.metrics with
      evictionCount := handle.dramCache.stats.evictionCount } }, { rc := 0, served })

/-- A prefetch is a lookup whose results are dropped.  An empty batch has no output arrays, which
the lookup rejects. -/
def memtierPrefetchBlocks (handle : Handle) (blocks : List BlockId) : Run (Handle × Int) :=
  if blocks = [] then return (handle, -1)
  else do
    let (handle, result) ← memtierLookupBlocks handle blocks
    return (handle, result.rc)

def memtierReleaseBlocks (handle : Handle) (blocks : List BlockId) : Handle :=
  { handle with
    residency := blocks.foldl (fun table block => (table.release block).2) handle.residency }

end MemTier.Embedding
