import Mathlib.Tactic

/-!
# Options, statistics and path selection

The public types of the runtime, the option defaults of `memtier_init`, and the choice between the
five ways to serve one piece of a read.
-/

namespace MemTier

/-- Result codes. -/
inductive Err where
  | ok | invalid | io | nomem | unsupported | internal | gds | cuda
  deriving DecidableEq, Repr

/-- Where a read delivers its bytes. -/
inductive Target where
  | cpu | gpu
  deriving DecidableEq, Repr

/-- How one piece of a read is served. -/
inductive Path where
  | dramHit | posixRead | posixReadThenCache | gdsRead | gdsStubFallback
  deriving DecidableEq, Repr

def hintReuse : UInt32 := 1
def hintSmallIo : UInt32 := 2
def hintRandom : UInt32 := 4
def hintStreaming : UInt32 := 8
def hintCheckpoint : UInt32 := 16
def hintSequential : UInt32 := 32

/-- Options of a context.  Flags are tested for being nonzero only. -/
structure Options where
  chunkSize : Nat
  dramCacheSize : Nat
  enableDramCache : Bool
  cacheAdmit : Bool
  bypassCache : Bool
  forceGds : Bool
  forcePosix : Bool
  enableGds : Bool
  gdsStubSuccess : Bool
  gdsMinSize : Nat
  gdsAlignment : Nat
  hints : UInt32
  asyncMode : Bool
  numWorkers : Int
  coalesceGap : Nat
  maxCoalesceSize : Nat
  deriving DecidableEq, Repr

namespace Options

/-- The options `memtier_init` starts from when it is given none. -/
def defaults : Options where
  chunkSize := 2 ^ 20
  dramCacheSize := 64 * 2 ^ 20
  enableDramCache := true
  cacheAdmit := true
  bypassCache := false
  forceGds := false
  forcePosix := false
  enableGds := false
  gdsStubSuccess := true
  gdsMinSize := 2 ^ 20
  gdsAlignment := 4096
  hints := 0
  asyncMode := false
  numWorkers := 4
  coalesceGap := 64 * 2 ^ 10
  maxCoalesceSize := 2 ^ 20

/-- Replace the fields that must not be zero. -/
def normalise (given : Option Options) : Options :=
  let options := given.getD defaults
  { options with
    coalesceGap := if options.coalesceGap = 0 then 64 * 2 ^ 10 else options.coalesceGap
    maxCoalesceSize := if options.maxCoalesceSize = 0 then 2 ^ 20 else options.maxCoalesceSize
    chunkSize := if options.chunkSize = 0 then 2 ^ 20 else options.chunkSize
    dramCacheSize := if options.dramCacheSize = 0 then 64 * 2 ^ 20 else options.dramCacheSize
    gdsMinSize := if options.gdsMinSize = 0 then 2 ^ 20 else options.gdsMinSize
    gdsAlignment := if options.gdsAlignment = 0 then 4096 else options.gdsAlignment
    numWorkers := if options.numWorkers ≤ 0 then 4 else options.numWorkers }

/-- The fields that must not be zero are not. -/
structure Initialised (options : Options) : Prop where
  coalesceGap : options.coalesceGap ≠ 0
  maxCoalesceSize : options.maxCoalesceSize ≠ 0
  chunkSize : options.chunkSize ≠ 0
  dramCacheSize : options.dramCacheSize ≠ 0
  gdsMinSize : options.gdsMinSize ≠ 0
  gdsAlignment : options.gdsAlignment ≠ 0
  numWorkers : 0 < options.numWorkers

/-- Initialised option values are exactly those that normalisation produces. -/
theorem initialised_iff (options : Options) :
    options.Initialised ↔ ∃ given, normalise given = options := by
  constructor
  · intro initialised
    refine ⟨some options, ?_⟩
    simp [normalise, initialised.coalesceGap, initialised.maxCoalesceSize, initialised.chunkSize,
      initialised.dramCacheSize, initialised.gdsMinSize, initialised.gdsAlignment,
      Int.not_le.mpr initialised.numWorkers]
  · rintro ⟨given, rfl⟩
    constructor <;> simp only [normalise] <;> split <;> omega

end Options

/-- Counters of a context. -/
structure Stats where
  totalRequests : Nat := 0
  dramHits : Nat := 0
  dramMisses : Nat := 0
  posixReads : Nat := 0
  gdsReads : Nat := 0
  gdsFallbacks : Nat := 0
  ssdBytesRead : Nat := 0
  dramBytesServed : Nat := 0
  selectedGds : Nat := 0
  selectedPosix : Nat := 0
  selectedCache : Nat := 0
  lastSelectedPath : Path := .dramHit
  prefetchRequests : Nat := 0
  prefetchBytes : Nat := 0
  readvRequests : Nat := 0
  originalRanges : Nat := 0
  coalescedRanges : Nat := 0
  coalescedBytes : Nat := 0
  deriving DecidableEq, Repr, Inhabited

/-- Record which path was selected. -/
def onSelected (path : Path) (stats : Stats) : Stats :=
  let stats := { stats with lastSelectedPath := path }
  match path with
  | .gdsRead | .gdsStubFallback => { stats with selectedGds := stats.selectedGds + 1 }
  | .dramHit | .posixReadThenCache => { stats with selectedCache := stats.selectedCache + 1 }
  | .posixRead => { stats with selectedPosix := stats.selectedPosix + 1 }

def isGdsAvailable (options : Options) : Bool := options.enableGds

/-- Large, aligned and not expected to be reused. -/
def isRequestGdsSuitable (offset size : Nat) (options : Options) : Bool :=
  if size < options.gdsMinSize then false
  else if options.gdsAlignment = 0 then false
  else if offset % options.gdsAlignment ≠ 0 ∨ size % options.gdsAlignment ≠ 0 then false
  else if options.hints &&& (hintReuse ||| hintSmallIo ||| hintRandom) ≠ 0 then false
  else true

/-- Choose the path of one piece. -/
def selectPath (dramHitCandidate : Bool) (offset size : Nat) (options : Options) : Path :=
  if dramHitCandidate && !options.bypassCache then .dramHit
  else if options.forcePosix then .posixReadThenCache
  else
    let gdsSuitable :=
      isRequestGdsSuitable offset size options ||
        options.hints &&& (hintStreaming ||| hintCheckpoint ||| hintSequential) != 0
    if options.forceGds then
      if isGdsAvailable options && gdsSuitable then .gdsRead else .gdsStubFallback
    else if isGdsAvailable options && gdsSuitable then .gdsRead
    else if options.bypassCache || !options.enableDramCache then .posixRead
    else .posixReadThenCache

/-- Only a hit candidate is served from DRAM. -/
theorem hit_of_selectPath {hit : Bool} {offset size : Nat} {options : Options}
    (selected : selectPath hit offset size options = .dramHit) : hit = true := by
  cases hit with
  | true => rfl
  | false =>
      simp only [selectPath, Bool.false_and, Bool.false_eq_true, if_false] at selected
      split_ifs at selected

/-- What is not served from DRAM is served as if the cache had nothing. -/
theorem selectPath_eq_miss {hit : Bool} {offset size : Nat} {options : Options}
    (missed : selectPath hit offset size options ≠ .dramHit) :
    selectPath hit offset size options = selectPath false offset size options := by
  cases hit with
  | false => rfl
  | true =>
      cases bypass : options.bypassCache with
      | false => exact absurd (by simp [selectPath, bypass]) missed
      | true => simp [selectPath, bypass]

/-- Without a bypass every hit candidate is served from DRAM. -/
theorem selectPath_hit {offset size : Nat} {options : Options}
    (cached : options.bypassCache = false) :
    selectPath true offset size options = .dramHit := by
  simp [selectPath, cached]

end MemTier
