import MemTier.Runtime.Operations

/-!
# Reads and prefetches

`do_read_impl` splits a request at chunk boundaries and serves each piece from the cache, through
the GDS backend, or by positioned reads; `memtier_prefetch` loads the chunks of a range that are
not resident.  Both are programs over the atomic operations of the runtime.
-/

namespace MemTier

open Containers Resumption

/-- A context: options that passed `memtier_init`, and what it was built with. -/
structure Context where
  options : Options
  initialised : options.Initialised
  setup : Setup

theorem Context.chunkSize_pos (context : Context) : 0 < context.options.chunkSize :=
  Nat.pos_of_ne_zero context.initialised.chunkSize

/-- `memtier_init`, as far as the options are concerned. -/
def memtierInit (given : Option Options) (setup : Setup) : Context where
  options := Options.normalise given
  initialised := (Options.initialised_iff _).mpr ⟨given, rfl⟩
  setup := setup

/-- The state a context starts in. -/
def Context.initial (context : Context) (files : Files) : Shared where
  files := files
  cache := CacheDirectory.new context.options.chunkSize context.options.dramCacheSize
  stats := {}

/-! ## Positioned reads -/

/-- Result of reading a range: `data` is what was stored at the start of the buffer. -/
structure FullRead where
  rc : Err
  data : Bytes
  deriving DecidableEq, Repr

/-- The loop of `posix_pread_full`.  An interrupted call is issued again with the same
arguments, which is what its `continue` does. -/
def preadLoop (path : String) (offset size : Nat) (data : Bytes) : Run FullRead :=
  if _more : data.length < size then do
    match ← Run.pread path (size - data.length) ((offset + data.length) % 2 ^ 64) with
    | .error => return { rc := .io, data }
    | .data bytes =>
        if _eof : bytes.length = 0 then return { rc := .ok, data }
        else preadLoop path offset size (data ++ bytes)
  else return { rc := .ok, data }
termination_by size - data.length
decreasing_by
  rw [List.length_append]
  omega

/-- Open the file and read until the range is complete or the file ends. -/
def posixPreadFull (path : String) (offset size : Nat) : Run FullRead := do
  if ← Run.openFile path then preadLoop path offset size []
  else return { rc := .io, data := [] }

/-- `memtier_gds_read` of the linked backend. -/
def gdsRead (context : Context) (path : String) (offset size : Nat) : Run FullRead :=
  if !context.options.enableGds then return { rc := .unsupported, data := [] }
  else
    match context.setup.gds with
    | .stub =>
        if !context.options.gdsStubSuccess then return { rc := .gds, data := [] }
        else posixPreadFull path offset size
    | .cuFile =>
        if offset % context.options.gdsAlignment ≠ 0 ∨ size % context.options.gdsAlignment ≠ 0 then
          return { rc := .gds, data := [] }
        else do
          match ← Run.cuFileRead path size offset with
          | none => return { rc := .gds, data := [] }
          | some bytes => return { rc := .ok, data := bytes }

/-! ## Pieces -/

/-- The part of a request that lies in one chunk. -/
structure Piece where
  curOff : Nat
  chunkId : Nat
  inChunk : Nat
  need : Nat
  deriving DecidableEq, Repr

/-- The piece that starts after `copied` bytes of a request. -/
def pieceAt (chunkSize offset size copied : Nat) : Piece :=
  let curOff := (offset + copied) % 2 ^ 64
  { curOff
    chunkId := curOff / chunkSize
    inChunk := curOff % chunkSize
    need := min (chunkSize - curOff % chunkSize) (size - copied) }

theorem pieceAt_need_pos {chunkSize offset size copied : Nat} (positive : 0 < chunkSize)
    (more : copied < size) : 0 < (pieceAt chunkSize offset size copied).need := by
  have inside := Nat.mod_lt ((offset + copied) % 2 ^ 64) positive
  simp only [pieceAt]
  omega

/-- A piece that lies in one chunk. -/
structure Piece.Fits (chunkSize : Nat) (piece : Piece) : Prop where
  position : piece.chunkId * chunkSize + piece.inChunk = piece.curOff
  inside : piece.inChunk + piece.need ≤ chunkSize
  nonempty : 0 < piece.need
  bounded : piece.curOff < 2 ^ 64

theorem pieceAt_fits {chunkSize offset size copied : Nat} (positive : 0 < chunkSize)
    (more : copied < size) : (pieceAt chunkSize offset size copied).Fits chunkSize where
  position := Nat.div_add_mod' _ _
  inside := by
    have inside := Nat.mod_lt ((offset + copied) % 2 ^ 64) positive
    simp only [pieceAt]
    omega
  nonempty := pieceAt_need_pos positive more
  bounded := Nat.mod_lt _ (by norm_num)

/-- The pieces of a request from `copied` on. -/
def pieces (chunkSize : Nat) (positive : 0 < chunkSize) (offset size copied : Nat) : List Piece :=
  if _more : copied < size then
    let piece := pieceAt chunkSize offset size copied
    piece :: pieces chunkSize positive offset size (copied + piece.need)
  else []
termination_by size - copied
decreasing_by
  have nonempty : 0 < (pieceAt chunkSize offset size copied).need :=
    pieceAt_need_pos positive _more
  omega

/-- Deliver bytes to the target. -/
def copyTarget (context : Context) (target : Target) (bytes : Bytes) : Run Err :=
  match target with
  | .cpu => return .ok
  | .gpu => do
      if !(← Run.cudaCopyToGpu bytes) then return .cuda
      if context.options.asyncMode then return .ok
      if !(← Run.cudaSynchronize) then return .cuda
      return .ok

/-- Serve a piece from a cached entry. -/
def serveHit (context : Context) (target : Target) (piece : Piece) (entry : CacheEntry) :
    Run (Except Err Bytes) := do
  let bytes := slice entry.data piece.inChunk piece.need
  let rc ← copyTarget context target bytes
  if rc ≠ .ok then return .error rc
  Run.updateStats fun stats =>
    { stats with
      dramHits := stats.dramHits + 1
      dramBytesServed := stats.dramBytesServed + piece.need }
  return .ok bytes

/-- Serve a piece through the GDS backend, falling back to positioned reads. -/
def serveGds (context : Context) (path : String) (target : Target) (piece : Piece) :
    Run (Except Err Bytes) := do
  let attempt ← gdsRead context path piece.curOff piece.need
  if attempt.rc = .ok then
    -- The number of bytes the backend reported is not looked at.
    let bytes := zeroFill piece.need attempt.data
    let rc ← copyTarget context target bytes
    if rc ≠ .ok then return .error rc
    Run.updateStats fun stats => { stats with gdsReads := stats.gdsReads + 1 }
    return .ok bytes
  else
    let full ← posixPreadFull path piece.curOff piece.need
    if full.rc ≠ .ok then return .error full.rc
    if full.data.length < piece.need then return .error .io
    let rc ← copyTarget context target full.data
    if rc ≠ .ok then return .error rc
    Run.updateStats fun stats =>
      { stats with
        gdsFallbacks := stats.gdsFallbacks + 1
        posixReads := stats.posixReads + 1
        ssdBytesRead := stats.ssdBytesRead + full.data.length }
    return .ok full.data

/-- Serve a piece by positioned reads; with `caching` the whole chunk is read and admitted. -/
def servePosix (context : Context) (path : String) (target : Target) (piece : Piece)
    (key : CacheKey) (caching : Bool) : Run (Except Err Bytes) := do
  let chunkSize := context.options.chunkSize
  let readOff := if caching then piece.chunkId * chunkSize else piece.curOff
  let readSize := if caching then chunkSize else piece.need
  let full ← posixPreadFull path readOff readSize
  if full.rc ≠ .ok then return .error full.rc
  let srcOff := if caching then piece.inChunk else 0
  if full.data.length < srcOff + piece.need then return .error .io
  let buffer := zeroFill readSize full.data
  let bytes := slice buffer srcOff piece.need
  let rc ← copyTarget context target bytes
  if rc ≠ .ok then return .error rc
  if caching && context.options.cacheAdmit then
    let _ ← Run.insert key buffer full.data.length
  Run.updateStats fun stats =>
    { stats with
      dramMisses := stats.dramMisses + 1
      posixReads := stats.posixReads + 1
      ssdBytesRead := stats.ssdBytesRead + full.data.length }
  return .ok bytes

/-- One round of the piece loop. -/
def readPiece (context : Context) (path : String) (target : Target) (piece : Piece) :
    Run (Except Err Bytes) := do
  let key : CacheKey := ⟨context.setup.naming.fileIdFromPath path, piece.chunkId⟩
  let found ← Run.lookup key
  let entry := found.getD default
  let hit := found.isSome && decide (piece.inChunk + piece.need ≤ entry.validSize)
  let selected := selectPath hit piece.curOff piece.need context.options
  Run.updateStats (onSelected selected)
  match selected with
  | .dramHit => serveHit context target piece entry
  | .gdsRead | .gdsStubFallback => serveGds context path target piece
  | .posixRead => servePosix context path target piece key false
  | .posixReadThenCache => servePosix context path target piece key true

/-! ## Requests -/

/-- Result of a read: `out` is what was stored from the destination on. -/
structure ReadResult where
  rc : Err
  out : Bytes
  deriving DecidableEq, Repr

/-- The piece loop of `do_read_impl`. -/
def readLoop (context : Context) (path : String) (target : Target) (offset size : Nat)
    (copied : Nat) (out : Bytes) : Run ReadResult :=
  if _more : copied < size then do
    let piece := pieceAt context.options.chunkSize offset size copied
    match ← readPiece context path target piece with
    | .error rc => return { rc, out }
    | .ok bytes =>
        readLoop context path target offset size (copied + piece.need) (out ++ bytes)
  else do
    Run.updateStats fun stats => { stats with totalRequests := stats.totalRequests + 1 }
    return { rc := .ok, out }
termination_by size - copied
decreasing_by
  have positive : 0 < (pieceAt context.options.chunkSize offset size copied).need :=
    pieceAt_need_pos context.chunkSize_pos _more
  omega

/-- Arguments of `memtier_read`. -/
structure ReadArgs where
  path : Option String
  offset : UInt64
  size : UInt64
  dstNull : Bool
  target : Target
  deriving DecidableEq, Repr

def doReadImpl (context : Context) (args : ReadArgs) : Run ReadResult :=
  match args.path with
  | none => return { rc := .invalid, out := [] }
  | some path =>
      if args.dstNull ∨ args.size = 0 then return { rc := .invalid, out := [] }
      else if args.target = .gpu ∧ !context.setup.cuda then
        return { rc := .unsupported, out := [] }
      else readLoop context path args.target args.offset.toNat args.size.toNat 0 []

def memtierRead (context : Context) (args : ReadArgs) : Run ReadResult :=
  doReadImpl context args

/-! ## Prefetch -/

/-- Where a prefetch is meant to put the data. -/
inductive PrefetchTarget where
  | auto | toDram | toHbm
  deriving DecidableEq, Repr

/-- The options of a prefetch that are looked at. -/
structure PrefetchOptions where
  target : PrefetchTarget := .auto
  async : Bool := false
  deriving DecidableEq, Repr

/-- The chunk loop of `memtier_prefetch`. -/
def prefetchLoop (context : Context) (path : String) (offset size : Nat) (done : Nat) :
    Run Err :=
  if _more : done < size then do
    let chunkSize := context.options.chunkSize
    let piece := pieceAt chunkSize offset size done
    let key : CacheKey := ⟨context.setup.naming.fileIdFromPath path, piece.chunkId⟩
    if ← Run.contains key then
      prefetchLoop context path offset size (done + piece.need)
    else
      let full ← posixPreadFull path (piece.chunkId * chunkSize) chunkSize
      if full.rc ≠ .ok then return full.rc
      let _ ← Run.insert key (zeroFill chunkSize full.data) full.data.length
      Run.updateStats fun stats =>
        { stats with
          prefetchBytes := stats.prefetchBytes + full.data.length
          posixReads := stats.posixReads + 1
          ssdBytesRead := stats.ssdBytesRead + full.data.length }
      prefetchLoop context path offset size (done + piece.need)
  else do
    Run.updateStats fun stats =>
      { stats with prefetchRequests := stats.prefetchRequests + 1 }
    return .ok
termination_by size - done
decreasing_by
  all_goals
    have positive : 0 < (pieceAt context.options.chunkSize offset size done).need :=
      pieceAt_need_pos context.chunkSize_pos _more
    omega

/-- Arguments of `memtier_prefetch`. -/
structure PrefetchArgs where
  path : Option String
  offset : UInt64
  size : UInt64
  options : Option PrefetchOptions
  deriving DecidableEq, Repr

def memtierPrefetch (context : Context) (args : PrefetchArgs) : Run Err :=
  match args.path with
  | none => return .invalid
  | some path =>
      if args.size = 0 then return .invalid
      else
        let options := args.options.getD {}
        if options.target = .toHbm then return .unsupported
        else if options.async then return .unsupported
        else prefetchLoop context path args.offset.toNat args.size.toNat 0

end MemTier
