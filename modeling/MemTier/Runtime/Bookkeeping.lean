import MemTier.Resumption.Ghost
import MemTier.Runtime.Interleavings

/-!
# Keeping books on calls

The same programs as the runtime's, accompanied by a ledger: which pieces are being served, how many
calls of `do_read_impl` came to their end and how, and how many chunks were loaded by prefetches.
The entries are made where control enters and leaves a piece and where the piece loop is left; they
do not look at the statistics.
-/

namespace MemTier

open Containers Resumption

/-- What a thread has done and is doing. -/
@[ext] structure Ledger where
  /-- Pieces for which the cache was selected and that are neither recorded nor failed. -/
  hitsInFlight : Nat := 0
  /-- Pieces for which the GDS backend was selected and that are neither recorded nor failed. -/
  gdsInFlight : Nat := 0
  /-- Pieces for which a positioned read was selected and that are neither recorded nor failed. -/
  posixInFlight : Nat := 0
  /-- Calls of `do_read_impl` that returned an error from inside the piece loop. -/
  failed : Nat := 0
  /-- Calls of `do_read_impl` that completed. -/
  completed : Nat := 0
  /-- Chunks that prefetches loaded. -/
  loads : Nat := 0
  deriving DecidableEq, Repr

namespace Ledger

/-- Pieces that are neither recorded nor failed. -/
def inFlight (ledger : Ledger) : Nat :=
  ledger.hitsInFlight + ledger.gdsInFlight + ledger.posixInFlight

/-- A path was selected for a piece. -/
def enter (path : Path) (ledger : Ledger) : Ledger :=
  match path with
  | .dramHit => { ledger with hitsInFlight := ledger.hitsInFlight + 1 }
  | .gdsRead | .gdsStubFallback => { ledger with gdsInFlight := ledger.gdsInFlight + 1 }
  | .posixRead | .posixReadThenCache => { ledger with posixInFlight := ledger.posixInFlight + 1 }

/-- The piece was served or given up. -/
def leave (path : Path) (ledger : Ledger) : Ledger :=
  match path with
  | .dramHit => { ledger with hitsInFlight := ledger.hitsInFlight - 1 }
  | .gdsRead | .gdsStubFallback => { ledger with gdsInFlight := ledger.gdsInFlight - 1 }
  | .posixRead | .posixReadThenCache => { ledger with posixInFlight := ledger.posixInFlight - 1 }

/-- The piece loop was left. -/
def returned (rc : Err) (ledger : Ledger) : Ledger :=
  if rc = .ok then { ledger with completed := ledger.completed + 1 }
  else { ledger with failed := ledger.failed + 1 }

/-- A prefetch loaded a chunk. -/
def loaded (ledger : Ledger) : Ledger := { ledger with loads := ledger.loads + 1 }

@[simp] theorem leave_enter (path : Path) (ledger : Ledger) : leave path (enter path ledger) = ledger := by
  cases path <;> simp [leave, enter]

/-- The books of two threads together. -/
instance : Add Ledger where
  add left right :=
    { hitsInFlight := left.hitsInFlight + right.hitsInFlight
      gdsInFlight := left.gdsInFlight + right.gdsInFlight
      posixInFlight := left.posixInFlight + right.posixInFlight
      failed := left.failed + right.failed
      completed := left.completed + right.completed
      loads := left.loads + right.loads }

instance : Zero Ledger where
  zero := {}

@[simp] theorem zero_hitsInFlight : (0 : Ledger).hitsInFlight = 0 := rfl
@[simp] theorem zero_gdsInFlight : (0 : Ledger).gdsInFlight = 0 := rfl
@[simp] theorem zero_posixInFlight : (0 : Ledger).posixInFlight = 0 := rfl
@[simp] theorem zero_failed : (0 : Ledger).failed = 0 := rfl
@[simp] theorem zero_completed : (0 : Ledger).completed = 0 := rfl
@[simp] theorem zero_loads : (0 : Ledger).loads = 0 := rfl

section

variable (left right : Ledger)

@[simp] theorem add_hitsInFlight :
    (left + right).hitsInFlight = left.hitsInFlight + right.hitsInFlight := rfl
@[simp] theorem add_gdsInFlight :
    (left + right).gdsInFlight = left.gdsInFlight + right.gdsInFlight := rfl
@[simp] theorem add_posixInFlight :
    (left + right).posixInFlight = left.posixInFlight + right.posixInFlight := rfl
@[simp] theorem add_failed : (left + right).failed = left.failed + right.failed := rfl
@[simp] theorem add_completed : (left + right).completed = left.completed + right.completed := rfl
@[simp] theorem add_loads : (left + right).loads = left.loads + right.loads := rfl

end

instance : AddCommMonoid Ledger where
  add_assoc _ _ _ := by ext <;> simp [Nat.add_assoc]
  zero_add _ := by ext <;> simp
  add_zero _ := by ext <;> simp
  add_comm _ _ := by ext <;> simp [Nat.add_comm]
  nsmul := nsmulRec

end Ledger

/-- A program with its books. -/
abbrev Audited (α : Type) : Type := Ghostly Reply Ledger α

namespace Audited

open Ghostly

/-- One round of the piece loop; the piece is in flight from the selection of its path on. -/
def readPiece (context : Context) (path : String) (target : Target) (piece : Piece) :
    Audited (Except Err Bytes) := do
  let key : CacheKey := ⟨context.setup.naming.fileIdFromPath path, piece.chunkId⟩
  let found ← lift (Run.lookup key)
  let entry := found.getD default
  let hit := found.isSome && decide (piece.inChunk + piece.need ≤ entry.validSize)
  let selected := selectPath hit piece.curOff piece.need context.options
  lift (Run.updateStats (onSelected selected))
  note (.enter selected)
  let outcome ← lift (match selected with
    | .dramHit => serveHit context target piece entry
    | .gdsRead | .gdsStubFallback => serveGds context path target piece
    | .posixRead => servePosix context path target piece key false
    | .posixReadThenCache => servePosix context path target piece key true)
  note (.leave selected)
  return outcome

/-- The piece loop of `do_read_impl`. -/
def readLoop (context : Context) (path : String) (target : Target) (offset size : Nat)
    (copied : Nat) (out : Bytes) : Audited ReadResult :=
  if _more : copied < size then do
    let piece := pieceAt context.options.chunkSize offset size copied
    match ← readPiece context path target piece with
    | .error rc => return { rc, out }
    | .ok bytes => readLoop context path target offset size (copied + piece.need) (out ++ bytes)
  else do
    lift (Run.updateStats fun stats => { stats with totalRequests := stats.totalRequests + 1 })
    return { rc := .ok, out }
termination_by size - copied
decreasing_by
  have positive : 0 < (pieceAt context.options.chunkSize offset size copied).need :=
    pieceAt_need_pos context.chunkSize_pos _more
  omega

/-- The call enters how it left the piece loop. -/
def doReadImpl (context : Context) (args : ReadArgs) : Audited ReadResult :=
  match args.path with
  | none => return { rc := .invalid, out := [] }
  | some path =>
      if args.dstNull ∨ args.size = 0 then return { rc := .invalid, out := [] }
      else if args.target = .gpu ∧ !context.setup.cuda then
        return { rc := .unsupported, out := [] }
      else do
        let result ← readLoop context path args.target args.offset.toNat args.size.toNat 0 []
        note (.returned result.rc)
        return result

/-- The chunk loop of `memtier_prefetch`; a load is entered when its statistics are recorded. -/
def prefetchLoop (context : Context) (path : String) (offset size : Nat) (done : Nat) :
    Audited Err :=
  if _more : done < size then do
    let chunkSize := context.options.chunkSize
    let piece := pieceAt chunkSize offset size done
    let key : CacheKey := ⟨context.setup.naming.fileIdFromPath path, piece.chunkId⟩
    if ← lift (Run.contains key) then
      prefetchLoop context path offset size (done + piece.need)
    else
      let full ← lift (posixPreadFull path (piece.chunkId * chunkSize) chunkSize)
      if full.rc ≠ .ok then return full.rc
      let _ ← lift (Run.insert key (zeroFill chunkSize full.data) full.data.length)
      lift (Run.updateStats fun stats =>
        { stats with
          prefetchBytes := stats.prefetchBytes + full.data.length
          posixReads := stats.posixReads + 1
          ssdBytesRead := stats.ssdBytesRead + full.data.length })
      note .loaded
      prefetchLoop context path offset size (done + piece.need)
  else do
    lift (Run.updateStats fun stats =>
      { stats with prefetchRequests := stats.prefetchRequests + 1 })
    return .ok
termination_by size - done
decreasing_by
  all_goals
    have positive : 0 < (pieceAt context.options.chunkSize offset size done).need :=
      pieceAt_need_pos context.chunkSize_pos _more
    omega

def memtierPrefetch (context : Context) (args : PrefetchArgs) : Audited Err :=
  match args.path with
  | none => return .invalid
  | some path =>
      if args.size = 0 then return .invalid
      else
        let options := args.options.getD {}
        if options.target = .toHbm then return .unsupported
        else if options.async then return .unsupported
        else prefetchLoop context path args.offset.toNat args.size.toNat 0

/-- The outer loop of `memtier_readv`. -/
def readvLoop (context : Context) (target : Target) : List Group → Audited ReadvResult
  | [] => return { rc := .ok, stores := [] }
  | group :: rest => do
      let result ← doReadImpl context
        { path := some group.path, offset := group.base, size := group.total,
          dstNull := false, target := .cpu }
      if result.rc ≠ .ok then return { rc := result.rc, stores := [] }
      let tmp := zeroFill group.total.toNat result.out
      let copied ← lift (copyItems context target group.base tmp group.items)
      if copied.rc ≠ .ok then return copied
      let later ← readvLoop context target rest
      return { later with stores := copied.stores ++ later.stores }

def memtierReadv (context : Context) (sorter : Sorter) (args : ReadvArgs) :
    Audited ReadvResult :=
  if args.ranges = [] then return { rc := .invalid, stores := [] }
  else
    match args.ranges.mapM Range.item? with
    | none => return { rc := .invalid, stores := [] }
    | some items => do
        let formed := groups context.options (sorter.sort items)
        let result ← readvLoop context args.target formed
        if result.rc ≠ .ok then return result
        lift (Run.updateStats fun stats =>
          { stats with
            readvRequests := stats.readvRequests + 1
            originalRanges := stats.originalRanges + args.ranges.length
            coalescedRanges := stats.coalescedRanges + formed.length
            coalescedBytes :=
              stats.coalescedBytes + (formed.map fun group => group.total.toNat).sum })
        return result

/-- The body of a call. -/
def program (context : Context) (sorter : Sorter) : ApiCall → Audited ApiResult
  | .read args => do return .read (← doReadImpl context args)
  | .prefetch args => do return .prefetch (← memtierPrefetch context args)
  | .readv args => do return .readv (← memtierReadv context sorter args)

/-! ## The books change nothing -/

section

variable {context : Context} {sorter : Sorter}

theorem erases_readPiece (path : String) (target : Target) (piece : Piece) :
    Erases (readPiece context path target piece)
      (MemTier.readPiece context path target piece) := by
  refine (erases_lift _).bind fun found => ?_
  refine (erases_lift _).bind fun _ => ?_
  refine .before _ ?_
  exact (erases_lift _).after fun outcome => .before _ (erases_pure outcome)

theorem erases_readLoop (path : String) (target : Target) (offset size copied : Nat)
    (out : Bytes) :
    Erases (readLoop context path target offset size copied out)
      (MemTier.readLoop context path target offset size copied out) := by
  induction remaining : size - copied using Nat.strong_induction_on
    generalizing copied out with
  | h remaining induction =>
      rw [readLoop, MemTier.readLoop]
      split
      · rename_i more
        have positive := @pieceAt_need_pos context.options.chunkSize offset size copied
          context.chunkSize_pos more
        refine (erases_readPiece _ _ _).bind fun outcome => ?_
        cases outcome with
        | error rc => exact erases_pure _
        | ok bytes => exact induction _ (by omega) _ _ rfl
      · exact (erases_lift _).bind fun _ => erases_pure _

theorem erases_doReadImpl (args : ReadArgs) :
    Erases (doReadImpl context args) (MemTier.doReadImpl context args) := by
  rw [doReadImpl, MemTier.doReadImpl]
  cases args.path with
  | none => exact erases_pure _
  | some path =>
      dsimp only
      split_ifs
      · exact erases_pure _
      · exact erases_pure _
      · exact (erases_readLoop _ _ _ _ _ _).after fun result => .before _ (erases_pure result)

theorem erases_prefetchLoop (path : String) (offset size done : Nat) :
    Erases (prefetchLoop context path offset size done)
      (MemTier.prefetchLoop context path offset size done) := by
  induction remaining : size - done using Nat.strong_induction_on generalizing done with
  | h remaining induction =>
      rw [prefetchLoop, MemTier.prefetchLoop]
      split
      · rename_i more
        have positive := @pieceAt_need_pos context.options.chunkSize offset size done
          context.chunkSize_pos more
        refine (erases_lift _).bind fun resident => ?_
        cases resident with
        | true => exact induction _ (by omega) _ rfl
        | false =>
            refine (erases_lift _).bind fun full => ?_
            split
            · exact erases_pure _
            · refine (erases_lift _).bind fun _ => ?_
              refine (erases_lift _).bind fun _ => ?_
              exact .before _ (induction _ (by omega) _ rfl)
      · exact (erases_lift _).bind fun _ => erases_pure _

theorem erases_memtierPrefetch (args : PrefetchArgs) :
    Erases (memtierPrefetch context args) (MemTier.memtierPrefetch context args) := by
  rw [memtierPrefetch, MemTier.memtierPrefetch]
  cases args.path with
  | none => exact erases_pure _
  | some path =>
      dsimp only
      split_ifs
      · exact erases_pure _
      · exact erases_pure _
      · exact erases_pure _
      · exact erases_prefetchLoop _ _ _ _

theorem erases_readvLoop (target : Target) (formed : List Group) :
    Erases (readvLoop context target formed) (MemTier.readvLoop context target formed) := by
  induction formed with
  | nil => exact erases_pure _
  | cons group rest induction =>
      refine (erases_doReadImpl _).bind fun result => ?_
      split
      · exact erases_pure _
      · refine (erases_lift _).bind fun copied => ?_
        split
        · exact erases_pure _
        · exact induction.bind fun _ => erases_pure _

theorem erases_memtierReadv (args : ReadvArgs) :
    Erases (memtierReadv context sorter args) (MemTier.memtierReadv context sorter args) := by
  rw [memtierReadv, MemTier.memtierReadv]
  split
  · exact erases_pure _
  · cases args.ranges.mapM Range.item? with
    | none => exact erases_pure _
    | some items =>
        refine (erases_readvLoop _ _).bind fun result => ?_
        split
        · exact erases_pure _
        · exact (erases_lift _).bind fun _ => erases_pure _

/-- The books accompany the call and change nothing about it. -/
theorem erases_program (call : ApiCall) :
    Erases (program context sorter call) (call.program context sorter) := by
  cases call with
  | read args => exact (erases_doReadImpl args).bind fun _ => erases_pure _
  | prefetch args => exact (erases_memtierPrefetch args).bind fun _ => erases_pure _
  | readv args => exact (erases_memtierReadv args).bind fun _ => erases_pure _

end

end Audited

end MemTier
