import MemTier.Posix
import MemTier.Resumption.RelyGuarantee
import MemTier.Runtime.CacheDirectory
import MemTier.Runtime.Types

/-!
# Atomic operations of the runtime

The cache directory and the statistics are each guarded by a mutex, and every system call is
atomic.  These are the points at which threads of one context can interleave.
-/

namespace MemTier

open Containers Resumption

/-- How path names denote files.  `file_id_from_path` hashes the canonical path. -/
structure Naming where
  fileIdFromPath : String → UInt64
  /-- The file a path resolves to. -/
  inode : String → Nat

/-- Different files among those used have different identifiers. -/
def Naming.InjectiveOn (naming : Naming) (used : Set String) : Prop :=
  ∀ path ∈ used, ∀ other ∈ used,
    naming.fileIdFromPath path = naming.fileIdFromPath other →
      naming.inode path = naming.inode other

/-- Contents of the files that can be opened. -/
abbrev Files : Type := Nat → Option Bytes

/-- Which GDS backend the library is linked with. -/
inductive GdsBackend where
  | stub | cuFile
  deriving DecidableEq, Repr

/-- Build configuration and naming of a context. -/
structure Setup where
  naming : Naming
  gds : GdsBackend
  /-- Built with CUDA and a device is present. -/
  cuda : Bool

/-- What the threads of a context share. -/
structure Shared where
  files : Files
  cache : CacheDirectory
  stats : Stats

/-- The content a path name leads to. -/
def Shared.content (shared : Shared) (naming : Naming) (path : String) : Option Bytes :=
  shared.files (naming.inode path)

/-- The atomic operations. -/
inductive Op where
  | lookup (key : CacheKey)
  | contains (key : CacheKey)
  | insert (key : CacheKey) (data : Bytes) (validSize : Nat)
  | openFile (path : String)
  | pread (path : String) (count offset : Nat)
  | cuFileRead (path : String) (size offset : Nat)
  | cudaCopyToGpu (bytes : Bytes)
  | cudaSynchronize
  | updateStats (update : Stats → Stats)

/-- What an operation returns. -/
abbrev Reply : Op → Type
  | .lookup _ => Option CacheEntry
  | .contains _ => Bool
  | .insert _ _ _ => Bool
  | .openFile _ => Bool
  | .pread _ _ _ => PreadReply
  | .cuFileRead _ _ _ => Option Bytes
  | .cudaCopyToGpu _ => Bool
  | .cudaSynchronize => Bool
  | .updateStats _ => Unit

/-- A sequence of atomic operations that returns a value. -/
abbrev Run (α : Type) : Type := Prog Reply α

namespace Run

/-- `CacheDirectory::lookup`. -/
def lookup (key : CacheKey) : Run (Option CacheEntry) := Prog.perform (Op.lookup key)

/-- `CacheDirectory::contains`. -/
def contains (key : CacheKey) : Run Bool := Prog.perform (Op.contains key)

/-- `CacheDirectory::insert`. -/
def insert (key : CacheKey) (data : Bytes) (validSize : Nat) : Run Bool :=
  Prog.perform (Op.insert key data validSize)

/-- `open` for reading. -/
def openFile (path : String) : Run Bool := Prog.perform (Op.openFile path)

/-- One `pread` on an open file, issued again while it is interrupted. -/
def pread (path : String) (count offset : Nat) : Run PreadReply :=
  Prog.perform (Op.pread path count offset)

/-- The cuFile calls of a GDS read. -/
def cuFileRead (path : String) (size offset : Nat) : Run (Option Bytes) :=
  Prog.perform (Op.cuFileRead path size offset)

def cudaCopyToGpu (bytes : Bytes) : Run Bool := Prog.perform (Op.cudaCopyToGpu bytes)

def cudaSynchronize : Run Bool := Prog.perform Op.cudaSynchronize

/-- A critical section that updates the statistics. -/
def updateStats (update : Stats → Stats) : Run Unit := Prog.perform (Op.updateStats update)

end Run

/-- Execute one operation. -/
def serve (setup : Setup) : Server Shared Choice Reply := fun shared op choice =>
  match op with
  | .lookup key =>
      let (found, cache) := shared.cache.lookup key
      some (found, { shared with cache })
  | .contains key => some (shared.cache.contains key, shared)
  | .insert key data validSize =>
      let (inserted, cache) :=
        shared.cache.insert key (some fun index => data.getD index 0) validSize
      some (inserted, { shared with cache })
  | .openFile path =>
      some ((shared.content setup.naming path).isSome && choice != .fail, shared)
  | .pread path count offset =>
      match shared.content setup.naming path with
      | none => some (.error, shared)
      | some content => (MemTier.pread content count offset choice).map (·, shared)
  | .cuFileRead path size offset =>
      -- `cuFileRead` must deliver exactly `size` bytes to count as a success.
      match choice, shared.content setup.naming path with
      | .take _, some content =>
          if offset + size ≤ content.length then some (some (slice content offset size), shared)
          else some (none, shared)
      | _, _ => some (none, shared)
  | .cudaCopyToGpu _ => some (setup.cuda && choice != .fail, shared)
  | .cudaSynchronize => some (setup.cuda && choice != .fail, shared)
  | .updateStats update => some ((), { shared with stats := update shared.stats })

/-- Only an interruption keeps an operation from completing. -/
theorem serve_completes (setup : Setup) (shared : Shared) (op : Op) (choice : Choice)
    (completes : choice.Completes) : (serve setup shared op choice).isSome := by
  cases op with
  | pread path count offset =>
      simp only [serve]
      cases shared.content setup.naming path with
      | none => rfl
      | some content =>
          cases choice with
          | interrupt => exact absurd rfl completes
          | fail => rfl
          | take wanted =>
              simp only [MemTier.pread]
              split <;> rfl
  | cuFileRead path size offset =>
      simp only [serve]
      split
      · split <;> rfl
      · rfl
  | _ => rfl

/-- Operations that change nothing shared. -/
def Op.Inert : Op → Prop
  | .lookup _ | .insert _ _ _ | .updateStats _ => False
  | _ => True

theorem serve_inert {setup : Setup} {shared after : Shared} {op : Op} {choice : Choice}
    {reply : Reply op} (execution : serve setup shared op choice = some (reply, after))
    (inert : op.Inert) : after = shared := by
  cases op with
  | lookup key => exact absurd inert id
  | insert key data validSize => exact absurd inert id
  | updateStats update => exact absurd inert id
  | pread path count offset =>
      simp only [serve] at execution
      split at execution
      · simp only [Option.some.injEq, Prod.mk.injEq] at execution
        exact execution.2.symm
      · obtain ⟨outcome, -, same⟩ := Option.map_eq_some_iff.mp execution
        simp only [Prod.mk.injEq] at same
        exact same.2.symm
  | cuFileRead path size offset =>
      simp only [serve] at execution
      split at execution
      · split at execution <;>
        · simp only [Option.some.injEq, Prod.mk.injEq] at execution
          exact execution.2.symm
      · simp only [Option.some.injEq, Prod.mk.injEq] at execution
        exact execution.2.symm
  | _ =>
      simp only [serve, Option.some.injEq, Prod.mk.injEq] at execution
      exact execution.2.symm

/-- No operation changes a file. -/
theorem serve_files {setup : Setup} {shared after : Shared} {op : Op} {choice : Choice}
    {reply : Reply op} (execution : serve setup shared op choice = some (reply, after)) :
    after.files = shared.files := by
  cases op with
  | lookup key =>
      simp only [serve, Option.some.injEq, Prod.mk.injEq] at execution
      rw [← execution.2]
  | insert key data validSize =>
      simp only [serve, Option.some.injEq, Prod.mk.injEq] at execution
      rw [← execution.2]
  | updateStats update =>
      simp only [serve, Option.some.injEq, Prod.mk.injEq] at execution
      rw [← execution.2]
  | _ => rw [serve_inert execution trivial]

theorem advance_files {α : Type} (setup : Setup) (choice : Choice) (shared : Shared)
    (program : Run α) :
    (Prog.advance (serve setup) choice (shared, program)).1.files = shared.files := by
  cases program with
  | ret value => rfl
  | call op next =>
      cases execution : serve setup shared op choice with
      | none => simp [Prog.advance, execution]
      | some result =>
          simp only [Prog.advance, execution]
          exact serve_files execution

end MemTier
