import MemTier.Embedding.Tiers
import MemTier.Posix
import MemTier.Resumption.Evaluation

/-!
# Host memory, device memory and a copy stream

The runtime reads the table file into pinned host memory and queues copies from there to device
memory on a CUDA stream.  Copies execute in the order of the queue.  They either execute when
they are issued, or at any later moment up to the synchronisation of the stream.
-/

namespace MemTier.Embedding

open Containers Resumption

/-- A copy from host to device memory, with the block it is made for. -/
structure Copy where
  block : BlockId
  dst : Nat
  src : Nat
  bytes : Nat
  deriving DecidableEq, Repr

/-- Memory, the copies that are still queued, and what executed copies have read. -/
structure Machine where
  dram : Memory
  hbm : Memory
  pending : List Copy
  executed : List (Copy × Bytes)

/-- When copies execute. -/
inductive CopyMode where
  /-- As soon as they are issued. -/
  | atIssue
  /-- At any moment after that, at the latest when the stream is synchronised. -/
  | queued
  deriving DecidableEq, Repr

namespace Machine

/-- Execute a copy. -/
def execute (machine : Machine) (copy : Copy) : Machine :=
  let data := machine.dram.read copy.src copy.bytes
  { machine with
    hbm := machine.hbm.write copy.dst data
    executed := machine.executed ++ [(copy, data)] }

/-- Execute queued copies from the front. -/
def drain (machine : Machine) : Nat → Machine
  | 0 => machine
  | count + 1 =>
      match machine.pending with
      | [] => machine
      | copy :: pending => ({ machine with pending }.execute copy).drain count

/-- Issue a copy. -/
def issue (mode : CopyMode) (machine : Machine) (copy : Copy) : Machine :=
  match mode with
  | .atIssue => machine.execute copy
  | .queued => { machine with pending := machine.pending ++ [copy] }

/-- The stream executes some of its copies. -/
def Drains (before after : Machine) : Prop := ∃ count, before.drain count = after

@[simp] theorem drain_dram (machine : Machine) (count : Nat) :
    (machine.drain count).dram = machine.dram := by
  induction count generalizing machine with
  | zero => rfl
  | succ count induction =>
      rw [drain]
      split
      · rfl
      · rw [induction]
        rfl

theorem drain_of_empty {machine : Machine} (empty : machine.pending = []) (count : Nat) :
    machine.drain count = machine := by
  cases count with
  | zero => rfl
  | succ count => rw [drain, empty]

/-- A drain executes a front part of the queue. -/
theorem drain_split (machine : Machine) (count : Nat) :
    (machine.drain count).pending = machine.pending.drop count ∧
      (machine.drain count).executed = machine.executed ++
        (machine.pending.take count).map fun copy => (copy, machine.dram.read copy.src copy.bytes) := by
  induction count generalizing machine with
  | zero => simp [drain]
  | succ count induction =>
      rw [drain]
      split
      · rename_i empty
        simp [empty]
      · rename_i copy pending queued
        obtain ⟨rest, log⟩ := induction ({ machine with pending }.execute copy)
        rw [rest, log, queued]
        simp [execute]

end Machine

/-- The operations of the lookup loop.  The block of a read is for reference only. -/
inductive Op where
  | streamCreate
  | pread (block : BlockId) (dst count offset : Nat)
  | memcpyAsync (copy : Copy)
  | streamSynchronize
  | streamDestroy
  deriving DecidableEq, Repr

/-- What an operation returns: whether a CUDA call succeeded, how much a read delivered. -/
abbrev Reply : Op → Type
  | .pread _ _ _ _ => Option Nat
  | _ => Bool

/-- Execute one operation over the table file. -/
def serve (file : Bytes) (mode : CopyMode) : Server Machine Choice Reply :=
  fun machine op choice =>
    match op with
    | .pread _ dst count offset =>
        match MemTier.pread file count offset choice with
        | none => none
        | some .error => some (none, machine)
        | some (.data bytes) =>
            some (some bytes.length, { machine with dram := machine.dram.write dst bytes })
    | .memcpyAsync copy =>
        if choice = .fail then some (false, machine)
        else some (true, machine.issue mode copy)
    | .streamSynchronize =>
        if choice = .fail then some (false, machine)
        else some (true, machine.drain machine.pending.length)
    | .streamCreate | .streamDestroy => some (choice != .fail, machine)

/-- The machine as the environment of a call, for the replies that are permitted. -/
def environment (file : Bytes) (mode : CopyMode) (permits : (op : Op) → Reply op → Prop) :
    Environment Machine Choice Reply where
  serve := serve file mode
  background := Machine.Drains
  permits := permits
  background_refl := fun _ => ⟨0, rfl⟩

abbrev Run (α : Type) : Type := Prog Reply α

namespace Run

def streamCreate : Run Bool := Prog.perform Op.streamCreate

def pread (block : BlockId) (dst count offset : Nat) : Run (Option Nat) :=
  Prog.perform (Op.pread block dst count offset)

def memcpyAsync (copy : Copy) : Run Bool := Prog.perform (Op.memcpyAsync copy)

def streamSynchronize : Run Bool := Prog.perform Op.streamSynchronize

def streamDestroy : Run Bool := Prog.perform Op.streamDestroy

end Run

/-- The loop of `load_block`: read until the block is complete.  An error or the end of the file
is an exception, here `none`. -/
def loadLoop (block : BlockId) (offset dst bytes total : Nat) : Run (Option Nat) :=
  if _more : total < bytes then do
    match ← Run.pread block (dst + total) (bytes - total) ((offset + total) % 2 ^ 64) with
    | none => return none
    | some got =>
        if _eof : got = 0 then return none
        else loadLoop block offset dst bytes (total + got)
  else return some total
termination_by bytes - total

/-- `load_block`. -/
def loadBlock (config : Config) (block : BlockId) (dst bytes : Nat) : Run (Option Nat) :=
  loadLoop block (config.loadOffset block).toNat dst bytes 0

/-- `gds_load_block_or_posix` always takes the POSIX path. -/
def gdsLoadBlockOrPosix (config : Config) (block : BlockId) (dst bytes : Nat) :
    Run (Option Nat) :=
  loadBlock config block dst bytes

end MemTier.Embedding
