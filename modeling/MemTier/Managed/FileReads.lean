import MemTier.Managed.Accounting
import MemTier.Posix
import MemTier.Resumption.Expansion

/-!
# Reading files into managed memory

`pread_exact` opens a file, reads until it has what it was asked for, and closes the file again. It
is a program of its own, carried out where the programs of the extension read a file. Files do not
change. Memory that is not live may change at any moment, live memory is changed by reads only.
-/

namespace MemTier.Managed

open Resumption Resumption.Prog
open Containers (Bytes slice length_slice slice_append)

/-- The regular files there are. -/
structure Files where
  find : String → Option Bytes
  small : ∀ path content, find path = some content → content.length < 2 ^ 63

/-- The memory of the extension with what is in it. -/
structure Filled where
  memory : Memory := {}
  cells : Containers.Memory := fun _ => 0

/-- With the descriptors that are open, and what kernels have read so far, noted for statements
only. -/
structure Store extends Filled where
  opened : List (Nat × String) := []
  touched : List Bytes := []

/-- The contents of live memory are the same. -/
def Memory.Alike (memory : Memory) (cells cells' : Containers.Memory) : Prop :=
  ∀ block ∈ memory.live, ∀ cell, block.address.toNat ≤ cell →
    cell < block.address.toNat + block.bytes.toNat → cells' cell = cells cell

/-- Memory that is not live may have changed. -/
def Store.Idles (before after : Store) : Prop :=
  ∃ cells, before.memory.Alike before.cells cells ∧ after = { before with cells }

/-- Operations of the extension, among them those of the operating system, and what its callers
ask of the device. -/
inductive FileOp where
  | memory (op : Op)
  | openFile (path : String)
  | pread (fd dst count offset : Nat)
  | closeFile (fd : Nat)
  | getStats
  | touchGpu (ptr : Address) (numel : Nat)
  deriving DecidableEq, Repr

/-- Replies; a text is what `strerror` says. -/
abbrev FileReply : FileOp → Type
  | .memory op => Reply op
  | .openFile _ => Except String Nat
  | .pread .. => Except String Nat
  | .closeFile _ => Option String
  | .getStats => Stats
  | .touchGpu .. => Option Failure

/-- What the environment chooses. -/
structure FileChoice where
  memory : Choice := {}
  posix : MemTier.Choice := .take (2 ^ 31)
  fd : Nat := 3
  strerror : String := ""
  touch : Option Failure := none

/-- A call of `pread` that is interrupted is made again. `close` gives up the descriptor also when it
fails. -/
def serveFiles (files : Files) : Server Store FileChoice FileReply
  | store, .memory op, choice =>
      (serve store.memory op choice.memory).map fun result =>
        (result.1, { store with memory := result.2 })
  | store, .openFile path, choice =>
      match files.find path, choice.posix with
      | some _, .take _ =>
          if (store.opened.lookup choice.fd).isSome then none
          else some (.ok choice.fd, { store with opened := (choice.fd, path) :: store.opened })
      | _, _ => some (.error choice.strerror, store)
  | store, .pread fd dst count offset, choice =>
      match (store.opened.lookup fd).bind files.find with
      | none => some (.error choice.strerror, store)
      | some content =>
          match MemTier.pread content count offset choice.posix with
          | none => none
          | some .error => some (.error choice.strerror, store)
          | some (.data bytes) =>
              some (.ok bytes.length, { store with cells := store.cells.write dst bytes })
  | store, .closeFile fd, choice =>
      let closed := { store with opened := store.opened.filter (·.1 ≠ fd) }
      match choice.posix with
      | .take _ => some (none, closed)
      | _ => some (some choice.strerror, closed)
  | store, .getStats, _ => some (store.memory.stats, store)
  | store, .touchGpu ptr numel, choice =>
      match choice.touch with
      | some failure => some (some failure, store)
      | none =>
          some (none, { store with
            touched := store.touched ++ [store.cells.read ptr.toNat (numel * 4)] })

/-- One thread and nobody else. -/
def onFiles (files : Files) (permits : (op : FileOp) → FileReply op → Prop) :
    Environment Store FileChoice FileReply where
  serve := serveFiles files
  background := Store.Idles
  permits := permits
  background_refl store := ⟨store.cells, fun _ _ _ _ _ => rfl, rfl⟩

/-! ## Programs -/

def openFile (path : String) : Prog FileReply (Except String Nat) := perform (FileOp.openFile path)

def readAt (fd dst count offset : Nat) : Prog FileReply (Except String Nat) :=
  perform (FileOp.pread fd dst count offset)

def closeFile (fd : Nat) : Prog FileReply (Option String) := perform (FileOp.closeFile fd)

/-- The loop of `pread_exact`, with what follows it. -/
def preadLoop (path : String) (fd : Nat) (offset : UInt64) (dst : Address) (bytes : UInt64)
    (total : Nat) : Prog FileReply (Option String) :=
  if _more : total < bytes.toNat then do
    match ← readAt fd (dst.toNat + total) (bytes.toNat - total)
        ((offset.toNat + total) % 2 ^ 64) with
    | .error strerror => do
        let _ ← closeFile fd
        return some s!"pread({path}) failed: {strerror}"
    | .ok got =>
        if _eof : got = 0 then do
          let _ ← closeFile fd
          return some s!"pread({path}) reached EOF after {total} of {bytes} bytes"
        else preadLoop path fd offset dst bytes (total + got)
  else do
    match ← closeFile fd with
    | some strerror => return some s!"close({path}) failed: {strerror}"
    | none => return none
termination_by bytes.toNat - total

/-- `pread_exact`; a text is the message of its exception. -/
def preadExact (path : String) (offset : UInt64) (dst : Address) (bytes : UInt64) :
    Prog FileReply (Option String) := do
  match ← openFile path with
  | .error strerror => return some s!"open({path}) failed: {strerror}"
  | .ok fd => preadLoop path fd offset dst bytes 0

/-- How the operations of the extension are carried out. -/
def carry : (op : Op) → Prog FileReply (Reply op)
  | .preadExact path offset dst bytes => preadExact path offset dst bytes
  | op => perform (FileOp.memory op)

/-- A program of the extension, carried out. -/
def onStore {α : Type} (program : Program α) : Throwing FileReply Failure α :=
  ExceptT.mk (program.run.expand carry)

/-! ## What operations do -/

section

variable {memory : Memory} {cells cells' cells'' : Containers.Memory}

theorem Memory.Alike.refl : memory.Alike cells cells := fun _ _ _ _ _ => rfl

theorem Memory.Alike.trans (first : memory.Alike cells cells')
    (second : memory.Alike cells' cells'') : memory.Alike cells cells'' :=
  fun block member cell low high =>
    (second block member cell low high).trans (first block member cell low high)

/-- The same store over the same contents. -/
theorem Memory.Alike.write (alike : memory.Alike cells cells') (address : Nat) (data : Bytes) :
    memory.Alike (cells.write address data) (cells'.write address data) := by
  intro block member cell low high
  simp only [Containers.Memory.write, alike block member cell low high]

/-- What is read of a live block. -/
theorem Memory.Alike.read (alike : memory.Alike cells cells') {block : Block}
    (member : block ∈ memory.live) :
    cells'.read block.address.toNat block.bytes.toNat =
      cells.read block.address.toNat block.bytes.toNat := by
  apply List.map_congr_left
  intro index inside
  rw [List.mem_range] at inside
  exact alike block member _ (by omega) (by omega)

end

section

variable {files : Files} {permits : (op : FileOp) → FileReply op → Prop} {before after : Store}

theorem serves_memory {op : Op} {reply : Reply op}
    (serves : (onFiles files permits).Serves before (.memory op) reply after) :
    permits (.memory op) reply ∧ ∃ cells choice, before.memory.Alike before.cells cells ∧
      serve before.memory op choice = some (reply, after.memory) ∧
      after = { before with memory := after.memory, cells } := by
  obtain ⟨_, choice, ⟨cells, alike, rfl⟩, served, permitted⟩ := serves
  simp only [onFiles, serveFiles] at served
  obtain ⟨⟨reply', memory⟩, inner, same⟩ := Option.map_eq_some_iff.mp served
  simp only [Prod.mk.injEq] at same
  obtain ⟨rfl, rfl⟩ := same
  exact ⟨permitted, cells, choice.memory, alike, inner, rfl⟩

theorem serves_openFile {path : String} {reply : Except String Nat}
    (serves : (onFiles files permits).Serves before (.openFile path) reply after) :
    permits (.openFile path) reply ∧ ∃ cells, before.memory.Alike before.cells cells ∧
      ((∃ strerror, reply = .error strerror ∧ after = { before with cells }) ∨
        ∃ fd content, reply = .ok fd ∧ files.find path = some content ∧
          before.opened.lookup fd = none ∧
          after = { before with cells, opened := (fd, path) :: before.opened }) := by
  obtain ⟨_, choice, ⟨cells, alike, rfl⟩, served, permitted⟩ := serves
  refine ⟨permitted, cells, alike, ?_⟩
  simp only [onFiles, serveFiles] at served
  split at served
  · rename_i content _ found _
    split at served
    · simp at served
    · rename_i unused
      simp only [Option.some.injEq, Prod.mk.injEq] at served
      exact .inr ⟨choice.fd, content, served.1.symm, found,
        Option.not_isSome_iff_eq_none.mp unused, served.2.symm⟩
  · simp only [Option.some.injEq, Prod.mk.injEq] at served
    exact .inl ⟨_, served.1.symm, served.2.symm⟩

theorem serves_pread {fd dst count offset : Nat} {reply : Except String Nat} {path : String}
    {content : Bytes} (lookup : before.opened.lookup fd = some path)
    (found : files.find path = some content)
    (serves : (onFiles files permits).Serves before (.pread fd dst count offset) reply after) :
    permits (.pread fd dst count offset) reply ∧
      ∃ cells, before.memory.Alike before.cells cells ∧
        ((∃ strerror, reply = .error strerror ∧ after = { before with cells }) ∨
          ∃ data, data <+: slice content offset count ∧
            (data = [] → slice content offset count = []) ∧ reply = .ok data.length ∧
            after = { before with cells := cells.write dst data }) := by
  obtain ⟨_, choice, ⟨cells, alike, rfl⟩, served, permitted⟩ := serves
  refine ⟨permitted, cells, alike, ?_⟩
  simp only [onFiles, serveFiles, lookup, Option.bind_some, found] at served
  split at served
  · simp at served
  · simp only [Option.some.injEq, Prod.mk.injEq] at served
    exact .inl ⟨_, served.1.symm, served.2.symm⟩
  · rename_i data outcome
    simp only [Option.some.injEq, Prod.mk.injEq] at served
    obtain ⟨read, nonempty, -⟩ := pread_data outcome
    exact .inr ⟨data, read, nonempty, served.1.symm, served.2.symm⟩

theorem serves_closeFile {fd : Nat} {reply : Option String}
    (serves : (onFiles files permits).Serves before (.closeFile fd) reply after) :
    permits (.closeFile fd) reply ∧ ∃ cells, before.memory.Alike before.cells cells ∧
      after = { before with cells, opened := before.opened.filter (·.1 ≠ fd) } := by
  obtain ⟨_, choice, ⟨cells, alike, rfl⟩, served, permitted⟩ := serves
  refine ⟨permitted, cells, alike, ?_⟩
  simp only [onFiles, serveFiles] at served
  split at served <;>
    · simp only [Option.some.injEq, Prod.mk.injEq] at served
      exact served.2.symm

end

/-! ## What `pread_exact` does -/

/-- Why `pread_exact` throws, with what message. -/
inductive PreadFailure (files : Files) (permits : (op : FileOp) → FileReply op → Prop)
    (path : String) (offset bytes : UInt64) : String → Prop
  | opening (strerror : String) (permitted : permits (.openFile path) (.error strerror)) :
      PreadFailure files permits path offset bytes s!"open({path}) failed: {strerror}"
  | reading (fd dst count place : Nat) (strerror : String)
      (permitted : permits (.pread fd dst count place) (.error strerror)) :
      PreadFailure files permits path offset bytes s!"pread({path}) failed: {strerror}"
  | ended (content : Bytes) (found : files.find path = some content)
      (short : content.length < offset.toNat + bytes.toNat) :
      PreadFailure files permits path offset bytes
        s!"pread({path}) reached EOF after {content.length - offset.toNat} of {bytes} bytes"
  | closing (fd : Nat) (strerror : String)
      (permitted : permits (.closeFile fd) (some strerror)) :
      PreadFailure files permits path offset bytes s!"close({path}) failed: {strerror}"

/-- What the loop does once `total` bytes are there: it stores a front part of the rest of the
range, all of it if it throws nothing, and closes the file. -/
structure LoopDoes (files : Files) (permits : (op : FileOp) → FileReply op → Prop) (path : String)
    (content : Bytes) (fd : Nat) (offset : UInt64) (dst : Address) (bytes : UInt64) (total : Nat)
    (before : Store) (message : Option String) (after : Store) : Prop where
  memory : after.memory = before.memory
  touched : after.touched = before.touched
  opened : after.opened = before.opened.filter (·.1 ≠ fd)
  stored : ∃ data, data.length ≤ bytes.toNat - total ∧
    before.memory.Alike (before.cells.write (dst.toNat + total) data) after.cells ∧
    (message = none → data = slice content (offset.toNat + total) (bytes.toNat - total) ∧
      data.length = bytes.toNat - total)
  failed : ∀ text, message = some text → PreadFailure files permits path offset bytes text

section

variable {files : Files} {permits : (op : FileOp) → FileReply op → Prop} {path : String}
  {content : Bytes} {fd total : Nat} {offset : UInt64} {dst : Address} {bytes : UInt64}
  {before after : Store} {message : Option String}

/-- The loop ends and closes the file. -/
theorem LoopDoes.of_closed {cells cells' : Containers.Memory}
    (first : before.memory.Alike before.cells cells) (second : before.memory.Alike cells cells')
    (done : message = none → bytes.toNat ≤ total)
    (failed : ∀ text, message = some text → PreadFailure files permits path offset bytes text) :
    LoopDoes files permits path content fd offset dst bytes total before message
      { before with cells := cells', opened := before.opened.filter (·.1 ≠ fd) } where
  memory := rfl
  touched := rfl
  opened := rfl
  stored := by
    refine ⟨[], Nat.zero_le _, ?_, fun none => ?_⟩
    · rw [Containers.Memory.write_of_read_eq rfl]
      exact first.trans second
    · have rest : bytes.toNat - total = 0 := by
        have := done none
        omega
      simp [rest, slice]
  failed := failed

/-- What is stored in one go and what the loop stores after that. -/
theorem LoopDoes.cons {cells : Containers.Memory} {data : Bytes}
    (alike : before.memory.Alike before.cells cells)
    (read : data <+: slice content (offset.toNat + total) (bytes.toNat - total))
    (rest : LoopDoes files permits path content fd offset dst bytes (total + data.length)
      { before with cells := cells.write (dst.toNat + total) data } message after) :
    LoopDoes files permits path content fd offset dst bytes total before message after where
  memory := rest.memory
  touched := rest.touched
  opened := rest.opened
  stored := by
    obtain ⟨more, length, stored, complete⟩ := rest.stored
    have bound := read.length_le
    rw [length_slice] at bound
    refine ⟨data ++ more, by rw [List.length_append]; omega, ?_, fun none => ?_⟩
    · rw [← Nat.add_assoc, Containers.Memory.write_write_append] at stored
      exact (alike.write _ _).trans stored
    · obtain ⟨more_eq, more_length⟩ := complete none
      have data_eq : data = slice content (offset.toNat + total) data.length := by
        rw [List.prefix_iff_eq_take.mp read, slice, List.take_take]
        simp only [slice, List.length_take, List.length_drop]
        congr 1
        omega
      constructor
      · have split := slice_append content (offset.toNat + total) data.length
          (bytes.toNat - (total + data.length))
        rw [Nat.add_assoc, ← more_eq, ← data_eq] at split
        rw [split]
        congr 1
        omega
      · rw [List.length_append]
        omega
  failed := rest.failed

/-- The loop, from any point at which what is there was read from the file. -/
theorem preadLoop_does (lookup : before.opened.lookup fd = some path)
    (found : files.find path = some content) (read : total ≤ content.length - offset.toNat)
    (evaluation : Evaluates (onFiles files permits) (preadLoop path fd offset dst bytes total) before
      message after) :
    LoopDoes files permits path content fd offset dst bytes total before message after := by
  induction rest : bytes.toNat - total using Nat.strong_induction_on generalizing total before with
  | _ rest_bytes induction =>
    rw [preadLoop] at evaluation
    split at evaluation
    · rename_i more
      have bound := offset.toNat_lt
      have small := files.small path content found
      obtain ⟨reply, middle, serves, evaluation⟩ := evaluation
      obtain ⟨permitted, cells, alike, failed | ⟨data, front, nonempty, rfl, rfl⟩⟩ :=
        serves_pread lookup found serves
      · obtain ⟨strerror, rfl, rfl⟩ := failed
        obtain ⟨_, closed, closes, rfl, rfl⟩ := evaluation
        obtain ⟨-, cells', alike', rfl⟩ := serves_closeFile closes
        exact LoopDoes.of_closed alike alike' (by simp) (by
          rintro text ⟨⟩
          exact .reading _ _ _ _ _ permitted)
      · -- The offset does not wrap, as the file has that many bytes.
        have unwrapped : (offset.toNat + total) % 2 ^ 64 = offset.toNat + total :=
          Nat.mod_eq_of_lt (by omega)
        rw [unwrapped] at front nonempty
        replace evaluation : Evaluates (onFiles files permits) (if _eof : data.length = 0 then _
          else preadLoop path fd offset dst bytes (total + data.length)) _ message after := evaluation
        by_cases ended : data.length = 0
        · rw [dif_pos ended] at evaluation
          obtain ⟨_, closed, closes, rfl, rfl⟩ := evaluation
          obtain ⟨-, cells', alike', rfl⟩ := serves_closeFile closes
          have past := congrArg List.length (nonempty (List.length_eq_zero_iff.mp ended))
          rw [length_slice, List.length_nil] at past
          have total_eq : total = content.length - offset.toNat := by omega
          rw [List.length_eq_zero_iff.mp ended, Containers.Memory.write_of_read_eq rfl] at alike'
          exact LoopDoes.of_closed alike alike' (by simp) (by
            rintro text ⟨⟩
            rw [total_eq]
            exact .ended content found (by omega))
        · have length := front.length_le
          rw [length_slice] at length
          rw [dif_neg ended] at evaluation
          exact LoopDoes.cons alike front
            (induction _ (by omega) lookup (by omega) evaluation rfl)
    · rename_i complete
      obtain ⟨reply, closed, closes, evaluation⟩ := evaluation
      obtain ⟨permitted, cells, alike, rfl⟩ := serves_closeFile closes
      cases reply with
      | none =>
          obtain ⟨rfl, rfl⟩ := evaluation
          exact LoopDoes.of_closed Memory.Alike.refl alike (fun _ => by omega) (by simp)
      | some strerror =>
          obtain ⟨rfl, rfl⟩ := evaluation
          exact LoopDoes.of_closed Memory.Alike.refl alike (by simp) (by
            rintro text ⟨⟩
            exact .closing _ _ permitted)

/-- `pread_exact` opens the file, or throws. -/
theorem preadExact_does
    (evaluation : Evaluates (onFiles files permits) (preadExact path offset dst bytes) before message
      after) :
    after.memory = before.memory ∧ after.touched = before.touched ∧ after.opened = before.opened ∧
      (∃ data, data.length ≤ bytes.toNat ∧
        before.memory.Alike (before.cells.write dst.toNat data) after.cells ∧
        (message = none → ∃ content, files.find path = some content ∧
          data = slice content offset.toNat bytes.toNat ∧ data.length = bytes.toNat)) ∧
      ∀ text, message = some text → PreadFailure files permits path offset bytes text := by
  obtain ⟨reply, middle, serves, evaluation⟩ := evaluation
  obtain ⟨permitted, cells, alike, ⟨strerror, rfl, rfl⟩ | ⟨fd, content, rfl, found, unused, rfl⟩⟩ :=
    serves_openFile serves
  · obtain ⟨rfl, rfl⟩ := evaluation
    refine ⟨rfl, rfl, rfl, ⟨[], Nat.zero_le _, ?_, by simp⟩, ?_⟩
    · rw [Containers.Memory.write_of_read_eq rfl]
      exact alike
    · rintro text ⟨⟩
      exact .opening _ permitted
  · replace evaluation : Evaluates (onFiles files permits) (preadLoop path fd offset dst bytes 0)
      _ message after := evaluation
    have does := preadLoop_does (by simp) found (Nat.zero_le _) evaluation
    obtain ⟨data, length, stored, complete⟩ := does.stored
    simp only [Nat.add_zero, Nat.sub_zero] at length stored complete
    refine ⟨does.memory, does.touched, ?_, ⟨data, length, (alike.write _ _).trans stored, ?_⟩,
      does.failed⟩
    · -- Nothing else is open under the number that the file was given.
      rw [does.opened, List.filter_cons_of_neg (by simp)]
      apply List.filter_eq_self.mpr
      intro entry member
      rw [decide_eq_true_iff]
      rintro rfl
      simpa using List.lookup_eq_none_iff.mp unused entry member
    · exact fun none => ⟨content, found, complete none⟩

end

/-! ## Reads as single operations -/

/-- What an operation of the extension does, a read in one go. -/
def Filled.Does (files : Files) (permits : (op : FileOp) → FileReply op → Prop) (before : Filled) :
    (op : Op) → Reply op → Filled → Prop
  | .preadExact path offset dst bytes, message, after =>
      after.memory = before.memory ∧
        (∃ data, data.length ≤ bytes.toNat ∧
          before.memory.Alike (before.cells.write dst.toNat data) after.cells ∧
          (message = none → ∃ content, files.find path = some content ∧
            data = slice content offset.toNat bytes.toNat ∧ data.length = bytes.toNat)) ∧
        ∀ text, message = some text → PreadFailure files permits path offset bytes text
  | op, reply, after =>
      permits (.memory op) reply ∧ before.memory.Alike before.cells after.cells ∧
        ∃ choice, serve before.memory op choice = some (reply, after.memory)

/-- Memory and its contents, as the extension sees them. -/
noncomputable def inOneGo (files : Files) (permits : (op : FileOp) → FileReply op → Prop) :
    Environment Filled ((op : Op) × Reply op × Filled) Reply :=
  Environment.ofRelation (Filled.Does files permits)

section

variable {files : Files} {permits : (op : FileOp) → FileReply op → Prop} {before after : Store}

/-- The extension is carried out: no file stays open, and kernels read nothing. -/
theorem carriesOut (opened : List (Nat × String)) (touched : List Bytes) :
    CarriesOut (onFiles files permits) (inOneGo files permits) carry
      (fun store => store.opened = opened ∧ store.touched = touched) Store.toFilled where
  carried op before reply after := by
    rintro ⟨rfl, rfl⟩ performed
    rw [inOneGo, Environment.serves_ofRelation]
    cases op with
    | preadExact path offset dst bytes =>
        obtain ⟨memory, touched, opened, stored, failed⟩ := preadExact_does performed
        exact ⟨⟨memory, stored, failed⟩, opened, touched⟩
    | _ =>
        obtain ⟨permitted, cells, choice, alike, served, same⟩ :=
          serves_memory (evaluates_perform.mp performed)
        rw [same]
        exact ⟨⟨permitted, alike, choice, served⟩, rfl, rfl⟩

/-- What a program of the extension does when it is carried out. -/
theorem evaluates_onStore {α : Type} {program : Program α} {outcome : Except Failure α}
    (evaluation : Evaluates (onFiles files permits) (onStore program).run before outcome after) :
    Evaluates (inOneGo files permits) program.run before.toFilled outcome after.toFilled ∧
      after.opened = before.opened ∧ after.touched = before.touched :=
  (carriesOut before.opened before.touched).evaluates ⟨rfl, rfl⟩ evaluation

/-- Without a view of the contents this is the memory of one thread. -/
theorem evaluates_alone {replies : (op : Op) → Reply op → Prop} {α : Type} {program : Program α}
    {outcome : Except Failure α} {before after : Filled}
    (weaker : ∀ op reply, permits (.memory op) reply → replies op reply)
    (reads : ∀ path offset dst bytes reply, replies (.preadExact path offset dst bytes) reply)
    (evaluation : Evaluates (inOneGo files permits) program.run before outcome after) :
    Evaluates (alone replies) program.run before.memory outcome after.memory := by
  refine Evaluates.project (fun op before reply after serves => ?_) evaluation
  rw [inOneGo, Environment.serves_ofRelation] at serves
  cases op with
  | preadExact path offset dst bytes =>
      obtain ⟨memory, -, -⟩ := serves
      exact ⟨before.memory, { exception := reply }, rfl, by rw [memory]; rfl, reads _ _ _ _ _⟩
  | _ =>
      obtain ⟨permitted, -, choice, served⟩ := serves
      exact ⟨before.memory, choice, rfl, served, weaker _ _ permitted⟩

end

end MemTier.Managed
