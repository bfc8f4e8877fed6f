import MemTier.Resumption.Confinement
import MemTier.Runtime.System

/-!
# All interleavings

The states a context can reach when clients make calls of a given kind only: threads interleave
freely, any system call may fail, and other processes append to files.
-/

namespace MemTier

open Containers Resumption

/-- States reached from `memtier_init` on, when the calls of clients are among those permitted. -/
inductive System.Reached (context : Context) (sorter : Sorter) (permitted : ApiCall → Prop)
    (files : Files) : System → Prop
  | init : Reached context sorter permitted files (initial context files)
  | next {system after : System} {event : Event}
      (reached : Reached context sorter permitted files system)
      (calling : ∀ call, event = .invoke call → permitted call)
      (happens : system.next context sorter event = some after) :
      Reached context sorter permitted files after

section

variable {context : Context} {sorter : Sorter} {permitted : ApiCall → Prop} {files : Files}
  {system after : System}

theorem System.Reached.run {events : List Event}
    (reached : Reached context sorter permitted files system)
    (calling : ∀ call, .invoke call ∈ events → permitted call)
    (happens : system.run context sorter events = some after) :
    Reached context sorter permitted files after := by
  induction events generalizing system with
  | nil => exact Option.some.inj happens ▸ reached
  | cons event rest induction =>
      rw [System.run, List.foldlM_cons] at happens
      obtain ⟨middle, first, later⟩ := Option.bind_eq_some_iff.mp happens
      refine induction (.next reached ?_ first)
        (fun call member => calling call (List.mem_cons_of_mem _ member)) later
      rintro call rfl
      exact calling call List.mem_cons_self

/-- The only thread of a system runs on its own. -/
theorem System.Reached.runFor {shared : Shared} {thread : Thread} {queue : List ReadArgs}
    (reached : Reached context sorter permitted files { shared, threads := [thread], queue })
    (stream : Nat → Choice) (steps : Nat) :
    let moved := Prog.runFor (serve context.setup) stream steps (shared, thread.rest)
    Reached context sorter permitted files
      { shared := moved.1, threads := [{ thread with rest := moved.2 }], queue } := by
  induction steps with
  | zero => exact reached
  | succ steps induction =>
      exact @Reached.next context sorter permitted files _ _ (.step 0 (stream steps)) induction
        (by simp) rfl

/-- Confined calls keep an invariant in every interleaving. -/
theorem System.Reached.confined {inv : Shared → Prop} {replies : (op : Op) → Reply op → Prop}
    {kind : Op → Prop} (reached : Reached context sorter permitted files system)
    (keeps : Prog.Keeps (serve context.setup) inv replies kind)
    (start : inv (context.initial files))
    (local_files : ∀ shared changed, inv shared → inv { shared with files := changed })
    (programs : ∀ call, permitted call →
      (call.program context sorter).Confined replies kind)
    (reads : ∀ args, permitted (.read args)) :
    inv system.shared ∧ ∀ thread ∈ system.threads, thread.rest.Confined replies kind := by
  induction reached with
  | init => exact ⟨start, by simp [System.initial]⟩
  | @next system after event reached calling happens induction =>
      obtain ⟨invariant, threads⟩ := induction
      have entered : ∀ call worker, permitted call →
          ∀ thread ∈ (system.enter context sorter call worker).threads,
            thread.rest.Confined replies kind := by
        intro call worker allowed thread member
        rcases List.mem_append.mp member with old | new
        · exact threads thread old
        · rw [List.mem_singleton.mp new]
          exact programs call allowed
      cases System.transition_of_next happens with
      | invoke call => exact ⟨invariant, entered call false (calling call rfl)⟩
      | reject args => exact ⟨invariant, threads⟩
      | submit args => exact ⟨invariant, threads⟩
      | @dequeue args queue front => exact ⟨invariant, entered (.read args) true (reads args)⟩
      | step choice present =>
          obtain ⟨kept, confined⟩ :=
            (threads _ (List.mem_of_getElem? present)).advance keeps invariant choice
          refine ⟨kept, fun other member => ?_⟩
          rcases List.mem_or_eq_of_mem_set member with old | rfl
          · exact threads other old
          · exact confined
      | append bytes present short => exact ⟨local_files _ _ invariant, threads⟩

end

/-! ## Programs that change nothing shared -/

section

variable {context : Context} {replies : (op : Op) → Reply op → Prop} {kind : Op → Prop}

theorem confined_preadLoop {path : String} {offset size : Nat} {data : Bytes}
    (inert : ∀ op, op.Inert → kind op) :
    Prog.Confined replies kind (preadLoop path offset size data) := by
  induction remaining : size - data.length using Nat.strong_induction_on generalizing data with
  | h remaining induction =>
      rw [preadLoop]
      split
      · refine Prog.confined_perform_bind (inert _ trivial) fun reply _ => ?_
        cases reply with
        | error => trivial
        | data bytes =>
            dsimp only
            split
            · trivial
            · rename_i more nonempty
              exact induction _ (by rw [List.length_append]; omega) rfl
      · trivial

theorem confined_posixPreadFull {path : String} {offset size : Nat}
    (inert : ∀ op, op.Inert → kind op) :
    Prog.Confined replies kind (posixPreadFull path offset size) := by
  refine Prog.confined_perform_bind (inert _ trivial) fun opened _ => ?_
  cases opened with
  | false => trivial
  | true => exact confined_preadLoop inert

theorem confined_copyTarget {target : Target} {bytes : Bytes}
    (inert : ∀ op, op.Inert → kind op) :
    Prog.Confined replies kind (copyTarget context target bytes) := by
  cases target with
  | cpu => trivial
  | gpu =>
      refine Prog.confined_perform_bind (inert _ trivial) fun copied _ => ?_
      cases copied with
      | false => trivial
      | true =>
          cases context.options.asyncMode with
          | true => trivial
          | false =>
              refine Prog.confined_perform_bind (inert _ trivial) fun synchronised _ => ?_
              cases synchronised with
              | false => trivial
              | true => trivial

theorem confined_gdsRead {path : String} {offset size : Nat}
    (inert : ∀ op, op.Inert → kind op) :
    Prog.Confined replies kind (gdsRead context path offset size) := by
  rw [gdsRead]
  split
  · trivial
  · split
    · split
      · trivial
      · exact confined_posixPreadFull inert
    · split
      · trivial
      · refine Prog.confined_perform_bind (inert _ trivial) fun reply _ => ?_
        cases reply with
        | none => trivial
        | some bytes => trivial

end

/-! ## Reads of a kind -/

/-- An update that counts neither a hit nor ranges that were merged. -/
def CountsMiss (update : Stats → Stats) : Prop :=
  ∀ stats, (update stats).dramHits = stats.dramHits ∧
    (update stats).coalescedRanges = stats.coalescedRanges ∧
    (update stats).coalescedBytes = stats.coalescedBytes

theorem countsMiss_onSelected (selected : Path) : CountsMiss (onSelected selected) := by
  intro stats
  simp only [onSelected]
  split <;> exact ⟨rfl, rfl, rfl⟩

/-- A kind of operations that comprises those of reads, as far as they neither hit nor insert. -/
structure ComprisesMisses (kind : Op → Prop) : Prop where
  inert : ∀ op, op.Inert → kind op
  counted : ∀ update, CountsMiss update → kind (.updateStats update)

section

variable {context : Context} {replies : (op : Op) → Reply op → Prop} {kind : Op → Prop}
  {path : String} {target : Target} {piece : Piece}

/-- A piece is counted once it was delivered. -/
theorem confined_counted {update : Stats → Stats} {bytes : Bytes}
    (allowed : kind (.updateStats update)) :
    (do
      Run.updateStats update
      return .ok bytes : Run (Except Err Bytes)).Confined replies kind :=
  Prog.confined_perform_bind allowed fun _ _ => trivial

/-- A piece is delivered before anything else is done about it. -/
theorem confined_delivered {bytes : Bytes} {rest : Run (Except Err Bytes)}
    (inert : ∀ op, op.Inert → kind op) (confined : rest.Confined replies kind) :
    (do
      let rc ← copyTarget context target bytes
      if rc ≠ .ok then return .error rc
      rest : Run (Except Err Bytes)).Confined replies kind := by
  apply (confined_copyTarget inert).bind
  intro rc
  split
  · trivial
  · exact confined

theorem confined_serveGds (misses : ComprisesMisses kind) :
    (serveGds context path target piece).Confined replies kind := by
  apply (confined_gdsRead misses.inert).bind
  intro attempt
  split
  · exact confined_delivered misses.inert
      (confined_counted (misses.counted _ fun _ => ⟨rfl, rfl, rfl⟩))
  · apply (confined_posixPreadFull misses.inert).bind
    intro full
    split
    · trivial
    · split
      · trivial
      · exact confined_delivered misses.inert
          (confined_counted (misses.counted _ fun _ => ⟨rfl, rfl, rfl⟩))

theorem confined_servePosix {key : CacheKey} {caching : Bool} (misses : ComprisesMisses kind)
    (inserted : caching = true → context.options.cacheAdmit = true →
      ∀ data validSize, kind (.insert key data validSize)) :
    (servePosix context path target piece key caching).Confined replies kind := by
  simp only [servePosix]
  generalize (if caching = true then piece.inChunk else 0) = srcOff
  apply (confined_posixPreadFull misses.inert).bind
  intro full
  split
  · trivial
  · split
    · trivial
    · apply confined_delivered misses.inert
      split
      · rename_i admitted
        rw [Bool.and_eq_true] at admitted
        apply Prog.confined_perform_bind (inserted admitted.1 admitted.2 _ _)
        intro _ _
        exact confined_counted (misses.counted _ fun _ => ⟨rfl, rfl, rfl⟩)
      · exact confined_counted (misses.counted _ fun _ => ⟨rfl, rfl, rfl⟩)

theorem confined_readLoop {offset size copied : Nat} {out : Bytes} (misses : ComprisesMisses kind)
    (pieces : ∀ piece, (readPiece context path target piece).Confined replies kind) :
    (readLoop context path target offset size copied out).Confined replies kind := by
  induction remaining : size - copied using Nat.strong_induction_on
    generalizing copied out with
  | h remaining induction =>
      rw [readLoop]
      split
      · rename_i more
        have positive := @pieceAt_need_pos context.options.chunkSize offset size copied
          context.chunkSize_pos more
        apply (pieces _).bind
        intro outcome
        cases outcome with
        | error rc => trivial
        | ok bytes => exact induction _ (by omega) rfl
      · exact Prog.confined_perform_bind (misses.counted _ fun _ => ⟨rfl, rfl, rfl⟩)
          fun _ _ => trivial

theorem confined_doReadImpl {args : ReadArgs} (misses : ComprisesMisses kind)
    (pieces : ∀ path target piece, (readPiece context path target piece).Confined replies kind) :
    (doReadImpl context args).Confined replies kind := by
  rw [doReadImpl]
  split
  · trivial
  · split_ifs
    · trivial
    · trivial
    · exact confined_readLoop misses fun piece => pieces _ _ piece

theorem confined_copyItems {base : UInt64} {tmp : Bytes} {items : List Item}
    (inert : ∀ op, op.Inert → kind op) :
    (copyItems context target base tmp items).Confined replies kind := by
  induction items with
  | nil => trivial
  | cons item rest induction =>
      apply (confined_copyTarget inert).bind
      intro rc
      split
      · trivial
      · exact induction.bind fun _ => trivial

/-- The reads and copies of a vectored read. -/
theorem confined_readvLoop {formed : List Group} (misses : ComprisesMisses kind)
    (pieces : ∀ path target piece, (readPiece context path target piece).Confined replies kind) :
    (readvLoop context target formed).Confined replies kind := by
  induction formed with
  | nil => trivial
  | cons group rest induction =>
      apply (confined_doReadImpl misses pieces).bind
      intro result
      dsimp only
      split
      · trivial
      · apply (confined_copyItems misses.inert).bind
        intro copied
        split
        · trivial
        · exact induction.bind fun _ => trivial

end

end MemTier
