import MemTier.Managed.Account

/-!
# Accounting by many threads

Threads take and free managed memory at once, and each brings the account up to date in a step of
its own after the driver has been called. Between the two steps the address may be handed out again.
As long as the notes about each address are taken in the order of the driver calls they belong to,
the account is right whenever no thread stands between the two steps.
-/

namespace MemTier.Managed

open Resumption Resumption.Prog

/-! ## Notes that are due -/

/-- What is to be noted after a call of the driver. A reset of the counter is never due. -/
inductive Due where
  | allocation (ptr : Address) (bytes : UInt64)
  | release (ptr : Address)
  | reset
  deriving DecidableEq, Repr

def Due.address : Due → Address
  | .allocation ptr _ => ptr
  | .release ptr => ptr
  | .reset => 0

/-- Memory that was handed out has to be noted, memory that was freed to be struck out. -/
def duties : Duties Reply Due where
  settles
    | .recordAllocation ptr bytes => some (.allocation ptr bytes)
    | .recordFree ptr _ => some (.release ptr)
    | .resetStats => some .reset
    | _ => none
  incurs op reply :=
    match op, reply with
    | .cudaMallocManaged bytes, some ptr => some (.allocation ptr bytes)
    | .cudaFree ptr, true => some (.release ptr)
    | _, _ => none

theorem inert_free (op : Op) (inert : op.Inert) :
    duties.settles op = none ∧ ∀ reply, duties.incurs op reply = none := by
  cases op with
  | cudaMallocManaged | recordAllocation | cudaFree | recordFree | resetStats => exact inert.elim
  | _ => exact ⟨rfl, fun _ => rfl⟩

/-! ### Programs note what is due -/

theorem dutiful_cudaFreeNoexcept (ptr : Address) (bytes : UInt64) :
    Dutiful duties none (cudaFreeNoexcept ptr bytes).run := by
  unfold cudaFreeNoexcept
  split
  · exact dutiful_pure ()
  · refine dutiful_issue_then rfl fun reply => ?_
    cases reply with
    | true => exact dutiful_issue rfl fun _ => rfl
    | false => exact dutiful_pure ()

theorem dutiful_freeManaged (addr : Address) : Dutiful duties none (freeManaged addr).run := by
  unfold freeManaged
  split
  · exact dutiful_pure ()
  · refine dutiful_issue_then rfl fun reply => ?_
    cases reply with
    | true => exact dutiful_issue rfl fun _ => rfl
    | false => exact dutiful_throw _

theorem dutiful_allocateManaged (bytes : UInt64) (device : Int) :
    Dutiful duties none (allocateManaged bytes device).run := by
  apply Dutiful.andThen ((confined_ensureCudaDevice device).dutiful inert_free)
  intro _
  apply Dutiful.andThen ((confined_cudaGuard device).dutiful inert_free)
  intro _
  refine dutiful_issue_then rfl fun reply => ?_
  cases reply with
  | none => exact dutiful_throw _
  | some ptr => exact dutiful_issue_then rfl fun _ => dutiful_pure ptr

/-- Memory is given back before an exception goes on. -/
theorem dutiful_give_back {α : Type} (ptr : Address) (bytes : UInt64) (failure : Failure) :
    Dutiful duties none
      (do cudaFreeNoexcept ptr bytes; throw failure : Program α).run :=
  Dutiful.andThen (dutiful_cudaFreeNoexcept ptr bytes) fun _ => dutiful_throw failure

theorem dutiful_loadFileToManaged (path : String) (offset : UInt64) (rows cols : Int64)
    (device : Int) : Dutiful duties none (loadFileToManaged path offset rows cols device).run := by
  have checked : Confined (fun _ _ => True) Op.Inert (require (0 < rows ∧ 0 < cols)
    (.invalidArgument "rows and cols must be positive") : Program Unit).run := confined_require
  apply Dutiful.andThen (checked.dutiful inert_free)
  intro _
  apply Dutiful.andThen (dutiful_allocateManaged _ device)
  intro ptr
  refine Dutiful.andThen ?_ fun _ => ?_
  · exact Dutiful.handled ((confined_readFile path offset ptr _).dutiful inert_free)
      fun failure => dutiful_give_back ptr _ failure
  · refine dutiful_issue_then rfl fun reply => ?_
    cases reply with
    | tensor => exact dutiful_pure _
    | thrown owned =>
        cases owned with
        | true => exact dutiful_give_back ptr _ _
        | false => exact dutiful_throw _

theorem dutiful_uvmTensorFromFile (path : String) (rows cols : Int64) (offset : UInt64)
    (device : Int) (prefetchPolicy : String) :
    Dutiful duties none
      (uvmTensorFromFile path rows cols offset device prefetchPolicy).run := by
  apply Dutiful.andThen (dutiful_loadFileToManaged path offset rows cols device)
  intro tensor
  refine Dutiful.andThen ?_ fun _ => dutiful_pure tensor
  exact Dutiful.handled ((confined_applyPrefetchPolicy _ _ _ _).dutiful inert_free)
    fun failure => dutiful_give_back tensor.ptr tensor.bytes failure

/-- Every call but `reset_stats` notes what is due and nothing else. -/
theorem dutiful_program {call : Call} {tensors rest : List Tensor}
    {program : Program (Option Tensor)} (noReset : call ≠ .resetStats)
    (starts : call.program tensors = some (program, rest)) :
    Dutiful duties none program.run := by
  have discard : ∀ {α : Type} {action : Program α} {value : α → Option Tensor},
      Dutiful duties none action.run →
        Dutiful duties none (do let result ← action; pure (value result) :
          Program (Option Tensor)).run :=
    fun dutiful => Dutiful.andThen dutiful fun _ => dutiful_pure _
  cases call with
  | destroyTensor index =>
      rw [Call.program] at starts
      split at starts
      · exact absurd starts (by simp)
      · rename_i tensor _
        obtain ⟨rfl, -⟩ := Prod.mk.inj (Option.some.inj starts)
        exact discard (dutiful_cudaFreeNoexcept tensor.ptr tensor.bytes)
  | allocateManaged bytes device =>
      obtain ⟨rfl, -⟩ := Prod.mk.inj (Option.some.inj starts)
      exact discard (dutiful_allocateManaged bytes device)
  | loadFileToManaged path offset rows cols device =>
      obtain ⟨rfl, -⟩ := Prod.mk.inj (Option.some.inj starts)
      exact discard (dutiful_loadFileToManaged path offset rows cols device)
  | uvmTensorFromFile path rows cols offset device prefetchPolicy =>
      obtain ⟨rfl, -⟩ := Prod.mk.inj (Option.some.inj starts)
      exact discard (dutiful_uvmTensorFromFile path rows cols offset device prefetchPolicy)
  | freeManaged addr =>
      obtain ⟨rfl, -⟩ := Prod.mk.inj (Option.some.inj starts)
      exact discard (dutiful_freeManaged addr)
  | resetStats => exact absurd rfl noReset

/-! ## The ledger -/

/-- The two notes that are kept of managed memory. -/
@[ext] structure Ledger where
  sizes : Address → Option UInt64
  bytes : UInt64

def Memory.ledger (memory : Memory) : Ledger where
  sizes := memory.allocSizes
  bytes := memory.stats.allocatedBytes

namespace Ledger

/-- Take a note as it should be: memory that is not noted yet is noted, memory that is noted is
struck out. -/
def settle (ledger : Ledger) : Due → Option Ledger
  | .allocation ptr bytes =>
      match ledger.sizes ptr with
      | none => some ⟨Function.update ledger.sizes ptr (some bytes), ledger.bytes + bytes⟩
      | some _ => none
  | .release ptr =>
      match ledger.sizes ptr with
      | none => none
      | some bytes => some ⟨Function.update ledger.sizes ptr none, ledger.bytes - bytes⟩
  | .reset => none

/-- Take notes in order. -/
def flush (ledger : Ledger) (dues : List Due) : Option Ledger := dues.foldlM settle ledger

/-- The ledger says what is live. -/
structure Matches (ledger : Ledger) (live : List Block) : Prop where
  sizes : ledger.sizes = sizeAt live
  bytes : ledger.bytes = UInt64.ofNat (totalBytes live)

variable {ledger : Ledger} {live : List Block} {ptr : Address} {bytes : UInt64}

theorem settle_allocation (unnoted : ledger.sizes ptr = none) :
    ledger.settle (.allocation ptr bytes) =
      some ⟨Function.update ledger.sizes ptr (some bytes), ledger.bytes + bytes⟩ := by
  rw [settle, unnoted]

theorem settle_release (noted : ledger.sizes ptr = some bytes) :
    ledger.settle (.release ptr) =
      some ⟨Function.update ledger.sizes ptr none, ledger.bytes - bytes⟩ := by
  rw [settle, noted]

/-- What a note does at its own address. -/
def effect (noted : Option UInt64) : Due → Option (Option UInt64 × UInt64)
  | .allocation _ bytes => if noted = none then some (some bytes, bytes) else none
  | .release _ => noted.map fun bytes => (none, -bytes)
  | .reset => none

theorem settle_eq (ledger : Ledger) (due : Due) :
    ledger.settle due = (effect (ledger.sizes due.address) due).map fun change =>
      ⟨Function.update ledger.sizes due.address change.1, ledger.bytes + change.2⟩ := by
  cases due with
  | allocation ptr bytes =>
      cases noted : ledger.sizes ptr <;> simp [settle, effect, noted, Due.address]
  | release ptr =>
      cases noted : ledger.sizes ptr <;>
        simp [settle, effect, noted, Due.address, UInt64.sub_eq_add_neg]
  | reset => rfl

/-- Notes about different addresses can be taken in either order. -/
theorem settle_comm (ledger : Ledger) {first second : Due}
    (different : first.address ≠ second.address) :
    ((ledger.settle first).bind fun middle => middle.settle second) =
      (ledger.settle second).bind fun middle => middle.settle first := by
  have unchanged : ∀ due : Due, ∀ noted other, due.address ≠ other →
      Function.update ledger.sizes due.address noted other = ledger.sizes other :=
    fun due noted other ne => Function.update_of_ne ne.symm noted ledger.sizes
  simp only [settle_eq]
  cases effect₁ : effect (ledger.sizes first.address) first with
  | none =>
      cases effect₂ : effect (ledger.sizes second.address) second with
      | none => rfl
      | some change₂ => simp [unchanged second _ _ different.symm, effect₁]
  | some change₁ =>
      cases effect₂ : effect (ledger.sizes second.address) second with
      | none => simp [unchanged first _ _ different, effect₂]
      | some change₂ =>
          simp only [Option.map_some, Option.bind_some, unchanged first _ _ different,
            unchanged second _ _ different.symm, effect₁, effect₂, Option.some.injEq]
          rw [Function.update_comm different.symm, UInt64.add_assoc, UInt64.add_assoc,
            UInt64.add_comm change₁.2]

/-- A note that no earlier one is about can be taken first. -/
theorem flush_move {earlier later : List Due} {due : Due}
    (different : ∀ other ∈ earlier, other.address ≠ due.address) (ledger : Ledger) :
    ledger.flush (earlier ++ due :: later) =
      (ledger.settle due).bind fun after => after.flush (earlier ++ later) := by
  induction earlier generalizing ledger with
  | nil => rfl
  | cons other earlier induction =>
      rw [List.forall_mem_cons] at different
      have step : ∀ dues, ledger.flush (other :: dues) =
          (ledger.settle other).bind fun after => after.flush dues := fun dues => List.foldlM_cons ..
      calc
        ledger.flush (other :: (earlier ++ due :: later)) =
            (ledger.settle other).bind fun middle => (middle.settle due).bind fun after =>
              after.flush (earlier ++ later) := by
          rw [step]
          exact congrArg _ (funext fun middle => induction different.2 middle)
        _ = ((ledger.settle other).bind fun middle => middle.settle due).bind fun after =>
              after.flush (earlier ++ later) := (Option.bind_assoc ..).symm
        _ = ((ledger.settle due).bind fun middle => middle.settle other).bind fun after =>
              after.flush (earlier ++ later) := by rw [settle_comm ledger different.1]
        _ = (ledger.settle due).bind fun after => after.flush (other :: (earlier ++ later)) := by
          rw [Option.bind_assoc]
          rfl

theorem flush_concat (ledger : Ledger) (dues : List Due) (due : Due) :
    ledger.flush (dues ++ [due]) = (ledger.flush dues).bind fun after => after.settle due := by
  rw [flush, List.foldlM_append]
  exact congrArg _ (funext fun after => bind_pure _)

/-! ### Live memory -/

theorem Matches.allocated {block : Block} (matched : ledger.Matches live)
    (absent : sizeAt live block.address = none) :
    ∃ after, ledger.settle (.allocation block.address block.bytes) = some after ∧
      after.Matches (block :: live) := by
  refine ⟨_, settle_allocation (matched.sizes ▸ absent), ?_, ?_⟩
  · rw [sizeAt_cons, matched.sizes]
  · have total : totalBytes (block :: live) = block.bytes.toNat + totalBytes live := by
      rw [totalBytes, List.map_cons, List.sum_cons, totalBytes]
    rw [total, UInt64.ofNat_add, UInt64.ofNat_toNat, matched.bytes, UInt64.add_comm]

theorem Matches.freed (matched : ledger.Matches live) (separate : Separate live)
    (found : sizeAt live ptr = some bytes) :
    ∃ after, ledger.settle (.release ptr) = some after ∧
      after.Matches (live.filter (·.address ≠ ptr)) := by
  refine ⟨_, settle_release (matched.sizes ▸ found), ?_, ?_⟩
  · rw [sizeAt_filter, matched.sizes]
  · have total := totalBytes_filter separate ptr
    rw [found, Option.getD_some] at total
    rw [matched.bytes, ← total, UInt64.ofNat_add, UInt64.ofNat_toNat]
    exact UInt64.add_sub_cancel _ _

theorem Matches.toNat (matched : ledger.Matches live) (separate : Separate live) :
    ledger.bytes.toNat = totalBytes live := by
  rw [matched.bytes, UInt64.toNat_ofNat_of_lt' separate.totalBytes_lt]

end Ledger

/-! ## Threads -/

/-- Threads in the middle of their calls. What they owe is listed in the order of the driver calls
it is due to; the list is for statements only. -/
structure System where
  memory : Memory
  tensors : List Tensor
  threads : List (Prog Reply (Except Failure (Option Tensor)))
  pending : List (Nat × Due)

inductive Event where
  | begin (thread : Nat) (call : Call)
  | step (thread : Nat) (choice : Choice)
  deriving Repr

/-- A tensor exists from when the call that makes it returns. -/
def returned (tensors : List Tensor) : Prog Reply (Except Failure (Option Tensor)) → List Tensor
  | .ret outcome => keepTensor tensors outcome
  | .call _ _ => tensors

/-- What a thread owes after an operation goes to the end of the list. -/
def notePending (pending : List (Nat × Due)) (thread : Nat) (due : Option Due) :
    List (Nat × Due) :=
  pending.filter (·.1 ≠ thread) ++ due.toList.map fun due => (thread, due)

/-- A thread that has returned begins a call other than `reset_stats`, or a thread takes a step. -/
def System.next (system : System) : Event → Option System
  | .begin thread made =>
      match system.threads[thread]? with
      | some (.ret _) =>
          if made = .resetStats then none
          else
            match made.program system.tensors with
            | none => none
            | some (program, tensors) =>
                some { system with tensors, threads := system.threads.set thread program.run }
      | _ => none
  | .step thread choice =>
      match system.threads[thread]? with
      | some (.call op next) =>
          match serve system.memory op choice with
          | none => none
          | some (reply, memory) =>
              some
                { memory
                  tensors := returned system.tensors (next reply)
                  threads := system.threads.set thread (next reply)
                  pending := notePending system.pending thread (duties.incurs op reply) }
      | _ => none

/-- Some threads, before their first calls. -/
def System.initial (threads : Nat) : System where
  memory := {}
  tensors := []
  threads := List.replicate threads (.ret (.ok none))
  pending := []

/-- The step takes no note about an address while an earlier one about it is due. -/
def System.inOrder (system : System) : Event → Bool
  | .begin _ _ => true
  | .step thread _ =>
      match (system.threads[thread]?).bind (owes duties) with
      | none => true
      | some due =>
          (system.pending.takeWhile (·.1 ≠ thread)).all (·.2.address ≠ due.address)

/-- States after any number of events among those allowed. -/
inductive System.Reached (threads : Nat) (allowed : System → Event → Bool) : System → Prop
  | init : Reached threads allowed (initial threads)
  | next {system after : System} {event : Event} (reached : Reached threads allowed system)
      (allow : allowed system event) (happens : system.next event = some after) :
      Reached threads allowed after

/-- No thread stands between its two steps. -/
def System.Quiet (system : System) : Prop :=
  ∀ program ∈ system.threads, owes duties program = none

/-- The sizes noted are those of live memory, and the counter is their sum. -/
structure Memory.Tallied (memory : Memory) : Prop where
  sizes : ∀ ptr bytes, memory.allocSizes ptr = some bytes ↔
    ∃ block ∈ memory.live, block.address = ptr ∧ block.bytes = bytes
  total : memory.stats.allocatedBytes.toNat = totalBytes memory.live

/-- What a thread owes according to the list. -/
def dueOf (pending : List (Nat × Due)) (thread : Nat) : Option Due :=
  (pending.find? (·.1 = thread)).map Prod.snd

/-- Every thread owes what the list says, and once everything in it is noted in that order the
ledger says what is live. -/
structure System.Inv (system : System) : Prop where
  separate : Separate system.memory.live
  distinct : (system.pending.map Prod.fst).Nodup
  inside : ∀ entry ∈ system.pending, entry.1 < system.threads.length
  dutiful : ∀ (thread : Nat) program, system.threads[thread]? = some program →
    Dutiful duties (dueOf system.pending thread) program
  flushes : ∃ final, system.memory.ledger.flush (system.pending.map Prod.snd) = some final ∧
    final.Matches system.memory.live

section

variable {pending : List (Nat × Due)} {thread other : Nat} {due : Option Due}

theorem dueOf_eq_none_iff : dueOf pending thread = none ↔ ∀ entry ∈ pending, entry.1 ≠ thread := by
  simp [dueOf]

theorem dueOf_notePending_self :
    dueOf (notePending pending thread due) thread = due := by
  have gone : (pending.filter (·.1 ≠ thread)).find? (·.1 = thread) = none := by
    rw [List.find?_eq_none]
    intro entry member
    simpa using List.of_mem_filter member
  rw [dueOf, notePending, List.find?_append, gone, Option.none_or]
  cases due with
  | none => rfl
  | some due => simp

theorem dueOf_notePending_of_ne (different : other ≠ thread) :
    dueOf (notePending pending thread due) other = dueOf pending other := by
  have kept : (pending.filter (·.1 ≠ thread)).find? (·.1 = other) =
      pending.find? (·.1 = other) := by
    induction pending with
    | nil => rfl
    | cons entry pending induction =>
        by_cases own : entry.1 = thread
        · rw [List.filter_cons_of_neg (by simp [own]), induction,
            List.find?_cons_of_neg (by simp [own, different.symm])]
        · rw [List.filter_cons_of_pos (by simp [own]), List.find?_cons, List.find?_cons, induction]
  have missing : (due.toList.map fun due => (thread, due)).find? (·.1 = other) = none := by
    cases due <;> simp [different.symm]
  rw [dueOf, notePending, List.find?_append, kept, missing, Option.or_none, dueOf]

theorem notePending_of_none (none_due : dueOf pending thread = none) :
    notePending pending thread due = pending ++ due.toList.map fun due => (thread, due) := by
  rw [notePending, List.filter_eq_self.mpr]
  intro entry member
  simpa using dueOf_eq_none_iff.mp none_due entry member

theorem nodup_notePending (distinct : (pending.map Prod.fst).Nodup) :
    ((notePending pending thread due).map Prod.fst).Nodup := by
  have kept : ((pending.filter (·.1 ≠ thread)).map Prod.fst).Nodup :=
    distinct.sublist (List.filter_sublist.map _)
  rw [notePending, List.map_append]
  refine List.Nodup.append kept ?_ ?_
  · cases due <;> simp
  · rw [List.disjoint_left]
    rintro number inside own
    obtain ⟨entry, member, rfl⟩ := List.mem_map.mp inside
    have other : entry.1 ≠ thread := by simpa using List.of_mem_filter member
    cases due with
    | none => simp at own
    | some due => exact other (by simpa using own)

/-- The entry of a thread splits the list at the first place where its number stands. -/
theorem exists_split {owed : Due} (distinct : (pending.map Prod.fst).Nodup)
    (owes_eq : dueOf pending thread = some owed) :
    ∃ later, pending = pending.takeWhile (·.1 ≠ thread) ++ (thread, owed) :: later ∧
      pending.filter (·.1 ≠ thread) = pending.takeWhile (·.1 ≠ thread) ++ later := by
  induction pending with
  | nil => exact absurd owes_eq (by simp [dueOf])
  | cons entry pending induction =>
      rw [List.map_cons, List.nodup_cons] at distinct
      by_cases own : entry.1 = thread
      · have entry_eq : entry = (thread, owed) := by
          rw [dueOf, List.find?_cons_of_pos (by simp [own])] at owes_eq
          exact Prod.ext own (Option.some.inj owes_eq)
        refine ⟨pending, ?_, ?_⟩
        · rw [List.takeWhile_cons_of_neg (by simp [own]), List.nil_append, entry_eq]
        · rw [List.takeWhile_cons_of_neg (by simp [own]), List.filter_cons_of_neg (by simp [own]),
            List.nil_append]
          apply List.filter_eq_self.mpr
          intro later member
          rw [decide_eq_true_iff]
          rintro same
          exact distinct.1 (List.mem_map.mpr ⟨later, member, same.trans own.symm⟩)
      · rw [dueOf, List.find?_cons_of_neg (by simp [own])] at owes_eq
        obtain ⟨later, split_eq, filter_eq⟩ := induction distinct.2 owes_eq
        refine ⟨later, ?_, ?_⟩
        · rw [List.takeWhile_cons_of_pos (by simp [own]), List.cons_append, ← split_eq]
        · rw [List.takeWhile_cons_of_pos (by simp [own]), List.filter_cons_of_pos (by simp [own]),
            filter_eq, List.cons_append]

end

/-! ## One event -/

section

variable {memory after : Memory} {ptr : Address} {bytes : UInt64} {ledger : Ledger}

theorem ledger_recordAllocation
    (settled : memory.ledger.settle (.allocation ptr bytes) = some ledger) :
    (memory.recordAllocation ptr bytes).ledger = ledger := by
  simp only [Ledger.settle] at settled
  split at settled
  · exact Option.some.inj settled
  · exact absurd settled (by simp)

/-- Where a size is noted the fallback is not used. -/
theorem ledger_recordFree (settled : memory.ledger.settle (.release ptr) = some ledger)
    (fallbackBytes : UInt64) : (memory.recordFree ptr fallbackBytes).ledger = ledger := by
  simp only [Ledger.settle] at settled
  split at settled
  · exact absurd settled (by simp)
  · rename_i bytes noted
    have bytes_eq : (memory.allocSizes ptr).getD fallbackBytes = bytes := by
      change memory.allocSizes ptr = some bytes at noted
      rw [noted, Option.getD_some]
    obtain rfl := Option.some.inj settled
    simp only [Memory.recordFree, Memory.ledger, bytes_eq]

end

section

variable {system after : System} {thread : Nat} {choice : Choice} {op : Op}
  {next : Reply op → Prog Reply (Except Failure (Option Tensor))} {reply : Reply op}
  {memory : Memory}

/-- What is due at the place of a thread can be noted at once. -/
theorem System.Inv.settled (inv : system.Inv) {due : Due}
    (standing : system.threads[thread]? = some (.call op next))
    (settles : duties.settles op = some due) (inOrder : system.inOrder (.step thread choice)) :
    ∃ ledger final, system.memory.ledger.settle due = some ledger ∧
      ledger.flush ((notePending system.pending thread none).map Prod.snd) = some final ∧
      final.Matches system.memory.live := by
  have owed : dueOf system.pending thread = some due := (inv.dutiful thread _ standing).1.trans settles
  obtain ⟨later, split_eq, filter_eq⟩ := exists_split inv.distinct owed
  obtain ⟨final, flushes, matched⟩ := inv.flushes
  have owes_eq : owes duties (Prog.call op next) = some due := settles
  have different : ∀ other ∈ (system.pending.takeWhile (·.1 ≠ thread)).map Prod.snd,
      other.address ≠ due.address := by
    rw [System.inOrder, standing, Option.bind_some, owes_eq] at inOrder
    intro other member
    obtain ⟨entry, inside, rfl⟩ := List.mem_map.mp member
    simpa using List.all_eq_true.mp inOrder entry inside
  rw [split_eq, List.map_append, List.map_cons, Ledger.flush_move different] at flushes
  obtain ⟨ledger, settled, rest⟩ := Option.bind_eq_some_iff.mp flushes
  refine ⟨ledger, final, settled, ?_, matched⟩
  rw [notePending, filter_eq, Option.toList_none, List.map_nil, List.append_nil, List.map_append]
  exact rest

/-- What a step does to live memory and to the ledger, once everything due is noted. -/
theorem System.Inv.flushes_step (inv : system.Inv)
    (standing : system.threads[thread]? = some (.call op next))
    (execution : serve system.memory op choice = some (reply, memory))
    (inOrder : system.inOrder (.step thread choice)) :
    Separate memory.live ∧ ∃ final,
      memory.ledger.flush ((notePending system.pending thread (duties.incurs op reply)).map
        Prod.snd) = some final ∧ final.Matches memory.live := by
  obtain ⟨final, flushes, matched⟩ := inv.flushes
  have owed : dueOf system.pending thread = duties.settles op := (inv.dutiful thread _ standing).1
  by_cases inert : op.Inert
  · obtain ⟨settles, incurs⟩ := inert_free op inert
    have same := serve_inert inert execution
    have live_eq : memory.live = system.memory.live := congrArg Account.live same
    have ledger_eq : memory.ledger = system.memory.ledger :=
      Ledger.ext (congrArg Account.allocSizes same) (congrArg Account.allocatedBytes same)
    rw [incurs, notePending_of_none (owed.trans settles), live_eq, ledger_eq, Option.toList_none,
      List.map_nil, List.append_nil]
    exact ⟨inv.separate, final, flushes, matched⟩
  cases op with
  | cudaMallocManaged bytes =>
      rw [notePending_of_none owed]
      simp only [serve] at execution
      split at execution
      · simp only [Option.some.injEq, Prod.mk.injEq] at execution
        obtain ⟨rfl, rfl⟩ := execution
        rw [show duties.incurs (.cudaMallocManaged bytes) none = none from rfl, Option.toList_none,
          List.map_nil, List.append_nil]
        exact ⟨inv.separate, final, flushes, matched⟩
      · rename_i ptr _
        split at execution
        · rename_i fresh
          simp only [Option.some.injEq, Prod.mk.injEq] at execution
          obtain ⟨rfl, rfl⟩ := execution
          have separate := fresh.separate inv.separate
          have absent : sizeAt system.memory.live ptr = none :=
            sizeAt_eq_none_iff.mpr fun block member => (fresh.2.2 block member).1
          obtain ⟨noted, settled, matched'⟩ :=
            @Ledger.Matches.allocated _ _ ⟨ptr, bytes, system.memory.era⟩ matched absent
          refine ⟨separate, noted, ?_, matched'⟩
          change system.memory.ledger.flush (List.map Prod.snd (system.pending ++
            [(thread, .allocation ptr bytes)])) = some noted
          rw [List.map_append, List.map_singleton, Ledger.flush_concat, flushes, Option.bind_some]
          exact settled
        · exact absurd execution (by simp)
  | cudaFree ptr =>
      rw [notePending_of_none owed]
      simp only [serve] at execution
      split at execution
      · rename_i isLive
        simp only [Option.some.injEq, Prod.mk.injEq] at execution
        obtain ⟨rfl, rfl⟩ := execution
        obtain ⟨block, member, rfl⟩ := isLive
        obtain ⟨struck, settled, matched'⟩ :=
          matched.freed inv.separate (sizeAt_of_mem inv.separate member)
        refine ⟨inv.separate.sublist List.filter_sublist, struck, ?_, matched'⟩
        change system.memory.ledger.flush (List.map Prod.snd (system.pending ++
          [(thread, .release block.address)])) = some struck
        rw [List.map_append, List.map_singleton, Ledger.flush_concat, flushes, Option.bind_some]
        exact settled
      · simp only [Option.some.injEq, Prod.mk.injEq] at execution
        obtain ⟨rfl, rfl⟩ := execution
        rw [show duties.incurs (.cudaFree ptr) false = none from rfl, Option.toList_none,
          List.map_nil, List.append_nil]
        exact ⟨inv.separate, final, flushes, matched⟩
  | recordAllocation ptr bytes =>
      obtain ⟨ledger, final, settled, flushes, matched⟩ := inv.settled standing rfl inOrder
      simp only [serve, Option.some.injEq, Prod.mk.injEq] at execution
      obtain ⟨-, rfl⟩ := execution
      rw [ledger_recordAllocation settled]
      exact ⟨inv.separate, final, flushes, matched⟩
  | recordFree ptr fallbackBytes =>
      obtain ⟨ledger, final, settled, flushes, matched⟩ := inv.settled standing rfl inOrder
      simp only [serve, Option.some.injEq, Prod.mk.injEq] at execution
      obtain ⟨-, rfl⟩ := execution
      rw [ledger_recordFree settled]
      exact ⟨inv.separate, final, flushes, matched⟩
  | resetStats =>
      obtain ⟨ledger, final, settled, -, -⟩ := inv.settled standing rfl inOrder
      exact absurd settled (by simp [Ledger.settle])
  | _ => exact absurd trivial inert

end

/-! ## All events -/

section

variable {system after : System} {event : Event}

theorem System.inv_initial (threads : Nat) : (System.initial threads).Inv where
  separate := ⟨.nil, fun block member => absurd member List.not_mem_nil⟩
  distinct := .nil
  inside entry member := absurd member List.not_mem_nil
  dutiful thread program standing := by
    obtain rfl := List.eq_of_mem_replicate (List.mem_of_getElem? standing)
    rfl
  flushes := ⟨_, rfl, rfl, rfl⟩

/-- A thread that has returned owes nothing and may begin anything dutiful. -/
theorem System.Inv.begin (inv : system.Inv) {thread : Nat} {outcome : Except Failure (Option Tensor)}
    (standing : system.threads[thread]? = some (.ret outcome)) {program : Program (Option Tensor)}
    (dutiful : Dutiful duties none program.run) (tensors : List Tensor) :
    ({ system with tensors, threads := system.threads.set thread program.run } : System).Inv where
  separate := inv.separate
  distinct := inv.distinct
  inside entry member := by
    rw [List.length_set]
    exact inv.inside entry member
  dutiful other program' standing' := by
    by_cases own : thread = other
    · subst own
      have owed : dueOf system.pending thread = none := inv.dutiful thread _ standing
      rw [List.getElem?_set_self (List.getElem?_eq_some_iff.mp standing).1] at standing'
      obtain rfl := Option.some.inj standing'
      rw [owed]
      exact dutiful
    · rw [List.getElem?_set_ne own] at standing'
      exact inv.dutiful other program' standing'
  flushes := inv.flushes

theorem System.Inv.step (inv : system.Inv) {thread : Nat} {choice : Choice} {op : Op}
    {next : Reply op → Prog Reply (Except Failure (Option Tensor))} {reply : Reply op}
    {memory : Memory} (standing : system.threads[thread]? = some (.call op next))
    (execution : serve system.memory op choice = some (reply, memory))
    (inOrder : system.inOrder (.step thread choice)) :
    ({ memory
       tensors := returned system.tensors (next reply)
       threads := system.threads.set thread (next reply)
       pending := notePending system.pending thread (duties.incurs op reply) } : System).Inv where
  separate := (inv.flushes_step standing execution inOrder).1
  distinct := nodup_notePending inv.distinct
  inside entry member := by
    rw [List.length_set]
    rcases List.mem_append.mp member with old | new
    · exact inv.inside entry (List.mem_of_mem_filter old)
    · obtain ⟨due, -, rfl⟩ := List.mem_map.mp new
      exact (List.getElem?_eq_some_iff.mp standing).1
  dutiful other program standing' := by
    by_cases own : thread = other
    · subst own
      rw [List.getElem?_set_self (List.getElem?_eq_some_iff.mp standing).1] at standing'
      obtain rfl := Option.some.inj standing'
      rw [dueOf_notePending_self]
      exact (inv.dutiful thread _ standing).2 reply
    · rw [List.getElem?_set_ne own] at standing'
      rw [dueOf_notePending_of_ne (Ne.symm own)]
      exact inv.dutiful other program standing'
  flushes := (inv.flushes_step standing execution inOrder).2

theorem System.Inv.next (inv : system.Inv) (inOrder : system.inOrder event)
    (happens : system.next event = some after) : after.Inv := by
  cases event with
  | begin thread made =>
      simp only [System.next] at happens
      split at happens
      · rename_i outcome standing
        split at happens
        · exact absurd happens (by simp)
        rename_i noReset
        split at happens
        · exact absurd happens (by simp)
        rename_i program tensors starts
        obtain rfl := Option.some.inj happens
        exact inv.begin standing (dutiful_program noReset starts) tensors
      · exact absurd happens (by simp)
  | step thread choice =>
      simp only [System.next] at happens
      split at happens
      · rename_i op next standing
        split at happens
        · exact absurd happens (by simp)
        rename_i reply memory execution
        obtain rfl := Option.some.inj happens
        exact inv.step standing execution inOrder
      · exact absurd happens (by simp)

theorem System.Reached.inv {threads : Nat}
    (reached : System.Reached threads System.inOrder system) : system.Inv := by
  induction reached with
  | init => exact System.inv_initial threads
  | next reached inOrder happens induction => exact induction.next inOrder happens

/-- Where no thread stands between its two steps nothing is pending. -/
theorem System.Inv.pending_eq_nil (inv : system.Inv) (quiet : system.Quiet) :
    system.pending = [] := by
  cases pending_eq : system.pending with
  | nil => rfl
  | cons entry pending =>
      have inside := inv.inside entry (by rw [pending_eq]; exact List.mem_cons_self)
      have standing : system.threads[entry.1]? = some system.threads[entry.1] :=
        List.getElem?_eq_getElem inside
      have owed := (inv.dutiful entry.1 _ standing).owes_eq
      rw [quiet _ (List.getElem_mem inside), pending_eq, dueOf,
        List.find?_cons_of_pos (by simp)] at owed
      exact absurd owed (by simp)

end

/-- However the steps of any number of threads interleave, as long as the notes about each address
are taken in the order of the driver calls they belong to: where no thread stands between its two
steps, exactly the live memory is noted, with its sizes, and the counter is their sum. -/
theorem tallied_of_inOrder (threads : Nat) (system : System)
    (reached : System.Reached threads System.inOrder system) (quiet : system.Quiet) :
    system.memory.Tallied := by
  have inv := reached.inv
  obtain ⟨final, flushes, matched⟩ := inv.flushes
  rw [inv.pending_eq_nil quiet] at flushes
  obtain rfl : system.memory.ledger = final := Option.some.inj flushes
  refine ⟨fun ptr bytes => ?_, matched.toNat inv.separate⟩
  have sizes_eq : system.memory.allocSizes = sizeAt system.memory.live := matched.sizes
  rw [sizes_eq]
  constructor
  · exact exists_of_sizeAt_eq_some
  · rintro ⟨block, member, rfl, rfl⟩
    exact sizeAt_of_mem inv.separate member

/-! ## Concrete interleavings -/

/-- Let events happen, as long as they are allowed. -/
def System.run? (allowed : System → Event → Bool) : List Event → System → Option System
  | [], system => some system
  | event :: events, system =>
      if allowed system event then (system.next event).bind (System.run? allowed events) else none

theorem System.Reached.of_run? {threads : Nat} {allowed : System → Event → Bool}
    {events : List Event} {system after : System}
    (reached : System.Reached threads allowed system)
    (found : System.run? allowed events system = some after) :
    System.Reached threads allowed after := by
  induction events generalizing system with
  | nil => exact Option.some.inj found ▸ reached
  | cons event events induction =>
      rw [System.run?] at found
      split at found
      · rename_i allow
        obtain ⟨middle, happens, rest⟩ := Option.bind_eq_some_iff.mp found
        exact induction (.next reached allow happens) rest
      · exact absurd found (by simp)

/-- Where events lead to from the start, if they can happen. -/
def System.endOf (threads : Nat) (allowed : System → Event → Bool) (events : List Event) : System :=
  (System.run? allowed events (System.initial threads)).getD (System.initial threads)

theorem System.reached_endOf {threads : Nat} {allowed : System → Event → Bool}
    {events : List Event}
    (runs : (System.run? allowed events (System.initial threads)).isSome) :
    System.Reached threads allowed (System.endOf threads allowed events) := by
  obtain ⟨after, found⟩ := Option.isSome_iff_exists.mp runs
  rw [System.endOf, found]
  exact System.Reached.of_run? .init found

instance (system : System) : Decidable system.Quiet :=
  inferInstanceAs (Decidable (∀ program ∈ system.threads, owes duties program = none))

/-- One thread has a page and frees it, and before it strikes the page out another thread is handed
out the same address. -/
def handOver : List Event :=
  [.begin 0 (.allocateManaged 4096 0), .step 0 {}, .step 0 {}, .step 0 { address := some 65536 },
    .step 0 {}, .begin 0 (.freeManaged 65536), .step 0 {},
    .begin 1 (.allocateManaged 8192 0), .step 1 {}, .step 1 {}, .step 1 { address := some 65536 }]

theorem tallied_of_inOrder_handOver :
    (System.endOf 2 System.inOrder (handOver ++ [.step 0 {}, .step 1 {}])).memory.Tallied :=
  tallied_of_inOrder 2 _ (System.reached_endOf (by decide +kernel)) (by decide +kernel)

/-- If the second thread notes its allocation before the first one has struck out the page, the
first one strikes out that allocation. -/
theorem tallied_fails :
    ¬ ∀ threads system, System.Reached threads (fun _ _ => true) system → system.Quiet →
      system.memory.Tallied := by
  intro tallied
  have reached : System.Reached 2 (fun _ _ => true)
      (System.endOf 2 (fun _ _ => true) (handOver ++ [.step 1 {}, .step 0 {}])) :=
    System.reached_endOf (by decide +kernel)
  have total := (tallied 2 _ reached (by decide +kernel)).total
  exact absurd total (by decide +kernel)

end MemTier.Managed
