import MemTier.Embedding.History
import MemTier.Embedding.PendingCopies

/-!
# Records of host memory

A block stays recorded in host memory when its copy to device memory fails, and the next lookup
copies from the recorded address without asking the DRAM cache.  The DRAM cache does not tell the
table which block it evicts, so the record is right as long as no miss evicts a recorded block.
-/

namespace MemTier.Embedding

open Containers Resumption

/-- The DRAM cache keeps every block recorded in host memory where it is recorded. -/
def Recorded (tiers : Tiers) : Prop :=
  ∀ block ptr, tiers.location block = .dram ptr → tiers.dram.address block = some ptr

/-- A round that has to load its block does not evict a block recorded in host memory. -/
def Passage.KeepsRecorded (passage : Passage) : Prop :=
  passage.before.location passage.block = .nowhere →
    passage.before.dram.address passage.block = none →
    ∀ victim ptr, (passage.before.dram.allocate passage.block).1.2 = some victim →
      passage.before.location victim ≠ .dram ptr

section

variable {file : Bytes} {mode : CopyMode} {permits : (op : Op) → Reply op → Prop}
  {config : Config} {tiers tiers' : Tiers} {block : BlockId} {before after : Machine}

theorem Recorded.fresh (fresh : tiers.Fresh) : Recorded tiers := by
  intro block ptr recorded
  rw [fresh.location block] at recorded
  simp at recorded

theorem Recorded.mark (recorded : Recorded tiers) {location : Location}
    (right : ∀ ptr, location = .dram ptr → tiers.dram.address block = some ptr) :
    Recorded (tiers.mark block location) := by
  intro other ptr there
  by_cases same : other = block
  · subst same
    simp only [Tiers.mark, Function.update_self] at there
    exact right ptr there
  · simp only [Tiers.mark, Function.update_of_ne same] at there
    exact recorded other ptr there

theorem Recorded.place (recorded : Recorded tiers) : Recorded (tiers.place block) := by
  intro other ptr there
  simp only [Tiers.place] at there
  split at there
  · simp at there
  · exact recorded other ptr there

/-- Asking the DRAM cache moves nothing. -/
theorem Recorded.search (recorded : Recorded tiers) (wellFormed : tiers.WellFormed config) :
    Recorded (tiers.search block) := by
  intro other ptr there
  rw [show (tiers.search block).dram.address other = (tiers.dram.get block).2.address other from rfl,
    (wellFormed.dram.get block).2.2.2]
  exact recorded other ptr there

theorem Recorded.enter (recorded : Recorded tiers) (wellFormed : tiers.WellFormed config)
    (unrecorded : tiers.location block = .nowhere)
    (keeps : ∀ victim ptr, (tiers.dram.allocate block).1.2 = some victim →
      tiers.location victim ≠ .dram ptr) : Recorded (tiers.enter block) := by
  intro other ptr there
  have there : tiers.location other = .dram ptr := there
  have different : other ≠ block := by
    rintro rfl
    exact absurd (unrecorded.symm.trans there) (by simp)
  rw [show (tiers.enter block).dram.address other = (tiers.dram.allocate block).2.address other
    from rfl, wellFormed.dram.address_allocate_ne different,
    if_neg fun evicted => keeps other ptr evicted there]
  exact recorded other ptr there

/-- A round keeps the records right, wherever it breaks off. -/
theorem Round.recorded {served : Option Served}
    (round : Round file mode permits tiers block before tiers' served after)
    (wellFormed : tiers.WellFormed config)
    (keeps : Passage.KeepsRecorded ⟨block, tiers, tiers'⟩) (recorded : Recorded tiers) :
    Recorded tiers' := by
  have stages : ∀ {staged : Tiers} {source : Nat} {path : ServedBy} {middle : Machine},
      Staged file permits tiers block before staged source path middle → Recorded staged := by
    intro staged source path middle stage
    cases stage with
    | recorded there => exact recorded
    | found unrecorded cached =>
        refine (recorded.search wellFormed).mark fun ptr here => ?_
        rw [← Location.dram.inj here, ← cached]
        exact congrFun (wellFormed.dram.get block).2.2.2 block
    | loaded unrecorded absent load =>
        refine (recorded.enter wellFormed unrecorded (keeps unrecorded absent)).mark fun ptr here => ?_
        rw [← Location.dram.inj here]
        exact wellFormed.dram.address_allocate block
  cases round with
  | hit resident => exact recorded
  | unread unrecorded absent load =>
      exact (recorded.enter wellFormed unrecorded (keeps unrecorded absent)).mark (by simp)
  | uncopied stage drains permitted => exact (stages stage).place
  | copied stage drains permitted => exact (stages stage).place.mark (by simp)

end

/-- In every session in which no round evicts a block recorded in host memory from the DRAM cache,
whatever fails, the DRAM cache keeps every block recorded in host memory at the address recorded:
between the calls, and whenever a round begins. -/
theorem dram_records_current {file : Bytes} {mode : CopyMode} {config : Config} {world : World}
    {passed : List Passage}
    (history : History file mode AnyReply AnyCall config passed world)
    (keeps : ∀ passage ∈ passed, passage.KeepsRecorded) :
    Recorded world.handle.tiers ∧ ∀ passage ∈ passed, Recorded passage.before :=
  (@History.keeps file mode AnyReply AnyCall config world
    (fun passed tiers => (∀ passage ∈ passed, passage.KeepsRecorded) →
      Recorded tiers ∧ ∀ passage ∈ passed, Recorded passage.before)
    (fun _ => True) (fun _ fresh _ => ⟨.fresh fresh, by simp⟩)
    (fun _ _ wellFormed kept round keeps => by
      obtain ⟨first, others⟩ := List.forall_mem_cons.mp keeps
      obtain ⟨recorded, earlier⟩ := kept others
      exact ⟨round.recorded wellFormed first recorded,
        List.forall_mem_cons.mpr ⟨recorded, earlier⟩⟩)
    (fun _ _ _ _ _ => trivial) passed history).2 keeps

/-- The copy of a block fails, and the DRAM cache still has the block where it is recorded. -/
theorem dram_records_current_failed_copy :
    ∃ passed world, History [1, 2, 3, 4] .queued AnyReply AnyCall .oneSlot passed world ∧
      world.handle.tiers.location 1 = .dram 0 ∧ world.handle.tiers.dram.address 1 = some 0 := by
  obtain ⟨handle, created, later⟩ := (Option.any_eq_true _ _).mp (show
    (memtierInitEmbedding .oneSlot 0 0).any (fun handle =>
      (Prog.evaluate? (environment [1, 2, 3, 4] .queued AnyReply) [.take 0, .take 2, .fail]
        ((Request.lookup [1]).run handle) Machine.blank).any fun outcome =>
          outcome.1.1.tiers.location 1 = .dram 0) from by decide +kernel)
  obtain ⟨⟨⟨handle', rc⟩, machine⟩, evaluated, location⟩ := (Option.any_eq_true _ _).mp later
  have location : handle'.tiers.location 1 = .dram 0 := of_decide_eq_true location
  have evaluation := Prog.Evaluates.of_evaluate? evaluated
  obtain ⟨wellFormed, fresh⟩ := memtierInitEmbedding_fresh created
  rcases Request.run_cases (by decide) wellFormed.positive_blockBytes evaluation with
    ⟨-, same, -⟩ | ⟨looks, ready, middle, served, complete, starts, batch, ends, success⟩
  · rw [same, fresh.location] at location
    simp at location
  obtain ⟨tiers, course⟩ : ∃ tiers, Course [1, 2, 3, 4] .queued AnyReply [] handle.tiers ready [1]
      complete [⟨1, handle.tiers, tiers⟩] handle'.tiers middle := by
    cases batch with
    | failed round => exact ⟨_, .failed round⟩
    | step round rest =>
        cases rest with
        | done => exact ⟨_, .step round .done⟩
  have history : History [1, 2, 3, 4] .queued AnyReply AnyCall .oneSlot
      [⟨1, handle.tiers, tiers⟩] ⟨handle', machine⟩ :=
    .call (.init created rfl) looks evaluation trivial starts course ends
      fun zero => (success zero).1
  have keeps : Passage.KeepsRecorded ⟨1, handle.tiers, tiers⟩ := by
    intro _ _ victim ptr _ recorded
    exact absurd ((fresh.location victim).symm.trans recorded) (by simp)
  exact ⟨_, _, history, location,
    (dram_records_current history (List.forall_mem_singleton.mpr keeps)).1 1 0 location⟩

/-- The copy of block 0 fails, and block 1 takes its slot in the DRAM cache. -/
theorem dram_record_stale :
    ¬ ∀ world, Reachable [1, 2, 3, 4] .atIssue AnyReply AnyCall .oneSlot world →
      ∀ block ptr, world.handle.tiers.location block = .dram ptr →
        world.handle.tiers.dram.address block = some ptr := by
  intro current
  obtain ⟨world, found, stale⟩ := (Option.any_eq_true _ _).mp (show
    (session? [1, 2, 3, 4] .atIssue AnyReply AnyCall .oneSlot
      [(.lookup [0], [.take 0, .take 2, .fail]), (.lookup [1], List.replicate 5 (.take 2))]).any
        (fun world => world.handle.tiers.location 0 = .dram 0 ∧
          world.handle.tiers.dram.address 0 = none) from by decide +kernel)
  obtain ⟨recorded, evicted⟩ := of_decide_eq_true stale
  rw [current world (.of_session? found) 0 0 recorded] at evicted
  simp at evicted

end MemTier.Embedding
