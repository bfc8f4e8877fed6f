import MemTier.Embedding.Coherence

/-!
# Failed loads

A block is entered into the DRAM cache before it is read, and a load that breaks off leaves it
there.  A later lookup finds it and copies whatever is in the slot.  The DRAM cache can be trusted
in sessions in which no read fails and every block that is read lies inside the file.
-/

namespace MemTier.Embedding

open Containers Resumption

/-- No read fails, and only blocks inside the file are read. -/
def ReadsInside (config : Config) (file : Bytes) : (op : Op) → Reply op → Prop
  | .pread block _ _ _, delivered => BlockInside config file block ∧ delivered ≠ none
  | _, _ => True

instance (config : Config) (file : Bytes) : ∀ op reply, Decidable (ReadsInside config file op reply)
  | .pread block _ _ _, delivered =>
      inferInstanceAs (Decidable (BlockInside config file block ∧ delivered ≠ none))
  | .memcpyAsync _, _ | .streamCreate, _ | .streamSynchronize, _ | .streamDestroy, _ =>
      instDecidableTrue

/-- Any call with any return code. -/
def AnyCall (_ : Request) (_ : Int) : Prop := True

instance (request : Request) (rc : Int) : Decidable (AnyCall request rc) := instDecidableTrue

/-- Every slot of the DRAM cache holds its block. -/
def DramExact (config : Config) (file : Bytes) (tiers : Tiers) (machine : Machine) : Prop :=
  DramHolds config file tiers machine ∧
    ∀ block ptr, tiers.dram.address block = some ptr → config.Addressable block

section

variable {file : Bytes} {mode : CopyMode} {config : Config} {tiers tiers' : Tiers}
  {block : BlockId} {before after : Machine}

/-- A load of a block inside the file does not break off. -/
theorem Loads.completes_of_inside (small : file.length < 2 ^ 63)
    (wellFormed : tiers.WellFormed config) {dst : Nat} :
    ¬ Loads file (ReadsInside config file) block (tiers.config.loadOffset block).toNat dst
      tiers.blockBytes before none after := by
  intro load
  obtain ⟨_, _, _, reply, ⟨inside, delivered⟩, failure | ⟨-, short⟩⟩ := load.failed rfl
  · exact delivered failure
  · have addressable := inside.addressable small
    rw [wellFormed.config_eq, wellFormed.size, addressable.offset, addressable.size] at short
    rw [BlockInside, Nat.add_mul, Nat.one_mul] at inside
    omega

theorem DramExact.load (correct : DramExact config file tiers before) (small : file.length < 2 ^ 63)
    (wellFormed : tiers.WellFormed config) {read : Nat}
    (load : Loads file (ReadsInside config file) block (tiers.config.loadOffset block).toNat
      (tiers.loadPtr block) tiers.blockBytes before (some read) after) :
    DramExact config file (tiers.enter block) after := by
  refine ⟨(correct.1.load wellFormed load).1, fun other ptr cached => ?_⟩
  by_cases same : other = block
  · subst same
    obtain ⟨_, _, _, _, inside, -⟩ := load.asked
    exact inside.addressable small
  · exact correct.2 other ptr (wellFormed.dram.address_of_allocate same cached)

theorem Round.dramExact {served : Option Served}
    (round : Round file mode (ReadsInside config file) tiers block before tiers' served after)
    (small : file.length < 2 ^ 63) (wellFormed : tiers.WellFormed config)
    (correct : DramExact config file tiers before) : DramExact config file tiers' after := by
  have stages : ∀ {staged : Tiers} {source : Nat} {path : ServedBy} {middle : Machine},
      Staged file (ReadsInside config file) tiers block before staged source path middle →
      ∀ other ptr, staged.dram.address other = some ptr → config.Addressable other := by
    intro staged source path middle stage
    cases stage with
    | recorded recorded => exact correct.2
    | found unrecorded cached =>
        intro other ptr held
        rw [show ((tiers.search block).mark block _).dram.address other =
          (tiers.dram.get block).2.address other from rfl,
          (wellFormed.dram.get block).2.2.2] at held
        exact correct.2 other ptr held
    | loaded unrecorded absent load => exact (correct.load small wellFormed load).2
  refine ⟨round.dramHolds wellFormed correct.1 ?_, ?_⟩
  · rintro - ⟨after, load⟩
    exact load.completes_of_inside small wellFormed
  · cases round with
    | hit resident => exact correct.2
    | unread unrecorded absent load => exact absurd load (Loads.completes_of_inside small wellFormed)
    | uncopied stage drains permitted => exact fun other ptr => stages stage other ptr
    | copied stage drains permitted => exact fun other ptr => stages stage other ptr

end

/-- In every session in which no read fails and every block that is read lies inside the file,
whichever copies and calls fail, the slot of every block that the DRAM cache would return holds
exactly that block. -/
theorem dram_cache_unpoisoned {file : Bytes} {mode : CopyMode} {config : Config} {world : World}
    (small : file.length < 2 ^ 63)
    (reached : Reachable file mode (ReadsInside config file) AnyCall config world)
    (block : BlockId) (ptr : Nat) (hit : (world.handle.dramCache.get block).1 = some ptr) :
    HoldsBlock config file world.machine.dram ptr block := by
  obtain ⟨-, holds, addressable⟩ :=
    @Reachable.keeps file mode (ReadsInside config file) AnyCall config world
      (DramExact config file) (fun _ => True) small
      (fun _ fresh _ => ⟨.fresh fresh, fun block ptr cached => by simp [fresh.dram block] at cached⟩)
      (fun kept drains => ⟨kept.1.drains drains, kept.2⟩)
      (fun _ _ wellFormed kept round => round.dramExact small wellFormed kept)
      (fun _ _ _ _ _ => trivial) reached
  have cached : world.handle.tiers.dram.address block = some ptr := by
    rw [DramCache.get_ptr, SlotCache.get_ptr] at hit
    exact hit
  exact ((holds block ptr cached).holdsBlock_iff small).mpr (addressable block ptr cached)

/-- A copy fails, and the block it was to copy is still in the DRAM cache. -/
theorem dram_cache_unpoisoned_failed_copy :
    ∃ world, Reachable [1, 2, 3, 4] .queued (ReadsInside .twoBytes [1, 2, 3, 4]) AnyCall .twoBytes
        world ∧ HoldsBlock .twoBytes [1, 2, 3, 4] world.machine.dram 0 1 := by
  obtain ⟨world, found, hit⟩ := (Option.any_eq_true _ _).mp (show
    (session? [1, 2, 3, 4] .queued (ReadsInside .twoBytes [1, 2, 3, 4]) AnyCall .twoBytes
      [(.lookup [1], [.take 0, .take 2, .fail])]).any
        (fun world => (world.handle.dramCache.get 1).1 = some 0) from by decide +kernel)
  have reached := Reachable.of_session? found
  exact ⟨world, reached, dram_cache_unpoisoned (by decide) reached 1 0 (of_decide_eq_true hit)⟩

/-- After a read error the DRAM cache returns a slot that was never filled. -/
theorem dram_cache_poisoned :
    ¬ ∀ world, Reachable [1, 2, 3, 4] .atIssue AnyReply AnyCall .twoBytes world →
      ∀ block ptr, (world.handle.dramCache.get block).1 = some ptr →
        HoldsBlock .twoBytes [1, 2, 3, 4] world.machine.dram ptr block := by
  intro holds
  obtain ⟨world, found, hit⟩ := (Option.any_eq_true _ _).mp (show
    (session? [1, 2, 3, 4] .atIssue AnyReply AnyCall .twoBytes
      [(.lookup [1], [.take 0, .fail])]).any
        (fun world => (world.handle.dramCache.get 1).1 = some 0 ∧
          world.machine.dram.read 0 2 = [0, 0]) from by decide +kernel)
  obtain ⟨cached, empty⟩ := of_decide_eq_true hit
  have filled := (holds world (.of_session? found) 1 0 cached).2
  rw [show Config.twoBytes.blockSizeBytes.toNat = 2 from by decide, empty] at filled
  exact absurd filled (by decide)

end MemTier.Embedding
