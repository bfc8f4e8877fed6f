import MemTier.Embedding.Contents

/-!
# Coherence of the residency table and the HBM cache

Whatever fails, a block that the table records in device memory is kept by the HBM cache at the
address recorded, as long as the identifier that stands for no eviction is not used.  While no
load and no copy fails, that slot holds the block, unless its offset in the file wraps around.
-/

namespace MemTier.Embedding

open Containers Resumption

/-- Every reply is considered. -/
def AnyReply : (op : Op) → Reply op → Prop := fun _ _ => True

/-- No load and no copy fails. -/
def Undisturbed : (op : Op) → Reply op → Prop
  | .pread _ _ _ _, delivered => delivered ≠ none ∧ delivered ≠ some 0
  | .memcpyAsync _, issued => issued = true
  | _, _ => True

instance : ∀ op reply, Decidable (AnyReply op reply) := fun _ _ => instDecidableTrue

instance : ∀ op reply, Decidable (Undisturbed op reply)
  | .pread _ _ _ _, delivered => inferInstanceAs (Decidable (delivered ≠ none ∧ delivered ≠ some 0))
  | .memcpyAsync _, issued => inferInstanceAs (Decidable (issued = true))
  | .streamCreate, _ | .streamSynchronize, _ | .streamDestroy, _ => instDecidableTrue

/-- A call that does not name the identifier standing for no eviction, with any return code. -/
def AvoidsSentinel (request : Request) (_ : Int) : Prop :=
  ∀ block ∈ request.blocks, block ≠ uint64Max

/-- The HBM cache keeps every block recorded in device memory where it is recorded. -/
structure Coherent (tiers : Tiers) : Prop where
  kept : ∀ block ptr, tiers.location block = .hbm ptr → tiers.hbm.address block = some ptr
  sentinel : tiers.hbm.address uint64Max = none

section

variable {file : Bytes} {mode : CopyMode} {permits : (op : Op) → Reply op → Prop}
  {config : Config} {tiers tiers' : Tiers} {block : BlockId} {before after : Machine}

theorem Coherent.fresh (fresh : tiers.Fresh) : Coherent tiers where
  kept := by
    intro block ptr recorded
    rw [fresh.location block] at recorded
    simp at recorded
  sentinel := fresh.hbm uint64Max

/-- Blocks recorded at the same address are the same. -/
theorem Coherent.injective (coherent : Coherent tiers) (wellFormed : tiers.WellFormed config)
    {first second : BlockId} {ptr : Nat} (here : tiers.location first = .hbm ptr)
    (there : tiers.location second = .hbm ptr) : first = second := by
  by_contra different
  have apart := wellFormed.hbm.disjoint (coherent.kept first ptr here)
    (coherent.kept second ptr there) different
  have positive := wellFormed.positive
  rw [wellFormed.hbm_size] at apart
  omega

/-- Recording a block elsewhere. -/
theorem Coherent.mark (coherent : Coherent tiers) {location : Location}
    (elsewhere : ∀ ptr, location ≠ .hbm ptr) : Coherent (tiers.mark block location) where
  kept := by
    intro other ptr recorded
    by_cases same : other = block
    · subst same
      simp only [Tiers.mark, Function.update_self] at recorded
      exact absurd recorded (elsewhere ptr)
    · simp only [Tiers.mark, Function.update_of_ne same] at recorded
      exact coherent.kept other ptr recorded
  sentinel := coherent.sentinel

/-- Entering a block that is not recorded in device memory. -/
theorem Coherent.place (coherent : Coherent tiers) (wellFormed : tiers.WellFormed config)
    (proper : block ≠ uint64Max) (absent : ∀ ptr, tiers.location block ≠ .hbm ptr) :
    Coherent (tiers.place block) where
  kept := by
    intro other ptr recorded
    simp only [Tiers.place] at recorded ⊢
    split at recorded
    · simp at recorded
    · rename_i stays
      have different : other ≠ block := by
        rintro rfl
        exact absent ptr recorded
      have address := coherent.kept other ptr recorded
      have not_sentinel : other ≠ uint64Max := by
        rintro rfl
        rw [coherent.sentinel] at address
        simp at address
      rw [wellFormed.hbm.address_allocate_ne different,
        if_neg fun evicted => stays ⟨evicted, not_sentinel⟩]
      exact address
  sentinel := by
    rw [Tiers.place]
    dsimp only
    rw [wellFormed.hbm.address_allocate_ne (Ne.symm proper), coherent.sentinel]
    split <;> rfl

theorem Staged.coherent {source : Nat} {path : ServedBy}
    (stage : Staged file permits tiers block before tiers' source path after)
    (coherent : Coherent tiers) : Coherent tiers' := by
  cases stage with
  | recorded recorded => exact coherent
  | found unrecorded cached =>
      exact Coherent.mark (show Coherent (tiers.search block) from ⟨coherent.kept, coherent.sentinel⟩) nofun
  | loaded unrecorded absent load =>
      exact Coherent.mark (show Coherent (tiers.enter block) from ⟨coherent.kept, coherent.sentinel⟩) nofun

/-- A round keeps the table and the cache coherent, wherever it breaks off. -/
theorem Round.coherent {served : Option Served}
    (round : Round file mode permits tiers block before tiers' served after)
    (wellFormed : tiers.WellFormed config) (proper : block ≠ uint64Max)
    (coherent : Coherent tiers) : Coherent tiers' := by
  have placed : ∀ {staged : Tiers} {source : Nat} {path : ServedBy} {middle : Machine},
      Staged file permits tiers block before staged source path middle →
        Coherent (staged.place block) := by
    intro staged source path middle stage
    refine (stage.coherent coherent).place (stage.wellFormed wellFormed) proper fun ptr => ?_
    rw [stage.frame.2.1, Function.update_self]
    exact nofun
  cases round with
  | hit resident => exact coherent
  | unread unrecorded absent load =>
      exact Coherent.mark (show Coherent (tiers.enter block) from ⟨coherent.kept, coherent.sentinel⟩) nofun
  | uncopied stage drains permitted => exact placed stage
  | @copied staged source path middle ready stage drains permitted =>
      refine ⟨fun other ptr recorded => ?_, (placed stage).sentinel⟩
      by_cases same : other = block
      · subst same
        simp only [Tiers.mark, Function.update_self, Location.hbm.injEq] at recorded
        subst recorded
        exact (stage.wellFormed wellFormed).hbm.address_allocate other
      · simp only [Tiers.mark, Function.update_of_ne same] at recorded
        exact (placed stage).kept other ptr recorded

/-- While no load and no copy fails, every round serves its block. -/
theorem Round.undisturbed {served : Option Served}
    (round : Round file mode Undisturbed tiers block before tiers' served after) :
    ∃ value, served = some value := by
  cases round with
  | hit resident => exact ⟨_, rfl⟩
  | unread unrecorded absent load =>
      obtain ⟨_, _, _, reply, permitted, failure | ⟨eof, -⟩⟩ := load.failed rfl
      · exact absurd failure permitted.1
      · exact absurd eof permitted.2
  | uncopied stage drains permitted => exact absurd permitted (by simp [Undisturbed])
  | copied stage drains permitted => exact ⟨_, rfl⟩

/-- Nothing is queued, and all slots of both caches hold what their blocks were loaded with. -/
structure Loaded (config : Config) (file : Bytes) (tiers : Tiers) (machine : Machine) : Prop where
  idle : machine.pending = []
  settled : Settled tiers
  dram : DramHolds config file tiers machine
  hbm : HbmHolds config file tiers machine

theorem Loaded.fresh (fresh : tiers.Fresh) (idle : before.pending = []) :
    Loaded config file tiers before :=
  ⟨idle, .fresh fresh, .fresh fresh, .fresh fresh⟩

theorem Loaded.drains (loaded : Loaded config file tiers before) (drains : before.Drains after) :
    Loaded config file tiers after := by
  rw [drains.eq_of_empty loaded.idle]
  exact loaded

theorem Loaded.round {served : Served} (loaded : Loaded config file tiers before)
    (wellFormed : tiers.WellFormed config)
    (round : Round file .atIssue permits tiers block before tiers' (some served) after) :
    Loaded config file tiers' after := by
  obtain ⟨hbm, idle⟩ :=
    round.hbmHolds wellFormed loaded.settled loaded.idle loaded.dram loaded.hbm
  exact ⟨idle, round.settled loaded.settled, round.dramHolds wellFormed loaded.dram nofun, hbm⟩

end

section

variable {file : Bytes} {mode : CopyMode} {config : Config} {world : World}

theorem Reachable.coherent (small : file.length < 2 ^ 63)
    (reached : Reachable file mode AnyReply AvoidsSentinel config world) :
    world.handle.tiers.WellFormed config ∧ Coherent world.handle.tiers :=
  @Reachable.keeps file mode AnyReply AvoidsSentinel config world (fun tiers _ => Coherent tiers)
    (· ≠ uint64Max) small (fun _ fresh _ => .fresh fresh) (fun kept _ => kept)
    (fun proper _ wellFormed kept round => round.coherent wellFormed proper kept)
    (fun _ _ avoids => avoids) reached

theorem Reachable.undisturbed (small : file.length < 2 ^ 63)
    (reached : Reachable file .atIssue Undisturbed AvoidsSentinel config world) :
    Coherent world.handle.tiers ∧ Loaded config file world.handle.tiers world.machine :=
  (@Reachable.keeps file .atIssue Undisturbed AvoidsSentinel config world
    (fun tiers machine => Coherent tiers ∧ Loaded config file tiers machine)
    (· ≠ uint64Max) small (fun _ fresh idle => ⟨.fresh fresh, .fresh fresh idle⟩)
    (fun kept drains => ⟨kept.1, kept.2.drains drains⟩)
    (fun proper _ wellFormed kept round => by
      obtain ⟨value, rfl⟩ := round.undisturbed
      exact ⟨round.coherent wellFormed proper kept.1, kept.2.round wellFormed round⟩)
    (fun _ _ avoids => avoids) reached).2

/-- In every session the residency table and the HBM cache agree on the blocks in device memory,
and no two of them share an address.  If no load and no copy has failed, the slot of such a block
holds the bytes of the block exactly when its offset does not wrap around. -/
theorem residency_coherent_iff (small : file.length < 2 ^ 63)
    (reached : Reachable file mode AnyReply AvoidsSentinel config world) :
    (∀ block ptr, world.handle.residency.location block = .hbm ptr →
      world.handle.hbmCache.slots.address block = some ptr) ∧
    (∀ first second ptr, world.handle.residency.location first = .hbm ptr →
      world.handle.residency.location second = .hbm ptr → first = second) ∧
    (Reachable file .atIssue Undisturbed AvoidsSentinel config world →
      ∀ block ptr, world.handle.residency.location block = .hbm ptr →
        (HoldsBlock config file world.machine.hbm ptr block ↔ config.Addressable block)) := by
  obtain ⟨wellFormed, coherent⟩ := reached.coherent small
  refine ⟨coherent.kept, fun first second ptr => coherent.injective wellFormed, ?_⟩
  intro undisturbed block ptr recorded
  obtain ⟨-, loaded⟩ := undisturbed.undisturbed small
  exact (loaded.hbm block ptr (coherent.kept block ptr recorded)).holdsBlock_iff small

end

instance (request : Request) (rc : Int) : Decidable (AvoidsSentinel request rc) :=
  List.decidableBAll (· ≠ uint64Max) request.blocks

/-- Blocks of two bytes, and room for two of them in either memory. -/
def Config.twoBytes : Config where
  embeddingDim := 1
  rowsPerBlock := 1
  dtypeSize := 2
  dramCacheBytes := 4
  hbmCacheBytes := 4

theorem residency_coherent_second_block :
    ∃ world, Reachable [1, 2, 3, 4] .atIssue AnyReply AvoidsSentinel .twoBytes world ∧
      world.handle.hbmCache.slots.address 1 = some 0 ∧
      HoldsBlock .twoBytes [1, 2, 3, 4] world.machine.hbm 0 1 := by
  obtain ⟨world, found, recorded⟩ := (Option.any_eq_true _ _).mp (show
    (session? [1, 2, 3, 4] .atIssue Undisturbed AvoidsSentinel .twoBytes
      [(.lookup [1], List.replicate 5 (.take 2))]).any
        (fun world => world.handle.residency.location 1 = .hbm 0) from by decide +kernel)
  have undisturbed := Reachable.of_session? found
  have reached : Reachable [1, 2, 3, 4] .atIssue AnyReply AvoidsSentinel .twoBytes world :=
    undisturbed.mono fun _ _ _ => trivial
  obtain ⟨kept, -, holds⟩ := residency_coherent_iff (by decide) reached
  have recorded := of_decide_eq_true recorded
  exact ⟨world, reached, kept 1 0 recorded, (holds undisturbed 1 0 recorded).mpr (by decide)⟩

/-- Block `2 ^ 63` of two-byte blocks is read from the start of the file. -/
theorem wrapped_block_not_held :
    ¬ ∀ world, Reachable [1, 2] .atIssue Undisturbed AvoidsSentinel .twoBytes world →
      ∀ block ptr, world.handle.residency.location block = .hbm ptr →
        HoldsBlock .twoBytes [1, 2] world.machine.hbm ptr block := by
  intro holds
  obtain ⟨world, found, recorded⟩ := (Option.any_eq_true _ _).mp (show
    (session? [1, 2] .atIssue Undisturbed AvoidsSentinel .twoBytes
      [(.lookup [0x8000000000000000], List.replicate 5 (.take 2))]).any
        (fun world => world.handle.residency.location 0x8000000000000000 = .hbm 0) from by
          decide +kernel)
  have inside := (holds world (.of_session? found) _ _ (of_decide_eq_true recorded)).1
  exact absurd inside (by decide +kernel)

end MemTier.Embedding
