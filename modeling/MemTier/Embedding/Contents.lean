import MemTier.Embedding.Sessions

/-!
# What the slots hold

Slots of different blocks are disjoint, so a load or a copy fills the slot of its own block and
leaves every other slot alone.  Only a load that breaks off leaves a slot that does not hold what
its block was loaded with.
-/

namespace MemTier.Embedding

open Containers Resumption

/-- Every slot of the DRAM cache holds what its block was loaded with. -/
def DramHolds (config : Config) (file : Bytes) (tiers : Tiers) (machine : Machine) : Prop :=
  ∀ block ptr, tiers.dram.address block = some ptr →
    HoldsLoaded config file machine.dram ptr block

/-- Every slot of the HBM cache holds what its block was loaded with. -/
def HbmHolds (config : Config) (file : Bytes) (tiers : Tiers) (machine : Machine) : Prop :=
  ∀ block ptr, tiers.hbm.address block = some ptr → HoldsLoaded config file machine.hbm ptr block

/-- No block is recorded to be in host memory only. -/
def Settled (tiers : Tiers) : Prop := ∀ block ptr, tiers.location block ≠ .dram ptr

/-- A store into another slot. -/
theorem HoldsLoaded.write {config : Config} {file : Bytes} {memory : Memory} {ptr target : Nat}
    {block : BlockId} {data : Bytes} (loaded : HoldsLoaded config file memory ptr block)
    (size : data.length ≤ config.blockSizeBytes.toNat)
    (disjoint : ptr + config.blockSizeBytes.toNat ≤ target ∨
      target + config.blockSizeBytes.toNat ≤ ptr) :
    HoldsLoaded config file (memory.write target data) ptr block := by
  refine ⟨loaded.1, ?_⟩
  rw [Memory.read_write_disjoint (by omega)]
  exact loaded.2

/-- A store of all the bytes of a block. -/
theorem HoldsLoaded.of_write {config : Config} {file : Bytes} {block : BlockId}
    (inside : (config.loadOffset block).toNat + config.blockSizeBytes.toNat ≤ file.length)
    (memory : Memory) (ptr : Nat) :
    HoldsLoaded config file (memory.write ptr
      (slice file (config.loadOffset block).toNat config.blockSizeBytes.toNat)) ptr block := by
  refine ⟨inside, ?_⟩
  have whole := Memory.read_write_same memory ptr
    (slice file (config.loadOffset block).toNat config.blockSizeBytes.toNat)
  rwa [length_slice_of_le inside] at whole

@[simp] theorem Machine.issue_dram (mode : CopyMode) (machine : Machine) (copy : Copy) :
    (machine.issue mode copy).dram = machine.dram := by
  cases mode <;> rfl

section

variable {file : Bytes} {mode : CopyMode} {permits : (op : Op) → Reply op → Prop}
  {config : Config} {tiers tiers' : Tiers} {block : BlockId} {before after : Machine}

/-- Staging does not touch device memory, and records where the block is. -/
theorem Staged.frame {source : Nat} {path : ServedBy}
    (stage : Staged file permits tiers block before tiers' source path after) :
    tiers'.hbm = tiers.hbm ∧
      tiers'.location = Function.update tiers.location block (.dram source) ∧
      (∀ ptr, tiers.location block ≠ .hbm ptr) ∧
      (before.pending = [] → after = { before with dram := after.dram }) := by
  cases stage with
  | recorded recorded =>
      refine ⟨rfl, ?_, by simp [recorded], fun _ => rfl⟩
      rw [← recorded, Function.update_eq_self]
  | found unrecorded cached => exact ⟨rfl, rfl, by simp [unrecorded], fun _ => rfl⟩
  | loaded unrecorded absent load => exact ⟨rfl, rfl, by simp [unrecorded], load.quiet⟩

/-- A complete load fills the slot of its block and no other. -/
theorem DramHolds.load (holds : DramHolds config file tiers before)
    (wellFormed : tiers.WellFormed config) {read : Nat}
    (load : Loads file permits block (tiers.config.loadOffset block).toNat (tiers.loadPtr block)
      tiers.blockBytes before (some read) after) :
    DramHolds config file (tiers.enter block) after ∧
      HoldsLoaded config file after.dram (tiers.loadPtr block) block := by
  obtain ⟨data, -, whole, written⟩ := load.written
  have inside := (load.complete read rfl).2
  obtain rfl := whole (Option.some_ne_none _)
  rw [wellFormed.config_eq, wellFormed.size] at inside written
  have filled : HoldsLoaded config file after.dram (tiers.loadPtr block) block := by
    rw [written]
    exact HoldsLoaded.of_write inside _ _
  have here := wellFormed.dram.address_allocate block
  refine ⟨fun other ptr cached => ?_, filled⟩
  by_cases same : other = block
  · subst same
    have ptr_eq : (tiers.enter other).dram.address other = some (tiers.loadPtr other) := here
    rw [cached] at ptr_eq
    obtain rfl := Option.some.inj ptr_eq
    exact filled
  · have kept := wellFormed.dram.address_of_allocate same cached
    have admitted : (tiers.enter block).WellFormed config := wellFormed.enter
    have apart := admitted.dram.disjoint cached here same
    rw [admitted.dram_size] at apart
    rw [written]
    refine (holds other ptr kept).write ?_ apart
    rw [length_slice]
    omega

theorem Staged.dramHolds {source : Nat} {path : ServedBy}
    (stage : Staged file permits tiers block before tiers' source path after)
    (wellFormed : tiers.WellFormed config) (holds : DramHolds config file tiers before) :
    DramHolds config file tiers' after := by
  cases stage with
  | recorded recorded => exact holds
  | found unrecorded cached =>
      intro other ptr held
      have same := (wellFormed.dram.get block).2.2.2
      rw [show ((tiers.search block).mark block _).dram.address other =
        (tiers.dram.get block).2.address other from rfl, same] at held
      exact holds other ptr held
  | loaded unrecorded absent load => exact (holds.load wellFormed load).1

/-- Where staging says that the block is, it is. -/
theorem Staged.source_holds {source : Nat} {path : ServedBy}
    (stage : Staged file permits tiers block before tiers' source path after)
    (wellFormed : tiers.WellFormed config) (settled : Settled tiers)
    (holds : DramHolds config file tiers before) :
    HoldsLoaded config file after.dram source block := by
  cases stage with
  | recorded recorded => exact absurd recorded (settled block source)
  | found unrecorded cached => exact holds block source cached
  | loaded unrecorded absent load => exact (holds.load wellFormed load).2

/-- Unless a load breaks off, a round leaves no slot of the DRAM cache wrong. -/
theorem Round.dramHolds {served : Option Served}
    (round : Round file mode permits tiers block before tiers' served after)
    (wellFormed : tiers.WellFormed config) (holds : DramHolds config file tiers before)
    (completes : served = none → ¬ ∃ after, Loads file permits block
      (tiers.config.loadOffset block).toNat (tiers.loadPtr block) tiers.blockBytes before none
      after) :
    DramHolds config file tiers' after := by
  have stages : ∀ {staged : Tiers} {source : Nat} {path : ServedBy} {middle ready : Machine},
      Staged file permits tiers block before staged source path middle → middle.Drains ready →
      DramHolds config file staged ready := by
    intro staged source path middle ready stage drains other ptr cached
    rw [drains.dram]
    exact stage.dramHolds wellFormed holds other ptr cached
  cases round with
  | hit resident => exact holds
  | unread unrecorded absent load => exact absurd ⟨_, load⟩ (completes rfl)
  | uncopied stage drains permitted =>
      intro other ptr cached
      exact stages stage drains other ptr cached
  | copied stage drains permitted =>
      intro other ptr cached
      rw [Machine.issue_dram]
      exact stages stage drains other ptr cached

theorem DramHolds.drains (holds : DramHolds config file tiers before)
    (drains : before.Drains after) : DramHolds config file tiers after := by
  intro block ptr cached
  rw [drains.dram]
  exact holds block ptr cached

theorem DramHolds.fresh (fresh : tiers.Fresh) : DramHolds config file tiers before := by
  intro block ptr cached
  rw [fresh.dram block] at cached
  simp at cached

/-- A round that serves its block leaves nothing in host memory only. -/
theorem Round.settled {served : Served}
    (round : Round file mode permits tiers block before tiers' (some served) after)
    (settled : Settled tiers) : Settled tiers' := by
  cases round with
  | hit resident => exact settled
  | copied stage drains permitted =>
      obtain ⟨-, locations, -, -⟩ := stage.frame
      intro other ptr
      by_cases same : other = block
      · subst same
        simp [Tiers.mark]
      · simp only [Tiers.mark, Tiers.place, locations, Function.update_of_ne same]
        split
        · simp
        · exact settled other ptr

theorem Settled.fresh (fresh : tiers.Fresh) : Settled tiers := by
  intro block ptr
  rw [fresh.location block]
  exact nofun

/-- When copies execute at issue, a round that serves its block fills the slot of the block in
device memory and no other. -/
theorem Round.hbmHolds {served : Served}
    (round : Round file .atIssue permits tiers block before tiers' (some served) after)
    (wellFormed : tiers.WellFormed config) (settled : Settled tiers) (idle : before.pending = [])
    (dramHolds : DramHolds config file tiers before)
    (holds : HbmHolds config file tiers before) :
    HbmHolds config file tiers' after ∧ after.pending = [] := by
  cases round with
  | hit resident => exact ⟨holds, idle⟩
  | @copied staged source path middle ready stage drains permitted =>
      obtain ⟨hbm, -, -, quiet⟩ := stage.frame
      have staged_wellFormed := stage.wellFormed wellFormed
      have source_holds := stage.source_holds wellFormed settled dramHolds
      have still : middle.pending = [] := by rw [quiet idle]; exact idle
      obtain rfl := drains.eq_of_empty still
      have device : ready.hbm = before.hbm := by rw [quiet idle]
      have filled : (ready.issue .atIssue (staged.copy block source)).hbm =
          before.hbm.write (staged.copyPtr block)
            (slice file (config.loadOffset block).toNat config.blockSizeBytes.toNat) := by
        rw [← source_holds.2, ← staged_wellFormed.size, ← device]
        rfl
      have here := staged_wellFormed.hbm.address_allocate block
      refine ⟨fun other ptr held => ?_, still⟩
      rw [filled]
      by_cases same : other = block
      · subst same
        have ptr_eq : (staged.place other).hbm.address other = some (staged.copyPtr other) := here
        rw [show (staged.place other).hbm.address other = some ptr from held] at ptr_eq
        obtain rfl := Option.some.inj ptr_eq
        exact HoldsLoaded.of_write source_holds.1 _ _
      · have kept : tiers.hbm.address other = some ptr := by
          rw [← hbm]
          exact staged_wellFormed.hbm.address_of_allocate same held
        have placed : (staged.place block).WellFormed config := staged_wellFormed.place
        have apart := placed.hbm.disjoint held here same
        rw [placed.hbm_size] at apart
        refine (holds other ptr kept).write ?_ apart
        rw [length_slice]
        omega

theorem HbmHolds.fresh (fresh : tiers.Fresh) : HbmHolds config file tiers before := by
  intro block ptr held
  rw [fresh.hbm block] at held
  simp at held

end

end MemTier.Embedding
