import MemTier.Embedding.Loads
import MemTier.Embedding.Lookup

/-!
# What one round can do

The state of the runtime without its counters, and what a round of the lookup loop does to it: a
hit, a load that fails, or a copy of a block that came into host memory in one of three ways.
-/

namespace MemTier.Embedding

open Containers Resumption

/-- The runtime without its counters. -/
structure Tiers where
  config : Config
  blockBytes : Nat
  location : BlockId → Location
  dram : SlotCache BlockId
  hbm : SlotCache BlockId

namespace Tiers

/-- Record where a block is. -/
def mark (tiers : Tiers) (block : BlockId) (location : Location) : Tiers :=
  { tiers with location := Function.update tiers.location block location }

/-- Ask the DRAM cache for a block. -/
def search (tiers : Tiers) (block : BlockId) : Tiers :=
  { tiers with dram := (tiers.dram.get block).2 }

/-- The slot a block gets in the DRAM cache. -/
def loadPtr (tiers : Tiers) (block : BlockId) : Nat := (tiers.dram.allocate block).1.1

/-- Enter a block into the DRAM cache. -/
def enter (tiers : Tiers) (block : BlockId) : Tiers :=
  { tiers with dram := (tiers.dram.allocate block).2 }

/-- The slot a block gets in the HBM cache. -/
def copyPtr (tiers : Tiers) (block : BlockId) : Nat := (tiers.hbm.allocate block).1.1

/-- Enter a block into the HBM cache, and forget where the block evicted for it was. -/
def place (tiers : Tiers) (block : BlockId) : Tiers :=
  { tiers with
    hbm := (tiers.hbm.allocate block).2
    location := fun other =>
      if (tiers.hbm.allocate block).1.2 = some other ∧ other ≠ uint64Max then .nowhere
      else tiers.location other }

/-- The copy that brings a block from host memory into its slot of device memory. -/
def copy (tiers : Tiers) (block : BlockId) (source : Nat) : Copy where
  block := block
  dst := tiers.copyPtr block
  src := source
  bytes := tiers.blockBytes

@[simp] theorem mark_mark (tiers : Tiers) (block : BlockId) (first second : Location) :
    (tiers.mark block first).mark block second = tiers.mark block second := by
  simp [mark]

theorem search_of_absent {tiers : Tiers} {block : BlockId}
    (absent : tiers.dram.address block = none) : tiers.search block = tiers := by
  have missing : tiers.dram.entries.lookup block = none := Option.map_eq_none_iff.mp absent
  rw [search, SlotCache.get, missing]

end Tiers

namespace Handle

def tiers (handle : Handle) : Tiers where
  config := handle.config
  blockBytes := handle.blockBytes.toNat
  location := handle.residency.location
  dram := handle.dramCache.slots
  hbm := handle.hbmCache.slots

section

variable (handle : Handle) (block : BlockId)

@[simp] theorem tiers_noteAccess : (handle.noteAccess block).tiers = handle.tiers := by
  simp [noteAccess, tiers]

@[simp] theorem tiers_countHbmHit : handle.countHbmHit.tiers = handle.tiers := rfl

@[simp] theorem tiers_countDramHit : handle.countDramHit.tiers = handle.tiers := rfl

@[simp] theorem tiers_countRead (read : Nat) : (handle.countRead read).tiers = handle.tiers := rfl

@[simp] theorem tiers_markDram (ptr : Nat) :
    (handle.markDram block ptr).tiers = handle.tiers.mark block (.dram ptr) := by
  simp [markDram, tiers, Tiers.mark]

@[simp] theorem tiers_searchDram :
    (handle.searchDram block).tiers = handle.tiers.search block := by
  simp [searchDram, tiers, Tiers.search, DramCache.get_slots]

@[simp] theorem tiers_beginLoad :
    (handle.beginLoad block).tiers = (handle.tiers.enter block).mark block .nowhere := by
  simp [beginLoad, tiers, Tiers.enter, Tiers.mark]

theorem loadPtr_eq : handle.loadPtr block = handle.tiers.loadPtr block := rfl

theorem copyPtr_eq : handle.copyPtr block = handle.tiers.copyPtr block := rfl

@[simp] theorem tiers_beginCopy : (handle.beginCopy block).tiers = handle.tiers.place block := by
  have allocated : (handle.hbmCache.allocate block).1.2 =
      (handle.hbmCache.slots.allocate block).1.2.getD uint64Max := rfl
  have slots : (handle.hbmCache.allocate block).2.slots =
      (handle.hbmCache.slots.allocate block).2 := rfl
  simp only [beginCopy, tiers, Tiers.place, allocated, slots, Tiers.mk.injEq, true_and, and_true]
  funext other
  rcases Option.eq_none_or_eq_some (handle.hbmCache.slots.allocate block).1.2 with
    victim | ⟨evicted, victim⟩
  · simp [victim]
  · by_cases sentinel : evicted = uint64Max
    · subst sentinel
      simp +contextual [victim, eq_comm]
    · by_cases same : evicted = other
      · subst same
        simp [victim, sentinel]
      · simp [victim, sentinel, same, Function.update_of_ne (Ne.symm same)]

@[simp] theorem tiers_finishCopy (ptr : Nat) :
    (handle.finishCopy block ptr).tiers = handle.tiers.mark block (.hbm ptr) := by
  simp [finishCopy, tiers, Tiers.mark]

end

end Handle

/-! ## Rounds -/

/-- The ways for a block to be in host memory: recorded there, found in the DRAM cache, or
loaded. -/
inductive Staged (file : Bytes) (permits : (op : Op) → Reply op → Prop) (tiers : Tiers)
    (block : BlockId) (before : Machine) : Tiers → Nat → ServedBy → Machine → Prop
  | recorded {ptr : Nat} (recorded : tiers.location block = .dram ptr) :
      Staged file permits tiers block before tiers ptr .dramHit before
  | found {ptr : Nat} (unrecorded : tiers.location block = .nowhere)
      (cached : tiers.dram.address block = some ptr) :
      Staged file permits tiers block before ((tiers.search block).mark block (.dram ptr)) ptr
        .dramHit before
  | loaded {read : Nat} {after : Machine} (unrecorded : tiers.location block = .nowhere)
      (absent : tiers.dram.address block = none)
      (load : Loads file permits block (tiers.config.loadOffset block).toNat (tiers.loadPtr block)
        tiers.blockBytes before (some read) after) :
      Staged file permits tiers block before
        ((tiers.enter block).mark block (.dram (tiers.loadPtr block))) (tiers.loadPtr block)
        .posixRead after

/-- The outcomes of a round. -/
inductive Round (file : Bytes) (mode : CopyMode) (permits : (op : Op) → Reply op → Prop)
    (tiers : Tiers) (block : BlockId) (before : Machine) :
    Tiers → Option Served → Machine → Prop
  | hit {ptr : Nat} (resident : tiers.location block = .hbm ptr) :
      Round file mode permits tiers block before tiers (some ⟨ptr, .hbmHit⟩) before
  | unread {after : Machine} (unrecorded : tiers.location block = .nowhere)
      (absent : tiers.dram.address block = none)
      (load : Loads file permits block (tiers.config.loadOffset block).toNat (tiers.loadPtr block)
        tiers.blockBytes before none after) :
      Round file mode permits tiers block before ((tiers.enter block).mark block .nowhere) none after
  | uncopied {staged : Tiers} {source : Nat} {path : ServedBy} {middle after : Machine}
      (stage : Staged file permits tiers block before staged source path middle)
      (drains : middle.Drains after)
      (permitted : permits (.memcpyAsync (staged.copy block source)) false) :
      Round file mode permits tiers block before (staged.place block) none after
  | copied {staged : Tiers} {source : Nat} {path : ServedBy} {middle after : Machine}
      (stage : Staged file permits tiers block before staged source path middle)
      (drains : middle.Drains after)
      (permitted : permits (.memcpyAsync (staged.copy block source)) true) :
      Round file mode permits tiers block before
        ((staged.place block).mark block (.hbm (staged.copyPtr block)))
        (some ⟨staged.copyPtr block, path⟩) (after.issue mode (staged.copy block source))

section

variable {file : Bytes} {mode : CopyMode} {permits : (op : Op) → Reply op → Prop}
  {handle handle' : Handle} {block : BlockId} {before after : Machine}

theorem copyToHbm_cases {source : Nat} {path : ServedBy} {served : Option Served}
    (evaluation : (copyToHbm handle block source path).Evaluates
      (environment file mode permits) before (handle', served) after) :
    ∃ issued ready, before.Drains ready ∧
      permits (.memcpyAsync (handle.tiers.copy block source)) issued ∧
      if issued then
        handle'.tiers = (handle.tiers.place block).mark block (.hbm (handle.tiers.copyPtr block)) ∧
          served = some ⟨handle.tiers.copyPtr block, path⟩ ∧
          after = ready.issue mode (handle.tiers.copy block source)
      else handle'.tiers = handle.tiers.place block ∧ served = none ∧ after = ready := by
  obtain ⟨issued, middle, execution, rest⟩ := Prog.evaluates_bind.mp evaluation
  rw [Run.memcpyAsync, Prog.evaluates_perform] at execution
  obtain ⟨permitted, ready, drains, rfl⟩ := serves_memcpyAsync execution
  refine ⟨issued, ready, drains, permitted, ?_⟩
  cases issued with
  | true =>
      obtain ⟨returned, rfl⟩ := rest
      obtain ⟨rfl, rfl⟩ := Prod.mk.inj returned
      exact ⟨by simp [Handle.copyPtr_eq], rfl, rfl⟩
  | false =>
      obtain ⟨returned, rfl⟩ := rest
      obtain ⟨rfl, rfl⟩ := Prod.mk.inj returned
      exact ⟨by simp, rfl, rfl⟩

theorem findInDram_cases (small : file.length < 2 ^ 63) (positive : 0 < handle.blockBytes.toNat)
    (unrecorded : handle.tiers.location block = .nowhere) {staged : Option (Nat × ServedBy)}
    (evaluation : (findInDram handle block).Evaluates
      (environment file mode permits) before (handle', staged) after) :
    (∃ source path, staged = some (source, path) ∧
      Staged file permits handle.tiers block before handle'.tiers source path after) ∨
    (staged = none ∧ handle.tiers.dram.address block = none ∧
      Loads file permits block (handle.config.loadOffset block).toNat (handle.tiers.loadPtr block)
        handle.blockBytes.toNat before none after ∧
      handle'.tiers = (handle.tiers.enter block).mark block .nowhere) := by
  have asked : (handle.dramCache.get block).1 = handle.tiers.dram.address block :=
    (handle.dramCache.get_ptr block).trans (handle.dramCache.slots.get_ptr block)
  rw [findInDram, asked] at evaluation
  split at evaluation
  · rename_i ptr cached
    obtain ⟨returned, rfl⟩ := evaluation
    obtain ⟨rfl, rfl⟩ := Prod.mk.inj returned
    refine .inl ⟨ptr, .dramHit, rfl, ?_⟩
    rw [Handle.tiers_markDram, Handle.tiers_countDramHit, Handle.tiers_searchDram]
    exact .found unrecorded cached
  · rename_i absent
    have searched : (handle.searchDram block).tiers = handle.tiers := by
      rw [Handle.tiers_searchDram, Tiers.search_of_absent absent]
    obtain ⟨result, middle, loading, rest⟩ := Prog.evaluates_bind.mp evaluation
    have load := loadBlock_spec small positive loading
    rw [Handle.loadPtr_eq, searched] at load
    cases result with
    | none =>
        obtain ⟨returned, rfl⟩ := rest
        obtain ⟨rfl, rfl⟩ := Prod.mk.inj returned
        refine .inr ⟨rfl, absent, load, ?_⟩
        rw [Handle.tiers_beginLoad, searched]
    | some read =>
        obtain ⟨returned, rfl⟩ := rest
        obtain ⟨rfl, rfl⟩ := Prod.mk.inj returned
        refine .inl ⟨_, .posixRead, rfl, ?_⟩
        rw [Handle.loadPtr_eq, Handle.tiers_markDram, Handle.tiers_countRead,
          Handle.tiers_beginLoad, searched, Tiers.mark_mark]
        exact .loaded unrecorded absent load

/-- A round of the loop has one of the outcomes. -/
theorem lookupBlock_round (small : file.length < 2 ^ 63)
    (positive : 0 < handle.blockBytes.toNat) {served : Option Served}
    (evaluation : (lookupBlock handle block).Evaluates
      (environment file mode permits) before (handle', served) after) :
    Round file mode permits handle.tiers block before handle'.tiers served after := by
  have copies : ∀ {staged : Handle} {source : Nat} {path : ServedBy} {middle : Machine},
      Staged file permits handle.tiers block before staged.tiers source path middle →
      (copyToHbm staged block source path).Evaluates
        (environment file mode permits) middle (handle', served) after →
      Round file mode permits handle.tiers block before handle'.tiers served after := by
    intro staged source path middle stage copying
    obtain ⟨issued, ready, drains, permitted, outcome⟩ := copyToHbm_cases copying
    cases issued with
    | true =>
        obtain ⟨tiers, rfl, rfl⟩ := outcome
        rw [tiers]
        exact .copied stage drains permitted
    | false =>
        obtain ⟨tiers, rfl, rfl⟩ := outcome
        rw [tiers]
        exact .uncopied stage drains permitted
  rw [lookupBlock, ResidencyTable.lookup_location] at evaluation
  split at evaluation
  · rename_i ptr resident
    obtain ⟨returned, rfl⟩ := evaluation
    obtain ⟨rfl, rfl⟩ := Prod.mk.inj returned
    rw [Handle.tiers_countHbmHit, Handle.tiers_noteAccess]
    exact .hit resident
  · rename_i ptr recorded
    refine copies ?_ evaluation
    rw [Handle.tiers_countDramHit, Handle.tiers_noteAccess]
    exact .recorded recorded
  · rename_i unrecorded
    obtain ⟨⟨found, staged⟩, middle, finding, rest⟩ := Prog.evaluates_bind.mp evaluation
    have noted := handle.tiers_noteAccess block
    have positive' : 0 < (handle.noteAccess block).blockBytes.toNat := positive
    have unrecorded' : (handle.noteAccess block).tiers.location block = .nowhere := by
      rw [noted]
      exact unrecorded
    rcases findInDram_cases small positive' unrecorded' finding with
      ⟨source, path, rfl, stage⟩ | ⟨rfl, absent, load, tiers⟩
    · rw [noted] at stage
      exact copies stage rest
    · obtain ⟨returned, rfl⟩ := rest
      obtain ⟨rfl, rfl⟩ := Prod.mk.inj returned
      rw [noted] at absent load tiers
      rw [tiers]
      exact .unread unrecorded absent load

end

end MemTier.Embedding
