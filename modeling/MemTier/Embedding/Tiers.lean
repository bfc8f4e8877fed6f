import MemTier.Containers.SlotCache
import MemTier.Embedding.Config

/-!
# The tiers of the embedding runtime

Two slot caches, one in pinned host memory and one in device memory, and the table that records
for every block how far up it has come.
-/

namespace MemTier.Embedding

open Containers

/-! ## DRAM cache -/

structure DramCacheStats where
  dramHit : UInt64 := 0
  dramMiss : UInt64 := 0
  evictionCount : UInt64 := 0
  deriving DecidableEq, Repr

structure DramCache where
  slots : SlotCache BlockId
  stats : DramCacheStats

namespace DramCache

/-- The constructor.  It throws for empty blocks. -/
def new (base cacheBytes blockBytes : Nat) : Option DramCache :=
  if blockBytes = 0 then none
  else some { slots := SlotCache.new base cacheBytes blockBytes, stats := {} }

def get (cache : DramCache) (block : BlockId) : Option Nat × DramCache :=
  match cache.slots.get block with
  | (none, _) =>
      (none, { cache with stats := { cache.stats with dramMiss := cache.stats.dramMiss + 1 } })
  | (some ptr, slots) =>
      (some ptr, { slots, stats := { cache.stats with dramHit := cache.stats.dramHit + 1 } })

def allocateSlotForLoad (cache : DramCache) (block : BlockId) : Nat × DramCache :=
  let evicts := (cache.slots.entries.lookup block).isNone && cache.slots.freeSlots.isEmpty
  let ((ptr, _), slots) := cache.slots.allocate block
  let evictionCount := cache.stats.evictionCount + (if evicts then 1 else 0)
  (ptr, { slots, stats := { cache.stats with evictionCount } })

@[simp] theorem allocateSlotForLoad_slots (cache : DramCache) (block : BlockId) :
    (cache.allocateSlotForLoad block).2.slots = (cache.slots.allocate block).2 := rfl

@[simp] theorem allocateSlotForLoad_ptr (cache : DramCache) (block : BlockId) :
    (cache.allocateSlotForLoad block).1 = (cache.slots.allocate block).1.1 := rfl

theorem get_ptr (cache : DramCache) (block : BlockId) :
    (cache.get block).1 = (cache.slots.get block).1 := by
  rw [get]
  split <;> simp_all

theorem get_slots {cache : DramCache} (block : BlockId) :
    (cache.get block).2.slots = (cache.slots.get block).2 := by
  rw [get]
  split
  · rename_i missed
    rw [SlotCache.get] at missed ⊢
    split at missed
    · rfl
    · simp at missed
  · rename_i hit
    rw [hit]

theorem evictionCount_get (cache : DramCache) (block : BlockId) :
    (cache.get block).2.stats.evictionCount = cache.stats.evictionCount := by
  rw [get]
  split <;> rfl

end DramCache

/-! ## HBM cache -/

/-- The code's way to say that nothing was evicted. -/
def uint64Max : BlockId := 0xFFFFFFFFFFFFFFFF

structure HbmCache where
  slots : SlotCache BlockId

namespace HbmCache

def new (base cacheBytes blockBytes : Nat) : HbmCache where
  slots := SlotCache.new base cacheBytes blockBytes

def get (cache : HbmCache) (block : BlockId) : Option Nat × HbmCache :=
  let (ptr, slots) := cache.slots.get block
  (ptr, { slots })

/-- Address for a block and the block evicted for it. -/
def allocate (cache : HbmCache) (block : BlockId) : (Nat × BlockId) × HbmCache :=
  let ((ptr, evicted), slots) := cache.slots.allocate block
  ((ptr, evicted.getD uint64Max), { slots })

end HbmCache

/-! ## Residency table -/

inductive ResidencyState where
  | notResident | inDram | inHbm | loading
  deriving DecidableEq, Repr

structure ResidencyEntry where
  blockId : BlockId := 0
  state : ResidencyState := .notResident
  dramPtr : Option Nat := none
  devicePtr : Option Nat := none
  lastAccessStep : UInt64 := 0
  accessCount : UInt64 := 0
  refCount : UInt32 := 0
  deriving DecidableEq, Repr

/-- Where the lookup loop finds a block. -/
inductive Location where
  | nowhere
  | dram (ptr : Nat)
  | hbm (ptr : Nat)
  deriving DecidableEq, Repr

/-- What an entry says.  An address counts only in the state that goes with it. -/
def ResidencyEntry.location (entry : ResidencyEntry) : Location :=
  match entry.state, entry.devicePtr, entry.dramPtr with
  | .inHbm, some ptr, _ => .hbm ptr
  | .inDram, _, some ptr => .dram ptr
  | _, _, _ => .nowhere

structure ResidencyTable where
  entries : AList fun _ : BlockId => ResidencyEntry
  step : UInt64

namespace ResidencyTable

def new : ResidencyTable where
  entries := ∅
  step := 0

/-- The entry of a block, as `entries_[block_id]` creates it on first use. -/
def entry (table : ResidencyTable) (block : BlockId) : ResidencyEntry :=
  (table.entries.lookup block).getD {}

/-- Change the entry of a block and stamp it. -/
def update (table : ResidencyTable) (block : BlockId)
    (change : ResidencyEntry → ResidencyEntry) : ResidencyEntry × ResidencyTable :=
  let entry := { change (table.entry block) with lastAccessStep := table.step + 1 }
  (entry, { entries := table.entries.insert block entry, step := table.step + 1 })

def lookup (table : ResidencyTable) (block : BlockId) : ResidencyEntry × ResidencyTable :=
  table.update block fun entry =>
    { entry with
      blockId := if entry.state = .notResident then block else entry.blockId
      accessCount := entry.accessCount + 1
      refCount := entry.refCount + 1 }

def markLoading (table : ResidencyTable) (block : BlockId) : ResidencyTable :=
  (table.update block fun entry => { entry with blockId := block, state := .loading }).2

def markDram (table : ResidencyTable) (block : BlockId) (ptr : Nat) : ResidencyTable :=
  (table.update block fun entry =>
    { entry with blockId := block, state := .inDram, dramPtr := some ptr }).2

def markHbm (table : ResidencyTable) (block : BlockId) (ptr : Nat) : ResidencyTable :=
  (table.update block fun entry =>
    { entry with blockId := block, state := .inHbm, devicePtr := some ptr }).2

def release (table : ResidencyTable) (block : BlockId) : ResidencyEntry × ResidencyTable :=
  match table.entries.lookup block with
  | none => ({ blockId := block }, table)
  | some _ =>
      table.update block fun entry =>
        { entry with refCount := if 0 < entry.refCount then entry.refCount - 1 else entry.refCount }

def erase (table : ResidencyTable) (block : BlockId) : ResidencyTable :=
  { table with entries := table.entries.erase block }

/-- Where the table says that a block is. -/
def location (table : ResidencyTable) (block : BlockId) : Location :=
  (table.entry block).location

theorem entry_update (table : ResidencyTable) (block other : BlockId)
    (change : ResidencyEntry → ResidencyEntry) :
    (table.update block change).2.entry other =
      if other = block then (table.update block change).1 else table.entry other := by
  split
  · rename_i same
    subst same
    simp only [entry, update, AList.lookup_insert, Option.getD_some]
  · rename_i different
    simp only [entry, update, AList.lookup_insert_ne different]

/-- A change of one entry, seen from outside. -/
theorem location_update (table : ResidencyTable) (block : BlockId)
    (change : ResidencyEntry → ResidencyEntry) :
    (table.update block change).2.location =
      Function.update table.location block (change (table.entry block)).location := by
  funext other
  rw [location, entry_update, Function.update_apply]
  split <;> rfl

@[simp] theorem lookup_location (table : ResidencyTable) (block : BlockId) :
    (table.lookup block).1.location = table.location block := rfl

/-- A lookup only counts. -/
@[simp] theorem location_lookup (table : ResidencyTable) (block : BlockId) :
    (table.lookup block).2.location = table.location :=
  (location_update table block _).trans (Function.update_eq_self block table.location)

@[simp] theorem location_release (table : ResidencyTable) (block : BlockId) :
    (table.release block).2.location = table.location := by
  rw [release]
  split
  · rfl
  · exact (location_update table block _).trans (Function.update_eq_self block table.location)

@[simp] theorem location_markLoading (table : ResidencyTable) (block : BlockId) :
    (table.markLoading block).location = Function.update table.location block .nowhere :=
  location_update table block _

@[simp] theorem location_markDram (table : ResidencyTable) (block : BlockId) (ptr : Nat) :
    (table.markDram block ptr).location = Function.update table.location block (.dram ptr) :=
  location_update table block _

@[simp] theorem location_markHbm (table : ResidencyTable) (block : BlockId) (ptr : Nat) :
    (table.markHbm block ptr).location = Function.update table.location block (.hbm ptr) :=
  location_update table block _

@[simp] theorem location_erase (table : ResidencyTable) (block : BlockId) :
    (table.erase block).location = Function.update table.location block .nowhere := by
  funext other
  rw [Function.update_apply]
  split
  · rename_i same
    subst same
    simp [location, entry, erase, ResidencyEntry.location]
  · rename_i different
    simp [location, entry, erase, AList.lookup_erase_ne different]

end ResidencyTable
end MemTier.Embedding
