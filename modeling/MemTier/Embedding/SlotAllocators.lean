import MemTier.Containers.SlotCalls
import MemTier.Embedding.Tiers

/-!
# The slot allocators of the embedding runtime

`DramCache` and `HbmCache` keep blocks in the slots of one allocation each.  Whatever is asked of
them, no slot is lost, none is used twice, and neither runs out of slots.
-/

namespace MemTier.Embedding

open Containers

/-! ## DRAM cache -/

namespace DramCache

/-- The eviction that `allocate_slot_for_load` and `evict_if_needed` share. -/
def evict? (cache : DramCache) : Option DramCache := do
  let (_, slots) ← cache.slots.evictBack?
  return { slots, stats := { cache.stats with evictionCount := cache.stats.evictionCount + 1 } }

def evictIfNeeded? (cache : DramCache) : Option DramCache :=
  if cache.slots.freeSlots ≠ [] ∨ cache.slots.entries.entries = [] then some cache
  else cache.evict?

/-- `allocate_slot_for_load`, unless it evaluates `back()` of an empty container. -/
def allocateSlotForLoad? (cache : DramCache) (block : BlockId) : Option (Nat × DramCache) :=
  match cache.slots.entries.lookup block with
  | some entry => some (entry.ptr, { cache with slots := cache.slots.touch block entry })
  | none => do
      let roomy ← if cache.slots.freeSlots = [] then cache.evict? else some cache
      let (ptr, slots) ← roomy.slots.place? block
      return (ptr, { roomy with slots })

/-- `put` copies the data to the address of the block. -/
def put? (cache : DramCache) (memory : Memory) (block : BlockId) (data : Bytes) :
    Option (Except String (Nat × DramCache × Memory)) :=
  if cache.slots.blockBytes < data.length then
    some (.error "put size exceeds DRAM cache block size")
  else do
    let (dst, cache) ← cache.allocateSlotForLoad? block
    return .ok (dst, cache, memory.write dst data)

section

variable {cache : DramCache}

theorem evict?_eq (wellFormed : cache.slots.WellFormed) (full : cache.slots.freeSlots = []) :
    cache.evict? = some { slots := cache.slots.evictBack, stats :=
      { cache.stats with evictionCount := cache.stats.evictionCount + 1 } } := by
  obtain ⟨victim, evicted, -⟩ := wellFormed.evictBack?_eq full
  rw [evict?, evicted]
  rfl

/-- `back()` is never evaluated on an empty container. -/
theorem allocateSlotForLoad?_eq (wellFormed : cache.slots.WellFormed) (block : BlockId) :
    cache.allocateSlotForLoad? block = some (cache.allocateSlotForLoad block) := by
  cases present : cache.slots.entries.lookup block with
  | some entry => simp [allocateSlotForLoad?, allocateSlotForLoad, SlotCache.allocate, present]
  | none =>
      by_cases full : cache.slots.freeSlots = []
      · have room := SlotCache.place?_eq (wellFormed.freeSlots_evictBack full) block
        simp only [allocateSlotForLoad?, present, if_pos full, evict?_eq wellFormed full,
          Option.bind_eq_bind, Option.bind_some, room]
        simp [allocateSlotForLoad, SlotCache.allocate, present, full]
      · have room := SlotCache.place?_eq full block
        simp only [allocateSlotForLoad?, present, if_neg full, Option.bind_eq_bind,
          Option.bind_some, room]
        simp [allocateSlotForLoad, SlotCache.allocate, present, full]

/-- Explicit eviction finds a least recent block, too. -/
theorem evictIfNeeded?_eq (wellFormed : cache.slots.WellFormed) :
    ∃ after, cache.evictIfNeeded? = some after ∧ after.slots.WellFormed ∧
      after.slots.region = cache.slots.region := by
  by_cases needless : cache.slots.freeSlots ≠ [] ∨ cache.slots.entries.entries = []
  · exact ⟨cache, if_pos needless, wellFormed, rfl⟩
  · have full : cache.slots.freeSlots = [] := by
      by_contra free
      exact needless (.inl free)
    obtain ⟨-, -, -, -, -, kept, -⟩ := wellFormed.evictBack full
    rw [evictIfNeeded?, if_neg needless, evict?_eq wellFormed full]
    exact ⟨_, rfl, kept, cache.slots.region_evictBack⟩

theorem put?_eq (wellFormed : cache.slots.WellFormed) {memory : Memory} {block : BlockId}
    {data : Bytes} (fits : data.length ≤ cache.slots.blockBytes) :
    cache.put? memory block data = some (.ok ((cache.allocateSlotForLoad block).1,
      (cache.allocateSlotForLoad block).2,
      memory.write (cache.allocateSlotForLoad block).1 data)) := by
  rw [put?, if_neg (Nat.not_lt.mpr fits), allocateSlotForLoad?_eq wellFormed]
  rfl

/-- After a `put` the block holds the data, and the other blocks that are still cached hold what they
held before. -/
theorem put?_contents (wellFormed : cache.slots.WellFormed) {memory : Memory} {block : BlockId}
    {data : Bytes} (fits : data.length ≤ cache.slots.blockBytes) :
    ∃ dst after stored, cache.put? memory block data = some (.ok (dst, after, stored)) ∧
      after.slots.address block = some dst ∧ stored.read dst data.length = data ∧
      ∀ other ptr, other ≠ block → after.slots.address other = some ptr →
        cache.slots.address other = some ptr ∧
          stored.read ptr cache.slots.blockBytes = memory.read ptr cache.slots.blockBytes := by
  have held := wellFormed.address_allocate block
  refine ⟨_, _, _, put?_eq wellFormed fits, held, Memory.read_write_same _ _ _, ?_⟩
  intro other ptr different there
  refine ⟨wellFormed.address_of_allocate different there, Memory.read_write_disjoint ?_⟩
  have apart := (wellFormed.allocate block).disjoint there held different
  have same := cache.slots.region_allocate block
  simp only [SlotCache.region, Prod.mk.injEq] at same
  rw [same.2.1] at apart
  rw [allocateSlotForLoad_ptr]
  omega

end

end DramCache

/-- A call of a DRAM cache. -/
inductive DramCall where
  | get (block : BlockId)
  | put (block : BlockId) (data : Bytes)
  | allocateSlotForLoad (block : BlockId)
  | evictIfNeeded

/-- The cache and host memory after a call.  A `put` that throws changes nothing. -/
def DramCache.next (state : DramCache × Memory) : DramCall → Option (DramCache × Memory)
  | .get block => some ((state.1.get block).2, state.2)
  | .put block data => do
      match ← state.1.put? state.2 block data with
      | .error _ => return state
      | .ok (_, after) => return after
  | .allocateSlotForLoad block => do
      let (_, cache) ← state.1.allocateSlotForLoad? block
      return (cache, state.2)
  | .evictIfNeeded => do return (← state.1.evictIfNeeded?, state.2)

theorem DramCache.next_eq {state : DramCache × Memory} (wellFormed : state.1.slots.WellFormed)
    (call : DramCall) :
    ∃ after, DramCache.next state call = some after ∧ after.1.slots.WellFormed ∧
      after.1.slots.region = state.1.slots.region := by
  have allocated : ∀ block, (state.1.allocateSlotForLoad block).2.slots.WellFormed ∧
      (state.1.allocateSlotForLoad block).2.slots.region = state.1.slots.region :=
    fun block => ⟨wellFormed.allocate block, state.1.slots.region_allocate block⟩
  cases call with
  | get block =>
      refine ⟨_, rfl, ?_⟩
      dsimp only
      rw [get_slots]
      exact ⟨(wellFormed.get block).2.1, state.1.slots.region_get block⟩
  | put block data =>
      by_cases fits : data.length ≤ state.1.slots.blockBytes
      · rw [DramCache.next, put?_eq wellFormed fits]
        exact ⟨_, rfl, allocated block⟩
      · rw [DramCache.next, put?, if_pos (Nat.not_le.mp fits)]
        exact ⟨state, rfl, wellFormed, rfl⟩
  | allocateSlotForLoad block =>
      rw [DramCache.next, allocateSlotForLoad?_eq wellFormed]
      exact ⟨_, rfl, allocated block⟩
  | evictIfNeeded =>
      obtain ⟨after, evicted, kept, same⟩ := evictIfNeeded?_eq wellFormed
      rw [DramCache.next, evicted]
      exact ⟨_, rfl, kept, same⟩

theorem DramCache.run_eq (state : DramCache × Memory) (wellFormed : state.1.slots.WellFormed)
    (calls : List DramCall) :
    ∃ after, calls.foldlM DramCache.next state = some after ∧ after.1.slots.WellFormed ∧
      after.1.slots.region = state.1.slots.region := by
  have total : ∀ (now : DramCache × Memory) (call : DramCall),
      (now.1.slots.WellFormed ∧ now.1.slots.region = state.1.slots.region) →
        ∃ after, DramCache.next now call = some after ∧ after.1.slots.WellFormed ∧
          after.1.slots.region = state.1.slots.region := by
    rintro now call ⟨sound, same⟩
    obtain ⟨after, stepped, kept, unmoved⟩ := DramCache.next_eq sound call
    exact ⟨after, stepped, kept, unmoved.trans same⟩
  exact exists_foldlM total ⟨wellFormed, rfl⟩ calls

/-! ## HBM cache -/

/-- `allocate`, unless it evaluates `back()` of an empty container. -/
def HbmCache.allocate? (cache : HbmCache) (block : BlockId) :
    Option ((Nat × BlockId) × HbmCache) :=
  match cache.slots.entries.lookup block with
  | some entry => some ((entry.ptr, uint64Max), { slots := cache.slots.touch block entry })
  | none => do
      let (evicted, roomy) ←
        if cache.slots.freeSlots = [] then cache.slots.evictBack? else some (uint64Max, cache.slots)
      let (ptr, slots) ← roomy.place? block
      return ((ptr, evicted), { slots })

/-- A call of an HBM cache. -/
inductive HbmCall where
  | get (block : BlockId)
  | allocate (block : BlockId)

def HbmCache.next (cache : HbmCache) : HbmCall → Option HbmCache
  | .get block => some (cache.get block).2
  | .allocate block => do return (← cache.allocate? block).2

theorem HbmCache.allocate?_eq {cache : HbmCache} (wellFormed : cache.slots.WellFormed)
    (block : BlockId) : cache.allocate? block = some (cache.allocate block) := by
  cases present : cache.slots.entries.lookup block with
  | some entry => simp [allocate?, allocate, SlotCache.allocate, present]
  | none =>
      by_cases full : cache.slots.freeSlots = []
      · have room := SlotCache.place?_eq (wellFormed.freeSlots_evictBack full) block
        obtain ⟨victim, evicted, back⟩ := wellFormed.evictBack?_eq full
        simp only [allocate?, present, if_pos full, evicted, Option.bind_eq_bind, Option.bind_some,
          room]
        simp [allocate, SlotCache.allocate, present, full, back]
      · have room := SlotCache.place?_eq full block
        simp only [allocate?, present, if_neg full, Option.bind_eq_bind, Option.bind_some, room]
        simp [allocate, SlotCache.allocate, present, full]

theorem HbmCache.next_eq {cache : HbmCache} (wellFormed : cache.slots.WellFormed)
    (call : HbmCall) :
    ∃ after, HbmCache.next cache call = some after ∧ after.slots.WellFormed ∧
      after.slots.region = cache.slots.region := by
  cases call with
  | get block =>
      exact ⟨_, rfl, (wellFormed.get block).2.1, cache.slots.region_get block⟩
  | allocate block =>
      rw [HbmCache.next, HbmCache.allocate?_eq wellFormed]
      exact ⟨_, rfl, wellFormed.allocate block, cache.slots.region_allocate block⟩

theorem HbmCache.run_eq (cache : HbmCache) (wellFormed : cache.slots.WellFormed)
    (calls : List HbmCall) :
    ∃ after, calls.foldlM HbmCache.next cache = some after ∧ after.slots.WellFormed ∧
      after.slots.region = cache.slots.region := by
  have total : ∀ (now : HbmCache) (call : HbmCall),
      (now.slots.WellFormed ∧ now.slots.region = cache.slots.region) →
        ∃ after, HbmCache.next now call = some after ∧ after.slots.WellFormed ∧
          after.slots.region = cache.slots.region := by
    rintro now call ⟨sound, same⟩
    obtain ⟨after, stepped, kept, unmoved⟩ := HbmCache.next_eq sound call
    exact ⟨after, stepped, kept, unmoved.trans same⟩
  exact exists_foldlM total ⟨wellFormed, rfl⟩ calls

/-! ## All calls -/

/-- Whatever is called on a DRAM cache or an HBM cache, `back()` is never evaluated on an empty
container; afterwards every slot is either free or used by one block, the recency list holds every
block in the cache once, in the node its entry points to, and blocks lie apart from each other in
the allocation, whose size does not wrap around if the sizes that were asked for do not. -/
theorem slots_conserved (base cacheBytes blockBytes : Nat) (positive : 0 < blockBytes) :
    let capacity := max 1 (cacheBytes / blockBytes)
    capacity * blockBytes ≤ max cacheBytes blockBytes ∧
      (∃ cache, DramCache.new base cacheBytes blockBytes = some cache ∧
        ∀ memory (calls : List DramCall), ∃ after,
          calls.foldlM DramCache.next (cache, memory) = some after ∧
            after.1.slots.Conserved base blockBytes capacity) ∧
      ∀ calls : List HbmCall, ∃ after,
        calls.foldlM HbmCache.next (HbmCache.new base cacheBytes blockBytes) = some after ∧
          after.slots.Conserved base blockBytes capacity := by
  intro capacity
  have start : (SlotCache.new base cacheBytes blockBytes : SlotCache BlockId).WellFormed :=
    SlotCache.wellFormed_new base cacheBytes blockBytes
  refine ⟨?_, ?_, ?_⟩
  · have rounded := Nat.div_mul_le_self cacheBytes blockBytes
    rcases max_choice 1 (cacheBytes / blockBytes) with one | more
    · rw [show capacity = 1 from one]
      omega
    · rw [show capacity = cacheBytes / blockBytes from more]
      omega
  · refine ⟨_, if_neg positive.ne', fun memory calls => ?_⟩
    obtain ⟨after, run, wellFormed, same⟩ := DramCache.run_eq
      (⟨SlotCache.new base cacheBytes blockBytes, {}⟩, memory) start calls
    exact ⟨after, run, wellFormed.conserved same⟩
  · intro calls
    obtain ⟨after, run, wellFormed, same⟩ := HbmCache.run_eq
      (HbmCache.new base cacheBytes blockBytes) start calls
    exact ⟨after, run, wellFormed.conserved same⟩

/-- Two slots, three blocks and an explicit eviction. -/
theorem slots_conserved_three :
    ∃ cache after, DramCache.new 4096 8 4 = some cache ∧
      [DramCall.put 1 [1, 2], .put 2 [3], .allocateSlotForLoad 3, .get 1, .evictIfNeeded].foldlM
        DramCache.next (cache, fun _ => 0) = some after ∧ after.1.slots.Conserved 4096 4 2 := by
  obtain ⟨-, ⟨cache, made, conserved⟩, -⟩ := slots_conserved 4096 8 4 (by decide)
  obtain ⟨after, run, sound⟩ := conserved (fun _ => 0)
    [.put 1 [1, 2], .put 2 [3], .allocateSlotForLoad 3, .get 1, .evictIfNeeded]
  exact ⟨cache, after, made, run, sound⟩

end MemTier.Embedding
