import MemTier.Containers.SlotCache

/-!
# Slot caches without undefined behaviour

`back()` of an empty container is undefined.  Here the operations of a slot cache have a result only
if they do not get there.  In a well-formed cache they always have one, which leaves the cache
well formed.
-/

namespace Containers

/-- Steps that keep an invariant, and have a result as long as it holds, can be repeated. -/
theorem exists_foldlM {σ Call : Type} {step : σ → Call → Option σ} {invariant : σ → Prop}
    (total : ∀ state call, invariant state → ∃ after, step state call = some after ∧ invariant after)
    {state : σ} (start : invariant state) (calls : List Call) :
    ∃ after, calls.foldlM step state = some after ∧ invariant after := by
  induction calls generalizing state with
  | nil => exact ⟨state, rfl, start⟩
  | cons call calls induction =>
      obtain ⟨next, stepped, kept⟩ := total state call start
      obtain ⟨after, run, holds⟩ := induction kept
      refine ⟨after, ?_, holds⟩
      rw [List.foldlM_cons, stepped]
      exact run

namespace SlotCache

variable {κ : Type} [DecidableEq κ]

/-- Take the slot of the least recent key back.  Evaluates `lru.back()`. -/
def evictBack? (cache : SlotCache κ) : Option (κ × SlotCache κ) := do
  let victim ← cache.lru.back?
  return (victim, cache.evictBack)

/-- Give the next free slot to a key.  Evaluates `free_slots.back()`. -/
def place? (cache : SlotCache κ) (key : κ) : Option (Nat × SlotCache κ) :=
  if cache.freeSlots = [] then none else some (cache.place key)

/-- What the free list, the recency list and the table of a cache say about its allocation. -/
structure Conserved (cache : SlotCache κ) (base blockBytes capacity : Nat) : Prop where
  /-- Every slot is free or used, and not both. -/
  slots : (cache.freeSlots ++ cache.usedSlots).Perm (List.range capacity)
  once : cache.recency.Nodup
  keys : ∀ key, key ∈ cache.recency ↔ key ∈ cache.entries
  node : ∀ key entry, cache.entries.lookup key = some entry → cache.lru.Denotes entry.lruIt key
  placed : ∀ key entry, cache.entries.lookup key = some entry →
    entry.ptr = base + entry.slot * blockBytes
  inside : ∀ key entry, cache.entries.lookup key = some entry →
    base ≤ entry.ptr ∧ entry.ptr + blockBytes ≤ base + capacity * blockBytes
  apart : ∀ key entry other entry', cache.entries.lookup key = some entry →
    cache.entries.lookup other = some entry' → key ≠ other →
      entry.ptr + blockBytes ≤ entry'.ptr ∨ entry'.ptr + blockBytes ≤ entry.ptr

section

variable {cache : SlotCache κ} {key : κ}

/-- The slot of an entry is one of the cache. -/
theorem WellFormed.slot_lt (wellFormed : cache.WellFormed) {entry : SlotEntry}
    (present : cache.entries.lookup key = some entry) : entry.slot < cache.capacity := by
  have used : entry.slot ∈ cache.usedSlots :=
    (usedSlots_erase present).mem_iff.mpr List.mem_cons_self
  exact List.mem_range.mp (wellFormed.slots.mem_iff.mp (List.mem_append_right _ used))

/-- A used slot lies in the allocation. -/
theorem WellFormed.inside (wellFormed : cache.WellFormed) {entry : SlotEntry}
    (present : cache.entries.lookup key = some entry) :
    cache.base ≤ entry.ptr ∧
      entry.ptr + cache.blockBytes ≤ cache.base + cache.capacity * cache.blockBytes := by
  have room := Nat.mul_le_mul_right cache.blockBytes
    (Nat.succ_le_of_lt (wellFormed.slot_lt present))
  rw [Nat.succ_mul] at room
  rw [wellFormed.placed key entry present]
  omega

theorem WellFormed.conserved (wellFormed : cache.WellFormed) {base blockBytes capacity : Nat}
    (same : cache.region = (base, blockBytes, capacity)) :
    cache.Conserved base blockBytes capacity := by
  simp only [region, Prod.mk.injEq] at same
  obtain ⟨rfl, rfl, rfl⟩ := same
  exact
    { slots := wellFormed.slots
      once := wellFormed.distinct
      keys := wellFormed.keys
      node := wellFormed.live
      placed := wellFormed.placed
      inside := fun key entry present => wellFormed.inside present
      apart := fun key entry other entry' present present' =>
        wellFormed.disjoint (address_eq_some.mpr ⟨entry, present, rfl⟩)
          (address_eq_some.mpr ⟨entry', present', rfl⟩) }

/-- A full cache has a least recent key. -/
theorem WellFormed.evictBack?_eq (wellFormed : cache.WellFormed) (full : cache.freeSlots = []) :
    ∃ victim, cache.evictBack? = some (victim, cache.evictBack) ∧
      cache.lru.back? = some victim := by
  obtain ⟨victim, entry, last, -⟩ := wellFormed.evictBack full
  have back : cache.lru.back? = some victim := last
  refine ⟨victim, ?_, back⟩
  rw [evictBack?, back]
  rfl

/-- Eviction frees a slot. -/
theorem WellFormed.freeSlots_evictBack (wellFormed : cache.WellFormed)
    (full : cache.freeSlots = []) : cache.evictBack.freeSlots ≠ [] := by
  obtain ⟨victim, entry, -, -, evicted, -⟩ := wellFormed.evictBack full
  rw [evicted]
  exact List.cons_ne_nil _ _

theorem place?_eq (free : cache.freeSlots ≠ []) (key : κ) :
    cache.place? key = some (cache.place key) :=
  if_neg free

end

end SlotCache
end Containers
