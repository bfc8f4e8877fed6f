import Mathlib.Data.List.AList
import MemTier.Containers.LinkedList
import MemTier.Containers.Recency

/-!
# Slot caches

A slot cache keeps blocks of equal size in the slots of one allocation: a stack of free slots, a
table from keys to slots, and a recency list that decides which key gives up its slot.
-/

namespace Containers

/-- Where a key is kept, and its position in the recency list. -/
structure SlotEntry where
  ptr : Nat
  slot : Nat
  lruIt : Nat
  deriving DecidableEq, Repr

/-- A slot cache over keys `κ`. -/
structure SlotCache (κ : Type) [DecidableEq κ] where
  base : Nat
  blockBytes : Nat
  capacity : Nat
  /-- Free slots, the next one to be handed out first. -/
  freeSlots : List Nat
  lru : Linked κ
  entries : AList fun _ : κ => SlotEntry

namespace SlotCache

variable {κ : Type} [DecidableEq κ]

/-- An empty cache; there is room for one block at least. -/
def new (base cacheBytes blockBytes : Nat) : SlotCache κ where
  base := base
  blockBytes := blockBytes
  capacity := max 1 (cacheBytes / blockBytes)
  freeSlots := List.range (max 1 (cacheBytes / blockBytes))
  lru := Linked.empty
  entries := ∅

/-- Move the list node of an entry to the front. -/
def touch (cache : SlotCache κ) (key : κ) (entry : SlotEntry) : SlotCache κ :=
  let lru := (cache.lru.erase entry.lruIt).pushFront key
  { cache with lru, entries := cache.entries.insert key { entry with lruIt := lru.begin } }

/-- Find a key and make it the most recent one. -/
def get (cache : SlotCache κ) (key : κ) : Option Nat × SlotCache κ :=
  match cache.entries.lookup key with
  | none => (none, cache)
  | some entry => (some entry.ptr, cache.touch key entry)

/-- Take the slot of the least recent key back. -/
def evictBack (cache : SlotCache κ) : SlotCache κ :=
  match cache.lru.back? with
  | none => cache
  | some victim =>
      let popped := { cache with lru := cache.lru.popBack }
      match popped.entries.lookup victim with
      | none => popped
      | some entry =>
          { popped with
            freeSlots := entry.slot :: popped.freeSlots
            entries := popped.entries.erase victim }

/-- Give the next free slot to a key. -/
def place (cache : SlotCache κ) (key : κ) : Nat × SlotCache κ :=
  let slot := cache.freeSlots.headD 0
  let ptr := cache.base + slot * cache.blockBytes
  let lru := cache.lru.pushFront key
  (ptr, { cache with
    freeSlots := cache.freeSlots.tail
    lru
    entries := cache.entries.insert key { ptr, slot, lruIt := lru.begin } })

/-- Find or make room for a key.  Returns its address and the key that was evicted for it. -/
def allocate (cache : SlotCache κ) (key : κ) : (Nat × Option κ) × SlotCache κ :=
  match cache.entries.lookup key with
  | some entry => ((entry.ptr, none), cache.touch key entry)
  | none =>
      let evicted := if cache.freeSlots = [] then cache.lru.back? else none
      let roomy := if cache.freeSlots = [] then cache.evictBack else cache
      let (ptr, placed) := roomy.place key
      ((ptr, evicted), placed)

/-- The allocation a cache works on, which no operation changes. -/
def region (cache : SlotCache κ) : Nat × Nat × Nat :=
  (cache.base, cache.blockBytes, cache.capacity)

theorem region_get (cache : SlotCache κ) (key : κ) : (cache.get key).2.region = cache.region := by
  rw [get]
  split <;> rfl

theorem region_evictBack (cache : SlotCache κ) : cache.evictBack.region = cache.region := by
  rw [evictBack]
  split
  · rfl
  · dsimp only
    split <;> rfl

theorem region_allocate (cache : SlotCache κ) (key : κ) :
    (cache.allocate key).2.region = cache.region := by
  rw [allocate]
  split
  · rfl
  · change (SlotCache.place _ key).2.region = cache.region
    split
    · exact cache.region_evictBack
    · rfl

theorem freeSlots_get (cache : SlotCache κ) (key : κ) :
    (cache.get key).2.freeSlots = cache.freeSlots := by
  rw [get]
  split <;> rfl

/-- A new key takes a free slot if there is one. -/
theorem length_freeSlots_allocate {cache : SlotCache κ} {key : κ}
    (absent : cache.entries.lookup key = none) :
    (cache.allocate key).2.freeSlots.length = cache.freeSlots.length - 1 := by
  simp only [allocate, absent, place, List.length_tail]
  split
  · rename_i full
    rw [full, evictBack]
    split
    · rw [full]
    · dsimp only
      split
      · rw [full]
      · rw [full]
        rfl
  · rfl

/-- Keys in the order of the recency list. -/
def recency (cache : SlotCache κ) : List κ := cache.lru.values

/-- Where a key is kept. -/
def address (cache : SlotCache κ) (key : κ) : Option Nat :=
  (cache.entries.lookup key).map SlotEntry.ptr

/-- Slots in use, in the order of the table. -/
def usedSlots (cache : SlotCache κ) : List Nat :=
  cache.entries.entries.map fun resident => resident.2.slot

/-- Free list, table and recency list agree, and addresses are those of the slots. -/
structure WellFormed (cache : SlotCache κ) : Prop where
  nonempty : 0 < cache.capacity
  slots : (cache.freeSlots ++ cache.usedSlots).Perm (List.range cache.capacity)
  distinct : cache.recency.Nodup
  keys : ∀ key, key ∈ cache.recency ↔ key ∈ cache.entries
  live : ∀ key entry, cache.entries.lookup key = some entry →
    cache.lru.Denotes entry.lruIt key
  placed : ∀ key entry, cache.entries.lookup key = some entry →
    entry.ptr = cache.base + entry.slot * cache.blockBytes

theorem wellFormed_new (base cacheBytes blockBytes : Nat) :
    (new base cacheBytes blockBytes : SlotCache κ).WellFormed where
  nonempty := by simp [new]
  slots := by simp [new, usedSlots]
  distinct := by simp [new, recency]
  keys := by simp [new, recency]
  live := by simp [new]
  placed := by simp [new]

/-- An entry of an association list, taken out. -/
theorem entries_perm {table : AList fun _ : κ => SlotEntry} {key : κ} {entry : SlotEntry}
    (present : table.lookup key = some entry) :
    table.entries.Perm (⟨key, entry⟩ :: (table.erase key).entries) := by
  have member : key ∈ table.entries.keys := by
    rw [← AList.keys, ← AList.mem_keys, ← AList.lookup_isSome, present]
    rfl
  obtain ⟨found, front, back, fresh, split, erased⟩ := List.exists_of_kerase member
  have same : found = entry := by
    have here : (⟨key, found⟩ : Sigma fun _ : κ => SlotEntry) ∈ table.entries := by
      rw [split]
      simp
    exact Option.some.inj ((AList.mem_lookup_iff.mpr here).symm.trans present)
  change table.entries.Perm (⟨key, entry⟩ :: List.kerase key table.entries)
  rw [erased, split, same]
  exact List.perm_middle

section

variable {cache : SlotCache κ} {key : κ}

theorem address_eq_some {ptr : Nat} :
    cache.address key = some ptr ↔
      ∃ entry, cache.entries.lookup key = some entry ∧ entry.ptr = ptr :=
  Option.map_eq_some_iff

theorem address_eq_none : cache.address key = none ↔ key ∉ cache.entries := by
  rw [address, Option.map_eq_none_iff, AList.lookup_eq_none]

theorem get_ptr (cache : SlotCache κ) (key : κ) : (cache.get key).1 = cache.address key := by
  rw [get, address]
  split
  · rename_i missing
    rw [missing]
    rfl
  · rename_i present
    rw [present]
    rfl

theorem usedSlots_erase {entry : SlotEntry} (present : cache.entries.lookup key = some entry) :
    cache.usedSlots.Perm
      (entry.slot :: (cache.entries.erase key).entries.map fun resident => resident.2.slot) :=
  (entries_perm present).map _

theorem usedSlots_insert (entries : AList fun _ : κ => SlotEntry) (entry : SlotEntry) :
    ((entries.insert key entry).entries.map fun resident => resident.2.slot) =
      entry.slot :: (entries.erase key).entries.map fun resident => resident.2.slot := by
  rw [AList.entries_insert, List.map_cons]
  rfl

/-- Refreshing a key changes nothing but the order. -/
theorem WellFormed.touch (wellFormed : cache.WellFormed) {entry : SlotEntry}
    (present : cache.entries.lookup key = some entry) :
    (cache.touch key entry).WellFormed ∧
      (cache.touch key entry).recency = key :: cache.recency.erase key ∧
      (cache.touch key entry).address = cache.address := by
  have order : (cache.touch key entry).recency = key :: cache.recency.erase key := by
    rw [recency, SlotCache.touch]
    dsimp only
    rw [Linked.values_pushFront, Linked.values_erase wellFormed.distinct
      (wellFormed.live _ _ present)]
    rfl
  have resident : key ∈ cache.entries := AList.lookup_isSome.mp (by rw [present]; rfl)
  have member : key ∈ cache.recency := (wellFormed.keys key).mpr resident
  have found : ∀ other seen, (cache.touch key entry).entries.lookup other = some seen →
      ∃ earlier, cache.entries.lookup other = some earlier ∧ earlier.ptr = seen.ptr ∧
        earlier.slot = seen.slot := by
    intro other seen lookup
    by_cases same : other = key
    · subst same
      simp only [SlotCache.touch, AList.lookup_insert, Option.some.injEq] at lookup
      subst lookup
      exact ⟨entry, present, rfl, rfl⟩
    · simp only [SlotCache.touch, AList.lookup_insert_ne same] at lookup
      exact ⟨seen, lookup, rfl, rfl⟩
  refine ⟨⟨wellFormed.nonempty, ?_, ?_, ?_, ?_, ?_⟩, order, ?_⟩
  · refine List.Perm.trans (List.Perm.append_left _ ?_) wellFormed.slots
    rw [usedSlots, SlotCache.touch]
    dsimp only
    rw [usedSlots_insert]
    exact (usedSlots_erase present).symm
  · rw [order]
    exact (List.perm_cons_erase member).nodup_iff.mp wellFormed.distinct
  · intro other
    rw [order, ← (List.perm_cons_erase member).mem_iff, wellFormed.keys, SlotCache.touch,
      AList.mem_insert]
    constructor
    · exact .inr
    · rintro (rfl | elsewhere)
      · exact resident
      · exact elsewhere
  · intro other seen lookup
    by_cases same : other = key
    · subst same
      simp only [SlotCache.touch, AList.lookup_insert, Option.some.injEq] at lookup
      subst lookup
      exact Linked.denotes_pushFront_begin _ _
    · simp only [SlotCache.touch, AList.lookup_insert_ne same] at lookup
      have denotes := wellFormed.live other seen lookup
      refine (denotes.erase fun address => same ?_).pushFront key
      rw [address] at denotes
      exact denotes.value_unique (wellFormed.live _ _ present)
  · intro other seen lookup
    obtain ⟨earlier, lookup', ptr, slot⟩ := found other seen lookup
    rw [← ptr, ← slot]
    exact wellFormed.placed other earlier lookup'
  · funext other
    by_cases same : other = key
    · subst same
      simp only [address, SlotCache.touch, AList.lookup_insert, present, Option.map_some]
    · simp only [address, SlotCache.touch, AList.lookup_insert_ne same]

/-- A hit refreshes its key; nothing moves. -/
theorem WellFormed.get (wellFormed : cache.WellFormed) (key : κ) :
    (cache.get key).1 = cache.address key ∧ (cache.get key).2.WellFormed ∧
      (cache.get key).2.recency = Recency.use key cache.recency ∧
      (cache.get key).2.address = cache.address := by
  cases present : cache.entries.lookup key with
  | none =>
      have absent : key ∉ cache.recency := by
        rw [wellFormed.keys]
        exact AList.lookup_eq_none.mp present
      have missed : cache.get key = (none, cache) := by rw [SlotCache.get, present]
      rw [missed, Recency.use, if_neg absent, address, present]
      exact ⟨rfl, wellFormed, rfl, rfl⟩
  | some entry =>
      have listed : key ∈ cache.recency := by
        rw [wellFormed.keys]
        exact AList.lookup_isSome.mp (by rw [present]; rfl)
      obtain ⟨kept, order, addresses⟩ := wellFormed.touch present
      have hit : cache.get key = (some entry.ptr, cache.touch key entry) := by
        rw [SlotCache.get, present]
      rw [hit, Recency.use, if_pos listed]
      exact ⟨by rw [address, present]; rfl, kept, order, addresses⟩

/-- Every slot is free or used. -/
theorem WellFormed.length_eq (wellFormed : cache.WellFormed) :
    cache.freeSlots.length + cache.recency.length = cache.capacity := by
  have count := wellFormed.slots.length_eq
  have same : cache.recency.length = cache.entries.keys.length := by
    refine (List.perm_of_nodup_nodup_toFinset_eq wellFormed.distinct
      cache.entries.keys_nodup ?_).length_eq
    ext key
    rw [List.mem_toFinset, List.mem_toFinset, wellFormed.keys, AList.mem_keys]
  rw [List.length_append, List.length_range, usedSlots, List.length_map] at count
  rw [same, AList.keys, List.keys, List.length_map]
  exact count

/-- Different keys are kept in disjoint regions. -/
theorem WellFormed.disjoint (wellFormed : cache.WellFormed) {other : κ} {ptr ptr' : Nat}
    (here : cache.address key = some ptr) (there : cache.address other = some ptr')
    (different : key ≠ other) :
    ptr + cache.blockBytes ≤ ptr' ∨ ptr' + cache.blockBytes ≤ ptr := by
  obtain ⟨entry, present, rfl⟩ := address_eq_some.mp here
  obtain ⟨entry', present', rfl⟩ := address_eq_some.mp there
  have separate : entry.slot ≠ entry'.slot := by
    have used := (wellFormed.slots.nodup_iff.mpr List.nodup_range).of_append_right
    rw [((usedSlots_erase present)).nodup_iff, List.nodup_cons] at used
    intro same
    refine used.1 (List.mem_map.mpr ⟨⟨other, entry'⟩, ?_, same.symm⟩)
    rw [← AList.mem_lookup_iff, AList.lookup_erase_ne (Ne.symm different)]
    exact present'
  rw [wellFormed.placed _ _ present, wellFormed.placed _ _ present']
  rcases Nat.lt_or_gt_of_ne separate with less | greater
  · left
    have := Nat.mul_le_mul_right cache.blockBytes less
    rw [Nat.succ_mul] at this
    omega
  · right
    have := Nat.mul_le_mul_right cache.blockBytes greater
    rw [Nat.succ_mul] at this
    omega

/-- A full cache evicts its least recent key and gets its slot back. -/
theorem WellFormed.evictBack (wellFormed : cache.WellFormed) (full : cache.freeSlots = []) :
    ∃ victim entry, cache.recency.getLast? = some victim ∧
      cache.entries.lookup victim = some entry ∧
      cache.evictBack = { cache with
        lru := cache.lru.popBack
        freeSlots := [entry.slot]
        entries := cache.entries.erase victim } ∧
      cache.evictBack.WellFormed ∧ cache.evictBack.recency = cache.recency.dropLast := by
  have length := wellFormed.length_eq
  have positive := wellFormed.nonempty
  rw [full, List.length_nil, Nat.zero_add] at length
  obtain ⟨victim, last⟩ : ∃ victim, cache.recency.getLast? = some victim := by
    cases last : cache.recency.getLast? with
    | none =>
        rw [List.getLast?_eq_none_iff] at last
        simp [last] at length
        omega
    | some victim => exact ⟨victim, rfl⟩
  have resident := (wellFormed.keys victim).mp (List.mem_of_getLast? last)
  obtain ⟨entry, present⟩ := Option.isSome_iff_exists.mp (AList.lookup_isSome.mpr resident)
  have evicted : cache.evictBack = { cache with
      lru := cache.lru.popBack
      freeSlots := [entry.slot]
      entries := cache.entries.erase victim } := by
    have back : cache.lru.back? = some victim := last
    simp only [SlotCache.evictBack, back, present, full]
  have order : cache.evictBack.recency = cache.recency.dropLast := by
    rw [evicted]
    exact Linked.values_popBack _
  refine ⟨victim, entry, last, present, evicted, ?_, order⟩
  have found : ∀ key entry, cache.evictBack.entries.lookup key = some entry →
      key ≠ victim ∧ cache.entries.lookup key = some entry := by
    intro key entry lookup
    rw [evicted] at lookup
    have other : key ≠ victim := by
      rintro rfl
      simp at lookup
    rw [AList.lookup_erase_ne other] at lookup
    exact ⟨other, lookup⟩
  refine ⟨?_, ?_, ?_, ?_, ?_, ?_⟩
  · rw [evicted]
    exact positive
  · rw [evicted]
    have slots := wellFormed.slots
    rw [full, List.nil_append] at slots
    exact (usedSlots_erase present).symm.trans slots
  · rw [order]
    exact wellFormed.distinct.sublist (List.dropLast_sublist _)
  · intro key
    rw [order, Recency.mem_dropLast wellFormed.distinct last, wellFormed.keys, evicted,
      AList.mem_erase]
  · intro key seen lookup
    obtain ⟨other, lookup⟩ := found key seen lookup
    rw [evicted]
    exact (wellFormed.live key seen lookup).popBack last other
  · intro key seen lookup
    obtain ⟨other, lookup⟩ := found key seen lookup
    rw [evicted]
    exact wellFormed.placed key seen lookup

/-- A free slot goes to a new key. -/
theorem WellFormed.place (wellFormed : cache.WellFormed) {slot : Nat} {rest : List Nat}
    (free : cache.freeSlots = slot :: rest) (absent : key ∉ cache.entries) :
    (cache.place key).1 = cache.base + slot * cache.blockBytes ∧
      (cache.place key).2.WellFormed ∧ (cache.place key).2.recency = key :: cache.recency ∧
      (∀ other, (cache.place key).2.address other =
        if other = key then some (cache.place key).1 else cache.address other) := by
  have found : ∀ other seen, (cache.place key).2.entries.lookup other = some seen →
      other ≠ key → cache.entries.lookup other = some seen := by
    intro other seen lookup different
    simpa only [SlotCache.place, AList.lookup_insert_ne different] using lookup
  refine ⟨by simp [SlotCache.place, free], ⟨wellFormed.nonempty, ?_, ?_, ?_, ?_, ?_⟩, rfl, ?_⟩
  · have slots := wellFormed.slots
    rw [free] at slots
    refine List.Perm.trans ?_ slots
    rw [usedSlots, SlotCache.place]
    dsimp only
    have unchanged : cache.entries.erase key = cache.entries :=
      AList.ext (List.kerase_of_notMem_keys absent)
    rw [usedSlots_insert, free, unchanged]
    exact List.perm_middle
  · exact List.nodup_cons.mpr ⟨fun listed => absent ((wellFormed.keys key).mp listed),
      wellFormed.distinct⟩
  · intro other
    change other ∈ key :: cache.recency ↔ other ∈ cache.entries.insert key _
    rw [List.mem_cons, AList.mem_insert, wellFormed.keys]
  · intro other seen lookup
    by_cases same : other = key
    · subst same
      simp only [SlotCache.place, AList.lookup_insert, Option.some.injEq] at lookup
      subst lookup
      exact Linked.denotes_pushFront_begin _ _
    · exact (wellFormed.live other seen (found other seen lookup same)).pushFront key
  · intro other seen lookup
    by_cases same : other = key
    · subst same
      simp only [SlotCache.place, AList.lookup_insert, Option.some.injEq] at lookup
      subst lookup
      rfl
    · exact wellFormed.placed other seen (found other seen lookup same)
  · intro other
    split
    · rename_i same
      subst same
      simp only [address, SlotCache.place, AList.lookup_insert, Option.map_some]
    · rename_i different
      simp only [address, SlotCache.place, AList.lookup_insert_ne different]

/-- Allocating for a resident key refreshes it; nothing moves. -/
theorem WellFormed.allocate_resident (wellFormed : cache.WellFormed) {ptr : Nat}
    (resident : cache.address key = some ptr) :
    (cache.allocate key).1 = (ptr, none) ∧ (cache.allocate key).2.WellFormed ∧
      (cache.allocate key).2.recency = key :: cache.recency.erase key ∧
      (cache.allocate key).2.address = cache.address := by
  obtain ⟨entry, present, rfl⟩ := address_eq_some.mp resident
  have found : cache.allocate key = ((entry.ptr, none), cache.touch key entry) := by
    rw [SlotCache.allocate, present]
  rw [found]
  exact ⟨rfl, wellFormed.touch present⟩

/-- Allocating for a new key: it comes to the front, and in a full cache the least recent key
gives up its place. -/
theorem WellFormed.allocate_absent (wellFormed : cache.WellFormed)
    (absent : cache.address key = none) :
    (cache.allocate key).2.WellFormed ∧
      (cache.allocate key).2.recency = Recency.enter cache.capacity key cache.recency ∧
      (cache.allocate key).1.2 = Recency.victim cache.capacity cache.recency ∧
      (∀ victim, (cache.allocate key).1.2 = some victim →
        cache.address victim = some (cache.allocate key).1.1) ∧
      ∀ other, (cache.allocate key).2.address other =
        if other = key then some (cache.allocate key).1.1
        else if (cache.allocate key).1.2 = some other then none else cache.address other := by
  have length := wellFormed.length_eq
  have positive := wellFormed.nonempty
  have missing : cache.entries.lookup key = none := Option.map_eq_none_iff.mp absent
  have unlisted : key ∉ cache.entries := AList.lookup_eq_none.mp missing
  cases free : cache.freeSlots with
  | cons slot rest =>
      rw [free, List.length_cons] at length
      have allocated : cache.allocate key = (((cache.place key).1, none), (cache.place key).2) := by
        simp [SlotCache.allocate, missing, free]
      obtain ⟨-, kept, order, addresses⟩ := wellFormed.place free unlisted
      rw [allocated]
      refine ⟨kept, ?_, ?_, nofun, ?_⟩
      · rw [order, Recency.enter, if_neg (by omega), if_pos (by omega)]
      · rw [Recency.victim, if_pos (by omega)]
      · intro other
        simpa using addresses other
  | nil =>
      rw [free, List.length_nil, Nat.zero_add] at length
      obtain ⟨victim, entry, last, present, evicted, room, order⟩ := wellFormed.evictBack free
      have allocated : cache.allocate key =
          (((cache.evictBack.place key).1, some victim), (cache.evictBack.place key).2) := by
        have back : cache.lru.back? = some victim := last
        simp [SlotCache.allocate, missing, free, back]
      have freed : cache.evictBack.freeSlots = [entry.slot] := by rw [evicted]
      have unlisted' : key ∉ cache.evictBack.entries := by
        rw [evicted, AList.mem_erase]
        exact fun member => unlisted member.2
      obtain ⟨ptr, kept, order', addresses⟩ := room.place freed unlisted'
      have same_place : (cache.evictBack.place key).1 = entry.ptr := by
        rw [ptr, wellFormed.placed _ _ present, evicted]
      rw [allocated]
      refine ⟨kept, ?_, ?_, ?_, ?_⟩
      · rw [order', order, Recency.enter, if_neg (by omega), if_neg (by omega)]
      · rw [Recency.victim, if_neg (by omega), last]
      · rintro _ ⟨⟩
        rw [address, present, same_place]
        rfl
      · intro other
        rw [addresses other]
        congr 1
        rw [address, evicted]
        by_cases same : victim = other
        · subst same
          simp
        · have different : ¬ some victim = some other := fun equal => same (Option.some.inj equal)
          rw [if_neg different, AList.lookup_erase_ne (Ne.symm same), address]

theorem WellFormed.allocate (wellFormed : cache.WellFormed) (key : κ) :
    (cache.allocate key).2.WellFormed := by
  cases held : cache.address key with
  | none => exact (wellFormed.allocate_absent held).1
  | some ptr => exact (wellFormed.allocate_resident held).2.1

/-- The key is afterwards where the allocation says. -/
theorem WellFormed.address_allocate (wellFormed : cache.WellFormed) (key : κ) :
    (cache.allocate key).2.address key = some (cache.allocate key).1.1 := by
  cases held : cache.address key with
  | none =>
      obtain ⟨-, -, -, -, addresses⟩ := wellFormed.allocate_absent held
      rw [addresses key, if_pos rfl]
  | some ptr =>
      obtain ⟨allocated, -, -, addresses⟩ := wellFormed.allocate_resident held
      rw [addresses, allocated, held]

/-- No other key moves; the evicted one is gone. -/
theorem WellFormed.address_allocate_ne (wellFormed : cache.WellFormed) {other : κ}
    (different : other ≠ key) :
    (cache.allocate key).2.address other =
      if (cache.allocate key).1.2 = some other then none else cache.address other := by
  cases held : cache.address key with
  | none =>
      obtain ⟨-, -, -, -, addresses⟩ := wellFormed.allocate_absent held
      rw [addresses other, if_neg different]
  | some ptr =>
      obtain ⟨allocated, -, -, addresses⟩ := wellFormed.allocate_resident held
      rw [addresses, allocated]
      rfl

/-- A key that is still there has been there. -/
theorem WellFormed.address_of_allocate (wellFormed : cache.WellFormed) {other : κ} {ptr : Nat}
    (different : other ≠ key) (held : (cache.allocate key).2.address other = some ptr) :
    cache.address other = some ptr := by
  rw [wellFormed.address_allocate_ne different] at held
  split at held
  · simp at held
  · exact held

end

end SlotCache
end Containers
