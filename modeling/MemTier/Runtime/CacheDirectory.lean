import Mathlib.Data.List.AList
import MemTier.Containers.Bytes
import MemTier.Containers.LinkedList

/-!
# The DRAM cache directory

`CacheDirectory` keeps chunks of files in three redundant structures: a recency list of keys, a
table of entries that point back into the list, and a byte counter.  Its mutex makes every method
one atomic operation.  `size_t` arithmetic wraps at `2 ^ 64`.
-/

namespace MemTier

open Containers

/-- `size_t` addition. -/
def sizeAdd (left right : Nat) : Nat := (left + right) % 2 ^ 64

/-- `size_t` subtraction. -/
def sizeSub (left right : Nat) : Nat := (left + (2 ^ 64 - right % 2 ^ 64)) % 2 ^ 64

theorem sizeAdd_eq {left right : Nat} (fits : left + right < 2 ^ 64) :
    sizeAdd left right = left + right :=
  Nat.mod_eq_of_lt fits

theorem sizeSub_eq {left right : Nat} (fits : left < 2 ^ 64) (le : right ≤ left) :
    sizeSub left right = left - right := by
  have small : right % 2 ^ 64 = right := Nat.mod_eq_of_lt (by omega)
  rw [sizeSub, small]
  omega

/-- A cached chunk is named by its file and its index in the file. -/
structure CacheKey where
  fileId : UInt64
  chunkId : Nat
  deriving DecidableEq, Repr

/-- What the directory keeps about one chunk. -/
structure CacheEntry where
  /-- A whole chunk of bytes, of which `validSize` come from the file. -/
  data : Bytes
  validSize : Nat
  lastAccess : Nat
  accessCount : Nat
  pinned : Bool
  deriving DecidableEq, Inhabited, Repr

/-- A table entry and its position in the recency list. -/
structure Node where
  entry : CacheEntry
  lruIt : Nat
  deriving DecidableEq, Repr

/-- The cache directory. -/
structure CacheDirectory where
  chunkSize : Nat
  cacheSizeBytes : Nat
  usedBytes : Nat
  ticks : Nat
  evictions : Nat
  /-- Keys, most recently used first. -/
  lru : Linked CacheKey
  table : AList fun _ : CacheKey => Node

namespace CacheDirectory

/-- The constructor: nothing is resident. -/
def new (chunkSize cacheSizeBytes : Nat) : CacheDirectory where
  chunkSize := chunkSize
  cacheSizeBytes := cacheSizeBytes
  usedBytes := 0
  ticks := 0
  evictions := 0
  lru := Linked.empty
  table := ∅

/-- Move the list node of an entry to the front. -/
def touch (directory : CacheDirectory) (node : Node) (key : CacheKey) : CacheDirectory :=
  let lru := (directory.lru.erase node.lruIt).pushFront key
  let entry :=
    { node.entry with
      lastAccess := directory.ticks + 1
      accessCount := node.entry.accessCount + 1 }
  { directory with
    lru
    ticks := directory.ticks + 1
    table := directory.table.insert key { entry, lruIt := lru.begin } }

/-- Find a key, make it the most recent one and return a copy of its entry. -/
def lookup (directory : CacheDirectory) (key : CacheKey) :
    Option CacheEntry × CacheDirectory :=
  match directory.table.lookup key with
  | none => (none, directory)
  | some node =>
      let touched := directory.touch node key
      ((touched.table.lookup key).map Node.entry, touched)

/-- The body of the eviction loop: drop the last list node, and the entry of its key if any. -/
def evictBack (directory : CacheDirectory) : CacheDirectory :=
  match directory.lru.back? with
  | none => directory
  | some victim =>
      let popped := { directory with lru := directory.lru.popBack }
      match popped.table.lookup victim with
      | none => popped
      | some node =>
          { popped with
            usedBytes := sizeSub popped.usedBytes node.entry.data.length
            table := popped.table.erase victim
            evictions := popped.evictions + 1 }

/-- Another chunk does not fit, and there is something to drop. -/
abbrev MustEvict (directory : CacheDirectory) : Prop :=
  directory.cacheSizeBytes < sizeAdd directory.usedBytes directory.chunkSize ∧
    directory.lru.nodes ≠ []

theorem evictBack_lru (directory : CacheDirectory) :
    directory.evictBack.lru.nodes = directory.lru.nodes.dropLast := by
  rw [evictBack]
  cases last : directory.lru.back? with
  | none =>
      have empty : directory.lru.nodes = [] := by
        simpa [Linked.back?, Linked.values] using last
      simp [empty]
  | some victim =>
      dsimp only
      split <;> rfl

/-- The eviction loop. -/
def makeRoom (directory : CacheDirectory) : CacheDirectory :=
  if _evict : directory.MustEvict then makeRoom directory.evictBack else directory
termination_by directory.lru.nodes.length
decreasing_by
  have nonempty := List.length_pos_of_ne_nil _evict.2
  rw [evictBack_lru, List.length_dropLast]
  omega

/-- Link a new node in front and let the table entry of its key point to it. -/
def store (directory : CacheDirectory) (key : CacheKey) (data : Nat → UInt8)
    (validSize : Nat) : CacheDirectory :=
  let entry : CacheEntry :=
    { data := (List.range directory.chunkSize).map data
      validSize
      lastAccess := directory.ticks + 1
      accessCount := 1
      pinned := false }
  let lru := directory.lru.pushFront key
  { directory with
    ticks := directory.ticks + 1
    lru
    usedBytes := sizeAdd directory.usedBytes entry.data.length
    table := directory.table.insert key { entry, lruIt := lru.begin } }

/-- The argument checks of `insert`. -/
abbrev Admits (directory : CacheDirectory) (validSize : Nat) : Prop :=
  validSize ≠ 0 ∧ validSize ≤ directory.chunkSize ∧
    directory.chunkSize ≤ directory.cacheSizeBytes ∧ directory.cacheSizeBytes ≠ 0

/-- Insert a chunk.  `data` is the memory behind the argument pointer, `none` when it is null. -/
def insert (directory : CacheDirectory) (key : CacheKey) (data : Option (Nat → UInt8))
    (validSize : Nat) : Bool × CacheDirectory :=
  match data with
  | none => (false, directory)
  | some data =>
      if directory.Admits validSize then (true, directory.makeRoom.store key data validSize)
      else (false, directory)

/-- Whether a key is resident; the recency order is left alone. -/
def contains (directory : CacheDirectory) (key : CacheKey) : Bool :=
  (directory.table.lookup key).isSome

/-- A call on the directory. -/
inductive Call where
  | lookup (key : CacheKey)
  | insert (key : CacheKey) (data : Option (Nat → UInt8)) (validSize : Nat)
  | contains (key : CacheKey)

/-- The directory after a call. -/
def apply (directory : CacheDirectory) : Call → CacheDirectory
  | .lookup key => (directory.lookup key).2
  | .insert key data validSize => (directory.insert key data validSize).2
  | .contains _ => directory

/-- The directory after a sequence of calls. -/
def run (directory : CacheDirectory) (calls : List Call) : CacheDirectory :=
  calls.foldl apply directory

/-- Keys in the order of the recency list. -/
def recency (directory : CacheDirectory) : List CacheKey :=
  directory.lru.values

/-- Bytes the resident entries hold. -/
def residentBytes (directory : CacheDirectory) : Nat :=
  (directory.table.entries.map fun resident => resident.2.entry.data.length).sum

/-- Number of resident keys. -/
def residentCount (directory : CacheDirectory) : Nat :=
  directory.table.keys.length

/-- Number of chunks for which the cache size is meant. -/
def capacity (directory : CacheDirectory) : Nat :=
  directory.cacheSizeBytes / directory.chunkSize

/-! ## What a call changes -/

@[simp] theorem touch_chunkSize (directory : CacheDirectory) (node : Node) (key : CacheKey) :
    (directory.touch node key).chunkSize = directory.chunkSize := rfl

@[simp] theorem touch_cacheSizeBytes (directory : CacheDirectory) (node : Node) (key : CacheKey) :
    (directory.touch node key).cacheSizeBytes = directory.cacheSizeBytes := rfl

@[simp] theorem touch_usedBytes (directory : CacheDirectory) (node : Node) (key : CacheKey) :
    (directory.touch node key).usedBytes = directory.usedBytes := rfl

@[simp] theorem store_chunkSize (directory : CacheDirectory) (key : CacheKey)
    (data : Nat → UInt8) (validSize : Nat) :
    (directory.store key data validSize).chunkSize = directory.chunkSize := rfl

@[simp] theorem store_cacheSizeBytes (directory : CacheDirectory) (key : CacheKey)
    (data : Nat → UInt8) (validSize : Nat) :
    (directory.store key data validSize).cacheSizeBytes = directory.cacheSizeBytes := rfl

@[simp] theorem store_usedBytes (directory : CacheDirectory) (key : CacheKey)
    (data : Nat → UInt8) (validSize : Nat) :
    (directory.store key data validSize).usedBytes =
      sizeAdd directory.usedBytes directory.chunkSize := by
  simp [store]

theorem lookup_of_none {directory : CacheDirectory} {key : CacheKey}
    (absent : directory.table.lookup key = none) : directory.lookup key = (none, directory) := by
  simp [lookup, absent]

theorem lookup_of_some {directory : CacheDirectory} {key : CacheKey} {node : Node}
    (present : directory.table.lookup key = some node) :
    directory.lookup key =
      (some
        { node.entry with
          lastAccess := directory.ticks + 1
          accessCount := node.entry.accessCount + 1 },
        directory.touch node key) := by
  simp [lookup, present, touch]

/-- What a lookup returns is what is resident afterwards. -/
theorem lookup_reflects {directory : CacheDirectory} {key : CacheKey} {node : Node}
    (present : (directory.lookup key).2.table.lookup key = some node) :
    (directory.lookup key).1 = some node.entry := by
  cases found : directory.table.lookup key with
  | none =>
      rw [lookup_of_none found] at present
      exact absurd (found.symm.trans present) nofun
  | some resident =>
      simp only [lookup, found] at present ⊢
      rw [present]
      rfl

theorem insert_of_admits {directory : CacheDirectory} {key : CacheKey} {data : Nat → UInt8}
    {validSize : Nat} (admitted : directory.Admits validSize) :
    directory.insert key (some data) validSize =
      (true, directory.makeRoom.store key data validSize) := by
  simp only [insert, if_pos admitted]

/-- A refused insert changes nothing. -/
theorem insert_of_refused {directory : CacheDirectory} {key : CacheKey}
    {data : Option (Nat → UInt8)} {validSize : Nat}
    (refused : (directory.insert key data validSize).1 = false) :
    directory.insert key data validSize = (false, directory) := by
  cases data with
  | none => rfl
  | some data =>
      by_cases admitted : directory.Admits validSize
      · simp [insert_of_admits admitted] at refused
      · simp only [insert, if_neg admitted]

/-- An insert that is not refused makes room and stores. -/
theorem insert_of_accepted {directory : CacheDirectory} {key : CacheKey}
    {data : Option (Nat → UInt8)} {validSize : Nat}
    (accepted : (directory.insert key data validSize).1 = true) :
    ∃ bytes, data = some bytes ∧ directory.Admits validSize ∧
      directory.insert key data validSize =
        (true, directory.makeRoom.store key bytes validSize) := by
  cases data with
  | none => simp [insert] at accepted
  | some bytes =>
      by_cases admitted : directory.Admits validSize
      · exact ⟨bytes, rfl, admitted, insert_of_admits admitted⟩
      · simp [insert, admitted] at accepted

/-- One round of the eviction loop. -/
theorem evictBack_cases {directory : CacheDirectory} (nonempty : directory.lru.nodes ≠ []) :
    ∃ victim, directory.lru.back? = some victim ∧
      ((directory.table.lookup victim = none ∧
          directory.evictBack = { directory with lru := directory.lru.popBack }) ∨
        ∃ node, directory.table.lookup victim = some node ∧
          directory.evictBack =
            { directory with
              lru := directory.lru.popBack
              usedBytes := sizeSub directory.usedBytes node.entry.data.length
              table := directory.table.erase victim
              evictions := directory.evictions + 1 }) := by
  cases last : directory.lru.back? with
  | none => simp [Linked.back?, Linked.values, nonempty] at last
  | some victim =>
      refine ⟨victim, rfl, ?_⟩
      rw [evictBack, last]
      cases present : directory.table.lookup victim with
      | none => exact .inl ⟨rfl, by simp [present]⟩
      | some node => exact .inr ⟨node, rfl, by simp [present]⟩

theorem makeRoom_of_mustEvict {directory : CacheDirectory} (evict : directory.MustEvict) :
    directory.makeRoom = directory.evictBack.makeRoom := by
  rw [makeRoom, dif_pos evict]

theorem makeRoom_of_fits {directory : CacheDirectory} (fits : ¬directory.MustEvict) :
    directory.makeRoom = directory := by
  rw [makeRoom, dif_neg fits]

/-- Induction along the eviction loop. -/
theorem makeRoom_induction {motive : CacheDirectory → Prop}
    (stop : ∀ directory, ¬directory.MustEvict → motive directory)
    (round : ∀ directory, directory.MustEvict → motive directory.evictBack → motive directory)
    (directory : CacheDirectory) : motive directory := by
  induction directory using makeRoom.induct with
  | case1 directory evict induction => exact round directory evict induction
  | case2 directory fits => exact stop directory fits

theorem evictBack_sizes {directory : CacheDirectory} (nonempty : directory.lru.nodes ≠ []) :
    directory.evictBack.chunkSize = directory.chunkSize ∧
      directory.evictBack.cacheSizeBytes = directory.cacheSizeBytes := by
  obtain ⟨victim, -, ⟨-, evicted⟩ | ⟨node, -, evicted⟩⟩ := evictBack_cases nonempty <;>
    simp [evicted]

theorem makeRoom_sizes (directory : CacheDirectory) :
    directory.makeRoom.chunkSize = directory.chunkSize ∧
      directory.makeRoom.cacheSizeBytes = directory.cacheSizeBytes := by
  induction directory using makeRoom_induction with
  | stop directory fits => simp [makeRoom_of_fits fits]
  | round directory evict induction =>
      rw [makeRoom_of_mustEvict evict]
      have sizes := evictBack_sizes evict.2
      exact ⟨induction.1.trans sizes.1, induction.2.trans sizes.2⟩

/-! ## Entries and their list nodes -/

theorem mem_of_lookup {table : AList fun _ : CacheKey => Node} {key : CacheKey} {node : Node}
    (present : table.lookup key = some node) : key ∈ table :=
  AList.lookup_isSome.mp (by rw [present]; rfl)

theorem keys_length_insert (table : AList fun _ : CacheKey => Node) (key : CacheKey)
    (node : Node) :
    (table.insert key node).keys.length =
      if key ∈ table then table.keys.length else table.keys.length + 1 := by
  rw [AList.keys_insert, List.length_cons]
  by_cases present : key ∈ table
  · have member := AList.mem_keys.mp present
    have positive := List.length_pos_of_mem member
    rw [if_pos present, List.length_erase_of_mem member]
    omega
  · rw [if_neg present, List.erase_of_not_mem fun member => present (AList.mem_keys.mpr member)]

theorem keys_length_erase {table : AList fun _ : CacheKey => Node} {key : CacheKey}
    {node : Node} (present : table.lookup key = some node) :
    (table.erase key).keys.length + 1 = table.keys.length := by
  have member : key ∈ table.keys := AList.mem_keys.mp (mem_of_lookup present)
  have positive := List.length_pos_of_mem member
  rw [AList.keys_erase, List.length_erase_of_mem member]
  omega

theorem touch_residentCount {directory : CacheDirectory} {key : CacheKey} {node : Node}
    (present : directory.table.lookup key = some node) :
    (directory.touch node key).residentCount = directory.residentCount := by
  simp only [residentCount, touch, keys_length_insert, if_pos (mem_of_lookup present)]

/-- Every entry holds a whole chunk and is anchored at a list node that carries its key. -/
structure Anchored (directory : CacheDirectory) : Prop where
  whole : ∀ key node, directory.table.lookup key = some node →
    node.entry.data.length = directory.chunkSize
  live : ∀ key node, directory.table.lookup key = some node →
    directory.lru.Denotes node.lruIt key

theorem anchored_new (chunkSize cacheSizeBytes : Nat) :
    (new chunkSize cacheSizeBytes).Anchored where
  whole := by simp [new]
  live := by simp [new]

theorem Anchored.touch {directory : CacheDirectory} (anchored : directory.Anchored)
    {key : CacheKey} {node : Node} (present : directory.table.lookup key = some node) :
    (directory.touch node key).Anchored := by
  constructor
  · intro other found lookup
    by_cases same : other = key
    · subst same
      simp only [CacheDirectory.touch, AList.lookup_insert, Option.some.injEq] at lookup
      subst lookup
      have size := anchored.whole _ _ present
      exact size
    · simp only [CacheDirectory.touch, AList.lookup_insert_ne same] at lookup
      exact anchored.whole _ _ lookup
  · intro other found lookup
    by_cases same : other = key
    · subst same
      simp only [CacheDirectory.touch, AList.lookup_insert, Option.some.injEq] at lookup
      subst lookup
      exact Linked.denotes_pushFront_begin _ _
    · simp only [CacheDirectory.touch, AList.lookup_insert_ne same] at lookup
      -- The erased node carries `key`, so it is not the node of another entry.
      have separate : found.lruIt ≠ node.lruIt := by
        intro shared
        have here := anchored.live _ _ lookup
        rw [shared] at here
        exact same (here.value_unique (anchored.live _ _ present))
      exact ((anchored.live _ _ lookup).erase separate).pushFront key

/-- A round of the eviction loop leaves no entry without its node. -/
theorem Anchored.evictBack {directory : CacheDirectory} (anchored : directory.Anchored)
    (nonempty : directory.lru.nodes ≠ []) : directory.evictBack.Anchored := by
  obtain ⟨victim, last, ⟨orphan, popped⟩ | ⟨node, -, evicted⟩⟩ := evictBack_cases nonempty
  · rw [popped]
    refine ⟨anchored.whole, fun key found lookup => ?_⟩
    refine (anchored.live key found lookup).popBack last ?_
    rintro rfl
    exact absurd lookup (by rw [orphan]; exact nofun)
  · rw [evicted]
    have survivor : ∀ {key found}, (directory.table.erase victim).lookup key = some found →
        key ≠ victim ∧ directory.table.lookup key = some found := by
      intro key found lookup
      have other : key ≠ victim := by
        rintro rfl
        simp at lookup
      exact ⟨other, by rwa [AList.lookup_erase_ne other] at lookup⟩
    refine ⟨fun key found lookup => anchored.whole _ _ (survivor lookup).2, ?_⟩
    intro key found lookup
    obtain ⟨other, present⟩ := survivor lookup
    exact (anchored.live key found present).popBack last other

theorem Anchored.store {directory : CacheDirectory} (anchored : directory.Anchored)
    (key : CacheKey) (data : Nat → UInt8) (validSize : Nat) :
    (directory.store key data validSize).Anchored := by
  constructor
  · intro other found lookup
    by_cases same : other = key
    · subst same
      simp only [CacheDirectory.store, AList.lookup_insert, Option.some.injEq] at lookup
      subst lookup
      simp
    · simp only [CacheDirectory.store, AList.lookup_insert_ne same] at lookup
      exact anchored.whole _ _ lookup
  · intro other found lookup
    by_cases same : other = key
    · subst same
      simp only [CacheDirectory.store, AList.lookup_insert, Option.some.injEq] at lookup
      subst lookup
      exact Linked.denotes_pushFront_begin _ _
    · simp only [CacheDirectory.store, AList.lookup_insert_ne same] at lookup
      exact (anchored.live _ _ lookup).pushFront key

end CacheDirectory
end MemTier
