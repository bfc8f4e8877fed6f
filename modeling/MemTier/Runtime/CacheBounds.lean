import MemTier.Runtime.CacheDirectory

/-!
# Bounded memory and live iterators

Inserting a resident key leaves its old list node behind as an orphan and counts its bytes twice.
The counter may therefore exceed the resident bytes, but never by so much that another chunk would
not fit once every entry is gone, and no entry outlives its own list node.
-/

namespace MemTier

open Containers

namespace CacheDirectory

/-- The invariant of every reachable directory. -/
structure Sound (directory : CacheDirectory) : Prop extends directory.Anchored where
  /-- Resident chunks are counted. -/
  counted : directory.chunkSize * directory.residentCount ≤ directory.usedBytes
  /-- The bytes counted twice leave room for a chunk. -/
  leaked : directory.usedBytes - directory.chunkSize * directory.residentCount ≤
    directory.cacheSizeBytes - directory.chunkSize
  bounded : directory.usedBytes ≤ directory.cacheSizeBytes

theorem sound_new (chunkSize cacheSizeBytes : Nat) : (new chunkSize cacheSizeBytes).Sound where
  toAnchored := anchored_new chunkSize cacheSizeBytes
  counted := by simp [new, residentCount]
  leaked := by simp [new]
  bounded := by simp [new]

theorem Sound.touch {directory : CacheDirectory} (sound : directory.Sound) {key : CacheKey}
    {node : Node} (present : directory.table.lookup key = some node) :
    (directory.touch node key).Sound := by
  refine ⟨sound.toAnchored.touch present, ?_, ?_, sound.bounded⟩
  · rw [touch_residentCount present]
    exact sound.counted
  · rw [touch_residentCount present]
    exact sound.leaked

/-- Popping an orphan keeps the invariant. -/
theorem Sound.popOrphan {directory : CacheDirectory} (sound : directory.Sound)
    (nonempty : directory.lru.nodes ≠ [])
    (popped : directory.evictBack = { directory with lru := directory.lru.popBack }) :
    directory.evictBack.Sound := by
  refine ⟨sound.toAnchored.evictBack nonempty, ?_, ?_, ?_⟩ <;> rw [popped]
  · exact sound.counted
  · exact sound.leaked
  · exact sound.bounded

/-- Evicting the entry of the last node keeps the invariant, and the counter drops by a chunk. -/
theorem Sound.evict {directory : CacheDirectory} (sound : directory.Sound)
    (small : directory.cacheSizeBytes < 2 ^ 64) (nonempty : directory.lru.nodes ≠ [])
    {victim : CacheKey} {node : Node} (present : directory.table.lookup victim = some node)
    (evicted : directory.evictBack =
      { directory with
        lru := directory.lru.popBack
        usedBytes := sizeSub directory.usedBytes node.entry.data.length
        table := directory.table.erase victim
        evictions := directory.evictions + 1 }) :
    directory.evictBack.Sound ∧
      directory.evictBack.usedBytes + directory.chunkSize = directory.usedBytes := by
  have anchored := sound.toAnchored.evictBack nonempty
  have count := keys_length_erase present
  have counted := sound.counted
  have leaked := sound.leaked
  have bounded := sound.bounded
  rw [residentCount, ← count, Nat.mul_succ] at counted leaked
  have difference : sizeSub directory.usedBytes node.entry.data.length =
      directory.usedBytes - directory.chunkSize := by
    rw [sound.whole _ _ present]
    exact sizeSub_eq (by omega) (by omega)
  rw [difference] at evicted
  refine ⟨⟨anchored, ?_, ?_, ?_⟩, ?_⟩ <;> rw [evicted]
  · simp only [residentCount]
    omega
  · simp only [residentCount]
    omega
  · exact (Nat.sub_le _ _).trans bounded
  · dsimp only
    omega

/-- The eviction loop keeps the invariant, makes room for a chunk and removes at most one entry. -/
theorem Sound.makeRoom {directory : CacheDirectory} (sound : directory.Sound)
    (fits : directory.chunkSize ≤ directory.cacheSizeBytes)
    (small : directory.chunkSize + directory.cacheSizeBytes < 2 ^ 64) :
    directory.makeRoom.Sound ∧
      directory.makeRoom.usedBytes + directory.chunkSize ≤ directory.cacheSizeBytes ∧
      (directory.makeRoom.table = directory.table ∨
        ∃ victim, directory.makeRoom.table = directory.table.erase victim) := by
  induction directory using makeRoom_induction with
  | stop directory room =>
      rw [makeRoom_of_fits room]
      refine ⟨sound, ?_, .inl rfl⟩
      have bounded := sound.bounded
      have sum : sizeAdd directory.usedBytes directory.chunkSize =
          directory.usedBytes + directory.chunkSize := sizeAdd_eq (by omega)
      by_cases empty : directory.lru.nodes = []
      · -- Without list nodes there are no entries, and only doubly counted bytes remain.
        have absent : directory.table.keys = [] := by
          refine List.eq_nil_iff_forall_not_mem.mpr fun key member => ?_
          obtain ⟨node, lookup⟩ := Option.isSome_iff_exists.mp
            (AList.lookup_isSome.mpr (AList.mem_keys.mpr member))
          have denotes := sound.live key node lookup
          simp [Linked.Denotes, empty] at denotes
        have leaked := sound.leaked
        rw [residentCount, absent, List.length_nil, Nat.mul_zero] at leaked
        omega
      · rw [MustEvict, sum] at room
        by_contra full
        exact room ⟨by omega, empty⟩
  | round directory evict induction =>
      rw [makeRoom_of_mustEvict evict]
      have sizes := evictBack_sizes evict.2
      obtain ⟨victim, -, ⟨-, popped⟩ | ⟨node, present, evicted⟩⟩ := evictBack_cases evict.2
      · have kept := sound.popOrphan evict.2 popped
        obtain ⟨result, room, tables⟩ := induction kept (by omega) (by omega)
        have same : directory.evictBack.table = directory.table := by rw [popped]
        rw [sizes.1, sizes.2] at room
        rw [same] at tables
        exact ⟨result, room, tables⟩
      · obtain ⟨kept, drop⟩ := sound.evict (by omega) evict.2 present evicted
        have bounded := sound.bounded
        -- One entry gone, the loop stops.
        have stops : ¬directory.evictBack.MustEvict := by
          intro again
          have sum : sizeAdd directory.evictBack.usedBytes directory.evictBack.chunkSize =
              directory.usedBytes := by
            rw [sizes.1, sizeAdd_eq (by omega), drop]
          rw [MustEvict, sum, sizes.2] at again
          omega
        rw [makeRoom_of_fits stops]
        exact ⟨kept, by omega, .inr ⟨victim, by rw [evicted]⟩⟩

/-- Storing into a directory with room keeps the invariant. -/
theorem Sound.store {directory : CacheDirectory} (sound : directory.Sound)
    (small : directory.cacheSizeBytes < 2 ^ 64)
    (room : directory.usedBytes + directory.chunkSize ≤ directory.cacheSizeBytes)
    (key : CacheKey) (data : Nat → UInt8) (validSize : Nat) :
    (directory.store key data validSize).Sound := by
  have used : (directory.store key data validSize).usedBytes =
      directory.usedBytes + directory.chunkSize := by
    rw [store_usedBytes, sizeAdd_eq (by omega)]
  have count : (directory.store key data validSize).residentCount = directory.residentCount ∧
        0 < directory.residentCount ∨
      (directory.store key data validSize).residentCount = directory.residentCount + 1 := by
    simp only [residentCount, CacheDirectory.store, keys_length_insert]
    by_cases present : key ∈ directory.table
    · exact .inl ⟨by simp [present], List.length_pos_of_mem (AList.mem_keys.mp present)⟩
    · exact .inr (by simp [present])
  have counted := sound.counted
  have leaked := sound.leaked
  refine ⟨sound.toAnchored.store key data validSize, ?_, ?_, ?_⟩
  · rw [used, store_chunkSize]
    rcases count with ⟨count, -⟩ | count
    · rw [count]
      omega
    · rw [count, Nat.mul_succ]
      omega
  · -- A resident key leaks one chunk, but then at least one chunk is resident.
    rw [used, store_chunkSize, store_cacheSizeBytes]
    rcases count with ⟨count, positive⟩ | count
    · have resident : directory.chunkSize ≤ directory.chunkSize * directory.residentCount :=
        Nat.le_mul_of_pos_right _ positive
      rw [count]
      omega
    · rw [count, Nat.mul_succ]
      omega
  · rw [used, store_cacheSizeBytes]
    exact room

/-- Every call keeps the invariant. -/
theorem Sound.apply {directory : CacheDirectory} (sound : directory.Sound)
    (small : directory.chunkSize + directory.cacheSizeBytes < 2 ^ 64) (call : Call) :
    (directory.apply call).Sound := by
  cases call with
  | contains key => exact sound
  | lookup key =>
      cases present : directory.table.lookup key with
      | none => simpa [CacheDirectory.apply, lookup_of_none present] using sound
      | some node => simpa [CacheDirectory.apply, lookup_of_some present] using sound.touch present
  | insert key data validSize =>
      cases accepted : (directory.insert key data validSize).1 with
      | false => simpa [CacheDirectory.apply, insert_of_refused accepted] using sound
      | true =>
          obtain ⟨bytes, -, admitted, inserted⟩ := insert_of_accepted accepted
          obtain ⟨kept, room, -⟩ := sound.makeRoom admitted.2.2.1 small
          have sizes := makeRoom_sizes directory
          simp only [CacheDirectory.apply, inserted]
          exact kept.store (by omega) (by omega) key bytes validSize

theorem apply_sizes (directory : CacheDirectory) (call : Call) :
    (directory.apply call).chunkSize = directory.chunkSize ∧
      (directory.apply call).cacheSizeBytes = directory.cacheSizeBytes := by
  cases call with
  | contains key => exact ⟨rfl, rfl⟩
  | lookup key =>
      cases present : directory.table.lookup key with
      | none => simp [apply, lookup_of_none present]
      | some node => simp [apply, lookup_of_some present]
  | insert key data validSize =>
      cases accepted : (directory.insert key data validSize).1 with
      | false => simp [apply, insert_of_refused accepted]
      | true =>
          obtain ⟨bytes, -, -, inserted⟩ := insert_of_accepted accepted
          simpa [apply, inserted] using makeRoom_sizes directory

theorem run_sizes (directory : CacheDirectory) (calls : List Call) :
    (directory.run calls).chunkSize = directory.chunkSize ∧
      (directory.run calls).cacheSizeBytes = directory.cacheSizeBytes := by
  induction calls generalizing directory with
  | nil => exact ⟨rfl, rfl⟩
  | cons call calls induction =>
      have first := apply_sizes directory call
      have rest := induction (directory.apply call)
      exact ⟨rest.1.trans first.1, rest.2.trans first.2⟩

/-- Every run keeps the invariant. -/
theorem Sound.run {directory : CacheDirectory} (sound : directory.Sound)
    (small : directory.chunkSize + directory.cacheSizeBytes < 2 ^ 64) (calls : List Call) :
    (directory.run calls).Sound := by
  induction calls generalizing directory with
  | nil => exact sound
  | cons call calls induction =>
      have sizes := apply_sizes directory call
      exact induction (sound.apply small call) (by rw [sizes.1, sizes.2]; exact small)

/-! ## Updates of the byte counter -/

/-- An update of `used_bytes_`: the stored value before it, and the amount. -/
inductive UsedUpdate where
  | add (before amount : Nat)
  | sub (before amount : Nat)

/-- The update does not leave the range of `size_t`. -/
def UsedUpdate.Exact : UsedUpdate → Prop
  | add before amount => before + amount < 2 ^ 64
  | sub before amount => amount ≤ before

/-- Updates made by the eviction loop. -/
def evictUpdates (directory : CacheDirectory) : List UsedUpdate :=
  if _evict : directory.MustEvict then
    (match directory.lru.back? >>= directory.table.lookup with
      | none => []
      | some node => [.sub directory.usedBytes node.entry.data.length]) ++
        evictUpdates directory.evictBack
  else []
termination_by directory.lru.nodes.length
decreasing_by
  have nonempty := List.length_pos_of_ne_nil _evict.2
  rw [evictBack_lru, List.length_dropLast]
  omega

/-- Updates made by a call. -/
def usedUpdates (directory : CacheDirectory) : Call → List UsedUpdate
  | .insert key data validSize =>
      if (directory.insert key data validSize).1 then
        directory.evictUpdates ++ [.add directory.makeRoom.usedBytes directory.chunkSize]
      else []
  | .lookup _ | .contains _ => []

theorem Sound.evictUpdates_exact {directory : CacheDirectory} (sound : directory.Sound)
    (small : directory.cacheSizeBytes < 2 ^ 64) :
    ∀ update ∈ directory.evictUpdates, update.Exact := by
  induction directory using makeRoom_induction with
  | stop directory room =>
      rw [evictUpdates, dif_neg room]
      exact nofun
  | round directory evict induction =>
      rw [evictUpdates, dif_pos evict]
      have sizes := evictBack_sizes evict.2
      obtain ⟨victim, last, ⟨orphan, popped⟩ | ⟨node, present, evicted⟩⟩ :=
        evictBack_cases evict.2
      · have kept := sound.popOrphan evict.2 popped
        simpa [last, orphan] using induction kept (by omega)
      · obtain ⟨kept, drop⟩ := sound.evict small evict.2 present evicted
        intro update member
        simp only [last, Option.bind_eq_bind, Option.bind_some, present, List.cons_append,
          List.nil_append, List.mem_cons] at member
        rcases member with rfl | member
        · rw [UsedUpdate.Exact, sound.whole _ _ present]
          omega
        · exact induction kept (by omega) update member

/-- No call makes the byte counter wrap. -/
theorem Sound.usedUpdates_exact {directory : CacheDirectory} (sound : directory.Sound)
    (small : directory.chunkSize + directory.cacheSizeBytes < 2 ^ 64) (call : Call) :
    ∀ update ∈ directory.usedUpdates call, update.Exact := by
  cases call with
  | lookup key => exact nofun
  | contains key => exact nofun
  | insert key data validSize =>
      cases accepted : (directory.insert key data validSize).1 with
      | false => simp [usedUpdates, accepted]
      | true =>
          obtain ⟨bytes, -, admitted, -⟩ := insert_of_accepted accepted
          obtain ⟨-, room, -⟩ := sound.makeRoom admitted.2.2.1 small
          intro update member
          simp only [usedUpdates, accepted, if_pos, List.mem_append, List.mem_singleton] at member
          rcases member with member | rfl
          · exact sound.evictUpdates_exact (by omega) update member
          · rw [UsedUpdate.Exact]
            omega

/-- An insert removes at most one entry of another key. -/
theorem Sound.insert_evicts_one {directory : CacheDirectory} (sound : directory.Sound)
    (small : directory.chunkSize + directory.cacheSizeBytes < 2 ^ 64) (key : CacheKey)
    (data : Option (Nat → UInt8)) (validSize : Nat) {gone₁ gone₂ : CacheKey}
    (resident₁ : gone₁ ∈ directory.table) (resident₂ : gone₂ ∈ directory.table)
    (evicted₁ : gone₁ ∉ (directory.insert key data validSize).2.table)
    (evicted₂ : gone₂ ∉ (directory.insert key data validSize).2.table) : gone₁ = gone₂ := by
  cases accepted : (directory.insert key data validSize).1 with
  | false =>
      rw [insert_of_refused accepted] at evicted₁
      exact absurd resident₁ evicted₁
  | true =>
      obtain ⟨bytes, -, admitted, inserted⟩ := insert_of_accepted accepted
      obtain ⟨-, -, tables⟩ := sound.makeRoom admitted.2.2.1 small
      simp only [inserted, CacheDirectory.store, AList.mem_insert, not_or] at evicted₁ evicted₂
      rcases tables with same | ⟨victim, erased⟩
      · rw [same] at evicted₁
        exact absurd resident₁ evicted₁.2
      · rw [erased] at evicted₁ evicted₂
        have first : gone₁ = victim := by
          by_contra kept
          exact evicted₁.2 (AList.mem_erase.mpr ⟨kept, resident₁⟩)
        have second : gone₂ = victim := by
          by_contra kept
          exact evicted₂.2 (AList.mem_erase.mpr ⟨kept, resident₂⟩)
        rw [first, second]

/-- An accepted insert leaves its key resident with the given bytes. -/
theorem insert_resident {directory : CacheDirectory} {key : CacheKey}
    {data : Option (Nat → UInt8)} {validSize : Nat}
    (accepted : (directory.insert key data validSize).1 = true) :
    ∃ bytes node, data = some bytes ∧
      (directory.insert key data validSize).2.table.lookup key = some node ∧
        node.entry.data = (List.range directory.chunkSize).map bytes ∧
          node.entry.validSize = validSize := by
  obtain ⟨bytes, given, -, inserted⟩ := insert_of_accepted accepted
  refine ⟨bytes, _, given, by rw [inserted, store]; exact AList.lookup_insert _, ?_, rfl⟩
  dsimp only
  rw [(makeRoom_sizes directory).1]

/-- In every state a sequence of calls reaches, memory is bounded, no update of the byte counter
wraps, every entry's iterator is live, and an insert removes at most one other entry and leaves
its own key resident. -/
theorem run_bounded_live (chunkSize cacheSizeBytes : Nat) (_positive : 0 < chunkSize)
    (small : chunkSize + cacheSizeBytes < 2 ^ 64) (calls : List Call) :
    let directory := (new chunkSize cacheSizeBytes).run calls
    (chunkSize * directory.residentCount ≤ directory.usedBytes ∧
        directory.usedBytes ≤ cacheSizeBytes ∧
        ∀ call, ∀ update ∈ directory.usedUpdates call, update.Exact) ∧
      (∀ key node, directory.table.lookup key = some node →
        directory.lru.Denotes node.lruIt key) ∧
      ∀ key data validSize,
        (∀ gone₁ gone₂, gone₁ ≠ key → gone₂ ≠ key →
          gone₁ ∈ directory.table → gone₂ ∈ directory.table →
          gone₁ ∉ (directory.insert key data validSize).2.table →
          gone₂ ∉ (directory.insert key data validSize).2.table → gone₁ = gone₂) ∧
        ((directory.insert key data validSize).1 = true →
          ∃ bytes node, data = some bytes ∧
            (directory.insert key data validSize).2.table.lookup key = some node ∧
              node.entry.data = (List.range chunkSize).map bytes ∧
                node.entry.validSize = validSize) := by
  intro directory
  have sizes := run_sizes (new chunkSize cacheSizeBytes) calls
  have sound : directory.Sound := (sound_new chunkSize cacheSizeBytes).run small calls
  have small' : directory.chunkSize + directory.cacheSizeBytes < 2 ^ 64 := by
    rw [sizes.1, sizes.2]
    exact small
  have chunk : directory.chunkSize = chunkSize := sizes.1
  have cache : directory.cacheSizeBytes = cacheSizeBytes := sizes.2
  refine ⟨⟨?_, ?_, sound.usedUpdates_exact small'⟩, sound.live, ?_⟩
  · rw [← chunk]
    exact sound.counted
  · rw [← cache]
    exact sound.bounded
  · intro key data validSize
    refine ⟨fun gone₁ gone₂ _ _ resident₁ resident₂ evicted₁ evicted₂ =>
      sound.insert_evicts_one small' key data validSize resident₁ resident₂ evicted₁ evicted₂,
      fun accepted => ?_⟩
    have resident := insert_resident accepted
    rwa [chunk] at resident

/-- Two inserts of one key into a cache of three chunks. -/
theorem run_bounded_live_resident_insert :
    ((new 4 12).run
        [.insert ⟨1, 0⟩ (some fun _ => 7) 4, .insert ⟨1, 0⟩ (some fun _ => 7) 4]).usedBytes = 8 ∧
      4 * ((new 4 12).run
        [.insert ⟨1, 0⟩ (some fun _ => 7) 4,
          .insert ⟨1, 0⟩ (some fun _ => 7) 4]).residentCount ≤ 8 := by
  have bounds := run_bounded_live 4 12 (by decide) (by decide)
    [.insert ⟨1, 0⟩ (some fun _ => 7) 4, .insert ⟨1, 0⟩ (some fun _ => 7) 4]
  have used : ((new 4 12).run
      [.insert ⟨1, 0⟩ (some fun _ => 7) 4,
        .insert ⟨1, 0⟩ (some fun _ => 7) 4]).usedBytes = 8 := by decide +kernel
  exact ⟨used, used ▸ bounds.1.1⟩

end CacheDirectory
end MemTier
