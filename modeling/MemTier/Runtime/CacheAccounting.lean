import MemTier.Containers.Recency
import MemTier.Runtime.CacheBounds

/-!
# Exact accounting of the cache directory

The list, the table and the byte counter agree for as long as no insert meets a resident key that
it does not itself evict.  Along such runs the directory is a least-recently-used cache.
-/

namespace MemTier

open Containers

namespace CacheDirectory

/-- The three structures agree: the list names the resident keys once each, and the counter is
the sum of the entry sizes. -/
structure Consistent (directory : CacheDirectory) : Prop where
  distinct : directory.recency.Nodup
  keys : ∀ key, key ∈ directory.recency ↔ key ∈ directory.table
  bytes : directory.usedBytes = directory.residentBytes

/-- A call evicts nothing, or one entry while as many keys are resident as are meant to fit. -/
def EvictsOnlyWhenFull (directory : CacheDirectory) (call : Call) : Prop :=
  directory.evictions < (directory.apply call).evictions →
    directory.residentCount = directory.capacity ∧
      (directory.apply call).evictions = directory.evictions + 1

/-- Exact accounting in every state of a run and at every step of it. -/
def Accounted (directory : CacheDirectory) : List Call → Prop
  | [] => directory.Consistent
  | call :: calls =>
      directory.Consistent ∧ directory.EvictsOnlyWhenFull call ∧
        (directory.apply call).Accounted calls

/-- An insert that passes the argument checks does not overflow the counter, and its key is not
resident unless the cache is full and the key is the one to be evicted. -/
def Fresh (directory : CacheDirectory) : Call → Prop
  | .insert key data validSize =>
      data.isSome → directory.Admits validSize →
        directory.usedBytes + directory.chunkSize < 2 ^ 64 ∧
          (key ∉ directory.table ∨
            directory.cacheSizeBytes < directory.usedBytes + directory.chunkSize ∧
              directory.recency.getLast? = some key)
  | .lookup _ | .contains _ => True

/-- Every call of a run is fresh in the state it is made in. -/
def AllFresh (directory : CacheDirectory) : List Call → Prop
  | [] => True
  | call :: calls => directory.Fresh call ∧ (directory.apply call).AllFresh calls

/-- The inductive invariant behind exact accounting. -/
structure Accurate (directory : CacheDirectory) : Prop
    extends directory.Consistent, directory.Anchored where
  bounded : directory.usedBytes ≤ directory.cacheSizeBytes

theorem accurate_new (chunkSize cacheSizeBytes : Nat) :
    (new chunkSize cacheSizeBytes).Accurate where
  distinct := by simp [new, recency]
  keys := by simp [new, recency]
  bytes := by simp [new, residentBytes]
  toAnchored := anchored_new chunkSize cacheSizeBytes
  bounded := by simp [new]

/-- Whole entries make the resident bytes a multiple of the chunk size. -/
theorem Anchored.residentBytes_eq {directory : CacheDirectory} (anchored : directory.Anchored) :
    directory.residentBytes = directory.chunkSize * directory.residentCount := by
  have constant : directory.table.entries.map (fun resident => resident.2.entry.data.length) =
      directory.table.entries.map fun _ => directory.chunkSize := by
    apply List.map_congr_left
    intro resident member
    exact anchored.whole resident.1 resident.2 (AList.mem_lookup_iff.mpr member)
  rw [residentBytes, constant, List.map_const', List.sum_replicate, residentCount, AList.keys,
    List.keys, List.length_map, smul_eq_mul, Nat.mul_comm]

theorem Accurate.used_eq {directory : CacheDirectory} (accurate : directory.Accurate) :
    directory.usedBytes = directory.chunkSize * directory.residentCount :=
  accurate.bytes.trans accurate.residentBytes_eq

theorem Accurate.recency_length {directory : CacheDirectory} (accurate : directory.Accurate) :
    directory.recency.length = directory.residentCount := by
  refine (List.perm_of_nodup_nodup_toFinset_eq accurate.distinct directory.table.keys_nodup ?_).length_eq
  ext key
  rw [List.mem_toFinset, List.mem_toFinset, accurate.keys, AList.mem_keys]

/-- A hit refreshes its key and changes nothing else. -/
theorem Accurate.touch {directory : CacheDirectory} (accurate : directory.Accurate)
    {key : CacheKey} {node : Node} (present : directory.table.lookup key = some node) :
    (directory.touch node key).Accurate ∧
      (directory.touch node key).recency = key :: directory.recency.erase key := by
  have order : (directory.touch node key).recency = key :: directory.recency.erase key := by
    rw [recency, CacheDirectory.touch]
    dsimp only
    rw [Linked.values_pushFront, Linked.values_erase accurate.distinct (accurate.live _ _ present)]
    rfl
  have member : key ∈ directory.recency := (accurate.keys key).mpr (mem_of_lookup present)
  have anchored := accurate.toAnchored.touch present
  refine ⟨⟨⟨?_, ?_, ?_⟩, anchored, accurate.bounded⟩, order⟩
  · rw [order]
    exact (List.perm_cons_erase member).nodup_iff.mp accurate.distinct
  · intro other
    rw [order, ← (List.perm_cons_erase member).mem_iff, accurate.keys, CacheDirectory.touch,
      AList.mem_insert]
    constructor
    · exact .inr
    · rintro (rfl | resident)
      · exact mem_of_lookup present
      · exact resident
  · rw [anchored.residentBytes_eq, touch_chunkSize, touch_residentCount present, touch_usedBytes]
    exact accurate.used_eq

/-- A round of the eviction loop evicts the least recently used key. -/
theorem Accurate.evictBack {directory : CacheDirectory} (accurate : directory.Accurate)
    (small : directory.cacheSizeBytes < 2 ^ 64) (nonempty : directory.lru.nodes ≠ []) :
    ∃ victim, directory.recency.getLast? = some victim ∧
      directory.evictBack.Accurate ∧
      directory.evictBack.recency = directory.recency.dropLast ∧
      directory.evictBack.table = directory.table.erase victim ∧
      directory.evictBack.usedBytes + directory.chunkSize = directory.usedBytes ∧
      directory.evictBack.evictions = directory.evictions + 1 := by
  have anchored := accurate.toAnchored.evictBack nonempty
  have used := accurate.used_eq
  have bounded := accurate.bounded
  obtain ⟨victim, last, ⟨orphan, -⟩ | ⟨node, present, evicted⟩⟩ := evictBack_cases nonempty
  · have listed : victim ∈ directory.recency := List.mem_of_getLast? last
    have resident := (accurate.keys victim).mp listed
    exact absurd resident (AList.lookup_eq_none.mp orphan)
  · have count := keys_length_erase present
    rw [residentCount, ← count, Nat.mul_succ] at used
    have difference : sizeSub directory.usedBytes node.entry.data.length =
        directory.usedBytes - directory.chunkSize := by
      rw [accurate.whole _ _ present]
      exact sizeSub_eq (by omega) (by omega)
    rw [difference] at evicted
    have order : directory.evictBack.recency = directory.recency.dropLast := by
      rw [evicted]
      exact Linked.values_popBack _
    refine ⟨victim, last, ⟨⟨?_, ?_, ?_⟩, anchored, ?_⟩, order, by rw [evicted], ?_, by rw [evicted]⟩
    · rw [order]
      exact accurate.distinct.sublist (List.dropLast_sublist _)
    · intro key
      rw [order, Recency.mem_dropLast accurate.distinct last, accurate.keys, evicted,
        AList.mem_erase]
    · rw [anchored.residentBytes_eq, evicted, residentCount]
      dsimp only
      omega
    · rw [evicted]
      exact (Nat.sub_le _ _).trans bounded
    · rw [evicted]
      dsimp only
      omega

/-- The eviction loop stops at once when a chunk fits, and otherwise after one round. -/
theorem Accurate.makeRoom {directory : CacheDirectory} (accurate : directory.Accurate)
    (fits : directory.chunkSize ≤ directory.cacheSizeBytes)
    (small : directory.cacheSizeBytes < 2 ^ 64)
    (exact_sum : directory.usedBytes + directory.chunkSize < 2 ^ 64) :
    (directory.usedBytes + directory.chunkSize ≤ directory.cacheSizeBytes ∧
        directory.makeRoom = directory) ∨
      (directory.cacheSizeBytes < directory.usedBytes + directory.chunkSize ∧
        directory.lru.nodes ≠ [] ∧ directory.makeRoom = directory.evictBack) := by
  have sum := sizeAdd_eq exact_sum
  by_cases room : directory.usedBytes + directory.chunkSize ≤ directory.cacheSizeBytes
  · refine .inl ⟨room, makeRoom_of_fits ?_⟩
    rw [MustEvict, sum]
    omega
  · have nonempty : directory.lru.nodes ≠ [] := by
      intro empty
      have length := accurate.recency_length
      have used := accurate.used_eq
      rw [recency, Linked.values, empty, List.map_nil, List.length_nil] at length
      rw [← length, Nat.mul_zero] at used
      omega
    have evict : directory.MustEvict := ⟨by rw [sum]; omega, nonempty⟩
    refine .inr ⟨by omega, nonempty, ?_⟩
    rw [makeRoom_of_mustEvict evict]
    obtain ⟨victim, -, -, -, -, drop, -⟩ := accurate.evictBack small nonempty
    have sizes := evictBack_sizes nonempty
    have bounded := accurate.bounded
    apply makeRoom_of_fits
    rw [MustEvict, sizes.1, sizes.2, sizeAdd_eq (by omega), drop]
    omega

/-- Storing a key that is not resident puts it in front. -/
theorem Accurate.store {directory : CacheDirectory} (accurate : directory.Accurate)
    (small : directory.cacheSizeBytes < 2 ^ 64)
    (room : directory.usedBytes + directory.chunkSize ≤ directory.cacheSizeBytes)
    {key : CacheKey} (absent : key ∉ directory.table) (data : Nat → UInt8) (validSize : Nat) :
    (directory.store key data validSize).Accurate ∧
      (directory.store key data validSize).recency = key :: directory.recency := by
  have anchored := accurate.toAnchored.store key data validSize
  have used : (directory.store key data validSize).usedBytes =
      directory.usedBytes + directory.chunkSize := by
    rw [store_usedBytes, sizeAdd_eq (by omega)]
  have count : (directory.store key data validSize).residentCount =
      directory.residentCount + 1 := by
    simp only [residentCount, CacheDirectory.store, keys_length_insert, if_neg absent]
  refine ⟨⟨⟨?_, ?_, ?_⟩, anchored, ?_⟩, rfl⟩
  · exact List.nodup_cons.mpr ⟨fun listed => absent ((accurate.keys key).mp listed),
      accurate.distinct⟩
  · intro other
    change other ∈ key :: directory.recency ↔ other ∈ directory.table.insert key _
    rw [List.mem_cons, AList.mem_insert, accurate.keys]
  · rw [anchored.residentBytes_eq, used, count, store_chunkSize, Nat.mul_succ, accurate.used_eq]
  · rw [used]
    exact room

/-- A chunk fits exactly when fewer keys are resident than the cache is meant for. -/
theorem Accurate.room_iff {directory : CacheDirectory} (accurate : directory.Accurate)
    (positive : 0 < directory.chunkSize) :
    directory.usedBytes + directory.chunkSize ≤ directory.cacheSizeBytes ↔
      directory.residentCount < directory.capacity := by
  rw [accurate.used_eq, ← Nat.mul_succ, capacity, Nat.lt_iff_add_one_le,
    Nat.le_div_iff_mul_le positive, Nat.mul_comm]

/-- A fresh insert admits its key into the recency list, evicting only from a full cache. -/
theorem Accurate.insert_fresh {directory : CacheDirectory} (accurate : directory.Accurate)
    (small : directory.cacheSizeBytes < 2 ^ 64) {key : CacheKey} {bytes : Nat → UInt8}
    {validSize : Nat} (admitted : directory.Admits validSize)
    (fresh : directory.Fresh (.insert key (some bytes) validSize)) :
    (directory.makeRoom.store key bytes validSize).Accurate ∧
      (directory.makeRoom.store key bytes validSize).recency =
        Recency.enter directory.capacity key directory.recency ∧
      directory.EvictsOnlyWhenFull (.insert key (some bytes) validSize) := by
  obtain ⟨exact_sum, absent⟩ := fresh rfl admitted
  have inserted : (directory.apply (.insert key (some bytes) validSize)) =
      directory.makeRoom.store key bytes validSize := by
    rw [apply, insert_of_admits admitted]
  obtain ⟨validPositive, validLe, chunkLe, -⟩ := admitted
  have positive : 0 < directory.chunkSize := by omega
  have room_iff := accurate.room_iff positive
  have length := accurate.recency_length
  have capacityPositive : directory.capacity ≠ 0 :=
    (Nat.div_pos chunkLe positive).ne'
  rcases accurate.makeRoom chunkLe small exact_sum with
    ⟨room, unchanged⟩ | ⟨full, nonempty, evicted⟩
  · have notResident : key ∉ directory.table := by
      rcases absent with absent | ⟨full, -⟩
      · exact absent
      · omega
    obtain ⟨stored, order⟩ := accurate.store small room notResident bytes validSize
    rw [EvictsOnlyWhenFull, inserted, unchanged]
    refine ⟨stored, ?_, ?_⟩
    · rw [order, Recency.enter, if_neg capacityPositive, if_pos (by omega)]
    · intro grew
      exact absurd grew (Nat.lt_irrefl _)
  · obtain ⟨victim, last, kept, order, erased, drop, counter⟩ :=
      accurate.evictBack small nonempty
    have sizes := evictBack_sizes nonempty
    have bounded := accurate.bounded
    have notResident : key ∉ directory.evictBack.table := by
      rw [erased, AList.mem_erase]
      rcases absent with absent | ⟨-, oldest⟩
      · exact fun resident => absent resident.2
      · rw [last, Option.some.injEq] at oldest
        exact fun resident => resident.1 oldest.symm
    obtain ⟨stored, order'⟩ :=
      kept.store (by omega) (by omega) notResident bytes validSize
    rw [EvictsOnlyWhenFull, inserted, evicted]
    refine ⟨stored, ?_, fun _ => ⟨?_, counter⟩⟩
    · rw [order', order, Recency.enter, if_neg capacityPositive, if_neg (by omega)]
    · have most : directory.residentCount ≤ directory.capacity := by
        rw [capacity, Nat.le_div_iff_mul_le positive, Nat.mul_comm, ← accurate.used_eq]
        exact bounded
      omega

/-- An insert that is not fresh destroys the agreement. -/
theorem Accurate.insert_stale {directory : CacheDirectory} (accurate : directory.Accurate)
    (chunkSmall : directory.chunkSize < 2 ^ 64)
    (small : directory.cacheSizeBytes < 2 ^ 64) {key : CacheKey} {bytes : Nat → UInt8}
    {validSize : Nat} (admitted : directory.Admits validSize)
    (stale : ¬directory.Fresh (.insert key (some bytes) validSize)) :
    ¬(directory.makeRoom.store key bytes validSize).Consistent := by
  obtain ⟨validPositive, validLe, chunkLe, -⟩ := admitted
  have bounded := accurate.bounded
  have used := accurate.used_eq
  intro consistent
  by_cases exact_sum : directory.usedBytes + directory.chunkSize < 2 ^ 64
  · have resident : key ∈ directory.table := by
      by_contra absent
      exact stale fun _ _ => ⟨exact_sum, .inl absent⟩
    have listed := (accurate.keys key).mpr resident
    have distinct : (key :: directory.makeRoom.recency).Nodup := consistent.distinct
    have gone := (List.nodup_cons.mp distinct).1
    rcases accurate.makeRoom chunkLe small exact_sum with
      ⟨-, unchanged⟩ | ⟨full, nonempty, evicted⟩
    · rw [unchanged] at gone
      exact gone listed
    · obtain ⟨victim, last, -, order, -⟩ := accurate.evictBack small nonempty
      have other : key ≠ victim := by
        rintro rfl
        exact stale fun _ _ => ⟨exact_sum, .inr ⟨full, last⟩⟩
      rw [evicted, order] at gone
      exact gone ((Recency.mem_dropLast accurate.distinct last key).mpr ⟨other, listed⟩)
  · -- The sum wraps: the loop sees room, and the counter ends below what is resident.
    have wrapped : sizeAdd directory.usedBytes directory.chunkSize + 2 ^ 64 =
        directory.usedBytes + directory.chunkSize := by
      rw [sizeAdd, Nat.mod_eq_sub_mod (by omega), Nat.mod_eq_of_lt (by omega)]
      omega
    have unchanged : directory.makeRoom = directory := by
      apply makeRoom_of_fits
      rw [MustEvict]
      omega
    have bytes_eq := consistent.bytes
    rw [unchanged, (accurate.toAnchored.store key bytes validSize).residentBytes_eq,
      store_usedBytes, store_chunkSize] at bytes_eq
    have grows : directory.residentCount ≤
        (directory.store key bytes validSize).residentCount := by
      simp only [residentCount, CacheDirectory.store, keys_length_insert]
      split <;> omega
    have more := Nat.mul_le_mul_left directory.chunkSize grows
    omega

/-- A call keeps the accounting exact if and only if it is fresh. -/
theorem Accurate.apply_iff {directory : CacheDirectory} (accurate : directory.Accurate)
    (chunkSmall : directory.chunkSize < 2 ^ 64)
    (small : directory.cacheSizeBytes < 2 ^ 64) (call : Call) :
    (directory.Fresh call →
        (directory.apply call).Accurate ∧ directory.EvictsOnlyWhenFull call) ∧
      ((directory.apply call).Consistent → directory.Fresh call) := by
  cases call with
  | contains key =>
      exact ⟨fun _ => ⟨accurate, fun grew => absurd grew (Nat.lt_irrefl _)⟩, fun _ => trivial⟩
  | lookup key =>
      refine ⟨fun _ => ?_, fun _ => trivial⟩
      rw [EvictsOnlyWhenFull, apply]
      cases present : directory.table.lookup key with
      | none =>
          rw [lookup_of_none present]
          exact ⟨accurate, fun grew => absurd grew (Nat.lt_irrefl _)⟩
      | some node =>
          rw [lookup_of_some present]
          exact ⟨(accurate.touch present).1, fun grew => absurd grew (Nat.lt_irrefl _)⟩
  | insert key data validSize =>
      cases accepted : (directory.insert key data validSize).1 with
      | false =>
          have refused := insert_of_refused accepted
          refine ⟨fun _ => ?_, fun _ given admitted => ?_⟩
          · rw [EvictsOnlyWhenFull, apply, refused]
            exact ⟨accurate, fun grew => absurd grew (Nat.lt_irrefl _)⟩
          · obtain ⟨bytes, rfl⟩ := Option.isSome_iff_exists.mp given
            simp [insert_of_admits admitted] at accepted
      | true =>
          obtain ⟨bytes, rfl, admitted, inserted⟩ := insert_of_accepted accepted
          refine ⟨fun fresh => ?_, fun consistent => ?_⟩
          · obtain ⟨kept, -, evicts⟩ := accurate.insert_fresh small admitted fresh
            refine ⟨?_, evicts⟩
            rw [apply, inserted]
            exact kept
          · by_contra stale
            rw [apply, inserted] at consistent
            exact accurate.insert_stale chunkSmall small admitted stale consistent

/-- Along a run, accounting is exact if and only if every call is fresh. -/
theorem Accurate.accounted_iff {directory : CacheDirectory} (accurate : directory.Accurate)
    (chunkSmall : directory.chunkSize < 2 ^ 64)
    (small : directory.cacheSizeBytes < 2 ^ 64) (calls : List Call) :
    directory.Accounted calls ↔ directory.AllFresh calls := by
  induction calls generalizing directory with
  | nil => exact ⟨fun _ => trivial, fun _ => accurate.toConsistent⟩
  | cons call calls induction =>
      have sizes := apply_sizes directory call
      have step := accurate.apply_iff chunkSmall small call
      constructor
      · rintro ⟨-, -, rest⟩
        have consistent : (directory.apply call).Consistent := by
          cases calls with
          | nil => exact rest
          | cons next calls => exact rest.1
        have fresh := step.2 consistent
        exact ⟨fresh, (induction (step.1 fresh).1 (by omega) (by omega)).mp rest⟩
      · rintro ⟨fresh, rest⟩
        obtain ⟨kept, evicts⟩ := step.1 fresh
        exact ⟨accurate.toConsistent, evicts, (induction kept (by omega) (by omega)).mpr rest⟩

/-- From an empty directory of any sizes, the list, the table and the counter agree in every state
of a run, and evictions happen only at capacity, if and only if no insert overflows the counter
or meets a resident key that it does not itself evict. -/
theorem run_accounted_iff (chunkSize cacheSizeBytes : UInt64) (calls : List Call) :
    (new chunkSize.toNat cacheSizeBytes.toNat).Accounted calls ↔
      (new chunkSize.toNat cacheSizeBytes.toNat).AllFresh calls :=
  (accurate_new chunkSize.toNat cacheSizeBytes.toNat).accounted_iff
    chunkSize.toNat_lt cacheSizeBytes.toNat_lt calls

/-- A second insert of a resident key into a cache with room lists the key twice. -/
theorem resident_insert_not_accounted :
    ¬(new 4 12).Accounted
      [.insert ⟨1, 0⟩ (some fun _ => 7) 4, .insert ⟨1, 0⟩ (some fun _ => 7) 4] := by
  intro accounted
  have distinct := accounted.2.2.2.2.distinct
  revert distinct
  decide +kernel

end CacheDirectory
end MemTier
