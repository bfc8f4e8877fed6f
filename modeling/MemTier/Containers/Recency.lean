import Mathlib.Tactic

/-!
# Recency lists

The reference caches of this development: lists of distinct keys, most recent first.  A cache
that refreshes a key on every use is least-recently-used; one that never refreshes is
first-in-first-out.
-/

namespace Containers

namespace Recency

/-- Refresh a key that is present. -/
def use {κ : Type} [DecidableEq κ] (key : κ) (keys : List κ) : List κ :=
  if key ∈ keys then key :: keys.erase key else keys

/-- Bring in a new key, evicting the oldest one when the capacity is reached. -/
def enter {κ : Type} (capacity : Nat) (key : κ) (keys : List κ) : List κ :=
  if capacity = 0 then keys
  else if keys.length < capacity then key :: keys
  else key :: keys.dropLast

/-- The key that `enter` evicts. -/
def victim {κ : Type} (capacity : Nat) (keys : List κ) : Option κ :=
  if keys.length < capacity then none else keys.getLast?

theorem getLast?_of_victim {κ : Type} {capacity : Nat} {keys : List κ} {oldest : κ}
    (evicted : victim capacity keys = some oldest) : keys.getLast? = some oldest := by
  rw [victim] at evicted
  split at evicted
  · simp at evicted
  · exact evicted

/-- The oldest key is the one that eviction removes. -/
theorem mem_dropLast {κ : Type} {keys : List κ} (distinct : keys.Nodup) {oldest : κ}
    (last : keys.getLast? = some oldest) (key : κ) :
    key ∈ keys.dropLast ↔ key ≠ oldest ∧ key ∈ keys := by
  obtain ⟨front, rfl⟩ := List.getLast?_eq_some_iff.mp last
  rw [List.dropLast_concat]
  rw [List.nodup_append] at distinct
  constructor
  · intro member
    exact ⟨distinct.2.2 key member oldest (by simp), List.mem_append_left _ member⟩
  · rintro ⟨other, member⟩
    simpa [other] using member

theorem enter_nodup {κ : Type} {capacity : Nat} {key : κ} {keys : List κ} (distinct : keys.Nodup)
    (absent : key ∉ keys) : (enter capacity key keys).Nodup := by
  rw [enter]
  split_ifs
  · exact distinct
  · exact distinct.cons absent
  · exact (distinct.sublist (List.dropLast_sublist keys)).cons
      fun member => absent (List.dropLast_subset keys member)

theorem enter_length_le {κ : Type} {capacity : Nat} {key : κ} {keys : List κ}
    (bounded : keys.length ≤ capacity) : (enter capacity key keys).length ≤ capacity := by
  rw [enter]
  split_ifs
  · exact bounded
  · simp only [List.length_cons]
    omega
  · simp only [List.length_cons, List.length_dropLast]
    omega

theorem enter_subset {κ : Type} {capacity : Nat} {key : κ} {keys asked : List κ} (known : keys ⊆ asked) :
    enter capacity key keys ⊆ key :: asked := by
  rw [enter]
  split_ifs
  · exact List.subset_cons_of_subset _ known
  · exact List.cons_subset_cons _ known
  · exact List.cons_subset_cons _ (List.Subset.trans (List.dropLast_subset keys) known)

theorem mem_enter_self {κ : Type} {capacity : Nat} (positive : 0 < capacity) (key : κ) (held : List κ) :
    key ∈ enter capacity key held := by
  rw [enter, if_neg positive.ne']
  split <;> exact List.mem_cons_self

/-- What is not evicted stays. -/
theorem mem_enter_of_mem {κ : Type} {capacity : Nat} {key other : κ} {held : List κ} (distinct : held.Nodup)
    (member : other ∈ held) (kept : other ∉ victim capacity held) :
    other ∈ enter capacity key held := by
  rw [enter]
  split_ifs with none room
  · exact member
  · exact List.mem_cons_of_mem _ member
  · refine List.mem_cons_of_mem _ ?_
    obtain ⟨oldest, last⟩ := List.getLast?_isSome.mpr (List.ne_nil_of_mem member) |>
      Option.isSome_iff_exists.mp
    refine (mem_dropLast distinct last other).mpr ⟨?_, member⟩
    rintro rfl
    exact kept (by rw [victim, if_neg room]; exact last)

/-- The victim is gone afterwards. -/
theorem victim_not_mem_enter {κ : Type} {capacity : Nat} {key oldest : κ} {keys : List κ}
    (positive : 0 < capacity) (distinct : keys.Nodup) (absent : key ∉ keys)
    (evicted : victim capacity keys = some oldest) : oldest ∉ enter capacity key keys := by
  have last := getLast?_of_victim evicted
  have full : ¬ keys.length < capacity := by
    intro room
    simp [victim, room] at evicted
  rw [enter, if_neg positive.ne', if_neg full, List.mem_cons, mem_dropLast distinct last]
  rintro (rfl | ⟨different, -⟩)
  · exact absent (List.mem_of_getLast? last)
  · exact different rfl

end Recency
end Containers
