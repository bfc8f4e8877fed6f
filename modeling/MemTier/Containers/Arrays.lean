import Mathlib.Data.List.Sort
import Mathlib.Tactic

/-!
# Arrays of numbers

What NumPy does to one-dimensional arrays, on lists.
-/

namespace Containers.Arrays

variable {α : Type} [LinearOrder α]

/-- `np.unique`: the values that occur, each once, in increasing order. -/
def unique (values : List α) : List α := values.dedup.insertionSort (· ≤ ·)

@[simp] theorem mem_unique {values : List α} {value : α} : value ∈ unique values ↔ value ∈ values := by
  rw [unique, List.mem_insertionSort, List.mem_dedup]

theorem unique_increasing (values : List α) : (unique values).Pairwise (· < ·) := by
  have sorted := List.pairwise_insertionSort (· ≤ ·) values.dedup
  have distinct : (unique values).Nodup :=
    (List.perm_insertionSort (· ≤ ·) values.dedup).nodup_iff.mpr values.nodup_dedup
  exact (sorted.and distinct).imp fun ⟨le, ne⟩ => lt_of_le_of_ne le ne

@[simp] theorem unique_singleton (value : α) : unique [value] = [value] := rfl

/-! ## Counting distinct values -/

theorem mem_foldl_union {sets : List (Finset α)} {start : Finset α} {value : α} :
    value ∈ sets.foldl (· ∪ ·) start ↔ value ∈ start ∨ ∃ set ∈ sets, value ∈ set := by
  induction sets generalizing start with
  | nil => simp
  | cons set sets induction =>
      rw [List.foldl_cons, induction, Finset.mem_union]
      simp [or_assoc]

/-- Joined sets have as many values as all of them together exactly if they are disjoint. -/
theorem card_foldl_union (sets : List (Finset α)) (start : Finset α) :
    (sets.foldl (· ∪ ·) start).card ≤ start.card + (sets.map Finset.card).sum ∧
      ((sets.foldl (· ∪ ·) start).card = start.card + (sets.map Finset.card).sum ↔
        sets.Pairwise Disjoint ∧ ∀ set ∈ sets, Disjoint start set) := by
  induction sets generalizing start with
  | nil => simp
  | cons set sets induction =>
      obtain ⟨le, eq_iff⟩ := induction (start ∪ set)
      have union_le := Finset.card_union_le start set
      have union_eq := Finset.card_union_eq_card_add_card (s := start) (t := set)
      rw [List.foldl_cons, List.map_cons, List.sum_cons, List.pairwise_cons, List.forall_mem_cons]
      refine ⟨by omega, ?_⟩
      constructor
      · intro equal
        obtain ⟨apart, other⟩ := eq_iff.mp (by omega)
        have here := union_eq.mp (by omega)
        exact ⟨⟨fun later member => (Finset.disjoint_union_left.mp (other later member)).2, apart⟩,
          here, fun later member => (Finset.disjoint_union_left.mp (other later member)).1⟩
      · rintro ⟨⟨first, apart⟩, here, other⟩
        have joined := eq_iff.mpr ⟨apart, fun later member =>
          Finset.disjoint_union_left.mpr ⟨other later member, first later member⟩⟩
        have both := union_eq.mpr here
        omega

theorem card_foldl_union_eq_iff (sets : List (Finset α)) :
    (sets.foldl (· ∪ ·) ∅).card = (sets.map Finset.card).sum ↔ sets.Pairwise Disjoint := by
  have joined := (card_foldl_union sets ∅).2
  rw [Finset.card_empty, Nat.zero_add] at joined
  rw [joined]
  exact and_iff_left fun set _ => Finset.disjoint_empty_left set

end Containers.Arrays
