import Mathlib.Data.List.Dedup
import MemTier.Containers.Recency

/-!
# The stack of recent keys

Least-recently-used caches of all sizes hold initial segments of one list, the keys used so far
with the most recent one first.  A larger cache therefore holds what a smaller one does.
-/

namespace Containers.Recency

variable {κ : Type} [DecidableEq κ]

/-- Use a key, bringing it in if it is not present. -/
def access (capacity : Nat) (key : κ) (keys : List κ) : List κ :=
  if key ∈ keys then key :: keys.erase key else enter capacity key keys

/-- The keys used so far, each once, the most recent one first. -/
def recent (history : List κ) : List κ := history.dedup.reverse

/-- A cache and the number of its hits after one more use. -/
def count (capacity : Nat) (state : List κ × Nat) (key : κ) : List κ × Nat :=
  (access capacity key state.1, if key ∈ state.1 then state.2 + 1 else state.2)

/-- A cache that was empty at first and the number of its hits. -/
def run (capacity : Nat) (history : List κ) : List κ × Nat :=
  history.foldl (count capacity) ([], 0)

theorem run_concat (capacity : Nat) (history : List κ) (key : κ) :
    run capacity (history ++ [key]) = count capacity (run capacity history) key := by
  rw [run, List.foldl_append]
  rfl

/-- A cache whose keys are named otherwise. -/
theorem map_access {μ : Type} [DecidableEq μ] {f : κ → μ} (injective : Function.Injective f)
    (capacity : Nat) (key : κ) (keys : List κ) :
    (access capacity key keys).map f = access capacity (f key) (keys.map f) := by
  rw [access, access]
  by_cases present : key ∈ keys
  · rw [if_pos present, if_pos (List.mem_map_of_mem present), List.map_cons,
      List.map_erase injective]
  · rw [if_neg present, if_neg (mt (List.mem_map_of_injective injective).mp present), enter,
      enter, List.length_map]
    split_ifs
    · rfl
    · rfl
    · rw [List.map_cons, List.map_dropLast]

/-! ## Recent keys -/

theorem dedup_concat (history : List κ) (key : κ) :
    (history ++ [key]).dedup = history.dedup.erase key ++ [key] := by
  induction history with
  | nil => simp
  | cons first rest induction =>
      rw [List.cons_append]
      by_cases again : first ∈ rest
      · rw [List.dedup_cons_of_mem (List.mem_append_left _ again), List.dedup_cons_of_mem again,
          induction]
      · rw [List.dedup_cons_of_notMem again]
        by_cases same : first = key
        · subst same
          rw [List.dedup_cons_of_mem (by simp), induction, List.erase_cons_head,
            List.erase_of_not_mem (mt List.mem_dedup.mp again)]
        · rw [List.dedup_cons_of_notMem (by simp [again, same]), induction,
            List.erase_cons_tail (by simpa using same), List.cons_append]

theorem recent_nodup (history : List κ) : (recent history).Nodup :=
  List.nodup_reverse.mpr history.nodup_dedup

theorem mem_recent {history : List κ} {key : κ} : key ∈ recent history ↔ key ∈ history := by
  rw [recent, List.mem_reverse, List.mem_dedup]

/-- A use brings its key to the front. -/
theorem recent_concat (history : List κ) (key : κ) :
    recent (history ++ [key]) = key :: (recent history).erase key := by
  rw [(recent_nodup history).erase_eq_filter, recent, recent, dedup_concat,
    history.nodup_dedup.erase_eq_filter, List.reverse_append, List.filter_reverse]
  rfl

theorem length_recent_concat (history : List κ) (key : κ) :
    (recent (history ++ [key])).length =
      (recent history).length + if key ∈ history then 0 else 1 := by
  rw [recent_concat, List.length_cons]
  split
  · rename_i seen
    have member := mem_recent.mpr seen
    have positive := List.length_pos_of_mem member
    rw [List.length_erase_of_mem member]
    omega
  · rename_i fresh
    rw [List.erase_of_not_mem (mt mem_recent.mp fresh)]

/-! ## Initial segments -/

theorem take_erase_of_mem {keys : List κ} {key : κ} {capacity : Nat}
    (member : key ∈ keys.take (capacity + 1)) :
    (keys.take (capacity + 1)).erase key = (keys.erase key).take capacity := by
  induction keys generalizing capacity with
  | nil => simp
  | cons first keys induction =>
      by_cases same : first = key
      · subst same
        simp
      · have different : ¬ (first == key) = true := by simpa using same
        rw [List.take_succ_cons] at member ⊢
        rw [List.erase_cons_tail different, List.erase_cons_tail different]
        cases capacity with
        | zero => simp [Ne.symm same] at member
        | succ capacity =>
            rw [List.take_succ_cons, induction]
            rcases List.mem_cons.mp member with equal | later
            · exact absurd equal.symm same
            · exact later

theorem take_erase_of_not_mem {keys : List κ} {key : κ} {capacity : Nat}
    (absent : key ∉ keys.take capacity) : (keys.erase key).take capacity = keys.take capacity := by
  induction keys generalizing capacity with
  | nil => simp
  | cons first keys induction =>
      cases capacity with
      | zero => simp
      | succ capacity =>
          rw [List.take_succ_cons, List.mem_cons, not_or] at absent
          rw [List.erase_cons_tail (by simpa using Ne.symm absent.1), List.take_succ_cons,
            List.take_succ_cons, induction absent.2]

/-- A cache that holds an initial segment of the recent keys still does after a use. -/
theorem access_take {capacity : Nat} (positive : 0 < capacity) (keys : List κ) (key : κ) :
    access capacity key (keys.take capacity) = (key :: keys.erase key).take capacity := by
  obtain ⟨capacity, rfl⟩ := Nat.exists_eq_succ_of_ne_zero positive.ne'
  rw [access, List.take_succ_cons]
  split
  · rename_i member
    rw [take_erase_of_mem member]
  · rename_i absent
    rw [enter, if_neg (Nat.succ_ne_zero capacity)]
    split
    · rename_i room
      rw [List.length_take] at room
      have whole : keys.take (capacity + 1) = keys := List.take_of_length_le (by omega)
      rw [whole] at absent ⊢
      rw [List.erase_of_not_mem absent, List.take_of_length_le (by omega)]
    · rename_i full
      rw [List.length_take] at full
      have shorter : key ∉ keys.take capacity := fun member =>
        absent ((List.take_subset_take_left keys (Nat.le_succ capacity)) member)
      rw [take_erase_of_not_mem shorter, List.dropLast_eq_take, List.length_take, List.take_take]
      congr 2
      omega

/-- The stack property: a cache holds the most recent keys, as many as fit. -/
theorem run_eq_take {capacity : Nat} (positive : 0 < capacity) (history : List κ) :
    (run capacity history).1 = (recent history).take capacity := by
  induction history using List.reverseRecOn with
  | nil => simp [run, recent]
  | append_singleton history key induction =>
      rw [run_concat, count, induction, access_take positive, recent_concat]

/-- A larger cache holds what a smaller one does. -/
theorem run_subset {small large : Nat} (positive : 0 < small) (le : small ≤ large)
    (history : List κ) : (run small history).1 ⊆ (run large history).1 := by
  rw [run_eq_take positive, run_eq_take (positive.trans_le le)]
  exact List.take_subset_take_left _ le

/-- A larger cache has as many hits. -/
theorem hits_mono {small large : Nat} (positive : 0 < small) (le : small ≤ large)
    (history : List κ) : (run small history).2 ≤ (run large history).2 := by
  induction history using List.reverseRecOn with
  | nil => exact Nat.le_refl 0
  | append_singleton history key induction =>
      have held := @run_subset κ _ small large positive le history
      rw [run_concat, run_concat, count, count]
      dsimp only
      split_ifs with here there
      · omega
      · exact absurd (held here) there
      · omega
      · omega

/-- The first use of a key is no hit. -/
theorem hits_add_distinct_le {capacity : Nat} (positive : 0 < capacity) (history : List κ) :
    (run capacity history).2 + (recent history).length ≤ history.length := by
  induction history using List.reverseRecOn with
  | nil => simp [run, recent]
  | append_singleton history key induction =>
      have held : key ∈ (run capacity history).1 → key ∈ history := fun member => by
        rw [run_eq_take positive] at member
        exact mem_recent.mp (List.mem_of_mem_take member)
      rw [run_concat, count, length_recent_concat, List.length_append, List.length_singleton]
      dsimp only
      split_ifs with here seen seen
      · omega
      · exact absurd (held here) seen
      · omega
      · omega

/-- With room for all keys, every other use is a hit. -/
theorem hits_add_distinct_eq {capacity : Nat} (positive : 0 < capacity) {history : List κ}
    (room : (recent history).length ≤ capacity) :
    (run capacity history).2 + (recent history).length = history.length := by
  induction history using List.reverseRecOn with
  | nil => simp [run, recent]
  | append_singleton history key induction =>
      rw [length_recent_concat] at room
      have before : (recent history).length ≤ capacity := by
        split_ifs at room <;> omega
      have held : key ∈ (run capacity history).1 ↔ key ∈ history := by
        rw [run_eq_take positive, List.take_of_length_le before, mem_recent]
      have earlier := induction before
      rw [run_concat, count, length_recent_concat, List.length_append, List.length_singleton]
      simp only [held]
      split_ifs <;> omega

end Containers.Recency
