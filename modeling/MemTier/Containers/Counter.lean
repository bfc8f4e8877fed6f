import Mathlib.Data.List.Sort
import Mathlib.Tactic

/-!
# Counters

A dictionary that counts keys, in the order in which they first came, and the keys that came most
often.
-/

namespace Containers

/-- Keys and how often each of them came, the first one to come first. -/
abbrev Counter (κ : Type) : Type := List (κ × Nat)

namespace Counter

variable {κ : Type} [DecidableEq κ] {counter : Counter κ} {history : List κ}

/-- One more of a key. -/
def add (key : κ) : Counter κ → Counter κ
  | [] => [(key, 1)]
  | (other, count) :: rest =>
      if other = key then (other, count + 1) :: rest else (other, count) :: add key rest

/-- `counter.update(keys)`. -/
def update (counter : Counter κ) (keys : List κ) : Counter κ :=
  keys.foldl (fun counter key => add key counter) counter

/-- The keys counted, in the order in which they first came. -/
def keys (counter : Counter κ) : List κ := counter.map Prod.fst

/-- `sum(counter.values())`. -/
def total (counter : Counter κ) : Nat := (counter.map Prod.snd).sum

omit [DecidableEq κ] in
@[simp] theorem keys_cons (entry : κ × Nat) (rest : Counter κ) :
    keys (entry :: rest) = entry.1 :: keys rest := rfl

omit [DecidableEq κ] in
@[simp] theorem total_cons (entry : κ × Nat) (rest : Counter κ) :
    total (entry :: rest) = entry.2 + total rest := List.sum_cons

/-! ## Counting -/

theorem keys_add (key : κ) (counter : Counter κ) :
    (add key counter).keys = if key ∈ counter.keys then counter.keys else counter.keys ++ [key] := by
  induction counter with
  | nil => simp [add, keys]
  | cons entry rest induction =>
      obtain ⟨other, count⟩ := entry
      rw [add, keys_cons]
      by_cases same : other = key
      · rw [if_pos same, if_pos (by simp [same]), keys_cons]
      · rw [if_neg same, keys_cons, induction]
        by_cases present : key ∈ keys rest
        · rw [if_pos present, if_pos (List.mem_cons_of_mem _ present)]
        · rw [if_neg present, if_neg (by simp [present, Ne.symm same]), List.cons_append]

theorem total_add (key : κ) (counter : Counter κ) : (add key counter).total = counter.total + 1 := by
  induction counter with
  | nil => rfl
  | cons entry rest induction =>
      obtain ⟨other, count⟩ := entry
      rw [add]
      split_ifs with same <;> simp only [total_cons] at induction ⊢ <;> omega

/-- The counter of everything that came. -/
structure Counts (counter : Counter κ) (history : List κ) : Prop where
  nodup : counter.keys.Nodup
  mem : ∀ key, key ∈ counter.keys ↔ key ∈ history
  count : ∀ entry ∈ counter, entry.2 = history.count entry.1
  total : counter.total = history.length

theorem counts_nil : Counts ([] : Counter κ) [] where
  nodup := List.nodup_nil
  mem _ := Iff.rfl
  count _ := nofun
  total := rfl

/-- The counts of the other keys stay as they are. -/
theorem mem_add {key : κ} {entry : κ × Nat} (distinct : counter.keys.Nodup)
    (member : entry ∈ add key counter) :
    (entry.1 ≠ key ∧ entry ∈ counter) ∨
      entry.1 = key ∧ (entry.2 = 1 ∧ key ∉ counter.keys ∨
        ∃ count, (key, count) ∈ counter ∧ entry.2 = count + 1) := by
  induction counter with
  | nil =>
      obtain rfl := List.mem_singleton.mp member
      exact .inr ⟨rfl, .inl ⟨rfl, List.not_mem_nil⟩⟩
  | cons first rest induction =>
      obtain ⟨other, count⟩ := first
      obtain ⟨fresh, distinct⟩ := List.nodup_cons.mp distinct
      rw [add] at member
      by_cases same : other = key
      · subst same
        rw [if_pos rfl] at member
        rcases List.mem_cons.mp member with rfl | later
        · exact .inr ⟨rfl, .inr ⟨count, List.mem_cons_self, rfl⟩⟩
        · exact .inl ⟨fun same => fresh (List.mem_map.mpr ⟨entry, later, same⟩),
            List.mem_cons_of_mem _ later⟩
      · rw [if_neg same] at member
        rcases List.mem_cons.mp member with rfl | later
        · exact .inl ⟨same, List.mem_cons_self⟩
        · rcases induction distinct later with ⟨differs, there⟩ | ⟨equal, rest_cases⟩
          · exact .inl ⟨differs, List.mem_cons_of_mem _ there⟩
          · refine .inr ⟨equal, ?_⟩
            rcases rest_cases with ⟨one, absent⟩ | ⟨before, there, more⟩
            · exact .inl ⟨one, by simpa [Ne.symm same] using absent⟩
            · exact .inr ⟨before, List.mem_cons_of_mem _ there, more⟩

theorem Counts.add (counts : Counts counter history) (key : κ) :
    Counts (add key counter) (history ++ [key]) where
  nodup := by
    rw [keys_add]
    split_ifs with present
    · exact counts.nodup
    · rw [List.nodup_append]
      refine ⟨counts.nodup, List.nodup_singleton key, fun other member last single same => ?_⟩
      obtain rfl := List.mem_singleton.mp single
      exact present (same ▸ member)
  mem other := by
    rw [keys_add, List.mem_append, List.mem_singleton, ← counts.mem]
    split_ifs with present
    · exact ⟨.inl, fun either => either.elim id fun same => same ▸ present⟩
    · rw [List.mem_append, List.mem_singleton]
  count entry member := by
    rw [List.count_append, List.count_singleton]
    rcases mem_add counts.nodup member with
      ⟨differs, there⟩ | ⟨rfl, ⟨one, absent⟩ | ⟨before, there, more⟩⟩
    · rw [counts.count entry there, if_neg (by simpa using Ne.symm differs), Nat.add_zero]
    · rw [one, List.count_eq_zero_of_not_mem (mt (counts.mem _).mpr absent)]
      simp
    · have earlier := counts.count _ there
      dsimp only at earlier
      rw [more, earlier]
      simp
  total := by rw [total_add, counts.total, List.length_append, List.length_singleton]

theorem Counts.update (counts : Counts counter history) (later : List κ) :
    Counts (counter.update later) (history ++ later) := by
  induction later generalizing counter history with
  | nil => rwa [List.append_nil]
  | cons key later induction =>
      have after := induction (counts.add key)
      rwa [List.append_assoc] at after

theorem Counts.length_eq (counts : Counts counter history) :
    counter.length = history.toFinset.card := by
  have size : counter.keys.toFinset.card = counter.length := by
    rw [List.toFinset_card_of_nodup counts.nodup, keys, List.length_map]
  rw [← size]
  congr 1
  ext key
  rw [List.mem_toFinset, List.mem_toFinset]
  exact counts.mem key

/-! ## The most common keys -/

/-- `counter.most_common()`: by falling counts, and of equal counts the first to come first. -/
def mostCommon (counter : Counter κ) : Counter κ :=
  counter.insertionSort fun first second => second.2 ≤ first.2

omit [DecidableEq κ] in
theorem mostCommon_perm (counter : Counter κ) : counter.mostCommon.Perm counter :=
  List.perm_insertionSort _ _

omit [DecidableEq κ] in
theorem mostCommon_pairwise (counter : Counter κ) :
    counter.mostCommon.Pairwise fun first second => second.2 ≤ first.2 := by
  have : Std.Total fun first second : κ × Nat => second.2 ≤ first.2 :=
    ⟨fun first second => Nat.le_total second.2 first.2⟩
  have : IsTrans (κ × Nat) fun first second => second.2 ≤ first.2 :=
    ⟨fun _ _ _ below above => above.trans below⟩
  exact List.pairwise_insertionSort _ counter

/-- The keys of the first `n` entries have at least their share of the whole. -/
theorem share_le_sum_take {values : List Nat} (falling : values.Pairwise (· ≥ ·)) {n : Nat} :
    min n values.length * values.sum ≤ (values.take n).sum * values.length := by
  rw [← List.take_append_drop n values, List.pairwise_append] at falling
  obtain ⟨-, -, dominates⟩ := falling
  have pairs : ∀ front back : List Nat, (∀ first ∈ front, ∀ second ∈ back, first ≥ second) →
      front.length * back.sum ≤ front.sum * back.length := by
    intro front back above
    induction front with
    | nil => simp
    | cons first front induction =>
        rw [List.forall_mem_cons] at above
        have single : back.sum ≤ back.length * first := by
          have bounded := List.sum_le_card_nsmul back first above.1
          rwa [smul_eq_mul] at bounded
        have others := induction above.2
        rw [List.length_cons, List.sum_cons, Nat.succ_mul, Nat.add_mul, Nat.mul_comm first]
        omega
  have sums := pairs _ _ dominates
  have split : values.sum = (values.take n).sum + (values.drop n).sum := by
    rw [← List.sum_append, List.take_append_drop]
  have lengths : values.length = min n values.length + (values.drop n).length := by
    rw [List.length_drop]
    omega
  rw [List.length_take] at sums
  rw [split, Nat.mul_add]
  conv_rhs => rw [lengths, Nat.mul_add]
  rw [Nat.mul_comm (min n values.length)]
  omega

end Counter
end Containers
