import MemTier.Containers.Recency

/-!
# Bringing in a set of keys

Keys are brought into a recency list one after another; those already present are left where they
stand.  All of them are present afterwards exactly if none that was dealt with is evicted for a
later one.
-/

namespace Containers.Recency

variable {κ : Type} [DecidableEq κ]

/-- Bring in the keys that are missing, one after another. -/
def fill (capacity : Nat) : List κ → List κ → List κ
  | [], held => held
  | key :: wanted, held =>
      fill capacity wanted (if key ∈ held then held else enter capacity key held)

/-- Nothing is evicted that was dealt with before. -/
def Spares (capacity : Nat) : (passed wanted held : List κ) → Prop
  | _, [], _ => True
  | passed, key :: wanted, held =>
      if key ∈ held then Spares capacity (key :: passed) wanted held
      else (∀ oldest ∈ victim capacity held, oldest ∉ passed) ∧
        Spares capacity (key :: passed) wanted (enter capacity key held)

instance Spares.decidable (capacity : Nat) :
    ∀ passed wanted held : List κ, Decidable (Spares capacity passed wanted held)
  | _, [], _ => instDecidableTrue
  | passed, key :: wanted, held =>
      have := Spares.decidable capacity (key :: passed) wanted held
      have := Spares.decidable capacity (key :: passed) wanted (enter capacity key held)
      have := Option.decidableForallMem (o := victim capacity held)
        (p := fun oldest => oldest ∉ passed)
      inferInstanceAs (Decidable (if key ∈ held then _ else _ ∧ _))

/-- Only keys that are asked for are brought in. -/
theorem not_mem_fill {capacity : Nat} {wanted held : List κ} {key : κ} (unwanted : key ∉ wanted)
    (absent : key ∉ held) : key ∉ fill capacity wanted held := by
  induction wanted generalizing held with
  | nil => exact absent
  | cons other wanted induction =>
      rw [List.mem_cons, not_or] at unwanted
      refine induction unwanted.2 ?_
      split
      · exact absent
      · exact fun member => (List.mem_cons.mp (enter_subset (List.Subset.refl held) member)).elim
          unwanted.1 absent

/-- As long as nothing dealt with is evicted, everything is there in the end. -/
theorem Spares.subset_fill {capacity : Nat} (positive : 0 < capacity) {passed wanted held : List κ}
    (spares : Spares capacity passed wanted held) (distinct : held.Nodup) (there : passed ⊆ held) :
    passed ⊆ fill capacity wanted held ∧ wanted ⊆ fill capacity wanted held := by
  induction wanted generalizing passed held with
  | nil => exact ⟨there, List.nil_subset _⟩
  | cons key wanted induction =>
      rw [Spares] at spares
      rw [fill]
      split_ifs at spares ⊢ with resident
      · obtain ⟨passed_in, wanted_in⟩ :=
          induction spares distinct (List.cons_subset.mpr ⟨resident, there⟩)
        obtain ⟨key_in, passed_in⟩ := List.cons_subset.mp passed_in
        exact ⟨passed_in, List.cons_subset.mpr ⟨key_in, wanted_in⟩⟩
      · have there' : key :: passed ⊆ enter capacity key held := by
          refine List.cons_subset.mpr ⟨mem_enter_self positive key held, fun other member => ?_⟩
          exact mem_enter_of_mem distinct (there member) fun evicted =>
            spares.1 other evicted member
        obtain ⟨passed_in, wanted_in⟩ := induction spares.2 (enter_nodup distinct resident) there'
        obtain ⟨key_in, passed_in⟩ := List.cons_subset.mp passed_in
        exact ⟨passed_in, List.cons_subset.mpr ⟨key_in, wanted_in⟩⟩

/-- A key that was dealt with and is evicted does not come back. -/
theorem spares_of_subset_fill {capacity : Nat} (positive : 0 < capacity)
    {passed wanted held : List κ} (distinct : held.Nodup) (different : wanted.Nodup)
    (apart : ∀ key ∈ passed, key ∉ wanted) (there : passed ⊆ fill capacity wanted held) :
    wanted ⊆ fill capacity wanted held → Spares capacity passed wanted held := by
  induction wanted generalizing passed held with
  | nil => exact fun _ => trivial
  | cons key wanted induction =>
      intro wanted_in
      rw [List.nodup_cons] at different
      rw [fill] at there wanted_in
      obtain ⟨key_in, wanted_in⟩ := List.cons_subset.mp wanted_in
      have apart' : ∀ other ∈ key :: passed, other ∉ wanted := by
        rintro other member later
        rcases List.mem_cons.mp member with rfl | member
        · exact different.1 later
        · exact apart other member (List.mem_cons_of_mem _ later)
      have there' := List.cons_subset.mpr ⟨key_in, there⟩
      rw [Spares]
      split_ifs at there' wanted_in ⊢ with resident
      · exact induction distinct different.2 apart' there' wanted_in
      · refine ⟨fun oldest evicted member => ?_,
          induction (enter_nodup distinct resident) different.2 apart' there' wanted_in⟩
        have gone := victim_not_mem_enter positive distinct resident evicted
        exact not_mem_fill (apart' oldest (List.mem_cons_of_mem _ member)) gone
          (there' (List.mem_cons_of_mem _ member))

/-- All keys are there in the end if and only if none that was dealt with is evicted. -/
theorem subset_fill_iff {capacity : Nat} (positive : 0 < capacity) {wanted held : List κ}
    (distinct : held.Nodup) (different : wanted.Nodup) :
    wanted ⊆ fill capacity wanted held ↔ Spares capacity [] wanted held :=
  ⟨spares_of_subset_fill positive distinct different (by simp) (List.nil_subset _),
    fun spares => (spares.subset_fill positive distinct (List.nil_subset _)).2⟩

end Containers.Recency
