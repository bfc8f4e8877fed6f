import Mathlib.Order.Interval.Finset.Nat
import Mathlib.Tactic

/-!
# Disjoint intervals

Disjoint intervals of numbers are together no longer than what they lie in.
-/

namespace Containers.Intervals

variable {ι : Type}

/-- Two intervals, each given by its start and its length, have no number in common. -/
def Apart (start length : ι → Nat) (first second : ι) : Prop :=
  length first = 0 ∨ length second = 0 ∨ start first + length first ≤ start second ∨
    start second + length second ≤ start first

instance (start length : ι → Nat) (first second : ι) :
    Decidable (Apart start length first second) :=
  inferInstanceAs (Decidable (_ ∨ _ ∨ _ ∨ _))

theorem Apart.symm {start length : ι → Nat} {first second : ι}
    (apart : Apart start length first second) : Apart start length second first := by
  unfold Apart at apart ⊢
  omega

/-- The numbers in some interval of a list. -/
def covered (start length : ι → Nat) : List ι → Finset Nat
  | [] => ∅
  | interval :: intervals =>
      Finset.Ico (start interval) (start interval + length interval) ∪
        covered start length intervals

theorem mem_covered {start length : ι → Nat} {intervals : List ι} {number : Nat} :
    number ∈ covered start length intervals ↔
      ∃ interval ∈ intervals, start interval ≤ number ∧ number < start interval + length interval := by
  induction intervals with
  | nil => simp [covered]
  | cons interval intervals induction => simp [covered, induction]

theorem card_covered {start length : ι → Nat} {intervals : List ι}
    (apart : intervals.Pairwise (Apart start length)) :
    (covered start length intervals).card = (intervals.map length).sum := by
  induction intervals with
  | nil => rfl
  | cons interval intervals induction =>
      rw [List.pairwise_cons] at apart
      have disjoint : Disjoint (Finset.Ico (start interval) (start interval + length interval))
          (covered start length intervals) := by
        rw [Finset.disjoint_left]
        intro number inside covered
        obtain ⟨other, member, other_le, lt_other⟩ := mem_covered.mp covered
        rw [Finset.mem_Ico] at inside
        have := apart.1 other member
        unfold Apart at this
        omega
      rw [covered, Finset.card_union_of_disjoint disjoint, Nat.card_Ico, induction apart.2,
        List.map_cons, List.sum_cons]
      omega

theorem sum_length_le {start length : ι → Nat} {intervals : List ι} {low high : Nat}
    (apart : intervals.Pairwise (Apart start length))
    (inside : ∀ interval ∈ intervals, low ≤ start interval ∧ start interval + length interval ≤ high) :
    (intervals.map length).sum ≤ high - low := by
  rw [← card_covered apart, ← Nat.card_Ico]
  apply Finset.card_le_card
  intro number member
  obtain ⟨interval, member, le_number, number_lt⟩ := mem_covered.mp member
  have := inside interval member
  rw [Finset.mem_Ico]
  omega

end Containers.Intervals
