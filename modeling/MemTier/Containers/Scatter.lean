import Mathlib.Data.List.Basic
import Mathlib.Tactic

/-!
# Scattered stores

Workers that each store into at most one cell of an array, and none into the cell of another, leave
the same array behind in whatever order they run.  A worker may fail, and so does a store outside
the array.
-/

namespace Containers.Scatter

variable {τ α : Type}

/-- Run workers one after another; each computes which cell to store into, if any. -/
def run (work : τ → Option (Option (Nat × α))) : List τ → List α → Option (List α)
  | [], cells => some cells
  | worker :: rest, cells => do
      match ← work worker with
      | none => run work rest cells
      | some (index, value) =>
          if index < cells.length then run work rest (cells.set index value) else none

/-- Workers that store into different cells of the array do not fail, every one of their values is
there in the end, and nothing else has changed. -/
theorem run_distinct {work : τ → Option (Option (Nat × α))} {stores : τ → Option (Nat × α)}
    {order : List τ} {cells : List α} (computes : ∀ worker ∈ order, work worker = some (stores worker))
    (distinct : order.Pairwise fun worker other =>
      ∀ store ∈ stores worker, ∀ store' ∈ stores other, store.1 ≠ store'.1)
    (inside : ∀ worker ∈ order, ∀ store ∈ stores worker, store.1 < cells.length) :
    ∃ after, run work order cells = some after ∧ after.length = cells.length ∧
      (∀ worker ∈ order, ∀ store ∈ stores worker, after[store.1]? = some store.2) ∧
      ∀ index, (∀ worker ∈ order, ∀ store ∈ stores worker, store.1 ≠ index) →
        after[index]? = cells[index]? := by
  induction order generalizing cells with
  | nil => exact ⟨cells, rfl, rfl, by simp, fun _ _ => rfl⟩
  | cons worker rest induction =>
      rw [List.forall_mem_cons] at computes inside
      rw [List.pairwise_cons] at distinct
      rw [run, computes.1]
      cases stored : stores worker with
      | none =>
          obtain ⟨after, ran, length, kept, others⟩ := induction computes.2 distinct.2 inside.2
          refine ⟨after, ran, length, ?_, fun index apart => ?_⟩
          · rw [List.forall_mem_cons, stored]
            exact ⟨by simp, kept⟩
          · exact others index fun other member => apart other (List.mem_cons_of_mem _ member)
      | some store =>
          obtain ⟨index, value⟩ := store
          have here : index < cells.length := inside.1 _ stored
          obtain ⟨after, ran, length, kept, others⟩ := @induction (cells.set index value)
            computes.2 distinct.2 (by simpa only [List.length_set] using inside.2)
          refine ⟨after, ?_, length.trans (List.length_set ..), ?_, fun other apart => ?_⟩
          · simpa only [Option.bind_eq_bind, Option.bind_some, if_pos here] using ran
          · rw [List.forall_mem_cons, stored]
            refine ⟨?_, kept⟩
            rintro _ ⟨⟩
            rw [others index, List.getElem?_set_self here]
            exact fun other member store stores' =>
              (distinct.1 other member _ stored store stores').symm
          · rw [List.forall_mem_cons] at apart
            rw [others other apart.2, List.getElem?_set_ne (apart.1 _ stored)]

/-- Workers that keep to the array do not fail, and a cell into which none of them stores keeps its
value. -/
theorem run_inside {work : τ → Option (Option (Nat × α))} {stores : τ → Option (Nat × α)}
    {order : List τ} {cells : List α} (computes : ∀ worker ∈ order, work worker = some (stores worker))
    (inside : ∀ worker ∈ order, ∀ store ∈ stores worker, store.1 < cells.length) :
    ∃ after, run work order cells = some after ∧
      ∀ index, (∀ worker ∈ order, ∀ store ∈ stores worker, store.1 ≠ index) →
        after[index]? = cells[index]? := by
  induction order generalizing cells with
  | nil => exact ⟨cells, rfl, fun _ _ => rfl⟩
  | cons worker rest induction =>
      rw [List.forall_mem_cons] at computes inside
      rw [run, computes.1]
      cases stored : stores worker with
      | none =>
          obtain ⟨after, ran, others⟩ := induction computes.2 inside.2
          exact ⟨after, ran, fun index apart =>
            others index fun other member => apart other (List.mem_cons_of_mem _ member)⟩
      | some store =>
          obtain ⟨index, value⟩ := store
          have here : index < cells.length := inside.1 _ stored
          obtain ⟨after, ran, others⟩ := @induction (cells.set index value) computes.2
            (by simpa only [List.length_set] using inside.2)
          refine ⟨after, ?_, fun other apart => ?_⟩
          · simpa only [Option.bind_eq_bind, Option.bind_some, if_pos here] using ran
          · rw [List.forall_mem_cons] at apart
            rw [others other apart.2, List.getElem?_set_ne (apart.1 _ stored)]

end Containers.Scatter
