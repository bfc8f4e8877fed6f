import MemTier.Containers.RecencyStack
import MemTier.Containers.TwoLevel

/-!
# Stores against each other

A least-recently-used list is a store that is filled on demand, and so are two levels of keys.  Each
of them is conservative, and each of them is bounded, so that each can be compared with the other.
-/

namespace Containers

variable {κ : Type} [DecidableEq κ]

namespace Recency

theorem access_eq (capacity : Nat) (key : κ) (keys : List κ) :
    access capacity key keys = if key ∈ keys then use key keys else enter capacity key keys := by
  rw [access, use]
  split_ifs <;> rfl

/-- A least-recently-used list as a store. -/
@[simps]
def store (capacity : Nat) : DemandStore κ (List κ) where
  held := id
  serve keys key := access capacity key keys
  demand keys key := by
    dsimp only [id]
    rw [access_eq]
    split_ifs
    · exact List.subset_cons_of_subset _ (use_perm key keys).subset
    · exact enter_subset (List.Subset.refl _)

/-- What a store misses is no hit of the reference cache. -/
theorem misses_store (capacity : Nat) (history : List κ) :
    (store capacity).misses [] history + (run capacity history).2 = history.length := by
  have state : ∀ history : List κ,
      history.foldl (store capacity).serve [] = (run capacity history).1 := by
    intro history
    induction history using List.reverseRecOn with
    | nil => rfl
    | append_singleton history key induction =>
        rw [List.foldl_concat, induction, run_concat]
        rfl
  induction history using List.reverseRecOn with
  | nil => rfl
  | append_singleton history key induction =>
      rw [DemandStore.misses_append, state, run_concat, count, List.length_append,
        List.length_singleton, DemandStore.misses, DemandStore.misses]
      simp only [store_held, id_eq]
      split_ifs <;> omega

/-- Keys that are named otherwise are hit as often. -/
theorem run_map {μ : Type} [DecidableEq μ] {f : κ → μ} (injective : Function.Injective f)
    (capacity : Nat) (history : List κ) :
    run capacity (history.map f) =
      ((run capacity history).1.map f, (run capacity history).2) := by
  induction history using List.reverseRecOn with
  | nil => rfl
  | append_singleton history key induction =>
      rw [List.map_append, List.map_singleton, run_concat, run_concat, induction, count, count,
        map_access injective]
      simp only [List.mem_map_of_injective injective]

theorem access_nodup {capacity : Nat} {keys : List κ} (distinct : keys.Nodup) (key : κ) :
    (access capacity key keys).Nodup := by
  rw [access_eq]
  split_ifs with member
  · exact (use_perm key keys).nodup_iff.mpr distinct
  · exact enter_nodup distinct member

theorem guarding_store (capacity : Nat) :
    (store capacity : DemandStore κ _).Guarding List.Nodup capacity Front where
  step _ key distinct := access_nodup distinct key
  start keys _ := ⟨[], keys, rfl, rfl⟩
  held _ _ guarded := guarded.mem
  serve keys guarded key distinct front few := by
    refine ⟨insert key guarded, ?_, Finset.subset_insert _ _, Finset.Subset.refl _,
      fun _ => Finset.mem_insert_self _ _⟩
    rw [store_serve, access_eq]
    split_ifs with member
    · exact front.use distinct member
    · exact front.enter distinct member few

theorem bounded_store {capacity : Nat} (positive : 0 < capacity) :
    (store capacity : DemandStore κ _).Bounded (fun keys => keys.length ≤ capacity) capacity where
  step keys key bounded := by
    rw [store_serve, access_eq]
    split_ifs
    · exact (use_perm key keys).length_eq.trans_le bounded
    · exact enter_length_le bounded
  serves keys key _ := by
    rw [store_serve, access_eq]
    split_ifs with member
    · rw [use, if_pos member]
      exact List.mem_cons_self
    · exact mem_enter_self positive key keys
  card keys bounded := (List.toFinset_card_le keys).trans bounded

end Recency

namespace TwoLevel

variable {upperRoom lowerRoom : Nat}

theorem upper_length_fetch {store : TwoLevel κ} (bounded : store.upper.length ≤ upperRoom)
    (key : κ) : (store.fetch upperRoom lowerRoom key).upper.length ≤ upperRoom := by
  by_cases above : key ∈ store.upper
  · rwa [fetch_of_mem above]
  · rw [upper_fetch above]
    exact Recency.enter_length_le bounded

theorem lower_length_fetch {store : TwoLevel κ} (bounded : store.lower.length ≤ lowerRoom)
    (key : κ) : (store.fetch upperRoom lowerRoom key).lower.length ≤ lowerRoom := by
  by_cases above : key ∈ store.upper
  · rwa [fetch_of_mem above]
  · rw [lower_fetch above]
    split_ifs
    · exact (Recency.use_perm key store.lower).length_eq.trans_le bounded
    · exact Recency.enter_length_le bounded

theorem mem_upper_fetch (positive : 0 < upperRoom) (store : TwoLevel κ) (key : κ) :
    key ∈ (store.fetch upperRoom lowerRoom key).upper := by
  by_cases above : key ∈ store.upper
  · rwa [fetch_of_mem above]
  · rw [upper_fetch above]
    exact Recency.mem_enter_self positive key store.upper

theorem bounded_upper (positive : 0 < upperRoom) :
    (upperStore upperRoom lowerRoom).Bounded
      (fun store : TwoLevel κ => store.upper.length ≤ upperRoom) upperRoom where
  step _ key bounded := upper_length_fetch bounded key
  serves store key _ := mem_upper_fetch positive store key
  card store bounded := (List.toFinset_card_le store.upper).trans bounded

theorem bounded_whole (positive : 0 < upperRoom) :
    (wholeStore upperRoom lowerRoom).Bounded (fun store : TwoLevel κ =>
      store.upper.length ≤ upperRoom ∧ store.lower.length ≤ lowerRoom) (upperRoom + lowerRoom) where
  step _ key bounded := ⟨upper_length_fetch bounded.1 key, lower_length_fetch bounded.2 key⟩
  serves store key _ := List.mem_append_left _ (mem_upper_fetch positive store key)
  card store bounded := by
    refine (List.toFinset_card_le _).trans ?_
    rw [wholeStore_held, List.length_append]
    exact Nat.add_le_add bounded.1 bounded.2

/-! ## Two levels and one list -/

/-- What both levels miss, and what a least-recently-used list of any size misses on the same trace,
bound each other, by as much as the sizes differ. -/
theorem misses_whole_run (positive : 0 < upperRoom) {capacity : Nat} (nonempty : 0 < capacity)
    (trace : List κ) :
    let misses := (wholeStore upperRoom lowerRoom).misses empty trace
    (capacity ≤ lowerRoom → (lowerRoom + 1 - capacity) * misses ≤
        lowerRoom * (trace.length - (Recency.run capacity trace).2)) ∧
      (upperRoom + lowerRoom ≤ capacity →
        (capacity + 1 - (upperRoom + lowerRoom)) * (trace.length - (Recency.run capacity trace).2) ≤
          capacity * misses) := by
  intro misses
  have split := Recency.misses_store capacity trace
  have listed : trace.length - (Recency.run capacity trace).2 =
      (Recency.store capacity).misses [] trace := by omega
  rw [listed]
  constructor
  · intro smaller
    have conservative := (@guarding_whole κ _ upperRoom lowerRoom).conservative
      (show empty.lower.Nodup from List.nodup_nil) trace
    have bound := conservative.competitive (Recency.bounded_store nonempty) nonempty smaller
      (show ([] : List κ).length ≤ capacity from Nat.zero_le _) rfl
    rwa [DemandStore.loads_log, DemandStore.map_log] at bound
  · intro larger
    have conservative := (Recency.guarding_store capacity).conservative List.nodup_nil trace
    have bound := conservative.competitive (bounded_whole positive) (by omega) larger
      (show (empty : TwoLevel κ).upper.length ≤ upperRoom ∧ empty.lower.length ≤ lowerRoom from
        ⟨Nat.zero_le _, Nat.zero_le _⟩) rfl
    rwa [DemandStore.loads_log, DemandStore.map_log] at bound

/-- The same for the upper level alone. -/
theorem misses_upper_run (positive : 0 < upperRoom) {capacity : Nat} (nonempty : 0 < capacity)
    (trace : List κ) :
    let misses := (upperStore upperRoom lowerRoom).misses empty trace
    (capacity ≤ upperRoom → (upperRoom + 1 - capacity) * misses ≤
        upperRoom * (trace.length - (Recency.run capacity trace).2)) ∧
      (upperRoom ≤ capacity →
        (capacity + 1 - upperRoom) * (trace.length - (Recency.run capacity trace).2) ≤
          capacity * misses) := by
  intro misses
  have split := Recency.misses_store capacity trace
  have listed : trace.length - (Recency.run capacity trace).2 =
      (Recency.store capacity).misses [] trace := by omega
  rw [listed]
  constructor
  · intro smaller
    have conservative := (@guarding_upper κ _ upperRoom lowerRoom).conservative
      (show empty.upper.Nodup from List.nodup_nil) trace
    have bound := conservative.competitive (Recency.bounded_store nonempty) nonempty smaller
      (show ([] : List κ).length ≤ capacity from Nat.zero_le _) rfl
    rwa [DemandStore.loads_log, DemandStore.map_log] at bound
  · intro larger
    have conservative := (Recency.guarding_store capacity).conservative List.nodup_nil trace
    have bound := conservative.competitive (@bounded_upper κ _ upperRoom lowerRoom positive)
      positive larger
      (show (empty : TwoLevel κ).upper.length ≤ upperRoom from Nat.zero_le _) rfl
    rwa [DemandStore.loads_log, DemandStore.map_log] at bound

end TwoLevel
end Containers
