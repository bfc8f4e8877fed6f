import MemTier.Containers.Recency

/-!
# Stores filled on demand

A store that takes a key in only when the key is requested misses every key once at least, and a
store that has room for all the keys misses none of them twice.
-/

namespace Containers

/-- A store of keys `κ` with states `σ` that takes in nothing but the key requested. -/
structure DemandStore (κ σ : Type) where
  held : σ → List κ
  serve : σ → κ → σ
  demand : ∀ state key, held (serve state key) ⊆ key :: held state

namespace DemandStore

variable {κ σ : Type} [DecidableEq κ] (store : DemandStore κ σ)

/-- Requests of a trace for keys that are not held. -/
def misses : σ → List κ → Nat
  | _, [] => 0
  | state, key :: trace =>
      (if key ∈ store.held state then 0 else 1) + misses (store.serve state key) trace

theorem misses_append (state : σ) (first second : List κ) :
    store.misses state (first ++ second) =
      store.misses state first + store.misses (first.foldl store.serve state) second := by
  induction first generalizing state with
  | nil => exact (Nat.zero_add _).symm
  | cons key first induction =>
      rw [List.cons_append, misses, misses, induction, List.foldl_cons, Nat.add_assoc]

/-- The keys of a trace that a state does not hold. -/
def missing (state : σ) (trace : List κ) : Finset κ :=
  trace.toFinset \ (store.held state).toFinset

theorem mem_missing {state : σ} {trace : List κ} {key : κ} :
    key ∈ store.missing state trace ↔ key ∈ trace ∧ key ∉ store.held state := by
  rw [missing, Finset.mem_sdiff, List.mem_toFinset, List.mem_toFinset]

omit [DecidableEq κ] in
/-- Nothing is held that was neither held nor requested. -/
theorem held_foldl_subset (state : σ) (trace : List κ) :
    store.held (trace.foldl store.serve state) ⊆ trace ++ store.held state := by
  induction trace generalizing state with
  | nil => exact List.Subset.refl _
  | cons key trace induction =>
      intro other member
      rcases List.mem_append.mp (induction (store.serve state key) member) with listed | held
      · exact List.mem_cons_of_mem _ (List.mem_append_left _ listed)
      · rcases List.mem_cons.mp (store.demand state key held) with rfl | earlier
        · exact List.mem_cons_self
        · exact List.mem_cons_of_mem _ (List.mem_append_right _ earlier)

/-- No key comes in without a miss. -/
theorem card_missing_le_misses (state : σ) (trace : List κ) :
    (store.missing state trace).card ≤ store.misses state trace := by
  induction trace generalizing state with
  | nil => simp [missing]
  | cons key trace induction =>
      have later := induction (store.serve state key)
      rw [misses]
      split_ifs with member
      · refine (Finset.card_le_card fun other => ?_).trans (later.trans (Nat.le_add_left _ _))
        rw [mem_missing, mem_missing, List.mem_cons]
        rintro ⟨rfl | listed, absent⟩
        · exact absurd member absent
        · refine ⟨listed, fun held => ?_⟩
          rcases List.mem_cons.mp (store.demand state key held) with rfl | earlier
          · exact absent member
          · exact absent earlier
      · have covered : store.missing state (key :: trace) ⊆
            insert key (store.missing (store.serve state key) trace) := by
          intro other
          rw [Finset.mem_insert, mem_missing, mem_missing, List.mem_cons]
          rintro ⟨rfl | listed, absent⟩
          · exact .inl rfl
          · by_cases same : other = key
            · exact .inl same
            · refine .inr ⟨listed, fun held => ?_⟩
              rcases List.mem_cons.mp (store.demand state key held) with here | earlier
              · exact same here
              · exact absent earlier
        have bound := (Finset.card_le_card covered).trans (Finset.card_insert_le _ _)
        omega

/-- What a store with room for all the keys of a set does on requests for them: it keeps what it
holds and takes in what it is asked for. -/
structure HasRoom (keeps : σ → Prop) (keys : Finset κ) : Prop where
  step : ∀ state key, keeps state → (∀ other ∈ store.held state, other ∈ keys) → key ∈ keys →
    keeps (store.serve state key)
  stays : ∀ state key, keeps state → (∀ other ∈ store.held state, other ∈ keys) → key ∈ keys →
    key :: store.held state ⊆ store.held (store.serve state key)

/-- With room for all the keys, each is missed once at most. -/
theorem HasRoom.misses_eq {store : DemandStore κ σ} {keeps : σ → Prop} {keys : Finset κ}
    (room : store.HasRoom keeps keys) {state : σ} (kept : keeps state)
    (inside : ∀ other ∈ store.held state, other ∈ keys) {trace : List κ}
    (listed : ∀ key ∈ trace, key ∈ keys) :
    store.misses state trace = (store.missing state trace).card := by
  refine Nat.le_antisymm ?_ (store.card_missing_le_misses state trace)
  induction trace generalizing state with
  | nil => exact Nat.zero_le _
  | cons key trace induction =>
      rw [List.forall_mem_cons] at listed
      have stays := room.stays state key kept inside listed.1
      have later := induction (room.step state key kept inside listed.1) (by
        intro other held
        rcases List.mem_cons.mp (store.demand state key held) with rfl | earlier
        · exact listed.1
        · exact inside other earlier) listed.2
      have shrinks : store.missing (store.serve state key) trace ⊆
          (store.missing state (key :: trace)).erase key := by
        intro other
        rw [Finset.mem_erase, mem_missing, mem_missing, List.mem_cons]
        rintro ⟨member, absent⟩
        refine ⟨?_, .inr member, fun held => absent (stays (List.mem_cons_of_mem _ held))⟩
        rintro rfl
        exact absent (stays List.mem_cons_self)
      rw [misses]
      split_ifs with member
      · have bound := Finset.card_le_card (shrinks.trans (Finset.erase_subset _ _))
        omega
      · have fresh : key ∈ store.missing state (key :: trace) :=
          store.mem_missing.mpr ⟨List.mem_cons_self, member⟩
        have bound := Finset.card_le_card shrinks
        rw [Finset.card_erase_of_mem fresh] at bound
        have positive := Finset.card_pos.mpr ⟨key, fresh⟩
        omega

end DemandStore
end Containers
