import MemTier.Embedding.Hierarchy

/-!
# Prefetching a batch

A prefetch brings blocks into device memory, but device memory is a queue of arrivals: a block that
was there already is not renewed, and may be the next one to go.
-/

namespace MemTier.Embedding

open Containers Resumption

/-! ## Blocks that stay -/

section

variable {capacity : Nat} {order asked batch : List BlockId}

/-- In a batch without repetitions, no miss evicts a block that the batch has asked for if and only
if all of them are there in the end. -/
theorem keepsAsked_iff (positive : 0 < capacity) (distinct : order.Nodup) (known : asked ⊆ order)
    (fresh : (asked ++ batch).Nodup) :
    KeepsAsked capacity order asked batch ↔
      ∀ block ∈ asked ++ batch, block ∈ TwoLevel.arrivals capacity order batch := by
  induction batch generalizing order asked with
  | nil =>
      rw [List.append_nil]
      exact iff_of_true trivial known
  | cons block batch induction =>
      have moved : ((block :: asked) ++ batch).Perm (asked ++ block :: batch) :=
        List.perm_middle.symm
      have fresh' := moved.nodup_iff.mpr fresh
      have same : (∀ other ∈ asked ++ block :: batch,
            other ∈ TwoLevel.arrivals capacity order (block :: batch)) ↔
          ∀ other ∈ (block :: asked) ++ batch,
            other ∈ TwoLevel.arrivals capacity order (block :: batch) :=
        forall_congr' fun other => by rw [moved.mem_iff]
      rw [KeepsAsked, same]
      by_cases member : block ∈ order
      · rw [if_pos member, TwoLevel.arrivals_cons_of_mem member]
        exact induction distinct (List.cons_subset.mpr ⟨member, known⟩) fresh'
      · rw [if_neg member, TwoLevel.arrivals_cons_of_notMem member]
        have distinct' := @Recency.enter_nodup _ capacity block order distinct member
        have entered := @Recency.mem_enter_self _ capacity positive block order
        constructor
        · rintro ⟨kept, later⟩
          refine (induction distinct' (List.cons_subset.mpr ⟨entered, fun other there => ?_⟩)
            fresh').mp later
          exact Recency.mem_enter_of_mem distinct (known there)
            fun evicted => kept other evicted there
        · intro present
          have kept : ∀ victim ∈ Recency.victim capacity order, victim ∉ asked := by
            intro victim evicted there
            have gone := Recency.victim_not_mem_enter positive distinct member evicted
            have back := present victim
              (List.mem_append_left _ (List.mem_cons_of_mem _ there))
            rcases List.mem_append.mp (TwoLevel.arrivals_subset back) with again | held
            · exact (List.nodup_append.mp fresh).2.2 victim there victim
                (List.mem_cons_of_mem _ again) rfl
            · exact gone held
          refine ⟨kept, (induction distinct' (List.cons_subset.mpr ⟨entered, fun other there => ?_⟩)
            fresh').mpr present⟩
          exact Recency.mem_enter_of_mem distinct (known there)
            fun evicted => kept other evicted there

end

/-! ## Lookups after prefetches -/

section

variable {file : Bytes} {mode : CopyMode} {permits : (op : Op) → Reply op → Prop}
  {config : Config} {passed : List BlockId} {reported : List Served} {world middle after : World}
  {blocks : List BlockId} {result : LookupResult}

theorem evaluates_prefetch_report {handle handle' : Handle} {before after : Machine}
    (evaluation : (memtierPrefetchBlocks handle blocks).Evaluates (environment file mode permits)
      before (handle', 0) after) :
    ∃ result, ((Request.prefetch blocks).report handle).Evaluates (environment file mode permits)
      before (handle', result) after ∧ result.rc = 0 := by
  change ((Request.prefetch blocks).run handle).Evaluates _ _ _ _ at evaluation
  rw [Request.run_eq_report] at evaluation
  obtain ⟨⟨last, result⟩, final, report, returned, rfl⟩ := Prog.evaluates_bind.mp evaluation
  obtain ⟨rfl, zero⟩ := Prod.mk.inj returned
  exact ⟨result, report, zero⟩

end

end MemTier.Embedding
