import MemTier.Embedding.Traffic

/-!
# The tiers against foresight

Neither cache knows what it will be asked for.  How much that costs is bounded against any other
store that fetches on demand, knows the whole session in advance, and has as much room or less.
-/

namespace MemTier.Embedding

open Containers

section

variable {file : Bytes} {mode : CopyMode} {permits : (op : Op) → Reply op → Prop}
  {config : Config} {passed : List BlockId} {reported : List Served} {world : World}

/-- The blocks that a session reads from the file, and those that it copies to device memory, beside
the misses of any store that starts empty, fetches on demand, and never holds more than `room`
blocks.  The two caches see different requests, as hits in device memory do not reach host memory,
but the bound is that of each cache alone. -/
theorem tiers_competitive (small : file.length < 2 ^ 63)
    (metered : Metered file mode permits config passed reported world) {σ : Type}
    {rival : DemandStore BlockId σ} {keeps : σ → Prop} {room : Nat}
    (bounded : rival.Bounded keeps room) (positive : 0 < room) {start : σ} (kept : keeps start)
    (empty : rival.held start = []) :
    (room ≤ config.dramCapacity →
      (config.dramCapacity + 1 - room) * positions .posixRead reported ≤
        config.dramCapacity * rival.misses start passed) ∧
    (room ≤ config.hbmCapacity →
      (config.hbmCapacity + 1 - room) *
          (positions .dramHit reported + positions .posixRead reported) ≤
        config.hbmCapacity * rival.misses start passed) := by
  constructor
  · intro smaller
    have reads : positions .posixRead reported =
        (TwoLevel.wholeStore config.hbmCapacity config.dramCapacity).misses .empty passed :=
      (metered.positions_eq small .outside).trans (TwoLevel.count_outside _ _)
    rw [reads, ← DemandStore.loads_log]
    have conservative := (@TwoLevel.guarding_whole BlockId _ config.hbmCapacity
      config.dramCapacity).conservative
        (show TwoLevel.empty.lower.Nodup from List.nodup_nil) passed
    have bound := conservative.competitive bounded positive smaller kept empty
    rwa [DemandStore.map_log] at bound
  · intro smaller
    have hits : positions .hbmHit reported = _ := metered.positions_eq small .upper
    obtain ⟨accounts, -, length⟩ := metered.accounts
    have sum := positions_sum accounts.plain
    have copies : positions .dramHit reported + positions .posixRead reported =
        (TwoLevel.upperStore config.hbmCapacity config.dramCapacity).misses .empty passed := by
      have split := @TwoLevel.count_upper _ _ config.hbmCapacity config.dramCapacity .empty passed
      omega
    rw [copies, ← DemandStore.loads_log]
    have conservative := (@TwoLevel.guarding_upper BlockId _ config.hbmCapacity
      config.dramCapacity).conservative
        (show TwoLevel.empty.upper.Nodup from List.nodup_nil) passed
    have bound := conservative.competitive bounded positive smaller kept empty
    rwa [DemandStore.map_log] at bound

end

/-- Three blocks pass through two caches of two, and the first one is asked for again. -/
theorem tiers_competitive_last :
    ∃ reported world,
      Metered [1, 2, 3, 4, 5, 6] .atIssue AnyReply .twoBytes [0, 0, 1, 2, 0] reported world ∧
      2 * positions .posixRead reported ≤ 2 * DemandStore.last.misses none ([0, 0, 1, 2, 0] : List BlockId) := by
  obtain ⟨world, found, -⟩ := (Option.any_eq_true _ _).mp (show
    (session? [1, 2, 3, 4, 5, 6] .atIssue AnyReply LooksUp .twoBytes
      [(.lookup [0, 0, 1], List.replicate 7 (.take 2)), (.release [0], []),
        (.prefetch [2, 0], List.replicate 7 (.take 2))]).any (fun _ => true) from by
          decide +kernel)
  obtain ⟨reported, metered⟩ := Metered.of_session? found
  have empty : DemandStore.last.held (none : Option BlockId) = [] := rfl
  have bound := (tiers_competitive (by decide) metered DemandStore.bounded_last Nat.one_pos trivial
    empty).1 (by decide)
  exact ⟨reported, world, metered, bound⟩

end MemTier.Embedding
