import MemTier.Containers.Replacement
import MemTier.Embedding.DevicePointers
import MemTier.Embedding.History

/-!
# Order of arrival in the HBM cache

A hit is decided by the residency table and never reaches the recency list of the HBM cache, so
the cache replaces by arrival and not by last use.  The two differ as soon as a block is evicted
after it was hit and before the blocks that had arrived after it were asked for again.
-/

namespace MemTier.Embedding

open Containers Resumption

/-- A block leaves the HBM cache in a round. -/
def Passage.Evicts (passage : Passage) (victim : BlockId) : Prop :=
  (∃ ptr, passage.before.hbm.address victim = some ptr) ∧ passage.after.hbm.address victim = none

/-- Whenever a block leaves the HBM cache, every other block there was asked for more recently. -/
def EvictsLeastRecent : List Passage → Prop
  | [] => True
  | passage :: past =>
      (∀ victim, passage.Evicts victim → ∀ other ptr,
        passage.before.hbm.address other = some ptr → other ≠ victim →
          (asked past).idxOf other < (asked past).idxOf victim) ∧ EvictsLeastRecent past

/-- After every round the HBM cache has the blocks of a least-recently-used cache. -/
def ResidentAsLru (capacity : Nat) : List Passage → Prop
  | [] => True
  | passage :: past =>
      (∀ block, (∃ ptr, passage.after.hbm.address block = some ptr) ↔
        block ∈ Recency.lru capacity (asked (passage :: past))) ∧ ResidentAsLru capacity past

/-- The HBM cache is a queue of the blocks asked for. -/
structure Queued (config : Config) (passed : List Passage) (tiers : Tiers) : Prop where
  coherent : Coherent tiers
  tracked : Tracked tiers
  order : tiers.hbm.recency = Recency.fifo config.hbmCapacity (asked passed)
  evictions : EvictsLeastRecent passed ↔ Recency.EvictsOldest config.hbmCapacity (asked passed)
  residents : ResidentAsLru config.hbmCapacity passed ↔
    ∀ recent, recent <:+ asked passed → ∀ block,
      block ∈ Recency.fifo config.hbmCapacity recent ↔ block ∈ Recency.lru config.hbmCapacity recent

section

variable {file : Bytes} {mode : CopyMode} {permits : (op : Op) → Reply op → Prop}
  {config : Config} {tiers tiers' : Tiers} {block : BlockId} {before after : Machine}
  {past : List Passage} {served : Served}

theorem Config.hbmCapacity_pos (config : Config) : 0 < config.hbmCapacity :=
  Nat.lt_of_lt_of_le Nat.zero_lt_one (Nat.le_max_left _ _)

theorem Queued.fresh (wellFormed : tiers.WellFormed config) (fresh : tiers.Fresh) :
    Queued config [] tiers where
  coherent := .fresh fresh
  tracked := .fresh fresh
  order := by
    refine List.eq_nil_iff_forall_not_mem.mpr fun block member => ?_
    obtain ⟨ptr, held⟩ := wellFormed.mem_recency.mp member
    simp [fresh.hbm block] at held
  evictions := by simp [EvictsLeastRecent, asked, Recency.EvictsOldest]
  residents := by simp [ResidentAsLru, asked, Recency.fifo, Recency.lru]

theorem Queued.resident_iff (queued : Queued config past tiers)
    (wellFormed : tiers.WellFormed config) (other : BlockId) :
    (∃ ptr, tiers.hbm.address other = some ptr) ↔
      other ∈ Recency.fifo config.hbmCapacity (asked past) := by
  rw [← wellFormed.mem_recency, queued.order]

/-- A round moves the queue on. -/
theorem Round.fifo
    (round : Round file mode permits tiers block before tiers' (some served) after)
    (wellFormed : tiers.WellFormed config) (queued : Queued config past tiers) :
    tiers'.hbm.recency = Recency.fifo config.hbmCapacity (block :: asked past) := by
  rw [Recency.fifo, ← queued.order]
  rcases round.order wellFormed queued.coherent queued.tracked with
    ⟨member, rfl, -⟩ | ⟨missing, order, -⟩
  · rw [if_pos member]
  · rw [if_neg missing, order]

/-- A block leaves the HBM cache if and only if it is at the end of a full queue and the block asked
for is missing. -/
theorem Round.evicts_iff
    (round : Round file mode permits tiers block before tiers' (some served) after)
    (wellFormed : tiers.WellFormed config) (queued : Queued config past tiers) (victim : BlockId) :
    Passage.Evicts ⟨block, tiers, tiers'⟩ victim ↔
      block ∉ Recency.fifo config.hbmCapacity (asked past) ∧
        victim ∈ Recency.victim config.hbmCapacity
          (Recency.fifo config.hbmCapacity (asked past)) := by
  rw [Passage.Evicts, ← queued.order]
  rcases round.order wellFormed queued.coherent queued.tracked with
    ⟨member, rfl, -⟩ | ⟨missing, order, -, -, others⟩
  · constructor
    · rintro ⟨⟨ptr, held⟩, gone⟩
      simp [held] at gone
    · rintro ⟨missing, -⟩
      exact absurd member missing
  · constructor
    · rintro ⟨⟨ptr, held⟩, gone⟩
      refine ⟨missing, ?_⟩
      by_contra stays
      simp [others victim ptr held stays] at gone
    · rintro ⟨-, evicted⟩
      have member := List.mem_of_getLast? (Recency.getLast?_of_victim evicted)
      have distinct : tiers.hbm.recency.Nodup := queued.order ▸ Recency.fifo_nodup _ _
      refine ⟨wellFormed.mem_recency.mp member, ?_⟩
      by_contra held
      have kept := (round.wellFormed wellFormed).mem_recency.mpr (Option.ne_none_iff_exists'.mp held)
      rw [order] at kept
      exact Recency.victim_not_mem_enter config.hbmCapacity_pos distinct missing evicted kept

/-- A round that serves its block keeps the HBM cache a queue. -/
theorem Queued.round (queued : Queued config past tiers)
    (wellFormed : tiers.WellFormed config) (proper : block ≠ uint64Max)
    (round : Round file mode permits tiers block before tiers' (some served) after) :
    Queued config (⟨block, tiers, tiers'⟩ :: past) tiers' where
  coherent := round.coherent wellFormed proper queued.coherent
  tracked := round.tracked wellFormed queued.tracked
  order := round.fifo wellFormed queued
  evictions := by
    rw [EvictsLeastRecent, queued.evictions, asked_cons, Recency.EvictsOldest]
    refine and_congr_left fun _ => ?_
    simp only [round.evicts_iff wellFormed queued, ← queued.resident_iff wellFormed]
    constructor
    · rintro oldest missing victim evicted other ⟨ptr, held⟩
      exact oldest victim ⟨missing, evicted⟩ other ptr held
    · rintro oldest victim ⟨missing, evicted⟩ other ptr held
      exact oldest missing victim evicted other ⟨ptr, held⟩
  residents := by
    have members : ∀ other, (∃ ptr, tiers'.hbm.address other = some ptr) ↔
        other ∈ Recency.fifo config.hbmCapacity (block :: asked past) := by
      intro other
      rw [← (round.wellFormed wellFormed).mem_recency, round.fifo wellFormed queued]
    simp only [ResidentAsLru, queued.residents, asked_cons, members, List.suffix_cons_iff,
      forall_eq_or_imp]

end

theorem History.queued {file : Bytes} {mode : CopyMode} {config : Config} {world : World}
    {passed : List Passage}
    (history : History file mode AnyReply Succeeds config passed world) :
    Queued config passed world.handle.tiers :=
  (@History.keeps file mode AnyReply Succeeds config world (Queued config) (· ≠ uint64Max)
    (fun wellFormed fresh => .fresh wellFormed fresh)
    (fun {_ _ _ _ _ _ served} proper fails wellFormed queued round => by
      cases served with
      | none =>
          obtain ⟨request, rc, succeeds, nonzero⟩ := fails rfl
          exact absurd succeeds.1 nonzero
      | some result => exact queued.round wellFormed proper round)
    (fun _ _ succeeds => succeeds.2) passed history).2

/-- In every session of successful calls that do not name the identifier standing for no eviction,
every block that leaves the HBM cache is the one asked for least recently if and only if, whenever
a block leaves whose last request was a hit, each block that had arrived after it by then has been
asked for since.  Under the same condition, and no other, the HBM cache has the blocks of a
least-recently-used cache after every round. -/
theorem hbm_evicts_least_recent_iff {file : Bytes} {mode : CopyMode} {config : Config}
    {world : World} {passed : List Passage}
    (history : History file mode AnyReply Succeeds config passed world) :
    (EvictsLeastRecent passed ↔ Recency.HitsRenewed config.hbmCapacity (asked passed)) ∧
      (ResidentAsLru config.hbmCapacity passed ↔
        Recency.HitsRenewed config.hbmCapacity (asked passed)) := by
  have queued := history.queued
  rw [queued.evictions, queued.residents, Recency.same_keys_iff config.hbmCapacity_pos,
    Recency.evictsOldest_iff]
  exact ⟨Iff.rfl, Iff.rfl⟩

/-- Block 0 is hit, and block 1, which came later, is asked for again before 0 is evicted. -/
theorem hbm_evicts_least_recent_renewed :
    ∃ passed world, History [1, 2, 3, 4, 5, 6] .atIssue AnyReply Succeeds .twoBytes passed world ∧
      asked passed = [2, 1, 0, 1, 0] ∧ EvictsLeastRecent passed ∧
      ResidentAsLru Config.twoBytes.hbmCapacity passed := by
  obtain ⟨world, found, -⟩ := (Option.any_eq_true _ _).mp (show
    (session? [1, 2, 3, 4, 5, 6] .atIssue AnyReply Succeeds .twoBytes
      [(.lookup [0, 1], List.replicate 7 (.take 2)), (.prefetch [0], List.replicate 3 (.take 2)),
        (.lookup [1, 2], List.replicate 5 (.take 2))]).any (fun _ => true) from by decide +kernel)
  obtain ⟨passed, history, order⟩ := History.of_session? (by decide) (fun _ _ holds => holds.1) found
  have renewed : Recency.HitsRenewed Config.twoBytes.hbmCapacity (asked passed) := by
    rw [← Recency.evictsOldest_iff, order]
    decide +kernel
  obtain ⟨evictions, residents⟩ := hbm_evicts_least_recent_iff history
  exact ⟨passed, world, history, order, evictions.mpr renewed, residents.mpr renewed⟩

/-- Block 0 is hit after block 1 has arrived, and block 2 evicts it all the same. -/
theorem hbm_evicts_recent :
    ¬ ∀ passed world,
      History [1, 2, 3, 4, 5, 6] .atIssue AnyReply Succeeds .twoBytes passed world →
        EvictsLeastRecent passed := by
  intro oldest
  obtain ⟨world, found, -⟩ := (Option.any_eq_true _ _).mp (show
    (session? [1, 2, 3, 4, 5, 6] .atIssue AnyReply Succeeds .twoBytes
      [(.lookup [0, 1], List.replicate 7 (.take 2)), (.lookup [0, 2], List.replicate 5 (.take 2))]).any
        (fun _ => true) from by decide +kernel)
  obtain ⟨passed, history, order⟩ := History.of_session? (by decide) (fun _ _ holds => holds.1) found
  have evictions := history.queued.evictions.mp (oldest passed world history)
  rw [order] at evictions
  revert evictions
  decide +kernel

end MemTier.Embedding
