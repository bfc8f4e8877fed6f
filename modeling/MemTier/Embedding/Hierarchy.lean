import MemTier.Containers.TwoLevel
import MemTier.Embedding.DevicePointers
import MemTier.Embedding.Metering
import MemTier.Embedding.TableFile

/-!
# The hierarchy of the embedding runtime

While nothing fails, what a lookup reports is a function of the blocks looked up so far.  The two
caches and the residency table amount to a queue of arrivals in device memory, in front of a
least-recently-used list in host memory that sees only what the queue misses.
-/

namespace MemTier.Embedding

open Containers Resumption

/-! ## Rounds as a function -/

namespace Tiers

/-- A block that is in host memory gets a slot of device memory. -/
def copied (tiers : Tiers) (block : BlockId) (path : ServedBy) : Tiers × Served :=
  ((tiers.place block).mark block (.hbm (tiers.copyPtr block)), ⟨tiers.copyPtr block, path⟩)

/-- A round in which nothing fails. -/
def serve (tiers : Tiers) (block : BlockId) : Tiers × Served :=
  match tiers.location block with
  | .hbm ptr => (tiers, ⟨ptr, .hbmHit⟩)
  | .dram _ => tiers.copied block .dramHit
  | .nowhere =>
      match tiers.dram.address block with
      | some ptr => ((tiers.search block).mark block (.dram ptr)).copied block .dramHit
      | none =>
          ((tiers.enter block).mark block (.dram (tiers.loadPtr block))).copied block .posixRead

/-- Rounds one after another. -/
def serveAll : Tiers → List BlockId → Tiers × List Served
  | tiers, [] => (tiers, [])
  | tiers, block :: blocks =>
      let (next, served) := tiers.serve block
      let (last, later) := next.serveAll blocks
      (last, served :: later)

/-- The tiers of a new session. -/
def initial (config : Config) (dramBase hbmBase : Nat) : Tiers where
  config := config
  blockBytes := config.blockSizeBytes.toNat
  location := fun _ => .nowhere
  dram := SlotCache.new dramBase config.dramCacheBytes.toNat config.blockSizeBytes.toNat
  hbm := SlotCache.new hbmBase config.hbmCacheBytes.toNat config.blockSizeBytes.toNat

theorem serveAll_append (tiers : Tiers) (first second : List BlockId) :
    tiers.serveAll (first ++ second) =
      (((tiers.serveAll first).1.serveAll second).1,
        (tiers.serveAll first).2 ++ ((tiers.serveAll first).1.serveAll second).2) := by
  induction first generalizing tiers with
  | nil => rfl
  | cons block first induction =>
      simp only [List.cons_append, serveAll, induction]

/-- Where the two allocations are. -/
def bases (tiers : Tiers) : Nat × Nat := (tiers.dram.base, tiers.hbm.base)

theorem bases_copied (tiers : Tiers) (block : BlockId) (path : ServedBy) :
    (tiers.copied block path).1.bases = tiers.bases :=
  congrArg (tiers.dram.base, ·) (congrArg (·.1) (tiers.hbm.region_allocate block))

theorem bases_serve (tiers : Tiers) (block : BlockId) :
    (tiers.serve block).1.bases = tiers.bases := by
  rw [serve]
  split
  · rfl
  · exact tiers.bases_copied block _
  · split
    · rw [bases_copied]
      exact congrArg (·, tiers.hbm.base) (congrArg (·.1) (tiers.dram.region_get block))
    · rw [bases_copied]
      exact congrArg (·, tiers.hbm.base) (congrArg (·.1) (tiers.dram.region_allocate block))

theorem bases_serveAll (tiers : Tiers) (blocks : List BlockId) :
    (tiers.serveAll blocks).1.bases = tiers.bases := by
  induction blocks generalizing tiers with
  | nil => rfl
  | cons block blocks induction => exact (induction _).trans (tiers.bases_serve block)

end Tiers

section

variable {file : Bytes} {mode : CopyMode} {permits : (op : Op) → Reply op → Prop}
  {config : Config} {tiers tiers' : Tiers} {block : BlockId} {before after : Machine}

/-- A round that serves its block is the function. -/
theorem Round.serve_eq {served : Served}
    (round : Round file mode permits tiers block before tiers' (some served) after) :
    tiers.serve block = (tiers', served) := by
  cases round with
  | hit resident => rw [Tiers.serve, resident]
  | copied stage drains permitted =>
      cases stage with
      | recorded recorded =>
          rw [Tiers.serve, recorded]
          rfl
      | found unrecorded cached =>
          rw [Tiers.serve, unrecorded, cached]
          rfl
      | loaded unrecorded absent load =>
          rw [Tiers.serve, unrecorded, absent]
          rfl

theorem Batch.serveAll_eq {blocks : List BlockId} {served : List Served} {complete : Bool}
    (batch : Batch file mode permits tiers before blocks served complete tiers' after)
    (finished : complete = true) : tiers.serveAll blocks = (tiers', served) := by
  induction batch with
  | done => rfl
  | failed round => simp at finished
  | step round rest induction =>
      simp only [Tiers.serveAll, round.serve_eq, induction finished]

/-- A call whose lookup returns 0 runs through the blocks it looks up. -/
theorem Request.report_batch (small : file.length < 2 ^ 63) {handle handle' : Handle}
    (positive : 0 < handle.blockBytes.toNat) {request : Request} {result : LookupResult}
    (evaluation : (request.report handle).Evaluates
      (environment file mode permits) before (handle', result) after)
    (success : LooksUp request result.rc) :
    ∃ ready middle, before.Drains ready ∧
      Batch file mode permits handle.tiers ready request.lookups result.served true handle'.tiers
        middle ∧ middle.Drains after ∧ (before.pending = [] → after.pending = []) := by
  have lookups : ∀ {blocks : List BlockId}, result.rc = 0 →
      (memtierLookupBlocks handle blocks).Evaluates
        (environment file mode permits) before (handle', result) after →
      ∃ ready middle, before.Drains ready ∧
        Batch file mode permits handle.tiers ready blocks result.served true handle'.tiers middle ∧
        middle.Drains after ∧ (before.pending = [] → after.pending = []) := by
    intro blocks zero evaluation
    rcases memtierLookupBlocks_cases small positive evaluation with
      ⟨failed, -, -⟩ | ⟨ready, middle, complete, drains, batch, drains', finishes⟩
    · simp [failed] at zero
    · obtain ⟨rfl, empty⟩ := finishes zero
      exact ⟨ready, middle, drains, batch, drains', fun _ => empty⟩
  cases request with
  | lookup blocks =>
      rcases success with zero | empty
      · exact lookups zero evaluation
      · simp at empty
  | prefetch blocks =>
      rw [Request.report] at evaluation
      split at evaluation
      · rename_i empty
        obtain ⟨returned, rfl⟩ := evaluation
        obtain ⟨rfl, rfl⟩ := Prod.mk.inj returned
        rw [empty]
        exact ⟨before, before, ⟨0, rfl⟩, .done, ⟨0, rfl⟩, id⟩
      · rename_i nonempty
        rcases success with zero | empty
        · exact lookups zero evaluation
        · exact absurd (Request.prefetch.inj empty) nonempty
  | release blocks =>
      obtain ⟨returned, rfl⟩ := evaluation
      obtain ⟨rfl, rfl⟩ := Prod.mk.inj returned
      rw [tiers_memtierReleaseBlocks]
      exact ⟨before, before, ⟨0, rfl⟩, .done, ⟨0, rfl⟩, id⟩

theorem memtierInitEmbedding_tiers {dramBase hbmBase : Nat} {handle : Handle}
    (created : memtierInitEmbedding config dramBase hbmBase = some handle) :
    handle.tiers = .initial config dramBase hbmBase := by
  obtain ⟨-, rfl⟩ := memtierInitEmbedding_eq_some created
  rfl

/-- Releases leave no trace in the tiers, and neither do the limits of the calls. -/
theorem Metered.serveAll_eq (small : file.length < 2 ^ 63) {passed : List BlockId}
    {reported : List Served} {world : World}
    (metered : Metered file mode permits config passed reported world) :
    (Tiers.initial config world.handle.tiers.dram.base world.handle.tiers.hbm.base).serveAll passed =
      (world.handle.tiers, reported) := by
  have session : ∃ dramBase hbmBase, (Tiers.initial config dramBase hbmBase).serveAll passed =
      (world.handle.tiers, reported) := by
    induction metered with
    | init created idle => exact ⟨_, _, by rw [memtierInitEmbedding_tiers created]; rfl⟩
    | @call passed reported before after request result earlier evaluation success induction =>
        obtain ⟨dramBase, hbmBase, served⟩ := induction
        have positive := (earlier.reachable.wellFormed small).positive_blockBytes
        obtain ⟨ready, middle, -, batch, -⟩ :=
          Request.report_batch small positive evaluation success
        exact ⟨dramBase, hbmBase, by rw [Tiers.serveAll_append, served, batch.serveAll_eq rfl]⟩
  obtain ⟨dramBase, hbmBase, served⟩ := session
  have bases := (Tiers.initial config dramBase hbmBase).bases_serveAll passed
  rw [served] at bases
  obtain ⟨dram, hbm⟩ := Prod.mk.inj bases
  rw [show world.handle.tiers.dram.base = dramBase from dram,
    show world.handle.tiers.hbm.base = hbmBase from hbm, served]

/-- The counters of two meters that have charged for as many positions of each kind. -/
theorem Meter.AddsUp.metrics_eq {meter meter' : Meter} {hbmHits dramHits loads : Nat}
    (adds : meter.AddsUp hbmHits dramHits loads) (adds' : meter'.AddsUp hbmHits dramHits loads)
    (published : meter.Published) (published' : meter'.Published)
    (sizes : meter.blockBytes = meter'.blockBytes) (rooms : meter.capacity = meter'.capacity) :
    meter.metrics = meter'.metrics := by
  have evictions : meter.metrics.evictionCount = UInt64.ofNat (loads - meter.capacity) :=
    (congrArg (·.metrics.evictionCount) published).symm.trans adds.evictions
  have evictions' : meter'.metrics.evictionCount = UInt64.ofNat (loads - meter'.capacity) :=
    (congrArg (·.metrics.evictionCount) published').symm.trans adds'.evictions
  have misses : meter.metrics.dramMisses = meter'.metrics.dramMisses :=
    adds.dramMisses.trans adds'.dramMisses.symm
  have reads : meter.metrics.posixReads = meter'.metrics.posixReads := by
    rw [adds.posixReads, adds'.posixReads, misses]
  have hits : meter.metrics.dramHits = meter'.metrics.dramHits :=
    adds.dramHits.trans adds'.dramHits.symm
  have bytesRead : meter.metrics.bytesReadFromSsd = meter'.metrics.bytesReadFromSsd := by
    rw [adds.bytesRead, adds'.bytesRead, sizes, reads]
  have bytesCopied : meter.metrics.bytesCopiedDramToGpu =
      meter'.metrics.bytesCopiedDramToGpu := by
    rw [adds.bytesCopied, adds'.bytesCopied, sizes, hits, misses]
  rw [← rooms] at evictions'
  cases found : meter.metrics
  cases found' : meter'.metrics
  simp only [found, found'] at misses reads hits bytesRead bytesCopied evictions evictions'
  rw [Metrics.mk.injEq]
  have hbmHits := adds.hbmHits.trans adds'.hbmHits.symm
  have gdsReads := adds.gdsReads.trans adds'.gdsReads.symm
  rw [found, found'] at hbmHits gdsReads
  exact ⟨hbmHits, hits, misses, reads, gdsReads, evictions.trans evictions'.symm, bytesRead,
    bytesCopied⟩

end

/-- What a lookup reports for a block that is found at a level. -/
def ServedBy.ofLevel : Level → ServedBy
  | .upper => .hbmHit
  | .lower => .dramHit
  | .outside => .posixRead

/-- The blocks of the two caches, in their orders. -/
def Tiers.levels (tiers : Tiers) : TwoLevel BlockId where
  upper := tiers.hbm.recency
  lower := tiers.dram.recency

/-- The tables agree, and no block is recorded to be in host memory only. -/
structure Agreeing (tiers : Tiers) : Prop where
  coherent : Coherent tiers
  tracked : Tracked tiers
  settled : Settled tiers

section

variable {file : Bytes} {mode : CopyMode} {permits : (op : Op) → Reply op → Prop}
  {config : Config} {tiers tiers' : Tiers} {block : BlockId} {before after : Machine}

theorem Tiers.WellFormed.mem_dram_recency (wellFormed : tiers.WellFormed config) :
    block ∈ tiers.dram.recency ↔ ∃ ptr, tiers.dram.address block = some ptr := by
  rw [wellFormed.dram.keys, ← Option.isSome_iff_exists, SlotCache.address, Option.isSome_map,
    AList.lookup_isSome]

theorem Agreeing.round {served : Served} (agreeing : Agreeing tiers)
    (wellFormed : tiers.WellFormed config) (proper : block ≠ uint64Max)
    (round : Round file mode permits tiers block before tiers' (some served) after) :
    Agreeing tiers' where
  coherent := round.coherent wellFormed proper agreeing.coherent
  tracked := round.tracked wellFormed agreeing.tracked
  settled := round.settled agreeing.settled

/-- How staging finds a block that is not in device memory, and what it does to the list of host
memory. -/
theorem Staged.lower {source : Nat} {path : ServedBy} (settled : Settled tiers)
    (wellFormed : tiers.WellFormed config)
    (stage : Staged file permits tiers block before tiers' source path after) :
    path = (if block ∈ tiers.dram.recency then .dramHit else .posixRead) ∧
      tiers'.dram.recency = if block ∈ tiers.dram.recency then Recency.use block tiers.dram.recency
        else Recency.enter config.dramCapacity block tiers.dram.recency := by
  cases stage with
  | recorded recorded => exact absurd recorded (settled block source)
  | found unrecorded cached =>
      have member := wellFormed.mem_dram_recency.mpr ⟨_, cached⟩
      rw [if_pos member, if_pos member]
      exact ⟨rfl, (wellFormed.dram.get block).2.2.1⟩
  | loaded unrecorded absent load =>
      have missing : block ∉ tiers.dram.recency := by
        rw [wellFormed.mem_dram_recency, absent]
        simp
      rw [if_neg missing, if_neg missing, ← wellFormed.dram_capacity]
      exact ⟨rfl, (wellFormed.dram.allocate_absent absent).2.1⟩

/-- A round that serves its block fetches it through the two levels. -/
theorem Round.fetch {served : Served}
    (round : Round file mode permits tiers block before tiers' (some served) after)
    (wellFormed : tiers.WellFormed config) (agreeing : Agreeing tiers) :
    served.path = .ofLevel (tiers.levels.find block) ∧
      tiers'.levels = tiers.levels.fetch config.hbmCapacity config.dramCapacity block := by
  have queue := round.order wellFormed agreeing.coherent agreeing.tracked
  cases round with
  | hit resident =>
      have member : block ∈ tiers.levels.upper :=
        wellFormed.mem_recency.mpr ⟨_, agreeing.coherent.kept block _ resident⟩
      rw [TwoLevel.fetch_of_mem member, TwoLevel.find_eq_upper.mpr member]
      exact ⟨rfl, rfl⟩
  | @copied staged source path middle after stage drains permitted =>
      -- A block in the queue is recorded in device memory, so nothing would be staged for it.
      have missing : block ∉ tiers.levels.upper := by
        intro member
        obtain ⟨ptr, held⟩ := wellFormed.mem_recency.mp member
        exact stage.frame.2.2.1 ptr (agreeing.tracked block ptr held)
      obtain ⟨member, -⟩ | ⟨-, order, -⟩ := queue
      · exact absurd member missing
      obtain ⟨path_eq, lower⟩ := stage.lower agreeing.settled wellFormed
      constructor
      · rw [path_eq, TwoLevel.find, if_neg missing]
        change _ = ServedBy.ofLevel (if block ∈ tiers.dram.recency then .lower else .outside)
        split_ifs <;> rfl
      · rw [TwoLevel.mk.injEq, TwoLevel.upper_fetch missing, TwoLevel.lower_fetch missing]
        exact ⟨order, lower⟩

theorem Batch.fetch {blocks : List BlockId} {served : List Served} {complete : Bool}
    (batch : Batch file mode permits tiers before blocks served complete tiers' after)
    (finished : complete = true) (wellFormed : tiers.WellFormed config)
    (agreeing : Agreeing tiers) (proper : ∀ block ∈ blocks, block ≠ uint64Max) :
    served.map Served.path =
        (TwoLevel.levels config.hbmCapacity config.dramCapacity tiers.levels blocks).map
          ServedBy.ofLevel ∧
      tiers'.levels = tiers.levels.after config.hbmCapacity config.dramCapacity blocks ∧
      Agreeing tiers' := by
  induction batch with
  | done => exact ⟨rfl, rfl, agreeing⟩
  | failed round => simp at finished
  | step round rest induction =>
      rw [List.forall_mem_cons] at proper
      obtain ⟨path, levels⟩ := round.fetch wellFormed agreeing
      obtain ⟨paths, last, agreeing'⟩ := induction finished (round.wellFormed wellFormed)
        (agreeing.round wellFormed proper.1 round) proper.2
      rw [levels] at paths last
      exact ⟨by rw [List.map_cons, TwoLevel.levels, List.map_cons, path, paths], last, agreeing'⟩

/-- A block that was served could be loaded. -/
theorem Batch.fetched {blocks : List BlockId} {served : List Served} {complete : Bool}
    (batch : Batch file mode permits tiers before blocks served complete tiers' after)
    (finished : complete = true) (wellFormed : tiers.WellFormed config)
    (fetched : Fetched config file tiers) :
    Fetched config file tiers' ∧ ∀ block ∈ blocks, LoadsWhole config file block := by
  induction batch with
  | done => exact ⟨fetched, by simp⟩
  | failed round => simp at finished
  | step round rest induction =>
      obtain ⟨next, whole⟩ := round.fetched wellFormed fetched
      obtain ⟨last, later⟩ := induction finished (round.wellFormed wellFormed) next
      exact ⟨last, List.forall_mem_cons.mpr ⟨whole, later⟩⟩

theorem Metered.fetched (small : file.length < 2 ^ 63) {passed : List BlockId}
    {reported : List Served} {world : World}
    (metered : Metered file mode permits config passed reported world) :
    Fetched config file world.handle.tiers ∧ ∀ block ∈ passed, LoadsWhole config file block := by
  induction metered with
  | init created idle =>
      have fresh := (memtierInitEmbedding_fresh created).2
      exact ⟨⟨fun block there => absurd (fresh.location block) there,
        fun block ptr cached => by simp [fresh.dram block] at cached⟩, by simp⟩
  | @call passed reported before after request result earlier evaluation success induction =>
      obtain ⟨fetched, wholes⟩ := induction
      have wellFormed := earlier.reachable.wellFormed small
      obtain ⟨ready, middle, -, batch, -⟩ :=
        Request.report_batch small wellFormed.positive_blockBytes evaluation success
      obtain ⟨fetched', wholes'⟩ := batch.fetched rfl wellFormed fetched
      exact ⟨fetched', List.forall_mem_append.mpr ⟨wholes, wholes'⟩⟩

/-- No file is long enough for the block whose identifier stands for no eviction. -/
theorem LoadsWhole.proper (whole : LoadsWhole config file block) (small : file.length < 2 ^ 63)
    (positive : 0 < config.blockSizeBytes.toNat) : block ≠ uint64Max := by
  rintro rfl
  have bound := UInt64.toNat_lt config.blockSizeBytes
  rw [LoadsWhole, Config.loadOffset, UInt64.toNat_mul] at whole
  have wraps : uint64Max.toNat * config.blockSizeBytes.toNat % 2 ^ 64 =
      2 ^ 64 - config.blockSizeBytes.toNat := by
    rw [show uint64Max.toNat = 2 ^ 64 - 1 from rfl, Nat.sub_mul, Nat.one_mul,
      show 2 ^ 64 * config.blockSizeBytes.toNat - config.blockSizeBytes.toNat =
        2 ^ 64 - config.blockSizeBytes.toNat + 2 ^ 64 * (config.blockSizeBytes.toNat - 1) by omega,
      Nat.add_mul_mod_self_left, Nat.mod_eq_of_lt (by omega)]
  omega

theorem Metered.proper (small : file.length < 2 ^ 63) {passed : List BlockId}
    {reported : List Served} {world : World}
    (metered : Metered file mode permits config passed reported world) :
    ∀ block ∈ passed, block ≠ uint64Max := fun block member =>
  ((metered.fetched small).2 block member).proper small (metered.reachable.wellFormed small).positive

theorem Agreeing.fresh (fresh : tiers.Fresh) : Agreeing tiers :=
  ⟨.fresh fresh, .fresh fresh, .fresh fresh⟩

theorem Metered.fetch (small : file.length < 2 ^ 63) {passed : List BlockId}
    {reported : List Served} {world : World}
    (metered : Metered file mode permits config passed reported world) :
    reported.map Served.path =
        (TwoLevel.levels config.hbmCapacity config.dramCapacity .empty passed).map
          ServedBy.ofLevel ∧
      world.handle.tiers.levels =
        TwoLevel.after config.hbmCapacity config.dramCapacity .empty passed ∧
      Agreeing world.handle.tiers := by
  induction metered with
  | init created idle =>
      refine ⟨rfl, ?_, .fresh (memtierInitEmbedding_fresh created).2⟩
      rw [memtierInitEmbedding_tiers created]
      rfl
  | @call passed reported before after request result earlier evaluation success induction =>
      have proper := (Metered.call earlier evaluation success).proper small
      rw [List.forall_mem_append] at proper
      obtain ⟨paths, levels, agreeing⟩ := induction
      have wellFormed := earlier.reachable.wellFormed small
      obtain ⟨ready, middle, -, batch, -⟩ :=
        Request.report_batch small wellFormed.positive_blockBytes evaluation success
      obtain ⟨paths', levels', agreeing'⟩ := batch.fetch rfl wellFormed agreeing proper.2
      rw [levels] at paths' levels'
      exact ⟨by rw [List.map_append, paths, paths', TwoLevel.levels_append, List.map_append],
        by rw [levels', TwoLevel.after_append], agreeing'⟩

/-- While lookups return 0, the paths that they report and the blocks of both caches are those of a
queue of arrivals in front of a least-recently-used list that sees only what the queue misses. -/
theorem paths_two_level (small : file.length < 2 ^ 63) {passed : List BlockId}
    {reported : List Served} {world : World}
    (metered : Metered file mode permits config passed reported world) :
    reported.map Served.path =
        (TwoLevel.levels config.hbmCapacity config.dramCapacity .empty passed).map
          ServedBy.ofLevel ∧
      world.handle.hbmCache.slots.recency =
        (TwoLevel.after config.hbmCapacity config.dramCapacity .empty passed).upper ∧
      world.handle.dramCache.slots.recency =
        (TwoLevel.after config.hbmCapacity config.dramCapacity .empty passed).lower := by
  obtain ⟨paths, levels, -⟩ := metered.fetch small
  exact ⟨paths, congrArg TwoLevel.upper levels, congrArg TwoLevel.lower levels⟩

end

/-- Block 0 is evicted from device memory by block 2, and is then found in a host memory that has
room for all three. -/
theorem paths_two_level_refetched :
    ∃ reported world,
      Metered [1, 2, 3, 4, 5, 6] .queued AnyReply { Config.twoBytes with dramCacheBytes := 6 }
        [0, 0, 1, 2, 0] reported world ∧
      reported.map Served.path = [.posixRead, .hbmHit, .posixRead, .posixRead, .dramHit] ∧
      world.handle.hbmCache.slots.recency = [0, 2] := by
  obtain ⟨world, found, -⟩ := (Option.any_eq_true _ _).mp (show
    (session? [1, 2, 3, 4, 5, 6] .queued AnyReply LooksUp
      { Config.twoBytes with dramCacheBytes := 6 }
      [(.lookup [0, 0, 1], List.replicate 7 (.take 2)), (.release [1], []),
        (.lookup [2, 0], List.replicate 7 (.take 2))]).any (fun _ => true) from by decide +kernel)
  obtain ⟨reported, metered⟩ := Metered.of_session? found
  obtain ⟨paths, queue, -⟩ := paths_two_level (by decide) metered
  exact ⟨reported, world, metered, paths.trans (by decide), queue.trans (by decide)⟩

end MemTier.Embedding
