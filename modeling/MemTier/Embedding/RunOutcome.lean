import MemTier.Embedding.Traffic

/-!
# Which runs succeed

When no call fails on its own account, a run raises because of a row whose block the table does not
have in full, and for no other reason.
-/

namespace MemTier.Embedding

open Containers Resumption

section

variable {file : Bytes} {mode : CopyMode} {config : Config} {before after : Machine}

/-- When every block can be loaded, a batch runs to its end. -/
theorem lookupLoop_completes (small : file.length < 2 ^ 63) {handle handle' : Handle}
    {batch : List BlockId} {served : List Served} {complete : Bool}
    (wellFormed : handle.tiers.WellFormed config)
    (whole : ∀ block ∈ batch, LoadsWhole config file block)
    (evaluation : (lookupLoop handle batch).Evaluates (environment file mode CallsSucceed) before
      (handle', served, complete) after) : complete = true := by
  induction batch generalizing handle handle' before after served complete with
  | nil =>
      obtain ⟨returned, -⟩ := evaluation
      exact (Prod.mk.inj (Prod.mk.inj returned).2).2.symm
  | cons block batch induction =>
      rw [List.forall_mem_cons] at whole
      obtain ⟨⟨next, outcome⟩, middle, lookup, rest⟩ := Prog.evaluates_bind.mp evaluation
      cases outcome with
      | none =>
          rcases lookupBlock_fails lookup with ⟨copy, impossible⟩ | ⟨dst, loaded, load⟩
          · simp [CallsSucceed] at impossible
          · rw [show handle.config = config from wellFormed.config_eq,
              show handle.blockBytes.toNat = config.blockSizeBytes.toNat from wellFormed.size] at load
            exact absurd rfl (loadLoop_completes small whole.1 load)
      | some first =>
          obtain ⟨⟨last, later, finished⟩, final, loop, returned, -⟩ :=
            Prog.evaluates_bind.mp rest
          obtain ⟨-, rfl⟩ := Prod.mk.inj (Prod.mk.inj returned).2
          have round := lookupBlock_round small wellFormed.positive_blockBytes lookup
          exact induction (round.wellFormed wellFormed) whole.2 loop

theorem memtierLookupBlocks_completes (small : file.length < 2 ^ 63) {handle handle' : Handle}
    {batch : List BlockId} {result : LookupResult} (wellFormed : handle.tiers.WellFormed config)
    (whole : ∀ block ∈ batch, LoadsWhole config file block)
    (evaluation : (memtierLookupBlocks handle batch).Evaluates
      (environment file mode CallsSucceed) before (handle', result) after) : result.rc = 0 := by
  obtain ⟨created, ready, creation, evaluation⟩ := Prog.evaluates_bind.mp evaluation
  rw [Run.streamCreate, Prog.evaluates_perform] at creation
  obtain ⟨-, -, -, -, rfl⟩ := creation
  obtain ⟨⟨last, served, complete⟩, middle, loop, evaluation⟩ := Prog.evaluates_bind.mp evaluation
  obtain rfl := lookupLoop_completes small wellFormed whole loop
  obtain ⟨finished, waited, waiting, evaluation⟩ := Prog.evaluates_bind.mp evaluation
  rw [Run.streamSynchronize, Prog.evaluates_perform] at waiting
  obtain ⟨-, -, -, -, rfl⟩ := waiting
  obtain ⟨destroyed, last', destruction, evaluation⟩ := Prog.evaluates_bind.mp evaluation
  rw [Run.streamDestroy, Prog.evaluates_perform] at destruction
  obtain ⟨-, -, -, -, rfl⟩ := destruction
  obtain ⟨returned, -⟩ := evaluation
  rw [← (Prod.mk.inj returned).2]

variable {kind : String} {bag bag' : MemTierEmbeddingBag}

/-- `forward` raises for an unknown mode and for a lookup that fails, and only then. -/
theorem forward_completes (small : file.length < 2 ^ 63) (known : kind = "sum" ∨ kind = "mean")
    {ids : List UInt64} {outcome : Option MemTierEmbeddingBag.Output}
    (wellFormed : bag.handle.tiers.WellFormed config)
    (whole : ∀ block ∈ (idsToBlocks (intIds ids) bag.rowsPerBlock).map UInt64.ofNat,
      LoadsWhole config file block)
    (evaluation : (bag.forward ids kind).Evaluates (environment file mode CallsSucceed) before
      (bag', outcome) after) : outcome.isSome := by
  have accepted : ¬ (kind ≠ "sum" ∧ kind ≠ "mean") := by
    rintro ⟨sum, mean⟩
    exact known.elim sum mean
  rw [MemTierEmbeddingBag.forward, if_neg accepted] at evaluation
  obtain ⟨⟨next, found⟩, middle, lookup, rest⟩ := Prog.evaluates_bind.mp evaluation
  obtain ⟨⟨handle, result⟩, last, inner, branch⟩ := Prog.evaluates_bind.mp lookup
  have zero := memtierLookupBlocks_completes small wellFormed whole inner
  dsimp only at branch
  rw [if_neg (not_not.mpr zero)] at branch
  obtain ⟨returned, -⟩ := branch
  obtain ⟨-, rfl⟩ := Prod.mk.inj returned
  obtain ⟨returned, -⟩ := rest
  rw [← (Prod.mk.inj returned).2]
  rfl

/-- A run raises exactly when some block of its trace cannot be loaded. -/
theorem runBatches_outcome (small : file.length < 2 ^ 63) (known : kind = "sum" ∨ kind = "mean")
    {batches : List (List UInt64)} {statistics : Statistics} {outcome : Option Statistics}
    {passed : List BlockId} {reported : List Served}
    (metered : Metered file mode CallsSucceed config passed reported ⟨bag.handle, before⟩)
    (evaluation : (runBatches kind bag statistics batches).Evaluates
      (environment file mode CallsSucceed) before (bag', outcome) after) :
    outcome.isSome ↔ ∀ block ∈ (traceBlocks bag.rowsPerBlock batches).map UInt64.ofNat,
      LoadsWhole config file block := by
  constructor
  · intro some_outcome
    obtain ⟨statistics', rfl⟩ := Option.isSome_iff_exists.mp some_outcome
    obtain ⟨-, later, metered'⟩ := runBatches_metered metered evaluation
    exact (List.forall_mem_append.mp (metered'.fetched small).2).2
  · intro whole
    induction batches generalizing bag statistics before passed reported with
    | nil =>
        obtain ⟨returned, -⟩ := evaluation
        rw [← (Prod.mk.inj returned).2]
        rfl
    | cons batch batches induction =>
        rw [traceBlocks_cons, List.map_append, List.forall_mem_append] at whole
        obtain ⟨⟨next, found⟩, middle, forward, rest⟩ := Prog.evaluates_bind.mp evaluation
        have wellFormed : bag.handle.tiers.WellFormed config := metered.reachable.wellFormed small
        obtain ⟨output, rfl⟩ := Option.isSome_iff_exists.mp
          (forward_completes small known wellFormed whole.1 forward)
        obtain ⟨result, lookup, success, rows, -⟩ := forward_lookup forward
        have called := @Metered.call file mode CallsSucceed config passed reported
          ⟨bag.handle, before⟩ ⟨next.handle, middle⟩ (.lookup _) result metered lookup (.inl success)
        exact induction called rest (rows ▸ whole.2)

end

/-- The blocks of a trace, by the identifiers that need them. -/
theorem mem_traceBlocks_map {rowsPerBlock : Nat} {batches : List (List UInt64)} {block : BlockId} :
    block ∈ (traceBlocks rowsPerBlock batches).map UInt64.ofNat ↔
      ∃ batch ∈ batches, ∃ id ∈ batch, UInt64.ofNat (id.toNat / rowsPerBlock) = block := by
  constructor
  · intro member
    obtain ⟨number, listed, rfl⟩ := List.mem_map.mp member
    obtain ⟨batch, there, among⟩ := List.mem_flatMap.mp listed
    rw [idsToBlocks, Arrays.mem_unique, intIds, List.map_map] at among
    obtain ⟨id, here, rfl⟩ := List.mem_map.mp among
    exact ⟨batch, there, id, here, rfl⟩
  · rintro ⟨batch, there, id, here, rfl⟩
    refine List.mem_map_of_mem (List.mem_flatMap.mpr ⟨batch, there, ?_⟩)
    rw [idsToBlocks, Arrays.mem_unique, intIds, List.map_map]
    exact List.mem_map_of_mem here

section

variable {sizes : Sizes} {numEmbeddings : Nat} {file : Bytes} {mode : CopyMode} {kind : String}
  {dramBase hbmBase : Nat} {bag bag' : MemTierEmbeddingBag} {before after : Machine}
  {batches : List (List UInt64)} {result : Option RunResult}

/-- A run over valid identifiers does not raise if and only if the table has all rows of the blocks
they lie in. -/
theorem memtierRun_outcome (fits : sizes.Fits) (table : TableOf sizes.config numEmbeddings file)
    (known : kind = "sum" ∨ kind = "mean")
    (created : MemTierEmbeddingBag.new sizes dramBase hbmBase = some bag)
    (idle : before.pending = [])
    (valid : ∀ batch ∈ batches, ∀ id ∈ batch, id.toNat < numEmbeddings)
    (evaluation : (memtierRun sizes kind bag batches).Evaluates
      (environment file mode CallsSucceed) before (bag', result) after) :
    result.isSome ↔ ∀ batch ∈ batches, ∀ id ∈ batch,
      (id.toNat / sizes.rowsPerBlock + 1) * sizes.rowsPerBlock ≤ numEmbeddings := by
  obtain ⟨made, rows⟩ := MemTierEmbeddingBag.new_eq_some created
  have metered : Metered file mode CallsSucceed sizes.config [] [] ⟨bag.handle, before⟩ :=
    .init made idle
  obtain ⟨⟨last, outcome⟩, middle, loop, rest⟩ := Prog.evaluates_bind.mp evaluation
  have same : result.isSome = outcome.isSome := by
    cases outcome with
    | none =>
        rw [← (Prod.mk.inj rest.1).2]
        rfl
    | some statistics =>
        rw [← (Prod.mk.inj rest.1).2]
        rfl
  rw [same, runBatches_outcome table.small known metered loop, rows]
  have rowsPerBlock : sizes.config.rowsPerBlock.toNat = sizes.rowsPerBlock := by
    rw [Sizes.config, UInt32.toNat_ofNat', Nat.mod_eq_of_lt fits.rowsPerBlock]
  have each : ∀ batch ∈ batches, ∀ id ∈ batch,
      (LoadsWhole sizes.config file (UInt64.ofNat (id.toNat / sizes.rowsPerBlock)) ↔
        (id.toNat / sizes.rowsPerBlock + 1) * sizes.rowsPerBlock ≤ numEmbeddings) := by
    intro batch listed id member
    have block := table.loadsWhole_iff (valid batch listed id member)
    rwa [rowsPerBlock] at block
  constructor
  · intro whole batch listed id member
    exact (each batch listed id member).mp
      (whole _ (mem_traceBlocks_map.mpr ⟨batch, listed, id, member, rfl⟩))
  · intro full block member
    obtain ⟨batch, listed, id, among, rfl⟩ := mem_traceBlocks_map.mp member
    exact (each batch listed id among).mpr (full batch listed id among)

end

/-- A run over a trace of valid identifiers and a table that `generate_embedding_file` wrote, when no
call fails on its own account: it always comes to an end, and it raises if and only if some
identifier lies in a last block of which the table does not have all rows.  A block size that does
not divide the number of rows therefore makes rows unusable. -/
theorem run_succeeds_iff {sizes : Sizes} (fits : sizes.Fits) {numEmbeddings : Nat} {file : Bytes}
    (table : TableOf sizes.config numEmbeddings file) {mode : CopyMode} {kind : String}
    (known : kind = "sum" ∨ kind = "mean") {dramBase hbmBase : Nat} {bag : MemTierEmbeddingBag}
    (created : MemTierEmbeddingBag.new sizes dramBase hbmBase = some bag) {before : Machine}
    (idle : before.pending = []) {batches : List (List UInt64)}
    (valid : ∀ batch ∈ batches, ∀ id ∈ batch, id.toNat < numEmbeddings) :
    (∃ outcome after, (memtierRun sizes kind bag batches).Evaluates
      (environment file mode CallsSucceed) before outcome after) ∧
    ∀ bag' result after, (memtierRun sizes kind bag batches).Evaluates
      (environment file mode CallsSucceed) before (bag', result) after →
      (result.isSome ↔ ∀ batch ∈ batches, ∀ id ∈ batch,
        (id.toNat / sizes.rowsPerBlock + 1) * sizes.rowsPerBlock ≤ numEmbeddings) :=
  ⟨Prog.exists_evaluates (serves_callsSucceed file mode) _ _, fun _ _ _ evaluation =>
    memtierRun_outcome fits table known created idle valid evaluation⟩

/-- Rows of one half, two to a block. -/
def Sizes.twoRows : Sizes where
  embeddingDim := 1
  rowsPerBlock := 2
  dtypeSize := 2
  dramCacheBytes := 8
  hbmCacheBytes := 8

/-- Of three rows, the first two can be used, and the third one cannot. -/
theorem run_succeeds_iff_threeRows :
    ∃ bag, MemTierEmbeddingBag.new .twoRows 0 0 = some bag ∧
      (∀ bag' result after, (memtierRun .twoRows "sum" bag [[1], [0, 1]]).Evaluates
        (environment [0, 0, 0, 0, 0, 0] .queued CallsSucceed) Machine.blank (bag', result) after →
          result.isSome) ∧
      ∀ bag' result after, (memtierRun .twoRows "sum" bag [[1], [0, 2]]).Evaluates
        (environment [0, 0, 0, 0, 0, 0] .queued CallsSucceed) Machine.blank (bag', result) after →
          ¬ result.isSome := by
  have fits : Sizes.twoRows.Fits := ⟨by decide, by decide, by decide, by decide⟩
  obtain ⟨bag, created⟩ := Option.isSome_iff_exists.mp
    (show (MemTierEmbeddingBag.new .twoRows 0 0).isSome from by decide +kernel)
  refine ⟨bag, created, ?_, ?_⟩ <;> intro bag' result after evaluation <;>
    rw [(run_succeeds_iff fits tableOf_threeRows (.inl rfl) created rfl (by simp)).2 bag' result
      after evaluation]
  · simp [Sizes.twoRows]
  · simp [Sizes.twoRows]

end MemTier.Embedding
