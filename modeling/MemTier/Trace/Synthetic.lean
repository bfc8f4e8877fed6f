import MemTier.Embedding.TableFile
import MemTier.Trace.ReuseStatistics

/-!
# Synthetic traces

`generate_ids` draws the ids of a trace, and starts every batch after the first with a copy of the
beginning of the one before.  What is drawn is left to a generator; what is copied is not.
-/

namespace MemTier.Trace

open Containers

/-! ## Drawing -/

/-- What is used of NumPy's generators and of floating point and not looked into. -/
structure Sampler where
  State : Type
  /-- `np.random.default_rng(seed)`. -/
  defaultRng : Int → Except PyError State
  /-- `rng.integers(0, bound, size=count)`. -/
  integers : State → Nat → Nat → List Nat × State
  length_integers : ∀ state bound count, (integers state bound count).1.length = count
  integers_lt : ∀ state bound count, 0 < bound → ∀ id ∈ (integers state bound count).1, id < bound
  /-- The ranks of the Zipf branch, as unsigned numbers. -/
  zipfRanks : State → Nat → ℚ → Nat → Except PyError (List Nat × State)
  length_zipfRanks : ∀ state bound alpha count ranks state',
    zipfRanks state bound alpha count = .ok (ranks, state') → ranks.length = count
  /-- `int(count * ratio)`. -/
  portion : Nat → ℚ → Nat
  portion_le : ∀ count ratio, 0 ≤ ratio → ratio < 1 → portion count ratio ≤ count
  /-- NumPy before version 2 takes −1 for the greatest unsigned number. -/
  wraps : Bool

structure WorkloadArgs where
  numEmbeddings : Nat
  batchSize : Nat
  bagSize : Nat
  numBatches : Nat
  dist : String := "uniform"
  zipfAlpha : ℚ := 1
  overlapRatio : ℚ := 0
  seed : Int := 1234
  deriving DecidableEq, Repr

def WorkloadArgs.totalPerBatch (args : WorkloadArgs) : Nat := args.batchSize * args.bagSize

/-- `np.uint64(num_embeddings - 1)`. -/
def lastId (wraps : Bool) : Nat → Except PyError Nat
  | 0 => if wraps then .ok (2 ^ 64 - 1) else .error .overflowError
  | numEmbeddings + 1 => uint64 numEmbeddings

/-- The ids of a batch that are drawn anew. -/
def freshIds (sampler : Sampler) (args : WorkloadArgs) (state : sampler.State) (freshCount : Nat) :
    Except PyError (List Nat × sampler.State) :=
  if args.dist = "uniform" then
    if freshCount = 0 then .ok ([], state)
    else if args.numEmbeddings = 0 then .error (.valueError "low >= high")
    else if 2 ^ 64 < args.numEmbeddings then
      .error (.valueError "high is out of bounds for uint64")
    else .ok (sampler.integers state args.numEmbeddings freshCount)
  else if args.dist = "zipf" then do
    let (ranks, state) ← sampler.zipfRanks state args.numEmbeddings args.zipfAlpha freshCount
    let last ← lastId sampler.wraps args.numEmbeddings
    return (ranks.map (min · last), state)
  else
    let dist := args.dist
    .error (.valueError s!"unsupported dist: {dist}")

/-- The loop over batches, after the batch before if there is one. -/
def generateRows (sampler : Sampler) (args : WorkloadArgs) (overlap : Nat) :
    Nat → Option (List Nat) → sampler.State → Except PyError (List (List Nat))
  | 0, _, _ => return []
  | remaining + 1, previous, state => do
      let freshCount := args.totalPerBatch - if previous.isSome then overlap else 0
      let (fresh, state) ← freshIds sampler args state freshCount
      let row :=
        match previous with
        | some earlier => if 0 < overlap then earlier.take overlap ++ fresh else fresh
        | none => fresh
      return row :: (← generateRows sampler args overlap remaining (some row) state)

/-- `generate_ids`: an array with a row for each batch. -/
def generateIds (sampler : Sampler) (args : WorkloadArgs) : Except PyError (NdArray Nat) := do
  if ¬ (0 ≤ args.overlapRatio ∧ args.overlapRatio < 1) then
    throw (.valueError "overlap_ratio must be in [0, 1)")
  let state ← sampler.defaultRng args.seed
  let overlap := sampler.portion args.totalPerBatch args.overlapRatio
  let rows ← generateRows sampler args overlap args.numBatches none state
  match NdArray.matrix args.totalPerBatch rows with
  | none => throw (.valueError "could not broadcast input array")
  | some trace => return trace

/-! ## Reuse -/

/-- The loop variables of `estimate_block_reuse`. -/
structure ReuseLoop where
  previous : Finset Nat := ∅
  reuseRates : List ℚ := []
  uniqueCounts : List Nat := []

def ReuseLoop.batch (rowsPerBlock : Nat) (loop : ReuseLoop) (ids : List Nat) : ReuseLoop :=
  let blocks := (Embedding.idsToBlocks ids rowsPerBlock).toFinset
  { previous := blocks
    reuseRates :=
      if loop.previous = ∅ then loop.reuseRates
      else loop.reuseRates ++
        [((blocks ∩ loop.previous).card : ℚ) / (max blocks.card 1 : Nat)]
    uniqueCounts := loop.uniqueCounts ++ [blocks.card] }

structure BlockReuse where
  avgUniqueBlocksPerBatch : ℚ
  avgInterBatchBlockReuse : ℚ
  numBatches : Nat
  deriving DecidableEq, Repr

def estimateBlockReuse (trace : NdArray Nat) (rowsPerBlock : Nat) : BlockReuse :=
  let loop := trace.rowList.foldl (ReuseLoop.batch rowsPerBlock) {}
  { avgUniqueBlocksPerBatch := meanOf (loop.uniqueCounts.map (↑))
    avgInterBatchBlockReuse := meanOf loop.reuseRates
    numBatches := trace.samples }

/-- What `main` leaves on disk: the array, and beside it a text with the arguments. -/
def WorkloadArgs.saved (args : WorkloadArgs) (rowsPerBlock : Nat) (trace : NdArray Nat) :
    TraceFile :=
  .npy trace (some
    { batchSize := some args.batchSize
      bagSize := some args.bagSize
      rowsPerBlock := some rowsPerBlock })

/-! ## What a batch holds -/

section

variable {sampler : Sampler} {args : WorkloadArgs} {overlap remaining : Nat}
  {previous : Option (List Nat)} {state : sampler.State} {rows : List (List Nat)}

theorem lastId_spec {wraps : Bool} {numEmbeddings last : Nat}
    (converted : lastId wraps numEmbeddings = .ok last) :
    last < 2 ^ 64 ∧ (0 < numEmbeddings → last < numEmbeddings) := by
  cases numEmbeddings with
  | zero =>
      rw [lastId] at converted
      split at converted
      · obtain rfl := Except.ok.inj converted
        exact ⟨by decide, fun positive => absurd positive (lt_irrefl 0)⟩
      · simp at converted
  | succ numEmbeddings =>
      obtain ⟨fits, rfl⟩ := uint64_eq_ok.mp converted
      exact ⟨fits, fun _ => Nat.lt_succ_self _⟩

/-- What is drawn is as long as asked for, and lies in the table whatever the distribution. -/
theorem freshIds_spec {count : Nat} {fresh : List Nat} {state' : sampler.State}
    (drawn : freshIds sampler args state count = .ok (fresh, state')) :
    fresh.length = count ∧
      ∀ id ∈ fresh, id < 2 ^ 64 ∧ (0 < args.numEmbeddings → id < args.numEmbeddings) := by
  rw [freshIds] at drawn
  split_ifs at drawn with uniform none empty large zipf
  · obtain ⟨rfl, -⟩ := Prod.mk.inj (Except.ok.inj drawn)
    exact ⟨none.symm, by simp⟩
  · have same := congrArg Prod.fst (Except.ok.inj drawn)
    rw [← show _ = fresh from same]
    have positive := Nat.pos_of_ne_zero empty
    refine ⟨sampler.length_integers _ _ _, fun id member => ?_⟩
    have inside := sampler.integers_lt _ _ _ positive id member
    exact ⟨by omega, fun _ => inside⟩
  · obtain ⟨⟨ranks, next⟩, ranked, drawn⟩ := bind_eq_ok.mp drawn
    obtain ⟨last, converted, drawn⟩ := bind_eq_ok.mp drawn
    obtain ⟨rfl, -⟩ := Prod.mk.inj (Except.ok.inj drawn)
    obtain ⟨small, inside⟩ := lastId_spec converted
    refine ⟨(List.length_map _).trans (sampler.length_zipfRanks _ _ _ _ _ _ ranked), ?_⟩
    intro id member
    obtain ⟨rank, -, rfl⟩ := List.mem_map.mp member
    exact ⟨(min_le_right _ _).trans_lt small,
      fun positive => (min_le_right _ _).trans_lt (inside positive)⟩

theorem generateRows_succ_eq_ok
    (generated : generateRows sampler args overlap (remaining + 1) previous state = .ok rows) :
    ∃ fresh state' later,
      freshIds sampler args state (args.totalPerBatch - if previous.isSome then overlap else 0) =
        .ok (fresh, state') ∧
      generateRows sampler args overlap remaining
        (some ((previous.elim [] (List.take overlap)) ++ fresh)) state' = .ok later ∧
      rows = (previous.elim [] (List.take overlap) ++ fresh) :: later := by
  rw [generateRows] at generated
  obtain ⟨⟨fresh, state'⟩, drawn, generated⟩ := bind_eq_ok.mp generated
  obtain ⟨later, further, generated⟩ := bind_eq_ok.mp generated
  obtain rfl := Except.ok.inj (generated : Except.ok (_ :: later) = _)
  refine ⟨fresh, state', later, drawn, ?_⟩
  cases previous with
  | none => exact ⟨further, rfl⟩
  | some earlier =>
      rcases Nat.eq_zero_or_pos overlap with rfl | some_overlap
      · exact ⟨further, rfl⟩
      · dsimp only at further ⊢
        rw [if_pos some_overlap] at further ⊢
        exact ⟨further, rfl⟩

/-- Batches are as many and as long as asked for, hold what was drawn, and all begin alike. -/
theorem generateRows_spec (fits : overlap ≤ args.totalPerBatch)
    (known : ∀ earlier ∈ previous, earlier.length = args.totalPerBatch)
    (generated : generateRows sampler args overlap remaining previous state = .ok rows) :
    rows.length = remaining ∧ (∀ row ∈ rows, row.length = args.totalPerBatch) ∧
      (∀ earlier ∈ previous, ∀ row ∈ rows, row.take overlap = earlier.take overlap) ∧
      ∀ row ∈ rows, ∀ id ∈ row, (∃ earlier ∈ previous, id ∈ earlier) ∨
        id < 2 ^ 64 ∧ (0 < args.numEmbeddings → id < args.numEmbeddings) := by
  induction remaining generalizing previous state rows with
  | zero =>
      obtain rfl := Except.ok.inj (generated : Except.ok [] = _)
      simp
  | succ remaining induction =>
      obtain ⟨fresh, state', later, drawn, further, rfl⟩ := generateRows_succ_eq_ok generated
      obtain ⟨length, inside⟩ := freshIds_spec drawn
      have copied : ∀ earlier ∈ previous, (earlier.take overlap).length = overlap := by
        intro earlier member
        rw [List.length_take, known earlier member, Nat.min_eq_left fits]
      have first : (previous.elim [] (List.take overlap) ++ fresh).length =
          args.totalPerBatch := by
        rw [List.length_append, length]
        cases previous with
        | none => simp
        | some earlier =>
            have here := copied earlier rfl
            simp only [Option.elim_some, Option.isSome_some, if_true, here]
            omega
      obtain ⟨count, lengths, alike, ids⟩ := induction (by simpa using first) further
      refine ⟨congrArg Nat.succ count, List.forall_mem_cons.mpr ⟨first, lengths⟩, ?_, ?_⟩
      · intro earlier member
        obtain rfl := Option.mem_def.mp member
        have same : (List.take overlap earlier ++ fresh).take overlap = earlier.take overlap :=
          List.take_left' (copied earlier rfl)
        refine List.forall_mem_cons.mpr ⟨same, fun row listed => ?_⟩
        exact (alike _ rfl row listed).trans same
      · have here : ∀ id ∈ previous.elim [] (List.take overlap) ++ fresh,
            (∃ earlier ∈ previous, id ∈ earlier) ∨
              id < 2 ^ 64 ∧ (0 < args.numEmbeddings → id < args.numEmbeddings) := by
          intro id member
          rcases List.mem_append.mp member with copy | new
          · cases previous with
            | none => simp at copy
            | some earlier => exact .inl ⟨earlier, rfl, List.mem_of_mem_take copy⟩
          · exact .inr (inside id new)
        refine List.forall_mem_cons.mpr ⟨here, fun row listed id member => ?_⟩
        rcases ids row listed id member with ⟨earlier, same, among⟩ | new
        · obtain rfl := Option.some.inj same
          exact here id among
        · exact .inr new

end

/-! ## Batches that begin alike -/

section

variable {rows : List (List Nat)} {width overlap : Nat}

/-- What the batches have in common is counted once. -/
theorem card_flatten_le (lengths : ∀ row ∈ rows, row.length = width)
    (alike : ∀ row ∈ rows, ∀ other ∈ rows, row.take overlap = other.take overlap) :
    rows.flatten.toFinset.card ≤ overlap + rows.length * (width - overlap) := by
  cases rows with
  | nil => simp
  | cons first later =>
      have covered : (first :: later).flatten.toFinset ⊆
          (first.take overlap ++ (first :: later).flatMap (List.drop overlap)).toFinset := by
        intro id member
        rw [List.mem_toFinset] at member ⊢
        obtain ⟨row, listed, among⟩ := List.mem_flatten.mp member
        rw [← List.take_append_drop overlap row, alike row listed first List.mem_cons_self] at among
        rcases List.mem_append.mp among with common | own
        · exact List.mem_append_left _ common
        · exact List.mem_append_right _ (List.mem_flatMap.mpr ⟨row, listed, own⟩)
      have rest : ((first :: later).map fun row => (row.drop overlap).length) =
          List.replicate (first :: later).length (width - overlap) := by
        rw [List.eq_replicate_iff]
        refine ⟨List.length_map _, fun length member => ?_⟩
        obtain ⟨row, listed, rfl⟩ := List.mem_map.mp member
        rw [List.length_drop, lengths row listed]
      refine (Finset.card_le_card covered).trans ((List.toFinset_card_le _).trans ?_)
      rw [List.length_append, List.length_flatMap, rest, List.sum_replicate, smul_eq_mul]
      exact Nat.add_le_add_right (List.length_take_le _ _) _

/-- What estimates reuse, and what analyzes a trace, reckon alike. -/
structure ReuseLoop.Follows (rowsPerBlock : Nat) (batches : List (List Nat)) (loop : ReuseLoop) :
    Prop where
  previous : loop.previous = Visits.current (blockSets rowsPerBlock batches)
  reuseRates : loop.reuseRates = (followers (blockSets rowsPerBlock batches)).map fun pair =>
    ((pair.2 ∩ pair.1).card : ℚ) / (max pair.2.card 1 : Nat)
  uniqueCounts : loop.uniqueCounts = (blockSets rowsPerBlock batches).map Finset.card

theorem ReuseLoop.follows_foldl (rowsPerBlock : Nat) (batches : List (List Nat)) :
    ReuseLoop.Follows rowsPerBlock batches (batches.foldl (ReuseLoop.batch rowsPerBlock) {}) := by
  induction batches using List.reverseRecOn with
  | nil => exact ⟨rfl, rfl, rfl⟩
  | append_singleton batches ids induction =>
      rw [List.foldl_append, List.foldl_cons, List.foldl_nil]
      constructor
      · rw [blockSets_concat, Visits.current, List.getLast?_concat]
        rfl
      · rw [blockSets_concat, followers_concat, ← induction.previous]
        dsimp only [ReuseLoop.batch]
        split_ifs with empty
        · exact induction.reuseRates
        · rw [List.map_append, induction.reuseRates]
          rfl
      · rw [blockSets_concat, List.map_append, ← induction.uniqueCounts]
        rfl

theorem meanOf_ge {values : List ℚ} {bound : ℚ} (nonempty : values ≠ [])
    (above : ∀ value ∈ values, bound ≤ value) : bound ≤ meanOf values := by
  have total := List.card_nsmul_le_sum values bound above
  have count : (0 : ℚ) < values.length := by
    exact_mod_cast List.length_pos_iff.mpr nonempty
  rw [meanOf, if_neg nonempty, le_div_iff₀ count, mul_comm, ← nsmul_eq_mul]
  exact total

/-- The blocks of a batch that begins like others: those of the beginning, and no more new ones than
there are further ids. -/
theorem card_blocks_le {row : List Nat} (rowsPerBlock : Nat) (length : row.length = width) :
    (Embedding.idsToBlocks row rowsPerBlock).toFinset.card ≤
      (Embedding.idsToBlocks (row.take overlap) rowsPerBlock).toFinset.card + (width - overlap) := by
  have covered : (Embedding.idsToBlocks row rowsPerBlock).toFinset ⊆
      (Embedding.idsToBlocks (row.take overlap) rowsPerBlock).toFinset ∪
        ((row.drop overlap).map (· / rowsPerBlock)).toFinset := by
    intro block member
    simp only [Embedding.idsToBlocks, List.mem_toFinset, Arrays.mem_unique,
      Finset.mem_union] at member ⊢
    rwa [← List.mem_append, ← List.map_append, List.take_append_drop]
  refine (Finset.card_le_card covered).trans ((Finset.card_union_le _ _).trans ?_)
  refine Nat.add_le_add_left ((List.toFinset_card_le _).trans ?_) _
  rw [List.length_map, List.length_drop, length]

/-- A batch that follows another one has the blocks of the common beginning in common with it. -/
theorem followers_rate_ge (rowsPerBlock : Nat) (lengths : ∀ row ∈ rows, row.length = width)
    (alike : ∀ row ∈ rows, ∀ other ∈ rows, row.take overlap = other.take overlap)
    {pair : Finset Nat × Finset Nat} (follows : pair ∈ followers (blockSets rowsPerBlock rows))
    {row : List Nat} (listed : row ∈ rows) :
    let shared := (Embedding.idsToBlocks (row.take overlap) rowsPerBlock).toFinset.card
    (shared : ℚ) / (shared + (width - overlap) : Nat) ≤
      ((pair.2 ∩ pair.1).card : ℚ) / (max pair.2.card 1 : Nat) := by
  intro shared
  obtain ⟨⟨first, earlier, same⟩, ⟨second, later, same'⟩⟩ :
      (∃ first ∈ rows, (Embedding.idsToBlocks first rowsPerBlock).toFinset = pair.1) ∧
        ∃ second ∈ rows, (Embedding.idsToBlocks second rowsPerBlock).toFinset = pair.2 := by
    obtain ⟨here, there⟩ := List.of_mem_zip (List.mem_of_mem_filter follows)
    have there := List.mem_of_mem_tail there
    rw [blockSets, blockBatches, List.map_map] at here there
    exact ⟨List.mem_map.mp here, List.mem_map.mp there⟩
  have common : ∀ other ∈ rows, (Embedding.idsToBlocks (row.take overlap) rowsPerBlock).toFinset ⊆
      (Embedding.idsToBlocks other rowsPerBlock).toFinset := by
    intro other member block among
    rw [alike row listed other member] at among
    simp only [Embedding.idsToBlocks, List.mem_toFinset, Arrays.mem_unique] at among ⊢
    exact List.map_subset _ (List.take_subset _ _) among
  have met : shared ≤ (pair.2 ∩ pair.1).card :=
    Finset.card_le_card (Finset.subset_inter (same' ▸ common second later)
      (same ▸ common first earlier))
  have most : pair.2.card ≤ shared + (width - overlap) := by
    rw [← same', show shared = _ from congrArg (fun ids =>
      (Embedding.idsToBlocks ids rowsPerBlock).toFinset.card) (alike row listed second later)]
    exact card_blocks_le rowsPerBlock (lengths second later)
  rcases Nat.eq_zero_or_pos shared with zero | positive
  · rw [zero, Nat.cast_zero, zero_div]
    positivity
  · refine div_le_div₀ (by positivity) (by exact_mod_cast met) (by positivity) ?_
    exact_mod_cast max_le most (by omega)

theorem followers_ne_nil (rowsPerBlock : Nat) (several : 2 ≤ rows.length)
    (filled : ∀ row ∈ rows, row ≠ []) : followers (blockSets rowsPerBlock rows) ≠ [] := by
  match rows, several with
  | first :: second :: later, _ =>
      obtain ⟨id, member⟩ := List.exists_mem_of_ne_nil _ (filled first List.mem_cons_self)
      have some_block : (Arrays.unique (first.map (· / rowsPerBlock))).toFinset ≠ ∅ := by
        refine Finset.nonempty_iff_ne_empty.mp ⟨id / rowsPerBlock, ?_⟩
        rw [List.mem_toFinset, Arrays.mem_unique]
        exact List.mem_map_of_mem member
      refine List.ne_nil_of_mem (List.mem_filter.mpr ⟨List.mem_cons_self, ?_⟩)
      simpa using some_block

end

/-! ## Reading a saved trace -/

/-- A matrix without a layout is read row by row, unless more than one of its rows make a batch. -/
theorem iterBatches_of_rows {opened : EmbeddingTrace} {array : NdArray Nat} {samples width : Nat}
    (lines : opened.jsonlRows = none) (held : opened.ids = some array)
    (layout : opened.metadata.traceLayout = none) (shape : array.shape = [samples, width])
    (small : ∀ id ∈ array.data, id < 2 ^ 64)
    (single : opened.columnsMatch array = true → opened.batchSize = some 1) :
    opened.iterBatches = .ok array.rowList := by
  have extent : array.samples = samples := by rw [NdArray.samples, shape, List.headD_cons]
  have ranked : array.ndim = 2 := by rw [NdArray.ndim, shape]; rfl
  have counted : opened.numBatches = .ok array.samples := by
    rw [EmbeddingTrace.numBatches, lines, held]
    simp only [ranked, layout]
    cases matched : opened.columnsMatch array with
    | false => simp
    | true => simp [single matched, NdArray.runs]
  have cut : ∀ position < array.samples,
      opened.batchFromArray array position = .ok (array.rows position (position + 1)) := by
    intro position inside
    rw [EmbeddingTrace.batchFromArray, ranked]
    simp only [OfNat.ofNat_ne_one, Nat.reduceEqDiff, if_false]
    cases matched : opened.columnsMatch array with
    | false =>
        rw [if_neg (by simp), EmbeddingTrace.flatIndex, NdArray.index, dif_pos inside,
          NdArray.rows_succ]
    | true =>
        rw [if_pos rfl, single matched, Option.getD_some, Nat.mul_one, Nat.min_eq_right inside]
  rw [EmbeddingTrace.iterBatches, counted]
  refine mapM_eq_ok_of_forall fun position inside => ?_
  have inside := List.mem_range.mp inside
  have plain : astype .uint64 (array.rows position (position + 1)) =
      array.rows position (position + 1) := by
    refine (List.map_congr_left fun id member => Nat.mod_eq_of_lt ?_).trans (List.map_id _)
    exact small id (List.mem_of_mem_take (List.mem_of_mem_drop member))
  rw [EmbeddingTrace.getBatchIds, counted, lines, held]
  simp [bind, Except.bind, pure, Except.pure, Nat.not_le.mpr inside, cut position inside, plain]

/-- The reader finds the batches that were generated. -/
theorem saved_reads_back {args : WorkloadArgs} {trace : NdArray Nat} {samples : Nat}
    (shape : trace.shape = [samples, args.totalPerBatch]) (small : ∀ id ∈ trace.data, id < 2 ^ 64)
    (rowsPerBlock : Nat) (reader : Option Nat) :
    ∃ opened, EmbeddingTrace.init (args.saved rowsPerBlock trace) reader = .ok opened ∧
      opened.iterBatches = .ok trace.rowList := by
  refine ⟨_, rfl, iterBatches_of_rows rfl rfl rfl shape small fun matched => ?_⟩
  -- Bags are as wide as a batch only if a batch has one of them.
  simp only [EmbeddingTrace.columnsMatch, EmbeddingTrace.bagSize, EmbeddingTrace.batchSize,
    EmbeddingTrace.truthy, shape, Option.getD_some, Bool.and_eq_true, decide_eq_true_eq] at matched
  obtain ⟨⟨⟨-, some_bag⟩, same⟩, -⟩ := matched
  have nonzero : args.bagSize ≠ 0 := by
    intro zero
    simp [zero, Option.filter] at some_bag
  rw [Option.filter_some, if_pos (decide_eq_true nonzero), Option.some_or] at same
  have equal : args.batchSize * args.bagSize = 1 * args.bagSize :=
    (Option.some.inj same).trans (Nat.one_mul _).symm
  exact congrArg some (Nat.eq_of_mul_eq_mul_right (Nat.pos_of_ne_zero nonzero) equal)

theorem generateIds_eq_ok {sampler : Sampler} {args : WorkloadArgs} {trace : NdArray Nat}
    (generated : generateIds sampler args = .ok trace) :
    (0 ≤ args.overlapRatio ∧ args.overlapRatio < 1) ∧
      ∃ state, NdArray.matrix args.totalPerBatch trace.rowList = some trace ∧
        generateRows sampler args (sampler.portion args.totalPerBatch args.overlapRatio)
          args.numBatches none state = .ok trace.rowList := by
  rw [generateIds] at generated
  by_cases ratio : 0 ≤ args.overlapRatio ∧ args.overlapRatio < 1
  · rw [if_neg (not_not.mpr ratio)] at generated
    obtain ⟨state, -, generated⟩ := bind_eq_ok.mp generated
    obtain ⟨rows, loop, generated⟩ := bind_eq_ok.mp generated
    cases built : NdArray.matrix args.totalPerBatch rows with
    | none =>
        rw [built] at generated
        simp [throw, throwThe, MonadExceptOf.throw] at generated
    | some array =>
        rw [built] at generated
        obtain rfl := Except.ok.inj generated
        obtain ⟨-, -, same, -⟩ := NdArray.matrix_eq_some built
        exact ⟨ratio, state, same.symm ▸ built, same.symm ▸ loop⟩
  · rw [if_pos ratio] at generated
    simp [bind, Except.bind, throw, throwThe, MonadExceptOf.throw] at generated

/-- The array that is returned: its rows are the batches, and its ids are those that were drawn. -/
theorem generateIds_spec {sampler : Sampler} {args : WorkloadArgs} {trace : NdArray Nat}
    (generated : generateIds sampler args = .ok trace) :
    trace.shape = [args.numBatches, args.totalPerBatch] ∧ trace.data = trace.rowList.flatten ∧
      (∀ batch ∈ trace.rowList, batch.length = args.totalPerBatch) ∧
      ∀ id ∈ trace.data, id < 2 ^ 64 ∧ (0 < args.numEmbeddings → id < args.numEmbeddings) := by
  obtain ⟨⟨low, high⟩, state, built, loop⟩ := generateIds_eq_ok generated
  obtain ⟨shape, data, -, lengths⟩ := NdArray.matrix_eq_some built
  obtain ⟨count, -, -, inside⟩ :=
    generateRows_spec (sampler.portion_le _ _ low high) (by simp) loop
  refine ⟨count ▸ shape, data, lengths, fun id member => ?_⟩
  rw [data] at member
  obtain ⟨batch, listed, among⟩ := List.mem_flatten.mp member
  exact (inside batch listed id among).resolve_left (by simp)

/-- A sampler that counts on, with exact arithmetic. -/
def Sampler.counting : Sampler where
  State := Nat
  defaultRng seed := .ok seed.toNat
  integers state bound count :=
    ((List.range count).map fun position => (state + position) % bound, state + count)
  length_integers state bound count := by simp
  integers_lt state bound count positive id member := by
    obtain ⟨position, -, rfl⟩ := List.mem_map.mp member
    exact Nat.mod_lt _ positive
  zipfRanks state _ _ count := .ok ((List.range count).map (state + ·), state + count)
  length_zipfRanks state bound alpha count ranks state' drawn := by
    rw [← (Prod.mk.inj (Except.ok.inj drawn)).1, List.length_map, List.length_range]
  portion count ratio := count * ratio.num.toNat / ratio.den
  portion_le count ratio low high := by
    have below : ratio.num.toNat ≤ ratio.den := by
      have less := Rat.num_lt_denom_iff.mpr high
      omega
    exact (Nat.div_le_div_right (Nat.mul_le_mul_left count below)).trans
      (Nat.mul_div_cancel _ ratio.den_pos).le
  wraps := false

end MemTier.Trace
