import MemTier.Embedding.FailedLoads

/-!
# Device pointers of a batch

A hit in the residency table does not refresh the HBM cache, so the cache evicts in the order of
arrival.  A block that a batch has asked for may be the oldest one, and then a later miss of the
same batch takes its slot.  The pointers a lookup returns are right exactly when no miss does so.
-/

namespace MemTier.Embedding

open Containers Resumption

/-- A call that succeeded, not naming the identifier that stands for no eviction. -/
def Succeeds (request : Request) (rc : Int) : Prop :=
  rc = 0 ∧ ∀ block ∈ request.blocks, block ≠ uint64Max

instance (request : Request) (rc : Int) : Decidable (Succeeds request rc) :=
  @instDecidableAnd _ _ (inferInstanceAs (Decidable (rc = 0)))
    (List.decidableBAll (· ≠ uint64Max) request.blocks)

/-- Every block of the batch is where the lookup says, and different blocks are in different
places. -/
structure PointersValid (config : Config) (file : Bytes) (hbm : Memory) (batch : List BlockId)
    (served : List Served) : Prop where
  holds : List.Forall₂ (fun block (result : Served) =>
    HoldsBlock config file hbm result.devicePtr block) batch served
  apart : ∀ first ∈ batch.zip served, ∀ second ∈ batch.zip served,
    first.2.devicePtr = second.2.devicePtr → first.1 = second.1

/-- In a queue of arrivals, no miss of the batch evicts a block that was asked for earlier. -/
def KeepsAsked (capacity : Nat) : List BlockId → List BlockId → List BlockId → Prop
  | _, _, [] => True
  | order, asked, block :: batch =>
      if block ∈ order then KeepsAsked capacity order (block :: asked) batch
      else (∀ victim ∈ Recency.victim capacity order, victim ∉ asked) ∧
        KeepsAsked capacity (Recency.enter capacity block order) (block :: asked) batch

instance KeepsAsked.decidable (capacity : Nat) : ∀ order asked batch,
    Decidable (KeepsAsked capacity order asked batch)
  | _, _, [] => instDecidableTrue
  | order, asked, block :: batch =>
      have := KeepsAsked.decidable capacity order (block :: asked) batch
      have := @instDecidableAnd _ _
        (Option.decidableForallMem (p := (· ∉ asked)) (Recency.victim capacity order))
        (KeepsAsked.decidable capacity (Recency.enter capacity block order) (block :: asked) batch)
      inferInstanceAs (Decidable (if block ∈ order then _ else _))

/-- Every block in the HBM cache is recorded there. -/
def Tracked (tiers : Tiers) : Prop :=
  ∀ block ptr, tiers.hbm.address block = some ptr → tiers.location block = .hbm ptr

section

variable {file : Bytes} {mode : CopyMode} {permits : (op : Op) → Reply op → Prop}
  {config : Config} {tiers tiers' : Tiers} {block : BlockId} {before after : Machine}
  {served : Served}

theorem Tracked.fresh (fresh : tiers.Fresh) : Tracked tiers := by
  intro block ptr held
  rw [fresh.hbm block] at held
  simp at held

/-- A round that serves its block is a hit, or enters the block into the HBM cache. -/
theorem Round.served_cases
    (round : Round file mode permits tiers block before tiers' (some served) after) :
    (tiers.location block = .hbm served.devicePtr ∧ tiers' = tiers) ∨
    ((∀ ptr, tiers.location block ≠ .hbm ptr) ∧ tiers'.hbm = (tiers.hbm.allocate block).2 ∧
      served.devicePtr = (tiers.hbm.allocate block).1.1 ∧
      tiers'.location block = .hbm served.devicePtr ∧
      ∀ other, other ≠ block → tiers'.location other =
        if (tiers.hbm.allocate block).1.2 = some other ∧ other ≠ uint64Max then .nowhere
        else tiers.location other) := by
  cases round with
  | hit resident => exact .inl ⟨resident, rfl⟩
  | copied stage drains permitted =>
      obtain ⟨hbm, locations, absent, -⟩ := stage.frame
      refine .inr ⟨absent, ?_, ?_, ?_, fun other different => ?_⟩
      · simp only [Tiers.mark, Tiers.place, hbm]
      · simp only [Tiers.copyPtr, hbm]
      · simp only [Tiers.mark, Function.update_self]
      · simp only [Tiers.mark, Tiers.place, hbm, locations, Function.update_of_ne different]

theorem Round.tracked
    (round : Round file mode permits tiers block before tiers' (some served) after)
    (wellFormed : tiers.WellFormed config) (tracked : Tracked tiers) : Tracked tiers' := by
  rcases round.served_cases with ⟨-, rfl⟩ | ⟨-, hbm, ptr_eq, here, elsewhere⟩
  · exact tracked
  · intro other ptr held
    rw [hbm] at held
    by_cases same : other = block
    · subst same
      rw [wellFormed.hbm.address_allocate, ← ptr_eq] at held
      rw [here, Option.some.inj held]
    · have stays : (tiers.hbm.allocate block).1.2 ≠ some other := by
        intro evicted
        rw [wellFormed.hbm.address_allocate_ne same, if_pos evicted] at held
        simp at held
      rw [elsewhere other same, if_neg fun forgotten => stays forgotten.1]
      exact tracked other ptr (wellFormed.hbm.address_of_allocate same held)

theorem Tiers.WellFormed.mem_recency (wellFormed : tiers.WellFormed config) :
    block ∈ tiers.hbm.recency ↔ ∃ ptr, tiers.hbm.address block = some ptr := by
  rw [wellFormed.hbm.keys, ← Option.isSome_iff_exists, SlotCache.address, Option.isSome_map,
    AList.lookup_isSome]

/-- The HBM cache as a queue of arrivals: a hit changes nothing, a miss enters its block at the
front, and the block at the end of a full queue gives up its slot. -/
theorem Round.order
    (round : Round file mode permits tiers block before tiers' (some served) after)
    (wellFormed : tiers.WellFormed config) (coherent : Coherent tiers) (tracked : Tracked tiers) :
    (block ∈ tiers.hbm.recency ∧ tiers' = tiers ∧
      tiers.hbm.address block = some served.devicePtr) ∨
    (block ∉ tiers.hbm.recency ∧
      tiers'.hbm.recency = Recency.enter config.hbmCapacity block tiers.hbm.recency ∧
      tiers'.hbm.address block = some served.devicePtr ∧
      (∀ victim ∈ Recency.victim config.hbmCapacity tiers.hbm.recency,
        tiers.hbm.address victim = some served.devicePtr) ∧
      ∀ other ptr, tiers.hbm.address other = some ptr →
        other ∉ Recency.victim config.hbmCapacity tiers.hbm.recency →
        tiers'.hbm.address other = some ptr) := by
  rcases round.served_cases with ⟨resident, rfl⟩ | ⟨unrecorded, hbm, ptr_eq, -, -⟩
  · have held := coherent.kept block _ resident
    exact .inl ⟨wellFormed.mem_recency.mpr ⟨_, held⟩, rfl, held⟩
  · have absent : tiers.hbm.address block = none := by
      cases held : tiers.hbm.address block with
      | none => rfl
      | some ptr => exact absurd (tracked block ptr held) (unrecorded ptr)
    obtain ⟨-, order, evicted, slot, -⟩ := wellFormed.hbm.allocate_absent absent
    rw [wellFormed.hbm_capacity] at order evicted
    rw [evicted] at slot
    refine .inr ⟨?_, by rw [hbm, order], ?_, ?_, ?_⟩
    · rw [wellFormed.mem_recency, absent]
      simp
    · rw [hbm, wellFormed.hbm.address_allocate, ptr_eq]
    · rw [ptr_eq]
      exact slot
    · intro other ptr held stays
      have different : other ≠ block := by
        rintro rfl
        rw [absent] at held
        simp at held
      rw [hbm, wellFormed.hbm.address_allocate_ne different, evicted]
      exact (if_neg stays).trans held

end

/-! ## Batches -/

/-- What holds after successful calls: the tables agree and the slots are filled. -/
structure Steady (config : Config) (file : Bytes) (tiers : Tiers) (machine : Machine) : Prop where
  coherent : Coherent tiers
  tracked : Tracked tiers
  loaded : Loaded config file tiers machine

section

variable {file : Bytes} {permits : (op : Op) → Reply op → Prop} {config : Config}
  {tiers tiers' : Tiers} {before after : Machine} {blocks : List BlockId}
  {served : List Served} {complete : Bool}

theorem Steady.round {block : BlockId} {result : Served} (steady : Steady config file tiers before)
    (wellFormed : tiers.WellFormed config) (proper : block ≠ uint64Max)
    (round : Round file .atIssue permits tiers block before tiers' (some result) after) :
    Steady config file tiers' after where
  coherent := round.coherent wellFormed proper steady.coherent
  tracked := round.tracked wellFormed steady.tracked
  loaded := steady.loaded.round wellFormed round

theorem Batch.length_eq
    (batch : Batch file .atIssue permits tiers before blocks served complete tiers' after)
    (finished : complete = true) : blocks.length = served.length := by
  induction batch with
  | done => rfl
  | failed round => simp at finished
  | step round rest induction => simp [induction finished]

/-- As long as no block that was asked for is evicted, all pointers handed out stay right. -/
theorem Batch.pointers_of_keeps
    (batch : Batch file .atIssue permits tiers before blocks served complete tiers' after)
    (finished : complete = true) (wellFormed : tiers.WellFormed config)
    (proper : ∀ block ∈ blocks, block ≠ uint64Max) (steady : Steady config file tiers before)
    {given : List (BlockId × Served)}
    (right : ∀ pair ∈ given, tiers.hbm.address pair.1 = some pair.2.devicePtr)
    (keeps : KeepsAsked config.hbmCapacity tiers.hbm.recency (given.map Prod.fst) blocks) :
    ∀ pair, pair ∈ given ∨ pair ∈ blocks.zip served →
      tiers'.hbm.address pair.1 = some pair.2.devicePtr := by
  induction batch generalizing given with
  | done =>
      rintro pair (member | member)
      · exact right pair member
      · simp at member
  | failed round => simp at finished
  | @step tiers next tiers' before middle after block blocks result later complete round rest
      induction =>
      have next_steady := steady.round wellFormed (proper block List.mem_cons_self) round
      have continues : (∀ pair ∈ (block, result) :: given,
          next.hbm.address pair.1 = some pair.2.devicePtr) ∧
          KeepsAsked config.hbmCapacity next.hbm.recency
            (((block, result) :: given).map Prod.fst) blocks := by
        rw [KeepsAsked] at keeps
        rcases round.order wellFormed steady.coherent steady.tracked with
          ⟨resident, rfl, here⟩ | ⟨missing, order, here, -, stays⟩
        · rw [if_pos resident] at keeps
          exact ⟨List.forall_mem_cons.mpr ⟨here, right⟩, keeps⟩
        · rw [if_neg missing] at keeps
          refine ⟨List.forall_mem_cons.mpr ⟨here, fun pair member => ?_⟩, ?_⟩
          · refine stays pair.1 _ (right pair member) fun evicted => ?_
            exact keeps.1 pair.1 evicted (List.mem_map_of_mem member)
          · rw [order]
            exact keeps.2
      intro pair member
      refine induction finished (round.wellFormed wellFormed)
        (fun block member => proper block (List.mem_cons_of_mem _ member)) next_steady
        continues.1 continues.2 pair ?_
      rw [List.zip_cons_cons, List.mem_cons] at member
      rw [List.mem_cons]
      tauto

/-- If no two blocks were given the same pointer, no block that was asked for was evicted. -/
theorem Batch.keeps_of_apart
    (batch : Batch file .atIssue permits tiers before blocks served complete tiers' after)
    (finished : complete = true) (wellFormed : tiers.WellFormed config)
    (proper : ∀ block ∈ blocks, block ≠ uint64Max) (steady : Steady config file tiers before)
    {given : List (BlockId × Served)}
    (right : ∀ pair ∈ given, tiers.hbm.address pair.1 = some pair.2.devicePtr)
    (apart : ∀ first ∈ given ++ blocks.zip served, ∀ second ∈ given ++ blocks.zip served,
      first.2.devicePtr = second.2.devicePtr → first.1 = second.1) :
    KeepsAsked config.hbmCapacity tiers.hbm.recency (given.map Prod.fst) blocks := by
  induction batch generalizing given with
  | done => trivial
  | failed round => simp at finished
  | @step tiers next tiers' before middle after block blocks result later complete round rest
      induction =>
      have next_steady := steady.round wellFormed (proper block List.mem_cons_self) round
      have members : ∀ pair, pair ∈ ((block, result) :: given) ++ blocks.zip later →
          pair ∈ given ++ (block :: blocks).zip (result :: later) := by
        intro pair
        rw [List.zip_cons_cons, List.cons_append, List.mem_cons, List.mem_append, List.mem_append,
          List.mem_cons]
        tauto
      have continues : (∀ pair ∈ (block, result) :: given,
          next.hbm.address pair.1 = some pair.2.devicePtr) →
          KeepsAsked config.hbmCapacity next.hbm.recency
            (((block, result) :: given).map Prod.fst) blocks := fun still =>
        induction finished (round.wellFormed wellFormed)
          (fun block member => proper block (List.mem_cons_of_mem _ member)) next_steady still
          fun first here second there => apart first (members first here) second
            (members second there)
      rw [KeepsAsked]
      rcases round.order wellFormed steady.coherent steady.tracked with
        ⟨resident, rfl, here⟩ | ⟨missing, order, here, slot, stays⟩
      · rw [if_pos resident]
        exact continues (List.forall_mem_cons.mpr ⟨here, right⟩)
      · rw [if_neg missing]
        have kept : ∀ victim ∈ Recency.victim config.hbmCapacity tiers.hbm.recency,
            victim ∉ given.map Prod.fst := by
          intro victim evicted asked
          obtain ⟨pair, member, rfl⟩ := List.mem_map.mp asked
          -- The slot of the evicted block is the one that the new block was given.
          have same_slot : pair.2.devicePtr = result.devicePtr :=
            Option.some.inj ((right pair member).symm.trans (slot pair.1 evicted))
          have same : pair.1 = block := apart pair (List.mem_append_left _ member) (block, result)
            (List.mem_append_right _ (by rw [List.zip_cons_cons]; exact List.mem_cons_self))
            same_slot
          exact missing (wellFormed.mem_recency.mpr ⟨_, same ▸ right pair member⟩)
        refine ⟨kept, ?_⟩
        rw [← order]
        refine continues (List.forall_mem_cons.mpr ⟨here, fun pair member => ?_⟩)
        exact stays pair.1 _ (right pair member) fun evicted =>
          kept pair.1 evicted (List.mem_map_of_mem member)

end

theorem Reachable.steady {file : Bytes} {config : Config} {world : World}
    (small : file.length < 2 ^ 63)
    (reached : Reachable file .atIssue AnyReply Succeeds config world) :
    world.handle.tiers.WellFormed config ∧
      Steady config file world.handle.tiers world.machine :=
  @Reachable.keeps file .atIssue AnyReply Succeeds config world (Steady config file)
    (· ≠ uint64Max) small (fun _ fresh idle => ⟨.fresh fresh, .fresh fresh, .fresh fresh idle⟩)
    (fun kept drains => ⟨kept.coherent, kept.tracked, kept.loaded.drains drains⟩)
    (fun {_ _ _ _ _ served} proper fails wellFormed kept round => by
      cases served with
      | none =>
          obtain ⟨request, rc, succeeds, nonzero⟩ := fails rfl
          exact absurd succeeds.1 nonzero
      | some result => exact kept.round wellFormed proper round)
    (fun _ _ succeeds => succeeds.2) reached

/-- After successful calls, the pointers that a successful lookup returns are right if and only if
no block of the batch has an offset that wraps around, and, with the HBM cache taken as a queue of
arrivals, no miss of the batch evicts a block that an earlier position of the batch asked for. -/
theorem lookup_pointers_valid_iff {file : Bytes} {config : Config} {world : World}
    (small : file.length < 2 ^ 63)
    (reached : Reachable file .atIssue AnyReply Succeeds config world)
    {batch : List BlockId} (proper : ∀ block ∈ batch, block ≠ uint64Max) {handle : Handle}
    {result : LookupResult} {machine : Machine}
    (evaluation : (memtierLookupBlocks world.handle batch).Evaluates
      (environment file .atIssue AnyReply) world.machine (handle, result) machine)
    (success : result.rc = 0) :
    PointersValid config file machine.hbm batch result.served ↔
      (∀ block ∈ batch, config.Addressable block) ∧
        KeepsAsked config.hbmCapacity world.handle.hbmCache.slots.recency [] batch := by
  obtain ⟨wellFormed, steady⟩ := reached.steady small
  rcases memtierLookupBlocks_cases small wellFormed.positive_blockBytes evaluation with
    ⟨failed, -, -⟩ | ⟨ready, middle, complete, drains, lookups, drains', finishes⟩
  · simp [failed] at success
  obtain rfl := drains.eq_of_empty steady.loaded.idle
  have finished := (finishes success).1
  obtain ⟨wellFormed', steady'⟩ := @Batch.keeps file .atIssue AnyReply config (Steady config file)
    (· ≠ uint64Max) False
    (fun {_ _ _ _ _ served} proper fails wellFormed kept round => by
      cases served with
      | none => exact (fails rfl).elim
      | some result => exact kept.round wellFormed proper round)
    _ _ _ _ _ _ _ lookups proper (fun unfinished => by simp [finished] at unfinished) wellFormed
    steady
  obtain rfl := drains'.eq_of_empty steady'.loaded.idle
  have nothing : ∀ pair ∈ ([] : List (BlockId × Served)),
      world.handle.tiers.hbm.address pair.1 = some pair.2.devicePtr := nofun
  constructor
  · intro valid
    refine ⟨fun block member => ?_, ?_⟩
    · obtain ⟨index, bound, rfl⟩ := List.getElem_of_mem member
      have bound' : index < result.served.length := by rwa [← lookups.length_eq finished]
      exact ((List.forall₂_iff_get.mp valid.holds).2 index bound bound').1.addressable small
    · exact lookups.keeps_of_apart finished wellFormed proper steady nothing valid.apart
  · rintro ⟨addressable, keeps⟩
    have right := lookups.pointers_of_keeps finished wellFormed proper steady nothing keeps
    refine ⟨List.forall₂_iff_zip.mpr ⟨lookups.length_eq finished, fun {block served} member => ?_⟩,
      fun first here second there same => ?_⟩
    · have held := right (block, served) (.inr member)
      exact ((steady'.loaded.hbm block _ held).holdsBlock_iff small).mpr
        (addressable block (List.of_mem_zip member).1)
    · refine steady'.coherent.injective wellFormed'
        (steady'.tracked _ _ (right first (.inr here))) ?_
      rw [same]
      exact steady'.tracked _ _ (right second (.inr there))

/-- Blocks 0 and 1 were looked up, in this order.  Asking for 1 and then for 2 evicts 0. -/
theorem lookup_pointers_valid_newest_first :
    ∃ (world : World) (handle : Handle) (result : LookupResult) (machine : Machine),
      (memtierLookupBlocks world.handle [1, 2]).Evaluates
        (environment [1, 2, 3, 4, 5, 6] .atIssue AnyReply) world.machine (handle, result) machine ∧
      result.rc = 0 ∧
      PointersValid .twoBytes [1, 2, 3, 4, 5, 6] machine.hbm [1, 2] result.served := by
  obtain ⟨world, found, later⟩ := (Option.any_eq_true _ _).mp (show
    (session? [1, 2, 3, 4, 5, 6] .atIssue AnyReply Succeeds .twoBytes
      [(.lookup [0], List.replicate 5 (.take 2)), (.lookup [1], List.replicate 5 (.take 2))]).any
        (fun world => world.handle.hbmCache.slots.recency = [1, 0] ∧
          (Prog.evaluate? (environment [1, 2, 3, 4, 5, 6] .atIssue AnyReply)
            (List.replicate 5 (.take 2)) (memtierLookupBlocks world.handle [1, 2])
            world.machine).any fun outcome => outcome.1.2.rc = 0) from by decide +kernel)
  obtain ⟨order, later⟩ := of_decide_eq_true later
  obtain ⟨⟨⟨handle, result⟩, machine⟩, evaluated, success⟩ := (Option.any_eq_true _ _).mp later
  have success := of_decide_eq_true success
  have evaluation := Prog.Evaluates.of_evaluate? evaluated
  refine ⟨world, handle, result, machine, evaluation, success, ?_⟩
  refine (lookup_pointers_valid_iff (by decide) (.of_session? found)
    (List.forall_mem_cons.mpr ⟨by decide, List.forall_mem_singleton.mpr (by decide)⟩) evaluation
    success).mpr ⟨List.forall_mem_cons.mpr ⟨by decide +kernel,
      List.forall_mem_singleton.mpr (by decide +kernel)⟩, ?_⟩
  rw [order]
  decide

/-- Blocks 0 and 1 were looked up, in this order.  Asking for 0 and then for 2 evicts 0, and both
get the same pointer. -/
theorem lookup_pointers_shared :
    ¬ ∀ world, Reachable [1, 2, 3, 4, 5, 6] .atIssue AnyReply Succeeds .twoBytes world →
      ∀ batch handle result machine, (∀ block ∈ batch, block ≠ uint64Max) →
        (memtierLookupBlocks world.handle batch).Evaluates
          (environment [1, 2, 3, 4, 5, 6] .atIssue AnyReply) world.machine (handle, result)
          machine →
        result.rc = 0 → batch.dedup.length ≤ Config.twoBytes.hbmCapacity →
        PointersValid .twoBytes [1, 2, 3, 4, 5, 6] machine.hbm batch result.served := by
  intro valid
  obtain ⟨world, found, later⟩ := (Option.any_eq_true _ _).mp (show
    (session? [1, 2, 3, 4, 5, 6] .atIssue AnyReply Succeeds .twoBytes
      [(.lookup [0], List.replicate 5 (.take 2)), (.lookup [1], List.replicate 5 (.take 2))]).any
        (fun world => (Prog.evaluate? (environment [1, 2, 3, 4, 5, 6] .atIssue AnyReply)
            (List.replicate 5 (.take 2)) (memtierLookupBlocks world.handle [0, 2])
            world.machine).any fun outcome => outcome.1.2.rc = 0 ∧
              outcome.1.2.served = [⟨0, .hbmHit⟩, ⟨0, .posixRead⟩]) from by decide +kernel)
  obtain ⟨⟨⟨handle, result⟩, machine⟩, evaluated, outcome⟩ := (Option.any_eq_true _ _).mp later
  obtain ⟨success, served⟩ := of_decide_eq_true outcome
  have apart := (valid world (.of_session? found) [0, 2] handle result machine
    (List.forall_mem_cons.mpr ⟨by decide, List.forall_mem_singleton.mpr (by decide)⟩)
    (Prog.Evaluates.of_evaluate? evaluated) success (by decide +kernel)).apart
  rw [show result.served = [⟨0, .hbmHit⟩, ⟨0, .posixRead⟩] from served] at apart
  exact absurd (apart (0, ⟨0, .hbmHit⟩) (by decide) (2, ⟨0, .posixRead⟩) (by decide) rfl)
    (by decide)

end MemTier.Embedding
