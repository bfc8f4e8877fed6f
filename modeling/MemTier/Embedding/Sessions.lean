import MemTier.Embedding.Rounds

/-!
# Sequences of calls

A session starts with `memtier_init_embedding` and continues with lookups, prefetches and releases,
each of which may fail anywhere.  What every round keeps, every session keeps.
-/

namespace MemTier.Embedding

open Containers Resumption

/-! ## Batches -/

/-- The rounds of a batch, up to the first one that throws. -/
inductive Batch (file : Bytes) (mode : CopyMode) (permits : (op : Op) → Reply op → Prop) :
    Tiers → Machine → List BlockId → List Served → Bool → Tiers → Machine → Prop
  | done {tiers : Tiers} {machine : Machine} :
      Batch file mode permits tiers machine [] [] true tiers machine
  | failed {tiers tiers' : Tiers} {before after : Machine} {block : BlockId}
      {blocks : List BlockId}
      (round : Round file mode permits tiers block before tiers' none after) :
      Batch file mode permits tiers before (block :: blocks) [] false tiers' after
  | step {tiers next tiers' : Tiers} {before middle after : Machine} {block : BlockId}
      {blocks : List BlockId} {served : Served} {later : List Served} {complete : Bool}
      (round : Round file mode permits tiers block before next (some served) middle)
      (rest : Batch file mode permits next middle blocks later complete tiers' after) :
      Batch file mode permits tiers before (block :: blocks) (served :: later) complete tiers' after

section

variable {file : Bytes} {mode : CopyMode} {permits : (op : Op) → Reply op → Prop}

theorem Staged.blockBytes {tiers staged : Tiers} {block : BlockId} {before after : Machine}
    {source : Nat} {path : ServedBy}
    (stage : Staged file permits tiers block before staged source path after) :
    staged.blockBytes = tiers.blockBytes := by
  cases stage <;> rfl

theorem Round.blockBytes {tiers tiers' : Tiers} {block : BlockId} {before after : Machine}
    {served : Option Served}
    (round : Round file mode permits tiers block before tiers' served after) :
    tiers'.blockBytes = tiers.blockBytes := by
  cases round with
  | hit resident => rfl
  | unread unrecorded absent load => rfl
  | uncopied stage drains permitted => exact stage.blockBytes
  | copied stage drains permitted => exact stage.blockBytes

theorem lookupLoop_batch (small : file.length < 2 ^ 63) {blocks : List BlockId}
    {handle handle' : Handle} {before after : Machine} {served : List Served} {complete : Bool}
    (positive : 0 < handle.blockBytes.toNat)
    (evaluation : (lookupLoop handle blocks).Evaluates
      (environment file mode permits) before (handle', served, complete) after) :
    Batch file mode permits handle.tiers before blocks served complete handle'.tiers after := by
  induction blocks generalizing handle before served with
  | nil =>
      obtain ⟨returned, rfl⟩ := evaluation
      obtain ⟨rfl, rest⟩ := Prod.mk.inj returned
      obtain ⟨rfl, rfl⟩ := Prod.mk.inj rest
      exact .done
  | cons block blocks induction =>
      obtain ⟨⟨next, outcome⟩, middle, lookup, rest⟩ := Prog.evaluates_bind.mp evaluation
      have round := lookupBlock_round small positive lookup
      cases outcome with
      | none =>
          obtain ⟨returned, rfl⟩ := rest
          obtain ⟨rfl, rest⟩ := Prod.mk.inj returned
          obtain ⟨rfl, rfl⟩ := Prod.mk.inj rest
          exact .failed round
      | some first =>
          obtain ⟨⟨last, later, complete'⟩, final, loop, returned, rfl⟩ :=
            Prog.evaluates_bind.mp rest
          obtain ⟨rfl, arrays⟩ := Prod.mk.inj returned
          obtain ⟨rfl, rfl⟩ := Prod.mk.inj arrays
          have positive' : 0 < next.blockBytes.toNat := by
            have same : next.blockBytes.toNat = handle.blockBytes.toNat := round.blockBytes
            omega
          exact .step round (induction positive' loop)

end

/-! ## Calls -/

/-- A call of the interface. -/
inductive Request where
  | lookup (blocks : List BlockId)
  | prefetch (blocks : List BlockId)
  | release (blocks : List BlockId)
  deriving DecidableEq, Repr

namespace Request

/-- The blocks a call names. -/
def blocks : Request → List BlockId
  | lookup blocks | prefetch blocks | release blocks => blocks

/-- The body of a call, with its return code. -/
def run (handle : Handle) : Request → Run (Handle × Int)
  | lookup blocks => do
      let (handle, result) ← memtierLookupBlocks handle blocks
      return (handle, result.rc)
  | prefetch blocks => memtierPrefetchBlocks handle blocks
  | release blocks => return (memtierReleaseBlocks handle blocks, 0)

end Request

theorem Machine.drain_drain (machine : Machine) (first second : Nat) :
    (machine.drain first).drain second = machine.drain (first + second) := by
  induction first generalizing machine with
  | zero => rw [drain, Nat.zero_add]
  | succ first induction =>
      rw [Nat.succ_add, drain, drain]
      cases queue : machine.pending with
      | nil => exact drain_of_empty queue second
      | cons copy pending => exact induction _

theorem Machine.Drains.trans {first second third : Machine} (earlier : first.Drains second)
    (later : second.Drains third) : first.Drains third := by
  obtain ⟨count, rfl⟩ := earlier
  obtain ⟨more, rfl⟩ := later
  exact ⟨count + more, (first.drain_drain count more).symm⟩

theorem tiers_memtierReleaseBlocks (handle : Handle) (blocks : List BlockId) :
    (memtierReleaseBlocks handle blocks).tiers = handle.tiers := by
  have unchanged : ∀ table : ResidencyTable,
      (blocks.foldl (fun table block => (table.release block).2) table).location =
        table.location := by
    induction blocks with
    | nil => exact fun table => rfl
    | cons block blocks induction =>
        intro table
        rw [List.foldl_cons, induction, ResidencyTable.location_release]
  simp [memtierReleaseBlocks, Handle.tiers, unchanged]

section

variable {file : Bytes} {mode : CopyMode} {permits : (op : Op) → Reply op → Prop}
  {handle handle' : Handle} {before after : Machine}

/-- A lookup creates its stream or does nothing, runs through its batch, and waits for the stream
unless a round threw. -/
theorem memtierLookupBlocks_cases (small : file.length < 2 ^ 63)
    (positive : 0 < handle.blockBytes.toNat) {blocks : List BlockId} {result : LookupResult}
    (evaluation : (memtierLookupBlocks handle blocks).Evaluates
      (environment file mode permits) before (handle', result) after) :
    (result.rc = -1 ∧ handle' = handle ∧ before.Drains after) ∨
    ∃ ready middle complete, before.Drains ready ∧
      Batch file mode permits handle.tiers ready blocks result.served complete handle'.tiers
        middle ∧ middle.Drains after ∧
      (result.rc = 0 → complete = true ∧ after.pending = []) := by
  obtain ⟨created, ready, creation, evaluation⟩ := Prog.evaluates_bind.mp evaluation
  rw [Run.streamCreate, Prog.evaluates_perform] at creation
  have drains := serves_streamCreate creation
  cases created with
  | false =>
      obtain ⟨returned, rfl⟩ := evaluation
      obtain ⟨rfl, rfl⟩ := Prod.mk.inj returned
      exact .inl ⟨rfl, rfl, drains⟩
  | true =>
      right
      obtain ⟨⟨last, served, complete⟩, middle, loop, evaluation⟩ :=
        Prog.evaluates_bind.mp evaluation
      have batch := lookupLoop_batch small positive loop
      cases complete with
      | false =>
          obtain ⟨returned, rfl⟩ := evaluation
          obtain ⟨rfl, rfl⟩ := Prod.mk.inj returned
          exact ⟨ready, middle, false, drains, batch, ⟨0, rfl⟩, by simp⟩
      | true =>
          obtain ⟨finished, waited, waiting, evaluation⟩ := Prog.evaluates_bind.mp evaluation
          rw [Run.streamSynchronize, Prog.evaluates_perform] at waiting
          obtain ⟨idle, idling, rfl⟩ := serves_streamSynchronize waiting
          cases finished with
          | false =>
              obtain ⟨returned, rfl⟩ := evaluation
              obtain ⟨rfl, rfl⟩ := Prod.mk.inj returned
              exact ⟨ready, middle, true, drains, batch, idling, by simp⟩
          | true =>
              obtain ⟨destroyed, last', destruction, evaluation⟩ :=
                Prog.evaluates_bind.mp evaluation
              rw [Run.streamDestroy, Prog.evaluates_perform] at destruction
              have empty : (idle.drain idle.pending.length).pending = [] := by
                rw [(idle.drain_split _).1, List.drop_length]
              have same := (serves_streamDestroy destruction).eq_of_empty empty
              have drained : middle.Drains last' := by
                rw [same]
                exact idling.trans ⟨_, rfl⟩
              cases destroyed with
              | false =>
                  obtain ⟨returned, rfl⟩ := evaluation
                  obtain ⟨rfl, rfl⟩ := Prod.mk.inj returned
                  exact ⟨ready, middle, true, drains, batch, drained, by simp⟩
              | true =>
                  obtain ⟨returned, rfl⟩ := evaluation
                  obtain ⟨rfl, rfl⟩ := Prod.mk.inj returned
                  exact ⟨ready, middle, true, drains, batch, drained,
                    fun _ => ⟨rfl, by rw [same]; exact empty⟩⟩

/-- A call begins no round, which leaves the tiers alone, or runs through its batch. -/
theorem Request.run_cases (small : file.length < 2 ^ 63) (positive : 0 < handle.blockBytes.toNat)
    {request : Request} {rc : Int}
    (evaluation : (request.run handle).Evaluates
      (environment file mode permits) before (handle', rc) after) :
    (((∃ blocks, request = .release blocks) ∨ rc ≠ 0 ∧ handle' = handle) ∧
      handle'.tiers = handle.tiers ∧ before.Drains after ∧ (rc = 0 → after = before)) ∨
    (∀ blocks, request ≠ .release blocks) ∧ ∃ ready middle served complete, before.Drains ready ∧
      Batch file mode permits handle.tiers ready request.blocks served complete handle'.tiers
        middle ∧ middle.Drains after ∧ (rc = 0 → complete = true ∧ after.pending = []) := by
  have lookups : ∀ {blocks : List BlockId},
      (do let (handle, result) ← memtierLookupBlocks handle blocks; return (handle, result.rc) :
        Run (Handle × Int)).Evaluates (environment file mode permits) before (handle', rc) after →
      (rc = -1 ∧ handle' = handle ∧ before.Drains after) ∨
      ∃ ready middle served complete, before.Drains ready ∧
        Batch file mode permits handle.tiers ready blocks served complete handle'.tiers middle ∧
        middle.Drains after ∧ (rc = 0 → complete = true ∧ after.pending = []) := by
    intro blocks evaluation
    obtain ⟨⟨last, result⟩, final, lookup, returned, rfl⟩ := Prog.evaluates_bind.mp evaluation
    obtain ⟨rfl, rfl⟩ := Prod.mk.inj returned
    exact (memtierLookupBlocks_cases small positive lookup).imp id
      fun ⟨ready, middle, complete, drains, batch, drains', success⟩ =>
        ⟨ready, middle, result.served, complete, drains, batch, drains', success⟩
  have refused : rc = -1 ∧ handle' = handle ∧ before.Drains after →
      ((∃ blocks, request = .release blocks) ∨ rc ≠ 0 ∧ handle' = handle) ∧
        handle'.tiers = handle.tiers ∧ before.Drains after ∧ (rc = 0 → after = before) := by
    rintro ⟨rfl, rfl, drains⟩
    exact ⟨.inr ⟨by decide, rfl⟩, rfl, drains, fun zero => by simp at zero⟩
  cases request with
  | lookup blocks => exact (lookups evaluation).imp refused fun batch => ⟨by simp, batch⟩
  | prefetch blocks =>
      rw [Request.run, memtierPrefetchBlocks] at evaluation
      split at evaluation
      · obtain ⟨returned, rfl⟩ := evaluation
        obtain ⟨rfl, rfl⟩ := Prod.mk.inj returned
        exact .inl (refused ⟨rfl, rfl, ⟨0, rfl⟩⟩)
      · exact (lookups evaluation).imp refused fun batch => ⟨by simp, batch⟩
  | release blocks =>
      obtain ⟨returned, rfl⟩ := evaluation
      obtain ⟨rfl, rfl⟩ := Prod.mk.inj returned
      exact .inl ⟨.inl ⟨blocks, rfl⟩, tiers_memtierReleaseBlocks handle blocks, ⟨0, rfl⟩,
        fun _ => rfl⟩

end

/-! ## Sessions -/

namespace Config

/-- Blocks the DRAM cache has room for. -/
def dramCapacity (config : Config) : Nat :=
  max 1 (config.dramCacheBytes.toNat / config.blockSizeBytes.toNat)

/-- Blocks the HBM cache has room for. -/
def hbmCapacity (config : Config) : Nat :=
  max 1 (config.hbmCacheBytes.toNat / config.blockSizeBytes.toNat)

end Config

/-- Both caches are well-formed and cut into blocks of the configured size. -/
structure Tiers.WellFormed (config : Config) (tiers : Tiers) : Prop where
  config_eq : tiers.config = config
  size : tiers.blockBytes = config.blockSizeBytes.toNat
  positive : 0 < config.blockSizeBytes.toNat
  dram : tiers.dram.WellFormed
  hbm : tiers.hbm.WellFormed
  dram_size : tiers.dram.blockBytes = config.blockSizeBytes.toNat
  hbm_size : tiers.hbm.blockBytes = config.blockSizeBytes.toNat
  dram_capacity : tiers.dram.capacity = config.dramCapacity
  hbm_capacity : tiers.hbm.capacity = config.hbmCapacity

theorem Tiers.WellFormed.positive_blockBytes {config : Config} {handle : Handle}
    (wellFormed : handle.tiers.WellFormed config) : 0 < handle.blockBytes.toNat := by
  have size : handle.blockBytes.toNat = config.blockSizeBytes.toNat := wellFormed.size
  rw [size]
  exact wellFormed.positive

namespace Tiers

variable {config : Config} {tiers : Tiers} {block : BlockId}

theorem WellFormed.mark (wellFormed : tiers.WellFormed config) (location : Location) :
    (tiers.mark block location).WellFormed config :=
  { wellFormed with }

theorem WellFormed.search (wellFormed : tiers.WellFormed config) :
    (tiers.search block).WellFormed config :=
  have region := tiers.dram.region_get block
  { wellFormed with
    dram := (wellFormed.dram.get block).2.1
    dram_size := (congrArg (·.2.1) region).trans wellFormed.dram_size
    dram_capacity := (congrArg (·.2.2) region).trans wellFormed.dram_capacity }

theorem WellFormed.enter (wellFormed : tiers.WellFormed config) :
    (tiers.enter block).WellFormed config :=
  have region := tiers.dram.region_allocate block
  { wellFormed with
    dram := wellFormed.dram.allocate block
    dram_size := (congrArg (·.2.1) region).trans wellFormed.dram_size
    dram_capacity := (congrArg (·.2.2) region).trans wellFormed.dram_capacity }

theorem WellFormed.place (wellFormed : tiers.WellFormed config) :
    (tiers.place block).WellFormed config :=
  have region := tiers.hbm.region_allocate block
  { wellFormed with
    hbm := wellFormed.hbm.allocate block
    hbm_size := (congrArg (·.2.1) region).trans wellFormed.hbm_size
    hbm_capacity := (congrArg (·.2.2) region).trans wellFormed.hbm_capacity }

end Tiers

section

variable {file : Bytes} {mode : CopyMode} {permits : (op : Op) → Reply op → Prop}
  {config : Config} {tiers tiers' : Tiers} {block : BlockId} {before after : Machine}

theorem Staged.wellFormed {source : Nat} {path : ServedBy}
    (stage : Staged file permits tiers block before tiers' source path after)
    (wellFormed : tiers.WellFormed config) : tiers'.WellFormed config := by
  cases stage with
  | recorded recorded => exact wellFormed
  | found unrecorded cached => exact wellFormed.search.mark _
  | loaded unrecorded absent load => exact wellFormed.enter.mark _

theorem Round.wellFormed {served : Option Served}
    (round : Round file mode permits tiers block before tiers' served after)
    (wellFormed : tiers.WellFormed config) : tiers'.WellFormed config := by
  cases round with
  | hit resident => exact wellFormed
  | unread unrecorded absent load => exact wellFormed.enter.mark _
  | uncopied stage drains permitted => exact (stage.wellFormed wellFormed).place
  | copied stage drains permitted => exact (stage.wellFormed wellFormed).place.mark _

end

/-- The runtime and the machine it runs on. -/
structure World where
  handle : Handle
  machine : Machine

/-- Nothing is cached anywhere. -/
structure Tiers.Fresh (tiers : Tiers) : Prop where
  location : ∀ block, tiers.location block = .nowhere
  dram : ∀ block, tiers.dram.address block = none
  hbm : ∀ block, tiers.hbm.address block = none

/-- The handle of a new session, for blocks that are not empty. -/
theorem memtierInitEmbedding_eq_some {config : Config} {dramBase hbmBase : Nat} {handle : Handle}
    (created : memtierInitEmbedding config dramBase hbmBase = some handle) :
    config.blockSizeBytes.toNat ≠ 0 ∧ handle = {
      config
      blockBytes := config.blockSizeBytes
      residency := ResidencyTable.new
      dramCache := {
        slots := SlotCache.new dramBase config.dramCacheBytes.toNat config.blockSizeBytes.toNat
        stats := {} }
      hbmCache := HbmCache.new hbmBase config.hbmCacheBytes.toNat config.blockSizeBytes.toNat
      metrics := {} } := by
  rw [memtierInitEmbedding] at created
  split at created
  · simp at created
  · simp only [DramCache.new] at created
    split at created
    · simp at created
    · rename_i nonzero
      simp only [Option.pure_def, Option.bind_eq_bind, Option.bind_some, Option.some.injEq] at created
      exact ⟨nonzero, created.symm⟩

theorem memtierInitEmbedding_fresh {config : Config} {dramBase hbmBase : Nat} {handle : Handle}
    (created : memtierInitEmbedding config dramBase hbmBase = some handle) :
    handle.tiers.WellFormed config ∧ handle.tiers.Fresh := by
  obtain ⟨nonzero, rfl⟩ := memtierInitEmbedding_eq_some created
  exact ⟨⟨rfl, rfl, Nat.pos_of_ne_zero nonzero, SlotCache.wellFormed_new _ _ _,
    SlotCache.wellFormed_new _ _ _, rfl, rfl, rfl, rfl⟩,
    ⟨fun block => rfl, fun block => rfl, fun block => rfl⟩⟩

/-- The states between the calls of a session.  A session is made of calls whose replies and
return codes are among those considered. -/
inductive Reachable (file : Bytes) (mode : CopyMode) (permits : (op : Op) → Reply op → Prop)
    (admits : Request → Int → Prop) (config : Config) : World → Prop
  | init {dramBase hbmBase : Nat} {handle : Handle} {machine : Machine}
      (created : memtierInitEmbedding config dramBase hbmBase = some handle)
      (idle : machine.pending = []) : Reachable file mode permits admits config ⟨handle, machine⟩
  | call {before after : World} {request : Request} {rc : Int}
      (reached : Reachable file mode permits admits config before)
      (evaluation : (request.run before.handle).Evaluates (environment file mode permits)
        before.machine (after.handle, rc) after.machine)
      (admitted : admits request rc) : Reachable file mode permits admits config after

section

variable {file : Bytes} {mode : CopyMode} {permits : (op : Op) → Reply op → Prop}
  {admits : Request → Int → Prop} {config : Config} {world : World}

/-- What rounds keep, batches keep. -/
theorem Batch.keeps {P : Tiers → Machine → Prop} {allowed : BlockId → Prop} {failing : Prop}
    (round : ∀ {tiers tiers' block before after served}, allowed block →
      (served = none → failing) → tiers.WellFormed config → P tiers before →
      Round file mode permits tiers block before tiers' served after → P tiers' after)
    {tiers tiers' : Tiers} {before after : Machine} {blocks : List BlockId}
    {served : List Served} {complete : Bool}
    (batch : Batch file mode permits tiers before blocks served complete tiers' after)
    (names : ∀ block ∈ blocks, allowed block) (fails : complete = false → failing)
    (wellFormed : tiers.WellFormed config) (kept : P tiers before) :
    tiers'.WellFormed config ∧ P tiers' after := by
  induction batch with
  | done => exact ⟨wellFormed, kept⟩
  | failed first =>
      exact ⟨first.wellFormed wellFormed,
        round (names _ List.mem_cons_self) (fun _ => fails rfl) wellFormed kept first⟩
  | step first rest induction =>
      exact induction (fun block member => names block (List.mem_cons_of_mem _ member)) fails
        (first.wellFormed wellFormed)
        (round (names _ List.mem_cons_self) (fun missing => absurd missing (Option.some_ne_none _))
          wellFormed kept first)

/-- What rounds and the stream keep, sessions keep. -/
theorem Reachable.keeps {P : Tiers → Machine → Prop} {allowed : BlockId → Prop}
    (small : file.length < 2 ^ 63)
    (initial : ∀ {tiers machine}, tiers.WellFormed config → tiers.Fresh → machine.pending = [] →
      P tiers machine)
    (drains : ∀ {tiers before after}, P tiers before → before.Drains after → P tiers after)
    (round : ∀ {tiers tiers' block before after served}, allowed block →
      (served = none → ∃ request rc, admits request rc ∧ rc ≠ 0) →
      tiers.WellFormed config → P tiers before →
      Round file mode permits tiers block before tiers' served after → P tiers' after)
    (names : ∀ request rc, admits request rc → ∀ block ∈ request.blocks, allowed block)
    (reached : Reachable file mode permits admits config world) :
    world.handle.tiers.WellFormed config ∧ P world.handle.tiers world.machine := by
  induction reached with
  | init created idle =>
      obtain ⟨wellFormed, fresh⟩ := memtierInitEmbedding_fresh created
      exact ⟨wellFormed, initial wellFormed fresh idle⟩
  | @call before after request rc reached evaluation admitted induction =>
      obtain ⟨wellFormed, kept⟩ := induction
      rcases Request.run_cases small wellFormed.positive_blockBytes evaluation with
        ⟨-, tiers, drained, -⟩ |
        ⟨-, ready, middle, served, complete, drained, batch, drained', success⟩
      · rw [tiers]
        exact ⟨wellFormed, drains kept drained⟩
      · have fails : complete = false → ∃ request rc, admits request rc ∧ rc ≠ 0 := by
          rintro rfl
          exact ⟨request, rc, admitted, fun zero => by simpa using (success zero).1⟩
        obtain ⟨wellFormed', kept'⟩ := batch.keeps round (names request rc admitted) fails
          wellFormed (drains kept drained)
        exact ⟨wellFormed', drains kept' drained'⟩

/-- Sessions under fewer replies are sessions. -/
theorem Reachable.mono {permits' : (op : Op) → Reply op → Prop}
    (weaker : ∀ op reply, permits op reply → permits' op reply)
    (reached : Reachable file mode permits admits config world) :
    Reachable file mode permits' admits config world := by
  induction reached with
  | init created idle => exact .init created idle
  | call reached evaluation admitted induction =>
      exact .call induction (evaluation.mono weaker) admitted

theorem Reachable.wellFormed (small : file.length < 2 ^ 63)
    (reached : Reachable file mode permits admits config world) :
    world.handle.tiers.WellFormed config :=
  (@Reachable.keeps file mode permits admits config world (fun _ _ => True) (fun _ => True) small
    (fun _ _ _ => trivial) (fun _ _ => trivial) (fun _ _ _ _ _ => trivial)
    (fun _ _ _ _ _ => trivial) reached).1

/-- After successful calls nothing is queued. -/
theorem Reachable.idle (small : file.length < 2 ^ 63)
    (successful : ∀ request rc, admits request rc → rc = 0)
    (reached : Reachable file mode permits admits config world) : world.machine.pending = [] := by
  induction reached with
  | init created idle => exact idle
  | @call before after request rc reached evaluation admitted induction =>
      have positive := (reached.wellFormed small).positive_blockBytes
      have zero := successful request rc admitted
      rcases Request.run_cases small positive evaluation with
        ⟨-, -, -, same⟩ | ⟨-, ready, middle, served, complete, -, -, -, success⟩
      · rw [same zero]
        exact induction
      · exact (success zero).2

end

/-! ## Finding states by evaluation -/

instance (file : Bytes) (mode : CopyMode) (permits : (op : Op) → Reply op → Prop)
    [∀ op reply, Decidable (permits op reply)] :
    ∀ op reply, Decidable ((environment file mode permits).permits op reply) :=
  inferInstanceAs (∀ op reply, Decidable (permits op reply))

/-- Empty memory and an empty stream. -/
def Machine.blank : Machine where
  dram := fun _ => 0
  hbm := fun _ => 0
  pending := []
  executed := []

/-- Calls one after another under given choices. -/
def World.session? (file : Bytes) (mode : CopyMode) (permits : (op : Op) → Reply op → Prop)
    [∀ op reply, Decidable (permits op reply)] (admits : Request → Int → Prop)
    [∀ request rc, Decidable (admits request rc)] :
    List (Request × List Choice) → World → Option World
  | [], world => some world
  | (request, choices) :: rest, world =>
      match Prog.evaluate? (environment file mode permits) choices (request.run world.handle)
          world.machine with
      | none => none
      | some ((handle, rc), machine) =>
          if admits request rc then session? file mode permits admits rest ⟨handle, machine⟩
          else none

/-- A session from `memtier_init_embedding` on, with both caches at address zero. -/
def session? (file : Bytes) (mode : CopyMode) (permits : (op : Op) → Reply op → Prop)
    [∀ op reply, Decidable (permits op reply)] (admits : Request → Int → Prop)
    [∀ request rc, Decidable (admits request rc)] (config : Config)
    (calls : List (Request × List Choice)) : Option World :=
  (memtierInitEmbedding config 0 0).bind fun handle =>
    World.session? file mode permits admits calls ⟨handle, Machine.blank⟩

section

variable {file : Bytes} {mode : CopyMode} {permits : (op : Op) → Reply op → Prop}
  [∀ op reply, Decidable (permits op reply)] {admits : Request → Int → Prop}
  [∀ request rc, Decidable (admits request rc)] {config : Config} {world world' : World}

theorem Reachable.continue {calls : List (Request × List Choice)}
    (reached : Reachable file mode permits admits config world)
    (found : World.session? file mode permits admits calls world = some world') :
    Reachable file mode permits admits config world' := by
  induction calls generalizing world with
  | nil =>
      obtain rfl := Option.some.inj found
      exact reached
  | cons call calls induction =>
      rw [World.session?] at found
      split at found
      · simp at found
      · rename_i handle rc machine evaluation
        split at found
        · rename_i admitted
          exact induction (.call reached (Prog.Evaluates.of_evaluate? evaluation) admitted) found
        · simp at found

theorem Reachable.of_session? {calls : List (Request × List Choice)}
    (found : session? file mode permits admits config calls = some world) :
    Reachable file mode permits admits config world := by
  obtain ⟨handle, created, rest⟩ := Option.bind_eq_some_iff.mp found
  exact Reachable.continue (.init created rfl) rest

end

end MemTier.Embedding
