import MemTier.Embedding.Coherence
import MemTier.Embedding.History

/-!
# The metrics of the embedding runtime

A position of a batch is charged to the metrics by the path it is reported with.  What the counters
say after a session is therefore a sum over all positions reported, whatever the two caches and the
residency table did in between.
-/

namespace MemTier.Embedding

open Containers Resumption

/-! ## Meters -/

/-- The part of the runtime that counts: the metrics, the evictions counted by the DRAM cache, and
what decides whether a load evicts. -/
structure Meter where
  metrics : Metrics
  blockBytes : UInt64
  capacity : Nat
  free : Nat
  evictions : UInt64

namespace Meter

def countHbmHit (meter : Meter) : Meter :=
  { meter with metrics := { meter.metrics with hbmHits := meter.metrics.hbmHits + 1 } }

def countDramHit (meter : Meter) : Meter :=
  { meter with metrics := { meter.metrics with dramHits := meter.metrics.dramHits + 1 } }

/-- A miss that reads a whole block into a slot of the DRAM cache. -/
def countLoad (meter : Meter) : Meter :=
  { meter with
    metrics := { meter.metrics with
      dramMisses := meter.metrics.dramMisses + 1
      posixReads := meter.metrics.posixReads + 1
      bytesReadFromSsd := meter.metrics.bytesReadFromSsd + meter.blockBytes }
    free := meter.free - 1
    evictions := meter.evictions + if meter.free = 0 then 1 else 0 }

def countCopy (meter : Meter) : Meter :=
  { meter with
    metrics := { meter.metrics with
      bytesCopiedDramToGpu := meter.metrics.bytesCopiedDramToGpu + meter.blockBytes } }

/-- What a position costs that is served by the given path. -/
def charge (meter : Meter) : ServedBy → Meter
  | .hbmHit => meter.countHbmHit
  | .dramHit => meter.countDramHit.countCopy
  | .posixRead => meter.countLoad.countCopy
  | .gdsRead | .uvmFault => meter

/-- The end of a lookup. -/
def publish (meter : Meter) : Meter :=
  { meter with metrics := { meter.metrics with evictionCount := meter.evictions } }

end Meter

/-- The counters of a meter that has charged for so many positions of each kind. -/
structure Meter.AddsUp (meter : Meter) (hbmHits dramHits loads : Nat) : Prop where
  hbmHits : meter.metrics.hbmHits = UInt64.ofNat hbmHits
  dramHits : meter.metrics.dramHits = UInt64.ofNat dramHits
  dramMisses : meter.metrics.dramMisses = UInt64.ofNat loads
  posixReads : meter.metrics.posixReads = meter.metrics.dramMisses
  gdsReads : meter.metrics.gdsReads = 0
  bytesRead : meter.metrics.bytesReadFromSsd = meter.blockBytes * meter.metrics.posixReads
  bytesCopied : meter.metrics.bytesCopiedDramToGpu =
    meter.blockBytes * (meter.metrics.dramHits + meter.metrics.dramMisses)
  free : meter.free = meter.capacity - loads
  evictions : meter.evictions = UInt64.ofNat (loads - meter.capacity)

namespace Meter.AddsUp

variable {meter : Meter} {hbmHits dramHits loads : Nat}

theorem publish (adds : meter.AddsUp hbmHits dramHits loads) :
    meter.publish.AddsUp hbmHits dramHits loads :=
  { adds with }

theorem hbmHit (adds : meter.AddsUp hbmHits dramHits loads) :
    (meter.charge .hbmHit).AddsUp (hbmHits + 1) dramHits loads :=
  { adds with
    hbmHits := by
      rw [UInt64.ofNat_add, ← adds.hbmHits]
      rfl }

theorem dramHit (adds : meter.AddsUp hbmHits dramHits loads) :
    (meter.charge .dramHit).AddsUp hbmHits (dramHits + 1) loads :=
  { adds with
    dramHits := by
      rw [UInt64.ofNat_add, ← adds.dramHits]
      rfl
    bytesCopied := by
      have copied := adds.bytesCopied
      simp only [charge, countDramHit, countCopy]
      grind }

/-- The free slots of the DRAM cache run out with the load that fills it, so that every later load
evicts. -/
theorem posixRead (adds : meter.AddsUp hbmHits dramHits loads) :
    (meter.charge .posixRead).AddsUp hbmHits dramHits (loads + 1) where
  hbmHits := adds.hbmHits
  dramHits := adds.dramHits
  dramMisses := by
    rw [UInt64.ofNat_add, ← adds.dramMisses]
    rfl
  posixReads := congrArg (· + 1) adds.posixReads
  gdsReads := adds.gdsReads
  bytesRead := by
    have read := adds.bytesRead
    simp only [charge, countLoad, countCopy]
    grind
  bytesCopied := by
    have copied := adds.bytesCopied
    simp only [charge, countLoad, countCopy]
    grind
  free := by
    have free := adds.free
    simp only [charge, countLoad, countCopy]
    omega
  evictions := by
    have free := adds.free
    simp only [charge, countLoad, countCopy]
    rw [adds.evictions]
    split
    · rw [show loads + 1 - meter.capacity = loads - meter.capacity + 1 by omega, UInt64.ofNat_add]
      rfl
    · rw [show loads + 1 - meter.capacity = loads - meter.capacity by omega]
      exact UInt64.add_zero _

end Meter.AddsUp

/-! ## Positions reported -/

/-- Positions reported with a path. -/
def positions (path : ServedBy) (reported : List Served) : Nat :=
  reported.countP fun served => served.path = path

/-- The paths the runtime reports. -/
def ServedBy.Plain (path : ServedBy) : Prop :=
  path = .hbmHit ∨ path = .dramHit ∨ path = .posixRead

/-- Every position is reported with one of the paths, and the meter has charged for it. -/
structure Meter.Accounts (meter : Meter) (reported : List Served) : Prop where
  plain : ∀ served ∈ reported, served.path.Plain
  addsUp : meter.AddsUp (positions .hbmHit reported) (positions .dramHit reported)
    (positions .posixRead reported)

theorem positions_append (path : ServedBy) (reported : List Served) (served : Served) :
    positions path (reported ++ [served]) =
      positions path reported + if served.path = path then 1 else 0 := by
  simp [positions, List.countP_append, List.countP_singleton]

theorem positions_sum {reported : List Served}
    (plain : ∀ served ∈ reported, served.path.Plain) :
    positions .hbmHit reported + positions .dramHit reported + positions .posixRead reported =
      reported.length := by
  induction reported using List.reverseRecOn with
  | nil => rfl
  | append_singleton reported served induction =>
      have earlier := induction fun other member => plain other (List.mem_append_left _ member)
      have last := plain served (List.mem_append_right _ List.mem_cons_self)
      rw [List.length_append, List.length_singleton]
      simp only [positions_append]
      rcases last with path | path | path <;> simp only [path, reduceCtorEq, if_true, if_false] <;>
        omega

namespace Meter.Accounts

variable {meter : Meter} {reported : List Served}

theorem publish (accounts : meter.Accounts reported) : meter.publish.Accounts reported :=
  ⟨accounts.plain, accounts.addsUp.publish⟩

theorem charge (accounts : meter.Accounts reported) {served : Served}
    (plain : served.path.Plain) :
    (meter.charge served.path).Accounts (reported ++ [served]) where
  plain := by
    intro other member
    rcases List.mem_append.mp member with earlier | last
    · exact accounts.plain other earlier
    · rw [List.mem_singleton.mp last]
      exact plain
  addsUp := by
    simp only [positions_append]
    rcases plain with path | path | path <;> rw [path]
    · exact accounts.addsUp.hbmHit
    · exact accounts.addsUp.dramHit
    · exact accounts.addsUp.posixRead

end Meter.Accounts

/-! ## Rounds -/

namespace Handle

/-- What a handle counts. -/
def meter (handle : Handle) : Meter where
  metrics := handle.metrics
  blockBytes := handle.blockBytes
  capacity := handle.dramCache.slots.capacity
  free := handle.dramCache.slots.freeSlots.length
  evictions := handle.dramCache.stats.evictionCount

section

variable (handle : Handle) (block : BlockId)

@[simp] theorem meter_noteAccess : (handle.noteAccess block).meter = handle.meter := rfl

@[simp] theorem meter_countHbmHit : handle.countHbmHit.meter = handle.meter.countHbmHit := rfl

@[simp] theorem meter_countDramHit : handle.countDramHit.meter = handle.meter.countDramHit := rfl

@[simp] theorem meter_markDram (ptr : Nat) : (handle.markDram block ptr).meter = handle.meter := rfl

@[simp] theorem meter_beginCopy : (handle.beginCopy block).meter = handle.meter := rfl

@[simp] theorem meter_finishCopy (ptr : Nat) :
    (handle.finishCopy block ptr).meter = handle.meter.countCopy := rfl

@[simp] theorem meter_searchDram : (handle.searchDram block).meter = handle.meter := by
  have slots := @DramCache.get_slots handle.dramCache block
  have region := handle.dramCache.slots.region_get block
  simp only [searchDram, meter, slots, SlotCache.freeSlots_get, DramCache.evictionCount_get]
  rw [show (handle.dramCache.slots.get block).2.capacity = handle.dramCache.slots.capacity from
    congrArg (·.2.2) region]

/-- A load of a block that the DRAM cache does not hold. -/
theorem meter_countRead_beginLoad (absent : handle.dramCache.slots.address block = none) :
    ((handle.beginLoad block).countRead handle.blockBytes.toNat).meter =
      handle.meter.countLoad := by
  have missing : handle.dramCache.slots.entries.lookup block = none :=
    Option.map_eq_none_iff.mp absent
  have region := handle.dramCache.slots.region_allocate block
  simp only [beginLoad, countRead, meter, Meter.countLoad, DramCache.allocateSlotForLoad,
    SlotCache.length_freeSlots_allocate missing, missing, UInt64.ofNat_toNat, Option.isNone_none,
    Bool.true_and, List.isEmpty_iff, List.length_eq_zero_iff]
  rw [show (handle.dramCache.slots.allocate block).2.capacity = handle.dramCache.slots.capacity from
    congrArg (·.2.2) region]

end

end Handle

section

variable {file : Bytes} {mode : CopyMode} {permits : (op : Op) → Reply op → Prop}
  {handle handle' : Handle} {block : BlockId} {before after : Machine}

/-- A load that returns has read as much as it was asked for. -/
theorem loadLoop_read {offset dst bytes total read : Nat} (begun : total ≤ bytes)
    (evaluation : (loadLoop block offset dst bytes total).Evaluates
      (environment file mode permits) before (some read) after) : read = bytes := by
  induction gap : bytes - total using Nat.strong_induction_on generalizing total before with
  | _ left induction =>
    rw [loadLoop] at evaluation
    split at evaluation
    · obtain ⟨reply, middle, execution, rest⟩ := Prog.evaluates_bind.mp evaluation
      rw [Run.pread, Prog.evaluates_perform] at execution
      obtain ⟨-, ready, -, ⟨rfl, -⟩ | ⟨data, delivered, -, -, rfl, -⟩⟩ := serves_pread execution
      · simp at rest
      · have bound := delivered.length_le
        rw [length_slice] at bound
        dsimp only at rest
        split at rest
        · simp at rest
        · exact induction _ (by omega) (by omega) rest rfl
    · obtain ⟨returned, -⟩ := evaluation
      obtain rfl := Option.some.inj returned
      omega

theorem copyToHbm_meter {source : Nat} {path : ServedBy} {served : Served}
    (evaluation : (copyToHbm handle block source path).Evaluates
      (environment file mode permits) before (handle', some served) after) :
    served.path = path ∧ handle'.meter = handle.meter.countCopy := by
  obtain ⟨issued, middle, -, rest⟩ := Prog.evaluates_bind.mp evaluation
  cases issued with
  | true =>
      obtain ⟨returned, -⟩ := rest
      obtain ⟨rfl, served⟩ := Prod.mk.inj returned
      rw [← Option.some.inj served]
      exact ⟨rfl, by simp⟩
  | false => simp at rest

theorem findInDram_meter {source : Nat} {path : ServedBy}
    (evaluation : (findInDram handle block).Evaluates
      (environment file mode permits) before (handle', some (source, path)) after) :
    (path = .dramHit ∧ handle'.meter = handle.meter.countDramHit) ∨
      (path = .posixRead ∧ handle'.meter = handle.meter.countLoad) := by
  have asked : (handle.dramCache.get block).1 = handle.dramCache.slots.address block :=
    (handle.dramCache.get_ptr block).trans (handle.dramCache.slots.get_ptr block)
  rw [findInDram, asked] at evaluation
  split at evaluation
  · obtain ⟨returned, -⟩ := evaluation
    obtain ⟨rfl, found⟩ := Prod.mk.inj returned
    obtain ⟨-, rfl⟩ := Prod.mk.inj (Option.some.inj found)
    exact .inl ⟨rfl, by simp⟩
  · rename_i absent
    obtain ⟨result, middle, loading, rest⟩ := Prog.evaluates_bind.mp evaluation
    cases result with
    | none => simp at rest
    | some read =>
        obtain rfl := loadLoop_read (Nat.zero_le _) loading
        obtain ⟨returned, -⟩ := rest
        obtain ⟨rfl, found⟩ := Prod.mk.inj returned
        obtain ⟨-, rfl⟩ := Prod.mk.inj (Option.some.inj found)
        have missing : handle.dramCache.slots.entries.lookup block = none :=
          Option.map_eq_none_iff.mp absent
        have absent' : (handle.searchDram block).dramCache.slots.address block = none := by
          rw [Handle.searchDram, DramCache.get_slots, SlotCache.get, missing]
          exact absent
        right
        refine ⟨rfl, ?_⟩
        rw [Handle.meter_markDram, ← handle.meter_searchDram block]
        exact (handle.searchDram block).meter_countRead_beginLoad block absent'

/-- A round that serves its block charges for the path it reports. -/
theorem lookupBlock_meter {served : Served}
    (evaluation : (lookupBlock handle block).Evaluates
      (environment file mode permits) before (handle', some served) after) :
    served.path.Plain ∧ handle'.meter = handle.meter.charge served.path := by
  rw [lookupBlock, ResidencyTable.lookup_location] at evaluation
  split at evaluation
  · obtain ⟨returned, -⟩ := evaluation
    obtain ⟨rfl, served⟩ := Prod.mk.inj returned
    rw [← Option.some.inj served]
    exact ⟨.inl rfl, by simp [Meter.charge]⟩
  · obtain ⟨path, meter⟩ := copyToHbm_meter evaluation
    rw [path]
    exact ⟨.inr (.inl rfl), by simp [meter, Meter.charge]⟩
  · obtain ⟨⟨found, staged⟩, middle, finding, rest⟩ := Prog.evaluates_bind.mp evaluation
    cases staged with
    | none => simp at rest
    | some staged =>
        obtain ⟨source, path⟩ := staged
        obtain ⟨same, meter⟩ := copyToHbm_meter rest
        rw [same, meter]
        rcases findInDram_meter finding with ⟨rfl, meter⟩ | ⟨rfl, meter⟩ <;>
          rw [meter, Handle.meter_noteAccess]
        · exact ⟨.inr (.inl rfl), rfl⟩
        · exact ⟨.inr (.inr rfl), rfl⟩

/-- A batch that runs to its end reports every position and charges for it. -/
theorem lookupLoop_accounts {blocks : List BlockId} {reported served : List Served}
    (evaluation : (lookupLoop handle blocks).Evaluates
      (environment file mode permits) before (handle', served, true) after)
    (accounts : handle.meter.Accounts reported) :
    handle'.meter.Accounts (reported ++ served) ∧ served.length = blocks.length := by
  induction blocks generalizing handle before served reported with
  | nil =>
      obtain ⟨returned, -⟩ := evaluation
      obtain ⟨rfl, rest⟩ := Prod.mk.inj returned
      obtain ⟨rfl, -⟩ := Prod.mk.inj rest
      rw [List.append_nil]
      exact ⟨accounts, rfl⟩
  | cons block blocks induction =>
      obtain ⟨⟨next, outcome⟩, middle, round, rest⟩ := Prog.evaluates_bind.mp evaluation
      cases outcome with
      | none => simp at rest
      | some first =>
          obtain ⟨⟨last, later, complete⟩, final, loop, returned, rfl⟩ :=
            Prog.evaluates_bind.mp rest
          obtain ⟨rfl, arrays⟩ := Prod.mk.inj returned
          obtain ⟨rfl, rfl⟩ := Prod.mk.inj arrays
          obtain ⟨plain, meter⟩ := lookupBlock_meter round
          have charged := accounts.charge plain
          rw [← meter] at charged
          obtain ⟨accounts', length⟩ := induction loop charged
          rw [List.append_assoc, List.singleton_append] at accounts'
          exact ⟨accounts', by rw [List.length_cons, List.length_cons, length]⟩

/-! ## Calls -/

/-- A call with everything that the lookup inside it reports.  The arrays of a prefetch are its
own, and nobody sees them. -/
def Request.report (handle : Handle) : Request → Run (Handle × LookupResult)
  | lookup blocks => memtierLookupBlocks handle blocks
  | prefetch blocks =>
      if blocks = [] then return (handle, { rc := -1, served := [] })
      else memtierLookupBlocks handle blocks
  | release blocks => return (memtierReleaseBlocks handle blocks, { rc := 0, served := [] })

theorem Request.run_eq_report (handle : Handle) (request : Request) :
    request.run handle = do
      let (handle, result) ← request.report handle
      return (handle, result.rc) := by
  cases request with
  | lookup blocks => rfl
  | prefetch blocks =>
      rw [run, memtierPrefetchBlocks, report]
      split <;> rfl
  | release blocks => rfl

/-- The lookup of the call returns 0.  A prefetch of nothing has no lookup to speak of. -/
def LooksUp (request : Request) (rc : Int) : Prop := rc = 0 ∨ request = .prefetch []

instance (request : Request) (rc : Int) : Decidable (LooksUp request rc) :=
  inferInstanceAs (Decidable (_ ∨ _))

/-- A meter at rest: the metrics show the evictions counted. -/
def Meter.Published (meter : Meter) : Prop := meter.publish = meter

theorem memtierLookupBlocks_accounts {blocks : List BlockId} {reported : List Served}
    {result : LookupResult}
    (evaluation : (memtierLookupBlocks handle blocks).Evaluates
      (environment file mode permits) before (handle', result) after)
    (success : result.rc = 0) (accounts : handle.meter.Accounts reported) :
    handle'.meter.Accounts (reported ++ result.served) ∧
      result.served.length = blocks.length ∧ handle'.meter.Published := by
  have failed : ∀ {last : Handle} {served : List Served} {first : Machine},
      ¬ (Prog.ret (last, { rc := -1, served : LookupResult }) : Run (Handle × LookupResult)).Evaluates
        (environment file mode permits) first (handle', result) after := by
    rintro last served first ⟨returned, -⟩
    obtain ⟨-, rfl⟩ := Prod.mk.inj returned
    simp at success
  obtain ⟨created, ready, -, evaluation⟩ := Prog.evaluates_bind.mp evaluation
  cases created with
  | false => exact absurd evaluation failed
  | true =>
      obtain ⟨⟨last, served, complete⟩, middle, loop, evaluation⟩ :=
        Prog.evaluates_bind.mp evaluation
      cases complete with
      | false => exact absurd evaluation failed
      | true =>
          obtain ⟨accounts', length⟩ := lookupLoop_accounts loop accounts
          obtain ⟨finished, waited, -, evaluation⟩ := Prog.evaluates_bind.mp evaluation
          cases finished with
          | false => exact absurd evaluation failed
          | true =>
              obtain ⟨destroyed, last', -, evaluation⟩ := Prog.evaluates_bind.mp evaluation
              cases destroyed with
              | false => exact absurd evaluation failed
              | true =>
                  obtain ⟨returned, -⟩ := evaluation
                  obtain ⟨rfl, rfl⟩ := Prod.mk.inj returned
                  exact ⟨accounts'.publish, length, rfl⟩

theorem Request.report_accounts {request : Request} {reported : List Served}
    {result : LookupResult}
    (evaluation : (request.report handle).Evaluates
      (environment file mode permits) before (handle', result) after)
    (success : LooksUp request result.rc) (accounts : handle.meter.Accounts reported)
    (published : handle.meter.Published) :
    handle'.meter.Accounts (reported ++ result.served) ∧
      result.served.length = request.lookups.length ∧ handle'.meter.Published := by
  cases request with
  | lookup blocks =>
      exact memtierLookupBlocks_accounts evaluation (success.resolve_right nofun) accounts
  | prefetch blocks =>
      rw [Request.report] at evaluation
      split at evaluation
      · rename_i empty
        obtain ⟨returned, -⟩ := evaluation
        obtain ⟨rfl, rfl⟩ := Prod.mk.inj returned
        rw [List.append_nil]
        exact ⟨accounts, by rw [empty]; rfl, published⟩
      · rename_i nonempty
        have zero := success.resolve_right fun same => nonempty (Request.prefetch.inj same)
        exact memtierLookupBlocks_accounts evaluation zero accounts
  | release blocks =>
      obtain ⟨returned, -⟩ := evaluation
      obtain ⟨rfl, rfl⟩ := Prod.mk.inj returned
      rw [List.append_nil]
      exact ⟨accounts, rfl, published⟩

end

/-! ## Sessions -/

/-- A session of calls whose lookups return 0, with the identifiers passed to lookups and the
positions reported, oldest first. -/
inductive Metered (file : Bytes) (mode : CopyMode) (permits : (op : Op) → Reply op → Prop)
    (config : Config) : List BlockId → List Served → World → Prop
  | init {dramBase hbmBase : Nat} {handle : Handle} {machine : Machine}
      (created : memtierInitEmbedding config dramBase hbmBase = some handle)
      (idle : machine.pending = []) : Metered file mode permits config [] [] ⟨handle, machine⟩
  | call {passed : List BlockId} {reported : List Served} {before after : World}
      {request : Request} {result : LookupResult}
      (earlier : Metered file mode permits config passed reported before)
      (evaluation : (request.report before.handle).Evaluates (environment file mode permits)
        before.machine (after.handle, result) after.machine)
      (success : LooksUp request result.rc) :
      Metered file mode permits config (passed ++ request.lookups) (reported ++ result.served) after

section

variable {file : Bytes} {mode : CopyMode} {permits : (op : Op) → Reply op → Prop}
  {config : Config} {passed : List BlockId} {reported : List Served} {world : World}

theorem Metered.reachable (metered : Metered file mode permits config passed reported world) :
    Reachable file mode permits LooksUp config world := by
  induction metered with
  | init created idle => exact .init created idle
  | @call passed reported before after request result earlier evaluation success induction =>
      apply Reachable.call induction ?_ success
      rw [Request.run_eq_report]
      exact Prog.evaluates_bind.mpr ⟨_, _, evaluation, rfl, rfl⟩

/-- Every session of such calls has identifiers passed and positions reported. -/
theorem Reachable.metered (reached : Reachable file mode permits LooksUp config world) :
    ∃ passed reported, Metered file mode permits config passed reported world := by
  induction reached with
  | init created idle => exact ⟨[], [], .init created idle⟩
  | @call before after request rc reached evaluation success induction =>
      obtain ⟨passed, reported, earlier⟩ := induction
      rw [Request.run_eq_report] at evaluation
      obtain ⟨⟨last, result⟩, final, report, returned, rfl⟩ := Prog.evaluates_bind.mp evaluation
      obtain ⟨rfl, rfl⟩ := Prod.mk.inj returned
      exact ⟨_, _, .call earlier report success⟩

theorem memtierInitEmbedding_accounts {dramBase hbmBase : Nat} {handle : Handle}
    (created : memtierInitEmbedding config dramBase hbmBase = some handle) :
    handle.meter.Accounts [] ∧ handle.meter.Published := by
  obtain ⟨-, rfl⟩ := memtierInitEmbedding_eq_some created
  refine ⟨⟨?_, ?_⟩, rfl⟩
  · simp
  · constructor <;> simp [Handle.meter, positions, SlotCache.new]

theorem Metered.accounts (metered : Metered file mode permits config passed reported world) :
    world.handle.meter.Accounts reported ∧ world.handle.meter.Published ∧
      reported.length = passed.length := by
  induction metered with
  | init created idle =>
      obtain ⟨accounts, published⟩ := memtierInitEmbedding_accounts created
      exact ⟨accounts, published, rfl⟩
  | call earlier evaluation success induction =>
      obtain ⟨accounts, published, length⟩ := induction
      obtain ⟨accounts', length', published'⟩ :=
        Request.report_accounts evaluation success accounts published
      exact ⟨accounts', published', by rw [List.length_append, List.length_append, length, length']⟩

/-- Counts of positions fit into a counter as long as the number of positions does. -/
theorem Meter.Accounts.toNat {meter : Meter} (accounts : meter.Accounts reported)
    (short : reported.length < 2 ^ 64) :
    meter.metrics.hbmHits.toNat = positions .hbmHit reported ∧
      meter.metrics.dramHits.toNat = positions .dramHit reported ∧
      meter.metrics.dramMisses.toNat = positions .posixRead reported := by
  have sum := positions_sum accounts.plain
  rw [accounts.addsUp.hbmHits, accounts.addsUp.dramHits, accounts.addsUp.dramMisses]
  refine ⟨UInt64.toNat_ofNat_of_lt' ?_, UInt64.toNat_ofNat_of_lt' ?_,
    UInt64.toNat_ofNat_of_lt' ?_⟩ <;> rw [UInt64.size] <;> omega

/-- After every call of a session whose lookups return 0 the metrics add up: as 64-bit counters
always, and as numbers as long as the numbers fit. -/
theorem metrics_add_up (metered : Metered file mode permits config passed reported world) :
    let metrics := world.handle.metrics
    let blockBytes := world.handle.blockBytes
    let capacity := world.handle.dramCache.slots.capacity
    (metrics.hbmHits + metrics.dramHits + metrics.dramMisses = UInt64.ofNat passed.length ∧
      metrics.hbmHits = UInt64.ofNat (positions .hbmHit reported) ∧
      metrics.dramHits = UInt64.ofNat (positions .dramHit reported) ∧
      metrics.dramMisses = UInt64.ofNat (positions .posixRead reported) ∧
      metrics.posixReads = metrics.dramMisses ∧
      metrics.bytesReadFromSsd = blockBytes * metrics.posixReads ∧
      metrics.bytesCopiedDramToGpu = blockBytes * (metrics.dramHits + metrics.dramMisses) ∧
      metrics.evictionCount = UInt64.ofNat (positions .posixRead reported - capacity)) ∧
    (passed.length < 2 ^ 64 →
      metrics.hbmHits.toNat + metrics.dramHits.toNat + metrics.dramMisses.toNat = passed.length ∧
      metrics.hbmHits.toNat = positions .hbmHit reported ∧
      metrics.dramHits.toNat = positions .dramHit reported ∧
      metrics.dramMisses.toNat = positions .posixRead reported ∧
      metrics.evictionCount.toNat = metrics.dramMisses.toNat - capacity ∧
      (blockBytes.toNat * passed.length < 2 ^ 64 →
        metrics.bytesReadFromSsd.toNat = blockBytes.toNat * metrics.posixReads.toNat ∧
        metrics.bytesCopiedDramToGpu.toNat =
          blockBytes.toNat * (metrics.dramHits.toNat + metrics.dramMisses.toNat))) := by
  intro metrics blockBytes capacity
  obtain ⟨accounts, published, length⟩ := metered.accounts
  have sum := positions_sum accounts.plain
  have adds := accounts.addsUp
  have evictions : metrics.evictionCount =
      UInt64.ofNat (positions .posixRead reported - capacity) :=
    (congrArg (·.metrics.evictionCount) published).symm.trans adds.evictions
  refine ⟨⟨?_, adds.hbmHits, adds.dramHits, adds.dramMisses, adds.posixReads, adds.bytesRead,
    adds.bytesCopied, evictions⟩, ?_⟩
  · have hbmHits : metrics.hbmHits = _ := adds.hbmHits
    have dramHits : metrics.dramHits = _ := adds.dramHits
    have dramMisses : metrics.dramMisses = _ := adds.dramMisses
    rw [hbmHits, dramHits, dramMisses, ← UInt64.ofNat_add, ← UInt64.ofNat_add, sum, length]
  · intro short
    obtain ⟨hbmHits, dramHits, dramMisses⟩ := accounts.toNat (length.symm ▸ short)
    change metrics.hbmHits.toNat = _ at hbmHits
    change metrics.dramHits.toNat = _ at dramHits
    change metrics.dramMisses.toNat = _ at dramMisses
    refine ⟨by omega, hbmHits, dramHits, dramMisses, ?_, ?_⟩
    · rw [evictions, dramMisses, UInt64.toNat_ofNat_of_lt']
      rw [UInt64.size]
      omega
    · intro fits
      have posixReads : metrics.posixReads = metrics.dramMisses := adds.posixReads
      have bytesRead : metrics.bytesReadFromSsd = blockBytes * metrics.posixReads := adds.bytesRead
      have bytesCopied : metrics.bytesCopiedDramToGpu =
          blockBytes * (metrics.dramHits + metrics.dramMisses) := adds.bytesCopied
      have misses := Nat.mul_le_mul_left blockBytes.toNat
        (show metrics.dramMisses.toNat ≤ passed.length by omega)
      have copies := Nat.mul_le_mul_left blockBytes.toNat
        (show metrics.dramHits.toNat + metrics.dramMisses.toNat ≤ passed.length by omega)
      constructor
      · rw [bytesRead, posixReads, UInt64.toNat_mul, Nat.mod_eq_of_lt (by omega)]
      · rw [bytesCopied, UInt64.toNat_mul, UInt64.toNat_add,
          Nat.mod_eq_of_lt (a := metrics.dramHits.toNat + metrics.dramMisses.toNat) (by omega),
          Nat.mod_eq_of_lt (by omega)]

/-- What the benchmark divides the hits of the two tiers by. -/
def Metrics.lookups (metrics : Metrics) : Nat :=
  max (metrics.hbmHits.toNat + metrics.dramHits.toNat + metrics.posixReads.toNat +
    metrics.gdsReads.toNat) 1

/-- Hit rates are parts of the positions passed. -/
theorem Metered.lookups_eq (metered : Metered file mode permits config passed reported world)
    (short : passed.length < 2 ^ 64) :
    world.handle.metrics.lookups = max passed.length 1 := by
  obtain ⟨accounts, -, length⟩ := metered.accounts
  obtain ⟨hbmHits, dramHits, dramMisses⟩ := accounts.toNat (length.symm ▸ short)
  have posixReads := congrArg UInt64.toNat accounts.addsUp.posixReads
  have gdsReads := congrArg UInt64.toNat accounts.addsUp.gdsReads
  have sum := positions_sum accounts.plain
  rw [Metrics.lookups]
  simp only [Handle.meter, UInt64.toNat_zero] at hbmHits dramHits dramMisses posixReads gdsReads
  omega

end

/-! ## Finding sessions by evaluation -/

section

variable {file : Bytes} {mode : CopyMode} {permits : (op : Op) → Reply op → Prop}
  [∀ op reply, Decidable (permits op reply)] {config : Config} {passed : List BlockId}
  {reported : List Served} {world world' : World}

theorem Metered.continue {calls : List (Request × List Choice)}
    (metered : Metered file mode permits config passed reported world)
    (found : World.session? file mode permits LooksUp calls world = some world') :
    ∃ later, Metered file mode permits config
      (passed ++ calls.flatMap fun call => call.1.lookups) later world' := by
  induction calls generalizing world passed reported with
  | nil =>
      obtain rfl := Option.some.inj found
      rw [List.flatMap_nil, List.append_nil]
      exact ⟨reported, metered⟩
  | cons call calls induction =>
      rw [World.session?] at found
      split at found
      · simp at found
      · rename_i handle rc machine evaluation
        split at found
        · rename_i success
          have evaluation := Prog.Evaluates.of_evaluate? evaluation
          rw [Request.run_eq_report] at evaluation
          obtain ⟨⟨last, result⟩, final, report, returned, rfl⟩ :=
            Prog.evaluates_bind.mp evaluation
          obtain ⟨rfl, rfl⟩ := Prod.mk.inj returned
          obtain ⟨later, metered'⟩ := induction (.call metered report success) found
          rw [List.append_assoc] at metered'
          exact ⟨later, metered'⟩
        · simp at found

theorem Metered.of_session? {calls : List (Request × List Choice)}
    (found : session? file mode permits LooksUp config calls = some world) :
    ∃ reported, Metered file mode permits config
      (calls.flatMap fun call => call.1.lookups) reported world := by
  obtain ⟨handle, created, rest⟩ := Option.bind_eq_some_iff.mp found
  exact Metered.continue (.init created rfl) rest

end

/-- Three blocks pass through a DRAM cache of two, and the first one is asked for again. -/
theorem metrics_add_up_eviction :
    ∃ reported world,
      Metered [1, 2, 3, 4, 5, 6] .atIssue AnyReply .twoBytes [0, 0, 1, 2] reported world ∧
      positions .posixRead reported = 3 ∧ world.handle.metrics.evictionCount = 1 ∧
      world.handle.metrics.bytesReadFromSsd = world.handle.blockBytes * 3 := by
  obtain ⟨world, found, checked⟩ := (Option.any_eq_true _ _).mp (show
    (session? [1, 2, 3, 4, 5, 6] .atIssue AnyReply LooksUp .twoBytes
      [(.lookup [0, 0, 1], List.replicate 7 (.take 2)), (.release [0], []),
        (.prefetch [2], List.replicate 5 (.take 2))]).any
      (fun world => world.handle.dramCache.slots.capacity = 2 ∧
        world.handle.metrics.dramMisses = 3) from by decide +kernel)
  obtain ⟨capacity, misses⟩ := of_decide_eq_true checked
  obtain ⟨reported, metered⟩ := Metered.of_session? found
  obtain ⟨⟨-, -, -, counted, reads, bytes, -, -⟩, exact⟩ := metrics_add_up metered
  obtain ⟨-, -, -, loads, evictions, -⟩ := exact (by decide)
  rw [misses] at loads evictions reads
  rw [capacity] at evictions
  refine ⟨reported, world, metered, loads.symm, UInt64.toNat_inj.mp evictions, ?_⟩
  rw [bytes, reads]

end MemTier.Embedding
