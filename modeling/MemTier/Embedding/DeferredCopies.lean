import MemTier.Embedding.Hierarchy

/-!
# Deferred copies

A stream executes copies when it likes.  As long as no slot of host memory is taken from a copy that
has yet to read it, nobody can tell: the writes that are still queued make up the difference to a
stream that executes every copy at issue.
-/

namespace MemTier.Embedding

open Containers Resumption

/-! ## At issue -/

section

variable {file : Bytes} {permits : (op : Op) → Reply op → Prop} {config : Config}
  {passed : List BlockId} {reported : List Served} {world : World}

theorem Batch.steady {tiers tiers' : Tiers} {before after : Machine} {blocks : List BlockId}
    {served : List Served} {complete : Bool}
    (batch : Batch file .atIssue permits tiers before blocks served complete tiers' after)
    (finished : complete = true) (wellFormed : tiers.WellFormed config)
    (proper : ∀ block ∈ blocks, block ≠ uint64Max) (steady : Steady config file tiers before) :
    tiers'.WellFormed config ∧ Steady config file tiers' after :=
  @Batch.keeps file .atIssue permits config (Steady config file) (· ≠ uint64Max) False
    (fun {_ _ _ _ _ served} proper fails wellFormed kept round => by
      cases served with
      | none => exact (fails rfl).elim
      | some result => exact kept.round wellFormed proper round)
    _ _ _ _ _ _ _ batch proper (fun unfinished => by simp [finished] at unfinished) wellFormed
    steady

/-- When copies execute at issue, successful calls leave both memories as recorded. -/
theorem Metered.steady (small : file.length < 2 ^ 63)
    (metered : Metered file .atIssue permits config passed reported world) :
    Steady config file world.handle.tiers world.machine := by
  induction metered with
  | init created idle =>
      have fresh := (memtierInitEmbedding_fresh created).2
      exact ⟨.fresh fresh, .fresh fresh, .fresh fresh idle⟩
  | @call passed reported before after request result earlier evaluation success induction =>
      have proper := (Metered.call earlier evaluation success).proper small
      have wellFormed := earlier.reachable.wellFormed small
      obtain ⟨ready, middle, drains, batch, drains', -⟩ :=
        Request.report_batch small wellFormed.positive_blockBytes evaluation success
      obtain rfl := drains.eq_of_empty induction.loaded.idle
      obtain ⟨-, kept⟩ := batch.steady rfl wellFormed
        (List.forall_mem_append.mp proper).2 induction
      rwa [drains'.eq_of_empty kept.loaded.idle]

end

/-! ## What is still to be written -/

/-- Device memory once every queued copy has delivered its block. -/
def Machine.expected (config : Config) (file : Bytes) (machine : Machine) : Memory :=
  machine.pending.foldl
    (fun memory copy => memory.write copy.dst (blockBytes config file copy.block)) machine.hbm

/-- A machine that executes copies at issue, in the state that another one will reach. -/
structure Machine.Anticipates (config : Config) (file : Bytes) (shadow machine : Machine) :
    Prop where
  dram : shadow.dram = machine.dram
  hbm : shadow.hbm = machine.expected config file
  idle : shadow.pending = []

section

variable {config : Config} {file : Bytes} {earlier : List (Copy × Bytes)}
  {permits : (op : Op) → Reply op → Prop} {before after : Machine}

theorem Machine.expected_of_empty {machine : Machine} (empty : machine.pending = []) :
    machine.expected config file = machine.hbm := by
  rw [expected, empty, List.foldl_nil]

/-- The stream only does what is expected of it. -/
theorem Safe.expected_drains (safe : Safe config file earlier before)
    (drains : before.Drains after) : after.expected config file = before.expected config file := by
  obtain ⟨count, rfl⟩ := drains
  induction count generalizing before earlier with
  | zero => rfl
  | succ count induction =>
      rw [Machine.drain]
      cases queue : before.pending with
      | nil => rfl
      | cons copy pending =>
          obtain ⟨bytes, -, holds⟩ := safe.queue copy (queue ▸ List.mem_cons_self)
          have next : Machine.Drains before ({ before with pending }.execute copy) :=
            ⟨1, by simp only [Machine.drain, queue]⟩
          refine (induction (safe.drains next)).trans ?_
          rw [Machine.expected, Machine.expected, queue, List.foldl_cons, ← holds, ← bytes]
          rfl

/-- A read does the same on a machine with the same host memory. -/
theorem serves_pread_shadow {shadow : Machine} {block : BlockId} {dst count offset : Nat}
    {reply : Option Nat} (same : shadow.dram = before.dram)
    (execution : (environment file .queued permits).Serves before
      (.pread block dst count offset) reply after) :
    (environment file .atIssue permits).Serves shadow (.pread block dst count offset) reply
      { shadow with dram := after.dram } := by
  obtain ⟨ready, choice, drains, served, permitted⟩ := execution
  refine ⟨shadow, choice, ⟨0, rfl⟩, ?_, permitted⟩
  simp only [environment, serve] at served ⊢
  split at served
  · simp at served
  · obtain ⟨rfl, rfl⟩ := Prod.mk.inj (Option.some.inj served)
    rw [drains.dram, ← same]
  · obtain ⟨rfl, rfl⟩ := Prod.mk.inj (Option.some.inj served)
    rw [drains.dram, ← same]

/-- The machine that anticipates another follows it through a read that is harmless. -/
theorem Machine.Anticipates.pread {shadow : Machine}
    (anticipates : shadow.Anticipates config file before) (safe : Safe config file earlier before)
    {block : BlockId} {dst count offset : Nat} {reply : Option Nat}
    (execution : (environment file .queued permits).Serves before
      (.pread block dst count offset) reply after) :
    Machine.Anticipates config file { shadow with dram := after.dram } after := by
  obtain ⟨-, ready, drains, outcome⟩ := serves_pread execution
  refine ⟨rfl, ?_, anticipates.idle⟩
  change shadow.hbm = _
  rw [anticipates.hbm, ← safe.expected_drains drains]
  rcases outcome with ⟨-, rfl⟩ | ⟨data, -, -, -, -, rfl⟩ <;> rfl

theorem Machine.Anticipates.loadLoop (small : file.length < 2 ^ 63) {shadow : Machine}
    {block : BlockId} {offset dst total : Nat} {result : Option Nat}
    (anticipates : shadow.Anticipates config file before) (safe : Safe config file earlier before)
    (harmless : Harmless config file offset dst before) (fits : offset + total < 2 ^ 64)
    (evaluation : (loadLoop block offset dst config.blockSizeBytes.toNat total).Evaluates
      (environment file .queued permits) before result after) :
    ∃ shadow', (Embedding.loadLoop block offset dst config.blockSizeBytes.toNat total).Evaluates
        (environment file .atIssue permits) shadow result shadow' ∧
      shadow'.Anticipates config file after := by
  induction gap : config.blockSizeBytes.toNat - total using Nat.strong_induction_on
    generalizing total before shadow with
  | _ left induction =>
    rw [Embedding.loadLoop] at evaluation ⊢
    split at evaluation
    · rename_i more
      rw [dif_pos more]
      obtain ⟨reply, middle, reading, rest⟩ := Prog.evaluates_bind.mp evaluation
      rw [Run.pread, Prog.evaluates_perform] at reading
      obtain ⟨safe', harmless', -⟩ := safe.serves_pread harmless fits more reading
      have anticipates' := anticipates.pread safe reading
      have read := Prog.evaluates_perform.mpr (serves_pread_shadow anticipates.dram reading)
      obtain ⟨-, ready, -, outcome⟩ := Embedding.serves_pread reading
      rw [Nat.mod_eq_of_lt fits] at outcome
      rcases outcome with ⟨rfl, -⟩ | ⟨data, delivered, -, -, rfl, -⟩
      · obtain ⟨rfl, rfl⟩ := rest
        exact ⟨_, Prog.evaluates_bind.mpr ⟨_, _, read, rfl, rfl⟩, anticipates'⟩
      · dsimp only at rest
        split at rest
        · rename_i eof
          obtain ⟨rfl, rfl⟩ := rest
          refine ⟨_, Prog.evaluates_bind.mpr ⟨_, _, read, ?_⟩, anticipates'⟩
          dsimp only
          rw [dif_pos eof]
          exact ⟨rfl, rfl⟩
        · rename_i some_read
          have bound := delivered.length_le
          rw [length_slice] at bound
          obtain ⟨shadow', later, last⟩ :=
            induction _ (by omega) anticipates' safe' harmless' (by omega) rest rfl
          refine ⟨shadow', Prog.evaluates_bind.mpr ⟨_, _, read, ?_⟩, last⟩
          dsimp only
          rw [dif_neg some_read]
          exact later
    · rename_i done
      rw [dif_neg done]
      obtain ⟨rfl, rfl⟩ := evaluation
      exact ⟨shadow, ⟨rfl, rfl⟩, anticipates⟩

variable {queued : List BlockId} {handle handle' : Handle} {block : BlockId}

theorem Underway.anticipates_findInDram {shadow : Machine}
    (underway : Underway config file earlier queued handle.tiers before)
    (anticipates : shadow.Anticipates config file before) (small : file.length < 2 ^ 63)
    (kept : block ∉ handle.tiers.dram.recency →
      ∀ victim ∈ Recency.victim config.dramCapacity handle.tiers.dram.recency, victim ∈ queued →
        loadedBytes config file block <+: loadedBytes config file victim)
    {found : Option (Nat × ServedBy)}
    (evaluation : (findInDram handle block).Evaluates (environment file .queued permits) before
      (handle', found) after) :
    ∃ shadow', (findInDram handle block).Evaluates (environment file .atIssue permits) shadow
        (handle', found) shadow' ∧ shadow'.Anticipates config file after := by
  have asked : (handle.dramCache.get block).1 = handle.tiers.dram.address block :=
    (handle.dramCache.get_ptr block).trans (handle.dramCache.slots.get_ptr block)
  rw [findInDram, asked] at evaluation ⊢
  split at evaluation
  · rename_i ptr cached
    obtain ⟨returned, rfl⟩ := evaluation
    exact ⟨shadow, ⟨returned, rfl⟩, anticipates⟩
  · rename_i absent
    have searched : (handle.searchDram block).tiers = handle.tiers := by
      rw [Handle.tiers_searchDram, Tiers.search_of_absent absent]
    have missing : block ∉ handle.tiers.dram.recency := by
      rw [underway.wellFormed.mem_dram, absent]
      simp
    have harmless := underway.harmless absent (kept missing)
    have config_eq : ((handle.searchDram block).beginLoad block).config = config :=
      underway.wellFormed.config_eq
    have size : ((handle.searchDram block).beginLoad block).blockBytes.toNat =
        config.blockSizeBytes.toNat := underway.wellFormed.size
    obtain ⟨result, middle, loading, rest⟩ := Prog.evaluates_bind.mp evaluation
    rw [gdsLoadBlockOrPosix, loadBlock, config_eq, size, Handle.loadPtr_eq, searched] at loading
    obtain ⟨shadow', loading', anticipates'⟩ := anticipates.loadLoop small underway.safe harmless
      (config.loadOffset block).toNat_lt loading
    have load : (gdsLoadBlockOrPosix ((handle.searchDram block).beginLoad block).config block
        ((handle.searchDram block).loadPtr block)
        ((handle.searchDram block).beginLoad block).blockBytes.toNat).Evaluates
          (environment file .atIssue permits) shadow result shadow' := by
      rw [gdsLoadBlockOrPosix, loadBlock, config_eq, size, Handle.loadPtr_eq, searched]
      exact loading'
    have reached : after = middle := by
      cases result with
      | none => exact rest.2.symm
      | some read => exact rest.2.symm
    refine ⟨shadow', Prog.evaluates_bind.mpr ⟨result, shadow', load, ?_⟩, reached ▸ anticipates'⟩
    cases result with
    | none => exact ⟨rest.1, rfl⟩
    | some read => exact ⟨rest.1, rfl⟩

theorem Machine.Anticipates.copyToHbm {shadow : Machine}
    (anticipates : shadow.Anticipates config file before) (safe : Safe config file earlier before)
    (size : handle.blockBytes.toNat = config.blockSizeBytes.toNat) {source : Nat}
    (holds : HoldsBlock config file before.dram source block) {path : ServedBy} {served : Served}
    (evaluation : (copyToHbm handle block source path).Evaluates
      (environment file .queued permits) before (handle', some served) after) :
    ∃ shadow', (Embedding.copyToHbm handle block source path).Evaluates
        (environment file .atIssue permits) shadow (handle', some served) shadow' ∧
      shadow'.Anticipates config file after := by
  obtain ⟨issued, middle, execution, rest⟩ := Prog.evaluates_bind.mp evaluation
  rw [Run.memcpyAsync, Prog.evaluates_perform] at execution
  obtain ⟨permitted, ready, drains, rfl⟩ := serves_memcpyAsync execution
  cases issued with
  | false =>
      obtain ⟨returned, -⟩ := rest
      simp at returned
  | true =>
      obtain ⟨returned, rfl⟩ := rest
      let copy : Copy :=
        { block, dst := handle.copyPtr block, src := source, bytes := handle.blockBytes.toNat }
      have issue : (environment file .atIssue permits).Serves shadow (.memcpyAsync copy) true
          (shadow.execute copy) := ⟨shadow, .take 0, ⟨0, rfl⟩, rfl, permitted⟩
      refine ⟨shadow.execute copy,
        Prog.evaluates_bind.mpr ⟨true, _, Prog.evaluates_perform.mpr issue, returned, rfl⟩, ?_⟩
      constructor
      · exact anticipates.dram.trans drains.dram.symm
      · have device : (shadow.execute copy).hbm = shadow.hbm.write copy.dst
            (blockBytes config file block) := by
          rw [← holds.2, ← size, ← anticipates.dram]
          rfl
        rw [device, anticipates.hbm, ← safe.expected_drains drains]
        simp only [if_true, Machine.issue, Machine.expected, List.foldl_append, List.foldl_cons,
          List.foldl_nil, copy]
      · exact anticipates.idle

/-- A round that serves its block, on both machines. -/
theorem Underway.anticipates_lookupBlock {shadow : Machine}
    (underway : Underway config file earlier queued handle.tiers before)
    (anticipates : shadow.Anticipates config file before) (small : file.length < 2 ^ 63)
    {batch : List BlockId} {served : Served}
    (kept : SlotsKept config file (handle.tiers.residents queued) (block :: batch))
    (evaluation : (lookupBlock handle block).Evaluates (environment file .queued permits) before
      (handle', some served) after) :
    ∃ shadow', (lookupBlock handle block).Evaluates (environment file .atIssue permits) shadow
        (handle', some served) shadow' ∧ shadow'.Anticipates config file after := by
  rw [lookupBlock, ResidencyTable.lookup_location] at evaluation ⊢
  split at evaluation
  · rename_i ptr resident
    obtain ⟨returned, rfl⟩ := evaluation
    exact ⟨shadow, ⟨returned, rfl⟩, anticipates⟩
  · rename_i ptr recorded
    exact absurd recorded (underway.settled block ptr)
  · rename_i unrecorded
    have noted := handle.tiers_noteAccess block
    have underway' : Underway config file earlier queued (handle.noteAccess block).tiers before := by
      rw [noted]
      exact underway
    have unrecorded' : (handle.noteAccess block).tiers.location block = .nowhere := by
      rw [noted]
      exact unrecorded
    have absent : ¬ (handle.tiers.residents queued).recorded block = true := by
      rw [Tiers.recorded_iff]
      rintro ⟨ptr, resident⟩
      rw [show handle.tiers.location block = .nowhere from unrecorded] at resident
      simp at resident
    rw [SlotsKept, if_neg absent] at kept
    obtain ⟨⟨found, staged⟩, middle, finding, rest⟩ := Prog.evaluates_bind.mp evaluation
    obtain ⟨shadow', finding', anticipates'⟩ := underway'.anticipates_findInDram anticipates small
      (by rw [noted]; exact kept.1) finding
    have safe := underway'.visits_findInDram small (by rw [noted]; exact kept.1) finding.visits
    rcases findInDram_cases small underway'.wellFormed.positive_blockBytes unrecorded' finding with
      ⟨source, path, rfl, stage⟩ | ⟨rfl, -⟩
    · rw [noted] at stage
      have addressable := (kept.2 (stage.available underway.wellFormed underway.settled)).1
      have holds := ((stage.source_holds underway.wellFormed underway.settled
        underway.dram).holdsBlock_iff small).mpr addressable
      obtain ⟨last, copying, anticipates_last⟩ := anticipates'.copyToHbm safe
        (stage.wellFormed underway.wellFormed).size holds rest
      exact ⟨last, Prog.evaluates_bind.mpr ⟨_, shadow', finding', copying⟩, anticipates_last⟩
    · obtain ⟨returned, -⟩ := rest
      simp at returned

/-- A batch that runs to its end, on both machines. -/
theorem Underway.anticipates_lookupLoop {shadow : Machine} {batch : List BlockId}
    {served : List Served}
    (underway : Underway config file earlier queued handle.tiers before)
    (anticipates : shadow.Anticipates config file before) (small : file.length < 2 ^ 63)
    (kept : SlotsKept config file (handle.tiers.residents queued) batch)
    (evaluation : (lookupLoop handle batch).Evaluates (environment file .queued permits) before
      (handle', served, true) after) :
    ∃ shadow', (lookupLoop handle batch).Evaluates (environment file .atIssue permits) shadow
        (handle', served, true) shadow' ∧
      shadow'.Anticipates config file after ∧ Safe config file earlier after := by
  induction batch generalizing handle before queued shadow served with
  | nil =>
      obtain ⟨returned, rfl⟩ := evaluation
      exact ⟨shadow, ⟨returned, rfl⟩, anticipates, underway.safe⟩
  | cons block batch induction =>
      obtain ⟨⟨next, outcome⟩, middle, lookup, rest⟩ := Prog.evaluates_bind.mp evaluation
      cases outcome with
      | none =>
          obtain ⟨returned, -⟩ := rest
          simp at returned
      | some first =>
          obtain ⟨⟨last, later, complete⟩, final, loop, returned, rfl⟩ :=
            Prog.evaluates_bind.mp rest
          obtain ⟨rfl, arrays⟩ := Prod.mk.inj returned
          obtain ⟨rfl, rfl⟩ := Prod.mk.inj arrays
          obtain ⟨shadow', lookup', anticipates'⟩ :=
            underway.anticipates_lookupBlock anticipates small kept lookup
          obtain ⟨queued', underway', kept'⟩ := underway.round small kept lookup
          obtain ⟨ending, loop', rest'⟩ := induction underway' anticipates' kept' loop
          exact ⟨ending, Prog.evaluates_bind.mpr ⟨_, shadow', lookup',
            Prog.evaluates_bind.mpr ⟨_, ending, loop', rfl, rfl⟩⟩, rest'⟩

/-- A successful lookup on a stream that executes copies late ends where one that executes them at
issue ends. -/
theorem Underway.anticipates_memtierLookupBlocks {batch : List BlockId} {result : LookupResult}
    {shadow : Machine} (underway : Underway config file earlier [] handle.tiers before)
    (anticipates : shadow.Anticipates config file before) (idle : before.pending = [])
    (small : file.length < 2 ^ 63) (kept : SlotsKept config file (handle.tiers.residents []) batch)
    (evaluation : (memtierLookupBlocks handle batch).Evaluates (environment file .queued permits)
      before (handle', result) after) (success : result.rc = 0) :
    ∃ shadow', (memtierLookupBlocks handle batch).Evaluates (environment file .atIssue permits)
        shadow (handle', result) shadow' ∧ shadow'.Anticipates config file after ∧
      after.pending = [] := by
  have failed : ∀ {last : Handle} {served : List Served} {first : Machine},
      ¬ (Prog.ret (last, { rc := -1, served : LookupResult }) : Run (Handle × LookupResult)).Evaluates
        (environment file .queued permits) first (handle', result) after := by
    rintro last served first ⟨returned, -⟩
    obtain ⟨-, rfl⟩ := Prod.mk.inj returned
    simp at success
  -- Creating, waiting for and destroying the stream leaves the machine without a queue alone.
  have stream : ∀ {first second machine : Machine} {op : Op},
      op = .streamCreate ∨ op = .streamDestroy → ∀ {done : Reply op},
      (environment file .queued permits).Serves first op done second → machine.pending = [] →
      (environment file .atIssue permits).Serves machine op done machine := by
    rintro first second machine op (rfl | rfl) done ⟨ready, choice, -, served, permitted⟩ -
    · simp only [environment, serve, Option.some.injEq, Prod.mk.injEq] at served
      exact ⟨machine, choice, ⟨0, rfl⟩, by simp [environment, serve, served.1], permitted⟩
    · simp only [environment, serve, Option.some.injEq, Prod.mk.injEq] at served
      exact ⟨machine, choice, ⟨0, rfl⟩, by simp [environment, serve, served.1], permitted⟩
  obtain ⟨created, ready, creation, evaluation⟩ := Prog.evaluates_bind.mp evaluation
  rw [Run.streamCreate, Prog.evaluates_perform] at creation
  have creation' := stream (.inl rfl) creation anticipates.idle
  obtain rfl := (serves_streamCreate creation).eq_of_empty idle
  cases created with
  | false => exact absurd evaluation failed
  | true =>
      obtain ⟨⟨last, served, complete⟩, middle, loop, evaluation⟩ :=
        Prog.evaluates_bind.mp evaluation
      cases complete with
      | false => exact absurd evaluation failed
      | true =>
          obtain ⟨shadow', loop', anticipates', safe⟩ :=
            underway.anticipates_lookupLoop anticipates small kept loop
          obtain ⟨finished, waited, waiting, evaluation⟩ := Prog.evaluates_bind.mp evaluation
          rw [Run.streamSynchronize, Prog.evaluates_perform] at waiting
          have permitted := waiting.choose_spec.choose_spec.2.2
          obtain ⟨idling, drains, rfl⟩ := serves_streamSynchronize waiting
          cases finished with
          | false => exact absurd evaluation failed
          | true =>
              have drained : middle.Drains (idling.drain idling.pending.length) :=
                drains.trans ⟨_, rfl⟩
              have empty : (idling.drain idling.pending.length).pending = [] := by
                rw [(idling.drain_split _).1, List.drop_length]
              have waiting' : (environment file .atIssue permits).Serves shadow'
                  .streamSynchronize true shadow' := by
                refine ⟨shadow', .take 0, ⟨0, rfl⟩, ?_, permitted⟩
                simp [environment, serve, anticipates'.idle, Machine.drain]
              obtain ⟨destroyed, last', destruction, evaluation⟩ := Prog.evaluates_bind.mp evaluation
              rw [Run.streamDestroy, Prog.evaluates_perform] at destruction
              have destruction' := stream (.inr rfl) destruction anticipates'.idle
              obtain rfl := (serves_streamDestroy destruction).eq_of_empty empty
              cases destroyed with
              | false => exact absurd evaluation failed
              | true =>
                  obtain ⟨returned, rfl⟩ := evaluation
                  refine ⟨shadow', ?_, ⟨?_, ?_, anticipates'.idle⟩, empty⟩
                  · exact Prog.evaluates_bind.mpr ⟨_, _, Prog.evaluates_perform.mpr creation',
                      Prog.evaluates_bind.mpr ⟨_, _, loop',
                        Prog.evaluates_bind.mpr ⟨_, _, Prog.evaluates_perform.mpr waiting',
                          Prog.evaluates_bind.mpr ⟨_, _, Prog.evaluates_perform.mpr destruction',
                            returned, rfl⟩⟩⟩⟩
                  · rw [anticipates'.dram, if_pos rfl]
                    exact drained.dram.symm
                  · rw [anticipates'.hbm, if_pos rfl]
                    exact (safe.expected_drains drained).symm

/-- The same for any call. -/
theorem Underway.anticipates_report {request : Request} {result : LookupResult} {shadow : Machine}
    (underway : Underway config file earlier [] handle.tiers before)
    (anticipates : shadow.Anticipates config file before) (idle : before.pending = [])
    (small : file.length < 2 ^ 63)
    (kept : SlotsKept config file (handle.tiers.residents []) request.lookups)
    (evaluation : (request.report handle).Evaluates (environment file .queued permits) before
      (handle', result) after) (success : LooksUp request result.rc) :
    ∃ shadow', (request.report handle).Evaluates (environment file .atIssue permits) shadow
        (handle', result) shadow' ∧ shadow'.Anticipates config file after ∧ after.pending = [] := by
  cases request with
  | lookup blocks =>
      rcases success with zero | empty
      · exact underway.anticipates_memtierLookupBlocks anticipates idle small kept evaluation zero
      · simp at empty
  | prefetch blocks =>
      rw [Request.report] at evaluation ⊢
      split at evaluation
      · rename_i empty
        obtain ⟨returned, rfl⟩ := evaluation
        rw [if_pos empty]
        exact ⟨shadow, ⟨returned, rfl⟩, anticipates, idle⟩
      · rename_i nonempty
        rw [if_neg nonempty]
        rcases success with zero | empty
        · exact underway.anticipates_memtierLookupBlocks anticipates idle small kept evaluation zero
        · exact absurd (Request.prefetch.inj empty) nonempty
  | release blocks =>
      obtain ⟨returned, rfl⟩ := evaluation
      exact ⟨shadow, ⟨returned, rfl⟩, anticipates, idle⟩

end

/-! ## Sessions -/

/-- A session on a stream that executes its copies late.  No miss of a call takes the slot of a
block that the same call has queued, unless with the same bytes. -/
inductive Deferred (file : Bytes) (permits : (op : Op) → Reply op → Prop) (config : Config) :
    List BlockId → List Served → World → Prop
  | init {dramBase hbmBase : Nat} {handle : Handle} {machine : Machine}
      (created : memtierInitEmbedding config dramBase hbmBase = some handle)
      (idle : machine.pending = []) : Deferred file permits config [] [] ⟨handle, machine⟩
  | call {passed : List BlockId} {reported : List Served} {before after : World}
      {request : Request} {result : LookupResult}
      (earlier : Deferred file permits config passed reported before)
      (kept : SlotsKept config file (before.handle.tiers.residents []) request.lookups)
      (evaluation : (request.report before.handle).Evaluates (environment file .queued permits)
        before.machine (after.handle, result) after.machine)
      (success : LooksUp request result.rc) :
      Deferred file permits config (passed ++ request.lookups) (reported ++ result.served) after

section

variable {file : Bytes} {permits : (op : Op) → Reply op → Prop} {config : Config}
  {passed : List BlockId} {reported : List Served} {world : World}

theorem Deferred.metered (deferred : Deferred file permits config passed reported world) :
    Metered file .queued permits config passed reported world := by
  induction deferred with
  | init created idle => exact .init created idle
  | call earlier kept evaluation success induction => exact .call induction evaluation success

/-- What is known of the machine that executes copies at issue holds between calls of the one that
does not. -/
theorem Steady.underway {tiers : Tiers} {shadow machine : Machine}
    (steady : Steady config file tiers shadow) (wellFormed : tiers.WellFormed config)
    (dram : shadow.dram = machine.dram) (idle : machine.pending = []) :
    Underway config file machine.executed [] tiers machine where
  wellFormed := wellFormed
  settled := steady.loaded.settled
  tracked := steady.tracked
  dram := fun block ptr held => dram ▸ steady.loaded.dram block ptr held
  safe := ⟨⟨[], by simp, by simp⟩, fun copy pending => by simp [idle] at pending⟩
  owned := fun copy pending => by simp [idle] at pending

/-- A call found by evaluation. -/
theorem Deferred.call_of_session? [∀ op reply, Decidable (permits op reply)] {request : Request}
    {choices : List Choice} {after : World}
    (deferred : Deferred file permits config passed reported world)
    (found : World.session? file .queued permits LooksUp [(request, choices)] world = some after)
    (kept : SlotsKept config file (world.handle.tiers.residents []) request.lookups) :
    ∃ later, Deferred file permits config (passed ++ request.lookups) later after := by
  rw [World.session?] at found
  split at found
  · simp at found
  · rename_i handle rc machine evaluation
    split at found
    · rename_i success
      obtain rfl := Option.some.inj found
      have evaluation := Prog.Evaluates.of_evaluate? evaluation
      rw [Request.run_eq_report] at evaluation
      obtain ⟨⟨last, result⟩, final, report, returned, rfl⟩ := Prog.evaluates_bind.mp evaluation
      obtain ⟨rfl, rfl⟩ := Prod.mk.inj returned
      exact ⟨_, .call deferred kept report success⟩
    · simp at found

end

end MemTier.Embedding
