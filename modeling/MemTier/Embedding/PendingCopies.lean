import MemTier.Embedding.DevicePointers

/-!
# Pending copies

Copies are queued on a stream and the host goes on.  A later miss of the same call may take the
slot of the DRAM cache that a queued copy has yet to read, because nothing waits for the stream
before its end.  Every copy reads its own block, whenever it executes, exactly when no miss does so
with different bytes.
-/

namespace MemTier.Embedding

open Containers Resumption

/-- A copy that has read exactly the block it was made for. -/
def CopyFaithful (config : Config) (file : Bytes) (record : Copy × Bytes) : Prop :=
  BlockInside config file record.1.block ∧ record.2 = blockBytes config file record.1.block

/-- Every copy executed since the log was `earlier` has read the block it was made for. -/
def LogFaithful (config : Config) (file : Bytes) (earlier : List (Copy × Bytes))
    (machine : Machine) : Prop :=
  ∃ copied, machine.executed = earlier ++ copied ∧ ∀ record ∈ copied, CopyFaithful config file record

/-- A call that returned zero. -/
def ReturnsZero (_ : Request) (rc : Int) : Prop := rc = 0

instance (request : Request) (rc : Int) : Decidable (ReturnsZero request rc) :=
  inferInstanceAs (Decidable (rc = 0))

/-! ## What the call will find -/

/-- The bytes that a load of a block puts into its slot, as far as the file has them. -/
def loadedBytes (config : Config) (file : Bytes) (block : BlockId) : Bytes :=
  slice file (config.loadOffset block).toNat config.blockSizeBytes.toNat

/-- The file has all the bytes that a load of a block reads. -/
def LoadsWhole (config : Config) (file : Bytes) (block : BlockId) : Prop :=
  (config.loadOffset block).toNat + config.blockSizeBytes.toNat ≤ file.length

instance (config : Config) (file : Bytes) (block : BlockId) :
    Decidable (LoadsWhole config file block) :=
  inferInstanceAs (Decidable (_ ≤ _))

/-- Which blocks are where, and which were queued for copying by this call. -/
structure Residents where
  recorded : BlockId → Bool
  hbm : List BlockId
  dram : List BlockId
  queued : List BlockId

/-- Bring a block that is not recorded in device memory there. -/
def Residents.bring (config : Config) (residents : Residents) (block : BlockId) : Residents where
  recorded := fun other => other = block ∨
    (residents.recorded other ∧
      ¬ (Recency.victim config.hbmCapacity residents.hbm = some other ∧ other ≠ uint64Max))
  hbm := Recency.enter config.hbmCapacity block residents.hbm
  dram :=
    if block ∈ residents.dram then Recency.use block residents.dram
    else Recency.enter config.dramCapacity block residents.dram
  queued := block :: residents.queued

/-- No miss takes the slot of a block queued earlier, unless the slot keeps its bytes, and no block
that is copied has an offset that wraps around. -/
def SlotsKept (config : Config) (file : Bytes) : Residents → List BlockId → Prop
  | _, [] => True
  | residents, block :: batch =>
      if residents.recorded block then SlotsKept config file residents batch
      else
        (block ∉ residents.dram → ∀ victim ∈ Recency.victim config.dramCapacity residents.dram,
          victim ∈ residents.queued →
            loadedBytes config file block <+: loadedBytes config file victim) ∧
        (block ∈ residents.dram ∨ LoadsWhole config file block →
          config.Addressable block ∧ SlotsKept config file (residents.bring config block) batch)

instance SlotsKept.decidable (config : Config) (file : Bytes) : ∀ residents batch,
    Decidable (SlotsKept config file residents batch)
  | _, [] => instDecidableTrue
  | residents, block :: batch =>
      have := SlotsKept.decidable config file residents batch
      have := SlotsKept.decidable config file (residents.bring config block) batch
      have := Option.decidableForallMem (p := fun victim => victim ∈ residents.queued →
        loadedBytes config file block <+: loadedBytes config file victim)
        (Recency.victim config.dramCapacity residents.dram)
      inferInstanceAs (Decidable (if residents.recorded block then _ else (_ → _) ∧ (_ → _ ∧ _)))

/-- What the tiers hold, when `queued` was queued for copying. -/
def Tiers.residents (tiers : Tiers) (queued : List BlockId) : Residents where
  recorded := fun block => match tiers.location block with
    | .hbm _ => true
    | _ => false
  hbm := tiers.hbm.recency
  dram := tiers.dram.recency
  queued := queued

/-! ## Queued copies -/

/-- All copies of the call so far were faithful, and those still queued would be if they executed
now. -/
structure Safe (config : Config) (file : Bytes) (earlier : List (Copy × Bytes))
    (machine : Machine) : Prop where
  log : LogFaithful config file earlier machine
  queue : ∀ copy ∈ machine.pending, copy.bytes = config.blockSizeBytes.toNat ∧
    HoldsBlock config file machine.dram copy.src copy.block

section

variable {config : Config} {file : Bytes} {earlier : List (Copy × Bytes)} {before after : Machine}

theorem Safe.drains (safe : Safe config file earlier before) (drains : before.Drains after) :
    Safe config file earlier after := by
  obtain ⟨copied, log, faithful⟩ := safe.log
  refine ⟨?_, fun copy queued => ?_⟩
  · obtain ⟨count, rfl⟩ := drains
    refine ⟨copied ++ (before.pending.take count).map fun copy =>
      (copy, before.dram.read copy.src copy.bytes), ?_, ?_⟩
    · rw [(before.drain_split count).2, log, List.append_assoc]
    · intro record member
      rcases List.mem_append.mp member with old | new
      · exact faithful record old
      · obtain ⟨copy, queued, rfl⟩ := List.mem_map.mp new
        obtain ⟨bytes, holds⟩ := safe.queue copy (List.mem_of_mem_take queued)
        refine ⟨holds.1, ?_⟩
        rw [bytes]
        exact holds.2
  · rw [drains.dram]
    exact safe.queue copy (drains.pending queued)

/-- Storing into a slot that no queued copy reads, or storing what the slot already holds. -/
def Harmless (config : Config) (file : Bytes) (offset dst : Nat) (machine : Machine) : Prop :=
  (∀ copy ∈ machine.pending, copy.src + config.blockSizeBytes.toNat ≤ dst ∨
    dst + config.blockSizeBytes.toNat ≤ copy.src) ∨
  slice file offset config.blockSizeBytes.toNat <+: machine.dram.read dst config.blockSizeBytes.toNat

theorem Harmless.drains {offset dst : Nat} (harmless : Harmless config file offset dst before)
    (drains : before.Drains after) : Harmless config file offset dst after := by
  rcases harmless with apart | same
  · exact .inl fun copy queued => apart copy (drains.pending queued)
  · right
    rw [drains.dram]
    exact same

/-- One read of a harmless load. -/
theorem Safe.store (safe : Safe config file earlier before) {offset dst total : Nat} {data : Bytes}
    (harmless : Harmless config file offset dst before)
    (read : data <+: slice file (offset + total) (config.blockSizeBytes.toNat - total))
    (more : total < config.blockSizeBytes.toNat) :
    Safe config file earlier { before with dram := before.dram.write (dst + total) data } ∧
      Harmless config file offset dst
        { before with dram := before.dram.write (dst + total) data } := by
  have bound := read.length_le
  rw [length_slice] at bound
  rcases harmless with apart | same
  · refine ⟨⟨safe.log, fun copy queued => ?_⟩, .inl apart⟩
    obtain ⟨bytes, inside, holds⟩ := safe.queue copy queued
    refine ⟨bytes, inside, ?_⟩
    rw [Memory.read_write_disjoint]
    · exact holds
    · rcases apart copy queued with left | right <;> omega
  · have unchanged : before.dram.write (dst + total) data = before.dram := by
      refine Memory.write_of_read_eq ?_
      rcases List.eq_nil_or_concat data with rfl | nonempty
      · rfl
      have positive : 0 < data.length := by
        obtain ⟨front, last, rfl⟩ := nonempty
        simp
      rw [← @Memory.slice_read before.dram dst config.blockSizeBytes.toNat total data.length
        (by omega)]
      obtain ⟨rest, joined⟩ := same
      have expected : data = slice (slice file offset config.blockSizeBytes.toNat) total
          data.length := by
        rw [slice_slice (by omega)]
        exact eq_slice_of_front (read.trans (List.take_prefix _ _))
      rw [← joined, slice_of_grown (List.prefix_append _ rest), ← expected]
      rw [length_slice]
      omega
    simp only [unchanged]
    exact ⟨safe, .inr same⟩

theorem Safe.serves_pread {permits : (op : Op) → Reply op → Prop} {block : BlockId}
    {offset dst total : Nat} {reply : Option Nat} (safe : Safe config file earlier before)
    (harmless : Harmless config file offset dst before) (fits : offset + total < 2 ^ 64)
    (more : total < config.blockSizeBytes.toNat)
    (execution : (environment file .queued permits).Serves before
      (.pread block (dst + total) (config.blockSizeBytes.toNat - total)
        ((offset + total) % 2 ^ 64)) reply after) :
    Safe config file earlier after ∧ Harmless config file offset dst after ∧
      after.pending ⊆ before.pending := by
  obtain ⟨-, ready, drains, outcome⟩ := Embedding.serves_pread execution
  rw [Nat.mod_eq_of_lt fits] at outcome
  rcases outcome with ⟨-, rfl⟩ | ⟨data, read, -, -, -, rfl⟩
  · exact ⟨safe.drains drains, harmless.drains drains, drains.pending⟩
  · obtain ⟨safe', harmless'⟩ := (safe.drains drains).store (harmless.drains drains) read more
    exact ⟨safe', harmless', drains.pending⟩

/-- While a harmless load is under way, every copy that executes is faithful. -/
theorem Safe.loadLoop {permits : (op : Op) → Reply op → Prop} (small : file.length < 2 ^ 63)
    {block : BlockId} {offset dst total : Nat} {state : Machine}
    (safe : Safe config file earlier before) (harmless : Harmless config file offset dst before)
    (fits : offset + total < 2 ^ 64)
    (visits : (loadLoop block offset dst config.blockSizeBytes.toNat total).Visits
      (environment file .queued permits) before state) :
    Safe config file earlier state ∧ state.pending ⊆ before.pending := by
  induction gap : config.blockSizeBytes.toNat - total using Nat.strong_induction_on
    generalizing total before with
  | _ left induction =>
    rw [Embedding.loadLoop] at visits
    split at visits
    · rename_i more
      rcases Prog.visits_bind.mp visits with reading | ⟨reply, middle, reading, rest⟩
      · rcases Prog.visits_perform.mp reading with drains | ⟨reply, middle, execution, drains⟩
        · exact ⟨safe.drains drains, Machine.Drains.pending drains⟩
        · obtain ⟨safe', -, subset⟩ := safe.serves_pread harmless fits more execution
          exact ⟨safe'.drains drains, List.Subset.trans (Machine.Drains.pending drains) subset⟩
      · rw [Run.pread, Prog.evaluates_perform] at reading
        obtain ⟨safe', harmless', subset⟩ := safe.serves_pread harmless fits more reading
        have stops : middle.Drains state →
            Safe config file earlier state ∧ state.pending ⊆ before.pending := fun drains =>
          ⟨safe'.drains drains, List.Subset.trans drains.pending subset⟩
        obtain ⟨-, ready, -, outcome⟩ := Embedding.serves_pread reading
        rw [Nat.mod_eq_of_lt fits] at outcome
        rcases outcome with ⟨rfl, -⟩ | ⟨data, read, -, -, rfl, -⟩
        · exact stops rest
        · dsimp only at rest
          split at rest
          · exact stops rest
          · rename_i some_read
            have bound := read.length_le
            rw [length_slice] at bound
            have smaller : config.blockSizeBytes.toNat - (total + data.length) < left := by omega
            obtain ⟨safe', subset'⟩ := induction _ smaller safe' harmless' (by omega) rest rfl
            exact ⟨safe', List.Subset.trans subset' subset⟩
    · exact ⟨safe.drains visits, Machine.Drains.pending visits⟩

end

/-! ## Rounds -/

/-- What holds between the rounds of a call: the slots of the DRAM cache are filled, and every
queued copy reads a slot that belongs to a block queued by this call. -/
structure Underway (config : Config) (file : Bytes) (earlier : List (Copy × Bytes))
    (queued : List BlockId) (tiers : Tiers) (machine : Machine) : Prop where
  wellFormed : tiers.WellFormed config
  settled : Settled tiers
  tracked : Tracked tiers
  dram : DramHolds config file tiers machine
  safe : Safe config file earlier machine
  owned : ∀ copy ∈ machine.pending, ∃ owner,
    tiers.dram.address owner = some copy.src ∧ owner ∈ queued

section

variable {config : Config} {file : Bytes} {earlier : List (Copy × Bytes)} {queued : List BlockId}
  {tiers tiers' : Tiers} {block : BlockId} {before after : Machine}
  {permits : (op : Op) → Reply op → Prop}

theorem Tiers.recorded_iff :
    (tiers.residents queued).recorded block = true ↔ ∃ ptr, tiers.location block = .hbm ptr := by
  cases here : tiers.location block <;> simp [residents, here]

theorem Tiers.WellFormed.mem_dram (wellFormed : tiers.WellFormed config) :
    block ∈ tiers.dram.recency ↔ ∃ ptr, tiers.dram.address block = some ptr := by
  rw [wellFormed.dram.keys, ← Option.isSome_iff_exists, SlotCache.address, Option.isSome_map,
    AList.lookup_isSome]

/-- A load takes a slot that no queued copy reads, or leaves the slot as it is. -/
theorem Underway.harmless (underway : Underway config file earlier queued tiers before)
    (absent : tiers.dram.address block = none)
    (kept : ∀ victim ∈ Recency.victim config.dramCapacity tiers.dram.recency, victim ∈ queued →
      loadedBytes config file block <+: loadedBytes config file victim) :
    Harmless config file (config.loadOffset block).toNat (tiers.loadPtr block) before := by
  have wellFormed := underway.wellFormed
  obtain ⟨-, -, evicted, slot, -⟩ := wellFormed.dram.allocate_absent absent
  rw [wellFormed.dram_capacity] at evicted
  by_cases reuses : ∃ victim ∈ Recency.victim config.dramCapacity tiers.dram.recency,
      victim ∈ queued
  · obtain ⟨victim, oldest, copied⟩ := reuses
    have held := underway.dram victim _ (slot victim (evicted.trans oldest))
    right
    rw [show tiers.loadPtr block = (tiers.dram.allocate block).1.1 from rfl, held.2]
    exact kept victim oldest copied
  · left
    intro copy pending
    obtain ⟨owner, address, copied⟩ := underway.owned copy pending
    have different : owner ≠ block := by
      rintro rfl
      rw [absent] at address
      simp at address
    have still : (tiers.enter block).dram.address owner = some copy.src := by
      rw [Tiers.enter, wellFormed.dram.address_allocate_ne different, evicted]
      exact (if_neg fun oldest => reuses ⟨owner, oldest, copied⟩).trans address
    have admitted : (tiers.enter block).WellFormed config := wellFormed.enter
    have apart := admitted.dram.disjoint still (wellFormed.dram.address_allocate block) different
    rw [admitted.dram_size] at apart
    exact apart

/-- Staging says where the DRAM cache keeps the block. -/
theorem Staged.source_address {source : Nat} {path : ServedBy}
    (stage : Staged file permits tiers block before tiers' source path after)
    (wellFormed : tiers.WellFormed config) (settled : Settled tiers) :
    tiers'.dram.address block = some source := by
  cases stage with
  | recorded recorded => exact absurd recorded (settled block source)
  | found unrecorded cached =>
      refine Eq.trans ?_ cached
      exact congrFun (wellFormed.dram.get block).2.2.2 block
  | loaded unrecorded absent load => exact wellFormed.dram.address_allocate block

/-- The slot of a queued copy stays with a block of this call. -/
theorem Staged.owned {source : Nat} {path : ServedBy}
    (stage : Staged file permits tiers block before tiers' source path after)
    (wellFormed : tiers.WellFormed config) {copy : Copy}
    (owned : ∃ owner, tiers.dram.address owner = some copy.src ∧ owner ∈ queued) :
    ∃ owner, tiers'.dram.address owner = some copy.src ∧ owner ∈ block :: queued := by
  obtain ⟨owner, address, copied⟩ := owned
  cases stage with
  | recorded recorded => exact ⟨owner, address, List.mem_cons_of_mem _ copied⟩
  | found unrecorded cached =>
      refine ⟨owner, Eq.trans ?_ address, List.mem_cons_of_mem _ copied⟩
      exact congrFun (wellFormed.dram.get block).2.2.2 owner
  | loaded unrecorded absent load =>
      obtain ⟨-, -, -, slot, -⟩ := wellFormed.dram.allocate_absent absent
      by_cases evicted : (tiers.dram.allocate block).1.2 = some owner
      · refine ⟨block, ?_, List.mem_cons_self⟩
        rw [← address, slot owner evicted]
        exact wellFormed.dram.address_allocate block
      · have different : owner ≠ block := by
          rintro rfl
          rw [absent] at address
          simp at address
        refine ⟨owner, ?_, List.mem_cons_of_mem _ copied⟩
        exact (wellFormed.dram.address_allocate_ne different).trans
          ((if_neg evicted).trans address)

theorem Staged.shrinks {source : Nat} {path : ServedBy}
    (stage : Staged file permits tiers block before tiers' source path after) :
    after.pending ⊆ before.pending := by
  cases stage with
  | recorded recorded => exact fun _ => id
  | found unrecorded cached => exact fun _ => id
  | loaded unrecorded absent load => exact load.shrinks

variable {handle handle' : Handle}

theorem Underway.visits_findInDram
    (underway : Underway config file earlier queued handle.tiers before)
    (small : file.length < 2 ^ 63)
    (kept : block ∉ handle.tiers.dram.recency →
      ∀ victim ∈ Recency.victim config.dramCapacity handle.tiers.dram.recency, victim ∈ queued →
        loadedBytes config file block <+: loadedBytes config file victim) {state : Machine}
    (visits : (findInDram handle block).Visits (environment file .queued permits) before state) :
    Safe config file earlier state := by
  have asked : (handle.dramCache.get block).1 = handle.tiers.dram.address block :=
    (handle.dramCache.get_ptr block).trans (handle.dramCache.slots.get_ptr block)
  rw [findInDram, asked] at visits
  split at visits
  · exact underway.safe.drains visits
  · rename_i absent
    have searched : (handle.searchDram block).tiers = handle.tiers := by
      rw [Handle.tiers_searchDram, Tiers.search_of_absent absent]
    have missing : block ∉ handle.tiers.dram.recency := by
      rw [underway.wellFormed.mem_dram, absent]
      simp
    have harmless := underway.harmless absent (kept missing)
    have loads : ∀ {state : Machine}, (gdsLoadBlockOrPosix
        ((handle.searchDram block).beginLoad block).config block
        ((handle.searchDram block).loadPtr block)
        ((handle.searchDram block).beginLoad block).blockBytes.toNat).Visits
          (environment file .queued permits) before state → Safe config file earlier state := by
      intro state loading
      have config_eq : ((handle.searchDram block).beginLoad block).config = config :=
        underway.wellFormed.config_eq
      have size : ((handle.searchDram block).beginLoad block).blockBytes.toNat =
          config.blockSizeBytes.toNat := underway.wellFormed.size
      rw [gdsLoadBlockOrPosix, loadBlock, config_eq, size, Handle.loadPtr_eq, searched] at loading
      exact (underway.safe.loadLoop small harmless (config.loadOffset block).toNat_lt loading).1
    rcases Prog.visits_bind.mp visits with loading | ⟨result, middle, loading, rest⟩
    · exact loads loading
    · have safe := loads loading.visits
      cases result with
      | none => exact safe.drains rest
      | some read => exact safe.drains rest

theorem Safe.visits_copyToHbm (safe : Safe config file earlier before)
    (size : handle.blockBytes.toNat = config.blockSizeBytes.toNat) {source : Nat}
    {path : ServedBy} (holds : HoldsBlock config file before.dram source block) {state : Machine}
    (visits : (copyToHbm handle block source path).Visits (environment file .queued permits)
      before state) : Safe config file earlier state := by
  have issues : ∀ {issued : Bool} {middle : Machine},
      (environment file .queued permits).Serves before
        (.memcpyAsync (handle.tiers.copy block source)) issued middle →
      Safe config file earlier middle := by
    intro issued middle execution
    obtain ⟨-, ready, drains, rfl⟩ := serves_memcpyAsync execution
    have ready_safe := safe.drains drains
    cases issued with
    | false => exact ready_safe
    | true =>
        refine ⟨ready_safe.log, fun copy pending => ?_⟩
        rcases List.mem_append.mp pending with old | new
        · exact ready_safe.queue copy old
        · obtain rfl := List.mem_singleton.mp new
          refine ⟨size, ?_⟩
          simp only [if_true, Machine.issue_dram, drains.dram]
          exact holds
  rcases Prog.visits_bind.mp visits with copying | ⟨issued, middle, copying, rest⟩
  · rcases Prog.visits_perform.mp copying with drains | ⟨issued, middle, execution, drains⟩
    · exact safe.drains drains
    · exact (issues execution).drains drains
  · rw [Run.memcpyAsync, Prog.evaluates_perform] at copying
    have middle_safe := issues copying
    cases issued with
    | false => exact middle_safe.drains rest
    | true => exact middle_safe.drains rest

/-- The DRAM cache moves no block. -/
theorem Staged.dram_address_of_ne {source : Nat} {path : ServedBy} {other : BlockId} {ptr : Nat}
    (stage : Staged file permits tiers block before tiers' source path after)
    (wellFormed : tiers.WellFormed config) (different : other ≠ block)
    (address : tiers'.dram.address other = some ptr) : tiers.dram.address other = some ptr := by
  cases stage with
  | recorded recorded => exact address
  | found unrecorded cached =>
      rw [← address]
      exact (congrFun (wellFormed.dram.get block).2.2.2 other).symm
  | loaded unrecorded absent load => exact wellFormed.dram.address_of_allocate different address

theorem Round.dram_address_of_ne {mode : CopyMode} {served : Option Served} {other : BlockId}
    {ptr : Nat} (round : Round file mode permits tiers block before tiers' served after)
    (wellFormed : tiers.WellFormed config) (different : other ≠ block)
    (address : tiers'.dram.address other = some ptr) : tiers.dram.address other = some ptr := by
  cases round with
  | hit resident => exact address
  | unread unrecorded absent load => exact wellFormed.dram.address_of_allocate different address
  | uncopied stage drains permitted => exact stage.dram_address_of_ne wellFormed different address
  | copied stage drains permitted => exact stage.dram_address_of_ne wellFormed different address

/-- A block that was staged can be loaded whole, unless the DRAM cache had it. -/
theorem Staged.available {source : Nat} {path : ServedBy}
    (stage : Staged file permits tiers block before tiers' source path after)
    (wellFormed : tiers.WellFormed config) (settled : Settled tiers) :
    block ∈ tiers.dram.recency ∨ LoadsWhole config file block := by
  cases stage with
  | recorded recorded => exact absurd recorded (settled block source)
  | found unrecorded cached => exact .inl (wellFormed.mem_dram.mpr ⟨source, cached⟩)
  | @loaded read after unrecorded absent load =>
      have inside := (load.complete read rfl).2
      rw [wellFormed.config_eq, wellFormed.size] at inside
      exact .inr inside

/-- Every copy that executes during a round is faithful. -/
theorem Underway.visits_lookupBlock
    (underway : Underway config file earlier queued handle.tiers before)
    (small : file.length < 2 ^ 63) {batch : List BlockId}
    (kept : SlotsKept config file (handle.tiers.residents queued) (block :: batch))
    {state : Machine}
    (visits : (lookupBlock handle block).Visits (environment file .queued permits) before state) :
    Safe config file earlier state := by
  rw [lookupBlock, ResidencyTable.lookup_location] at visits
  split at visits
  · exact underway.safe.drains visits
  · rename_i ptr recorded
    exact absurd recorded (underway.settled block ptr)
  · rename_i unrecorded
    have noted := handle.tiers_noteAccess block
    have unrecorded' : (handle.noteAccess block).tiers.location block = .nowhere := by
      rw [noted]
      exact unrecorded
    have underway' : Underway config file earlier queued (handle.noteAccess block).tiers before := by
      rw [noted]
      exact underway
    have absent : ¬ (handle.tiers.residents queued).recorded block = true := by
      rw [Tiers.recorded_iff]
      rintro ⟨ptr, resident⟩
      rw [show handle.tiers.location block = .nowhere from unrecorded] at resident
      simp at resident
    rw [SlotsKept, if_neg absent] at kept
    have finds : ∀ {state : Machine}, (findInDram (handle.noteAccess block) block).Visits
        (environment file .queued permits) before state → Safe config file earlier state :=
      underway'.visits_findInDram small (by rw [noted]; exact kept.1)
    rcases Prog.visits_bind.mp visits with finding | ⟨⟨found, staged⟩, middle, finding, rest⟩
    · exact finds finding
    · have safe := finds finding.visits
      have positive : 0 < (handle.noteAccess block).blockBytes.toNat :=
        underway'.wellFormed.positive_blockBytes
      rcases findInDram_cases small positive unrecorded' finding with
        ⟨source, path, rfl, stage⟩ | ⟨rfl, -, -, -⟩
      · rw [noted] at stage
        have addressable := (kept.2 (stage.available underway.wellFormed underway.settled)).1
        have holds := ((stage.source_holds underway.wellFormed underway.settled
          underway.dram).holdsBlock_iff small).mpr addressable
        exact safe.visits_copyToHbm (stage.wellFormed underway.wellFormed).size holds rest
      · exact safe.drains rest

/-- The DRAM cache refreshes a block that it has, and admits one that it has not. -/
theorem Staged.dram_order {source : Nat} {path : ServedBy}
    (stage : Staged file permits tiers block before tiers' source path after)
    (wellFormed : tiers.WellFormed config) (settled : Settled tiers) :
    tiers'.dram.recency =
      if block ∈ tiers.dram.recency then Recency.use block tiers.dram.recency
      else Recency.enter config.dramCapacity block tiers.dram.recency := by
  cases stage with
  | recorded recorded => exact absurd recorded (settled block source)
  | found unrecorded cached =>
      rw [if_pos (wellFormed.mem_dram.mpr ⟨source, cached⟩)]
      exact (wellFormed.dram.get block).2.2.1
  | loaded unrecorded absent load =>
      have missing : block ∉ tiers.dram.recency := by
        rw [wellFormed.mem_dram, absent]
        simp
      rw [if_neg missing, ← wellFormed.dram_capacity]
      exact (wellFormed.dram.allocate_absent absent).2.1

/-- The tables follow the forecast. -/
theorem Round.residents {served : Served} {mode : CopyMode}
    (round : Round file mode permits tiers block before tiers' (some served) after)
    (wellFormed : tiers.WellFormed config) (settled : Settled tiers) (tracked : Tracked tiers)
    (queued : List BlockId) :
    ((tiers.residents queued).recorded block = true ∧ tiers' = tiers ∧ after = before) ∨
    ((tiers.residents queued).recorded block = false ∧
      tiers'.residents (block :: queued) = (tiers.residents queued).bring config block) := by
  have hit_or_not := round.served_cases
  cases round with
  | hit resident => exact .inl ⟨Tiers.recorded_iff.mpr ⟨_, resident⟩, rfl, rfl⟩
  | @copied staged source path middle ready stage drains permitted =>
      rcases hit_or_not with ⟨resident, -⟩ | ⟨absent, hbm, -, here, elsewhere⟩
      · exact absurd resident (stage.frame.2.2.1 _)
      · right
        have unrecorded : (tiers.residents queued).recorded block = false := by
          rw [Bool.eq_false_iff, ne_eq, Tiers.recorded_iff]
          rintro ⟨ptr, resident⟩
          exact absent ptr resident
        have not_cached : tiers.hbm.address block = none := by
          cases held : tiers.hbm.address block with
          | none => rfl
          | some ptr => exact absurd (tracked block ptr held) (absent ptr)
        obtain ⟨-, order, evicted, -, -⟩ := wellFormed.hbm.allocate_absent not_cached
        rw [wellFormed.hbm_capacity] at order evicted
        refine ⟨unrecorded, ?_⟩
        rw [Residents.bring, Residents.mk.injEq]
        refine ⟨funext fun other => ?_, ?_, stage.dram_order wellFormed settled, rfl⟩
        · rw [Bool.eq_iff_iff, Tiers.recorded_iff, decide_eq_true_iff, Tiers.recorded_iff]
          by_cases same : other = block
          · subst same
            simp [here]
          · rw [elsewhere other same, evicted]
            change _ ↔ other = block ∨ _ ∧
              ¬ (Recency.victim config.hbmCapacity tiers.hbm.recency = some other ∧ _)
            split
            · rename_i gone
              simp [same, gone]
            · rename_i stays
              simp [same, stays]
        · exact (congrArg SlotCache.recency hbm).trans order

/-- A round that serves its block leaves the call in order. -/
theorem Underway.round (underway : Underway config file earlier queued handle.tiers before)
    (small : file.length < 2 ^ 63) {batch : List BlockId} {served : Served}
    (kept : SlotsKept config file (handle.tiers.residents queued) (block :: batch))
    (evaluation : (lookupBlock handle block).Evaluates (environment file .queued permits) before
      (handle', some served) after) :
    ∃ queued, Underway config file earlier queued handle'.tiers after ∧
      SlotsKept config file (handle'.tiers.residents queued) batch := by
  have wellFormed := underway.wellFormed
  have round := lookupBlock_round small wellFormed.positive_blockBytes evaluation
  have safe := underway.visits_lookupBlock small kept evaluation.visits
  rw [SlotsKept] at kept
  rcases round.residents wellFormed underway.settled underway.tracked queued with
    ⟨recorded, tiers, rfl⟩ | ⟨unrecorded, forecast⟩
  · rw [if_pos recorded] at kept
    rw [tiers]
    exact ⟨queued, underway, kept⟩
  · have unrecorded' : ¬ (handle.tiers.residents queued).recorded block = true := by
      rw [unrecorded]
      exact Bool.false_ne_true
    rw [if_neg unrecorded'] at kept
    have served_block : (block ∈ handle.tiers.dram.recency ∨ LoadsWhole config file block) ∧
        ∀ copy ∈ after.pending, ∃ owner,
          handle'.tiers.dram.address owner = some copy.src ∧ owner ∈ block :: queued := by
      generalize handle'.tiers = tiers' at round
      cases round with
      | hit resident => exact absurd (Tiers.recorded_iff.mpr ⟨_, resident⟩) unrecorded'
      | copied stage drains permitted =>
          refine ⟨stage.available wellFormed underway.settled, fun copy pending => ?_⟩
          rcases List.mem_append.mp pending with old | new
          · exact stage.owned wellFormed
              (underway.owned copy (stage.shrinks (drains.pending old)))
          · obtain rfl := List.mem_singleton.mp new
            exact ⟨block, stage.source_address wellFormed underway.settled, List.mem_cons_self⟩
    refine ⟨block :: queued, ?_, ?_⟩
    · exact ⟨round.wellFormed wellFormed, round.settled underway.settled,
        round.tracked wellFormed underway.tracked,
        round.dramHolds wellFormed underway.dram nofun, safe, served_block.2⟩
    · rw [forecast]
      exact (kept.2 served_block.1).2

theorem Underway.visits_lookupLoop
    (underway : Underway config file earlier queued handle.tiers before)
    (small : file.length < 2 ^ 63) {batch : List BlockId}
    (kept : SlotsKept config file (handle.tiers.residents queued) batch) {state : Machine}
    (visits : (lookupLoop handle batch).Visits (environment file .queued permits) before state) :
    Safe config file earlier state := by
  induction batch generalizing handle before queued state with
  | nil => exact underway.safe.drains visits
  | cons block batch induction =>
      rcases Prog.visits_bind.mp visits with inside | ⟨⟨next, outcome⟩, middle, lookup, rest⟩
      · exact underway.visits_lookupBlock small kept inside
      · cases outcome with
        | none => exact (underway.visits_lookupBlock small kept lookup.visits).drains rest
        | some served =>
            obtain ⟨queued', underway', kept'⟩ := underway.round small kept lookup
            rcases Prog.visits_bind.mp rest with looping | ⟨⟨last, later, complete⟩, final, loop, done⟩
            · exact induction underway' kept' looping
            · exact (induction underway' kept' loop.visits).drains done

/-- Every copy that executes during a call is faithful. -/
theorem Underway.visits_memtierLookupBlocks
    (underway : Underway config file earlier [] handle.tiers before)
    (small : file.length < 2 ^ 63) {batch : List BlockId}
    (kept : SlotsKept config file (handle.tiers.residents []) batch) {state : Machine}
    (visits : (memtierLookupBlocks handle batch).Visits (environment file .queued permits) before
      state) : Safe config file earlier state := by
  have started : ∀ {after : Machine}, before.Drains after →
      Underway config file earlier [] handle.tiers after := fun drains =>
    { underway with
      dram := underway.dram.drains drains
      safe := underway.safe.drains drains
      owned := fun copy pending => underway.owned copy (drains.pending pending) }
  rcases Prog.visits_bind.mp visits with creating | ⟨created, ready, creating, rest⟩
  · rcases Prog.visits_perform.mp creating with drains | ⟨created, ready, execution, drains⟩
    · exact underway.safe.drains drains
    · exact (started (serves_streamCreate execution)).safe.drains drains
  rw [Run.streamCreate, Prog.evaluates_perform] at creating
  have ready_underway := started (serves_streamCreate creating)
  cases created with
  | false => exact ready_underway.safe.drains rest
  | true =>
      rcases Prog.visits_bind.mp rest with looping | ⟨⟨last, served, complete⟩, middle, loop, rest⟩
      · exact ready_underway.visits_lookupLoop small kept looping
      have middle_safe := ready_underway.visits_lookupLoop small kept loop.visits
      cases complete with
      | false => exact middle_safe.drains rest
      | true =>
          have waits : ∀ {finished : Bool} {waited : Machine},
              (environment file .queued permits).Serves middle .streamSynchronize finished waited →
              Safe config file earlier waited := by
            intro finished waited waiting
            obtain ⟨idle, drains, rfl⟩ := serves_streamSynchronize waiting
            cases finished with
            | false => exact middle_safe.drains drains
            | true => exact (middle_safe.drains drains).drains ⟨_, rfl⟩
          rcases Prog.visits_bind.mp rest with waiting | ⟨finished, waited, waiting, rest⟩
          · rcases Prog.visits_perform.mp waiting with drains | ⟨finished, waited, waiting, drains⟩
            · exact middle_safe.drains drains
            · exact (waits waiting).drains drains
          rw [Run.streamSynchronize, Prog.evaluates_perform] at waiting
          have waited_safe := waits waiting
          cases finished with
          | false => exact waited_safe.drains rest
          | true =>
              rcases Prog.visits_bind.mp rest with ending | ⟨destroyed, final, ending, rest⟩
              · rcases Prog.visits_perform.mp ending with drains | ⟨destroyed, final, ending, drains⟩
                · exact waited_safe.drains drains
                · exact (waited_safe.drains (serves_streamDestroy ending)).drains drains
              rw [Run.streamDestroy, Prog.evaluates_perform] at ending
              have final_safe := waited_safe.drains (serves_streamDestroy ending)
              cases destroyed with
              | false => exact final_safe.drains rest
              | true => exact final_safe.drains rest

end

/-! ## The laziest stream -/

section

variable {config : Config} {file : Bytes} {handle : Handle} {block : BlockId} {machine : Machine}

theorem slice_eq_nil_of_negative (small : file.length < 2 ^ 63) {offset length : Nat}
    (negative : 2 ^ 63 ≤ offset) : slice file offset length = [] :=
  slice_eq_nil (by omega)

/-- One read that delivers everything the file has. -/
theorem serves_pread_whole {dst count offset : Nat} (nonnegative : offset < 2 ^ 63) :
    (environment file .queued AnyReply).Serves machine (.pread block dst count offset)
      (some (slice file offset count).length)
      { machine with dram := machine.dram.write dst (slice file offset count) } := by
  refine ⟨machine, .take count, ⟨0, rfl⟩, ?_, trivial⟩
  have whole : (slice file offset count).take (max 1 count) = slice file offset count := by
    rw [List.take_of_length_le]
    rw [length_slice]
    omega
  simp only [environment, serve, MemTier.pread]
  rw [if_neg (by omega), whole]

theorem evaluates_loadBlock (small : file.length < 2 ^ 63)
    (positive : 0 < config.blockSizeBytes.toNat) (whole : LoadsWhole config file block)
    {dst : Nat} :
    (loadBlock config block dst config.blockSizeBytes.toNat).Evaluates
      (environment file .queued AnyReply) machine (some config.blockSizeBytes.toNat)
      { machine with dram := machine.dram.write dst (loadedBytes config file block) } := by
  have inside : (config.loadOffset block).toNat + config.blockSizeBytes.toNat ≤ file.length := whole
  have length := length_slice_of_le inside
  have read := @serves_pread_whole file block machine dst config.blockSizeBytes.toNat
    (config.loadOffset block).toNat (by omega)
  rw [length] at read
  rw [loadBlock, loadLoop, dif_pos positive, Nat.add_zero, Nat.add_zero, Nat.sub_zero,
    Nat.mod_eq_of_lt (config.loadOffset block).toNat_lt]
  refine Prog.evaluates_bind.mpr ⟨_, _, Prog.evaluates_perform.mpr read, ?_⟩
  dsimp only
  rw [dif_neg (by omega), loadLoop, dif_neg (by omega), Nat.zero_add]
  exact ⟨rfl, rfl⟩

theorem evaluates_copyToHbm (source : Nat) (path : ServedBy) :
    ∃ handle' served, (copyToHbm handle block source path).Evaluates
      (environment file .queued AnyReply) machine (handle', some served)
      (machine.issue .queued (handle.tiers.copy block source)) := by
  have issue : (environment file .queued AnyReply).Serves machine
      (.memcpyAsync (handle.tiers.copy block source)) true
      (machine.issue .queued (handle.tiers.copy block source)) :=
    ⟨machine, .take 0, ⟨0, rfl⟩, rfl, trivial⟩
  exact ⟨_, _, Prog.evaluates_bind.mpr ⟨true, _, Prog.evaluates_perform.mpr issue, rfl, rfl⟩⟩

/-- Staging a block whose bytes are there, while no copy executes. -/
theorem evaluates_findInDram (small : file.length < 2 ^ 63)
    (wellFormed : handle.tiers.WellFormed config)
    (available : block ∈ handle.tiers.dram.recency ∨ LoadsWhole config file block) :
    ∃ found source path memory, (findInDram handle block).Evaluates
      (environment file .queued AnyReply) machine (found, some (source, path))
      { machine with dram := memory } := by
  have asked : (handle.dramCache.get block).1 = handle.tiers.dram.address block :=
    (handle.dramCache.get_ptr block).trans (handle.dramCache.slots.get_ptr block)
  rw [findInDram, asked]
  cases cached : handle.tiers.dram.address block with
  | some ptr => exact ⟨_, _, _, machine.dram, rfl, rfl⟩
  | none =>
      have missing : block ∉ handle.tiers.dram.recency := by
        rw [wellFormed.mem_dram, cached]
        simp
      have config_eq : ((handle.searchDram block).beginLoad block).config = config :=
        wellFormed.config_eq
      have size : ((handle.searchDram block).beginLoad block).blockBytes.toNat =
          config.blockSizeBytes.toNat := wellFormed.size
      have load := @evaluates_loadBlock config file block machine small wellFormed.positive
        (available.resolve_left missing) ((handle.searchDram block).loadPtr block)
      have loading : (gdsLoadBlockOrPosix ((handle.searchDram block).beginLoad block).config block
          ((handle.searchDram block).loadPtr block)
          ((handle.searchDram block).beginLoad block).blockBytes.toNat).Evaluates
            (environment file .queued AnyReply) machine (some config.blockSizeBytes.toNat)
            { machine with
              dram := machine.dram.write ((handle.searchDram block).loadPtr block)
                (loadedBytes config file block) } := by
        rw [gdsLoadBlockOrPosix, config_eq, size]
        exact load
      refine ⟨(((handle.searchDram block).beginLoad block).countRead
        config.blockSizeBytes.toNat).markDram block ((handle.searchDram block).loadPtr block),
        (handle.searchDram block).loadPtr block, .posixRead,
        machine.dram.write ((handle.searchDram block).loadPtr block)
          (loadedBytes config file block),
        Prog.evaluates_bind.mpr ⟨_, _, loading, ?_⟩⟩
      exact ⟨rfl, rfl⟩

/-- A round of a block that is nowhere but available, while no copy executes. -/
theorem evaluates_lookupBlock (small : file.length < 2 ^ 63)
    (wellFormed : handle.tiers.WellFormed config) (settled : Settled handle.tiers)
    (unrecorded : handle.tiers.location block = .nowhere)
    (available : block ∈ handle.tiers.dram.recency ∨ LoadsWhole config file block) :
    ∃ handle' served copy memory, (lookupBlock handle block).Evaluates
      (environment file .queued AnyReply) machine (handle', some served)
      { machine with dram := memory, pending := machine.pending ++ [copy] } ∧
      copy.block = block ∧ copy.bytes = config.blockSizeBytes.toNat ∧
      handle'.tiers.dram.address block = some copy.src := by
  have noted := handle.tiers_noteAccess block
  have wellFormed' : (handle.noteAccess block).tiers.WellFormed config := by
    rw [noted]
    exact wellFormed
  obtain ⟨found, source, path, memory, finding⟩ :=
    @evaluates_findInDram config file (handle.noteAccess block) block machine small wellFormed'
      (by rw [noted]; exact available)
  obtain ⟨handle', served, copying⟩ := @evaluates_copyToHbm file found block
    { machine with dram := memory } source path
  have round : (lookupBlock handle block).Evaluates (environment file .queued AnyReply) machine
      (handle', some served)
      (Machine.issue .queued { machine with dram := memory } (found.tiers.copy block source)) := by
    rw [lookupBlock, ResidencyTable.lookup_location]
    rw [show handle.residency.location block = .nowhere from unrecorded]
    exact Prog.evaluates_bind.mpr ⟨_, _, finding, copying⟩
  rcases findInDram_cases small wellFormed'.positive_blockBytes (by rw [noted]; exact unrecorded)
    finding with ⟨source', path', same, stage⟩ | ⟨impossible, -⟩
  · obtain ⟨rfl, rfl⟩ := Prod.mk.inj (Option.some.inj same)
    rw [noted] at stage
    refine ⟨handle', served, found.tiers.copy block source, memory, round, rfl,
      (stage.wellFormed wellFormed).size, ?_⟩
    obtain ⟨issued, ready, -, -, outcome⟩ := copyToHbm_cases copying
    have same_dram : handle'.tiers.dram = found.tiers.dram := by
      cases issued with
      | true => rw [outcome.1]; rfl
      | false => rw [outcome.1]; rfl
    rw [same_dram]
    exact stage.source_address wellFormed settled
  · simp at impossible

/-- What holds between the rounds of a call while no copy executes: every block of this call that
the DRAM cache still has is waiting to be copied out of its slot. -/
structure Waiting (config : Config) (file : Bytes) (earlier : List (Copy × Bytes))
    (queued : List BlockId) (tiers : Tiers) (machine : Machine) : Prop where
  wellFormed : tiers.WellFormed config
  settled : Settled tiers
  tracked : Tracked tiers
  dram : DramHolds config file tiers machine
  log : machine.executed = earlier
  waiting : ∀ victim ptr, tiers.dram.address victim = some ptr → victim ∈ queued →
    ∃ copy ∈ machine.pending, copy.block = victim ∧ copy.src = ptr ∧
      copy.bytes = config.blockSizeBytes.toNat

/-- All queued copies execute now. -/
theorem LogFaithful.of_drain {earlier : List (Copy × Bytes)} (log : machine.executed = earlier)
    (faithful : LogFaithful config file earlier (machine.drain machine.pending.length)) :
    ∀ copy ∈ machine.pending,
      CopyFaithful config file (copy, machine.dram.read copy.src copy.bytes) := by
  obtain ⟨copied, executed, faithful⟩ := faithful
  rw [(machine.drain_split _).2, log, List.take_length, List.append_cancel_left_eq] at executed
  intro copy pending
  exact faithful _ (executed ▸ List.mem_map_of_mem pending)

/-- A load that takes the slot of a waiting block must leave the bytes of that block there. -/
theorem Waiting.loaded_front {earlier : List (Copy × Bytes)} {queued : List BlockId}
    (waiting : Waiting config file earlier queued handle.tiers machine)
    (small : file.length < 2 ^ 63)
    (faithful : ∀ state, (lookupBlock handle block).Visits (environment file .queued AnyReply)
      machine state → LogFaithful config file earlier state)
    (unrecorded : handle.tiers.location block = .nowhere)
    (missing : block ∉ handle.tiers.dram.recency) {victim : BlockId}
    (oldest : victim ∈ Recency.victim config.dramCapacity handle.tiers.dram.recency)
    (copied : victim ∈ queued) :
    loadedBytes config file block <+: loadedBytes config file victim := by
  have wellFormed := waiting.wellFormed
  by_cases negative : 2 ^ 63 ≤ (config.loadOffset block).toNat
  · rw [loadedBytes, slice_eq_nil_of_negative small negative]
    exact List.nil_prefix
  have absent : handle.tiers.dram.address block = none := by
    cases cached : handle.tiers.dram.address block with
    | none => rfl
    | some ptr => exact absurd (wellFormed.mem_dram.mpr ⟨ptr, cached⟩) missing
  obtain ⟨-, -, evicted, slot, -⟩ := wellFormed.dram.allocate_absent absent
  rw [wellFormed.dram_capacity] at evicted
  have address := slot victim (evicted.trans oldest)
  obtain ⟨copy, pending, rfl, source, bytes⟩ := waiting.waiting victim _ address copied
  -- The first read of the load delivers all it can, and then every copy executes.
  let loading : Machine :=
    { machine with
      dram := machine.dram.write (handle.tiers.loadPtr block) (loadedBytes config file block) }
  have noted := handle.tiers_noteAccess block
  have visits : (lookupBlock handle block).Visits (environment file .queued AnyReply) machine
      (loading.drain loading.pending.length) := by
    rw [lookupBlock, ResidencyTable.lookup_location,
      show handle.residency.location block = .nowhere from unrecorded]
    refine Prog.visits_bind.mpr (.inl ?_)
    have asked : ((handle.noteAccess block).dramCache.get block).1 = none :=
      ((handle.noteAccess block).dramCache.get_ptr block).trans
        (((handle.noteAccess block).dramCache.slots.get_ptr block).trans absent)
    have searched : ((handle.noteAccess block).searchDram block).tiers = handle.tiers := by
      rw [Handle.tiers_searchDram, noted, Tiers.search_of_absent absent]
    have config_eq : (((handle.noteAccess block).searchDram block).beginLoad block).config =
        config := wellFormed.config_eq
    have size : (((handle.noteAccess block).searchDram block).beginLoad block).blockBytes.toNat =
        config.blockSizeBytes.toNat := wellFormed.size
    rw [findInDram, asked]
    refine Prog.visits_bind.mpr (.inl ?_)
    rw [gdsLoadBlockOrPosix, loadBlock, config_eq, size, Handle.loadPtr_eq, searched, loadLoop,
      dif_pos wellFormed.positive, Nat.add_zero, Nat.add_zero, Nat.sub_zero,
      Nat.mod_eq_of_lt (config.loadOffset block).toNat_lt]
    have read := @serves_pread_whole file block machine (handle.tiers.loadPtr block)
      config.blockSizeBytes.toNat (config.loadOffset block).toNat (by omega)
    exact Prog.visits_bind.mpr (.inr ⟨_, loading, Prog.evaluates_perform.mpr read,
      Prog.Visits.of_background ⟨_, rfl⟩⟩)
  obtain ⟨inside, read⟩ := @LogFaithful.of_drain config file loading earlier waiting.log
    (faithful _ visits) copy pending
  have held := waiting.dram copy.block _ address
  have whole := ((held.holdsBlock_iff small).mpr (inside.addressable small)).2
  have expected : loading.dram.read (handle.tiers.loadPtr block) config.blockSizeBytes.toNat =
      loadedBytes config file copy.block := by
    rw [bytes, source] at read
    exact read.trans (whole.symm.trans held.2)
  rw [← expected]
  refine Memory.prefix_read_write machine.dram (handle.tiers.loadPtr block) ?_
  rw [loadedBytes, length_slice]
  omega

/-- If copies are faithful even on the laziest stream, no slot was taken from a queued block. -/
theorem Waiting.slotsKept {earlier : List (Copy × Bytes)} {queued batch : List BlockId}
    (waiting : Waiting config file earlier queued handle.tiers machine)
    (small : file.length < 2 ^ 63)
    (faithful : ∀ state, (lookupLoop handle batch).Visits (environment file .queued AnyReply)
      machine state → LogFaithful config file earlier state) :
    SlotsKept config file (handle.tiers.residents queued) batch := by
  induction batch generalizing handle machine queued with
  | nil => trivial
  | cons block batch induction =>
      have wellFormed := waiting.wellFormed
      have continues : ∀ {handle' : Handle} {served : Served} {after : Machine},
          (lookupBlock handle block).Evaluates (environment file .queued AnyReply) machine
            (handle', some served) after →
          ∀ state, (lookupLoop handle' batch).Visits (environment file .queued AnyReply) after
            state → LogFaithful config file earlier state := fun round state looping =>
        faithful state (Prog.visits_bind.mpr
          (.inr ⟨_, _, round, Prog.visits_bind.mpr (.inl looping)⟩))
      rw [SlotsKept]
      by_cases recorded : (handle.tiers.residents queued).recorded block = true
      · rw [if_pos recorded]
        obtain ⟨ptr, resident⟩ := Tiers.recorded_iff.mp recorded
        have hit : (lookupBlock handle block).Evaluates (environment file .queued AnyReply) machine
            ((handle.noteAccess block).countHbmHit, some ⟨ptr, .hbmHit⟩) machine := by
          rw [lookupBlock, ResidencyTable.lookup_location,
            show handle.residency.location block = .hbm ptr from resident]
          exact ⟨rfl, rfl⟩
        have same : (handle.noteAccess block).countHbmHit.tiers = handle.tiers := by simp
        rw [← same] at waiting ⊢
        exact induction waiting (continues hit)
      · rw [if_neg recorded]
        have unrecorded : handle.tiers.location block = .nowhere := by
          cases here : handle.tiers.location block with
          | nowhere => rfl
          | dram ptr => exact absurd here (waiting.settled block ptr)
          | hbm ptr => exact absurd (Tiers.recorded_iff.mpr ⟨ptr, here⟩) recorded
        refine ⟨fun missing victim oldest copied => ?_, fun available => ?_⟩
        · refine waiting.loaded_front small (fun state inside => ?_) unrecorded missing oldest copied
          exact faithful state (Prog.visits_bind.mpr (.inl inside))
        · obtain ⟨handle', served, copy, memory, evaluation, block_eq, bytes, source⟩ :=
            @evaluates_lookupBlock config file handle block machine small wellFormed
              waiting.settled unrecorded available
          have round := lookupBlock_round small wellFormed.positive_blockBytes evaluation
          have faithful' := continues evaluation
          have copies := @LogFaithful.of_drain config file
            { machine with dram := memory, pending := machine.pending ++ [copy] } earlier
            waiting.log (faithful' _ (Prog.Visits.of_background ⟨_, rfl⟩))
          have inside := (copies copy (List.mem_append_right _ List.mem_cons_self)).1
          rw [block_eq] at inside
          refine ⟨inside.addressable small, ?_⟩
          rcases round.residents wellFormed waiting.settled waiting.tracked queued with
            ⟨hit, -, -⟩ | ⟨-, forecast⟩
          · exact absurd hit recorded
          rw [← forecast]
          refine induction ⟨round.wellFormed wellFormed, round.settled waiting.settled,
            round.tracked wellFormed waiting.tracked, round.dramHolds wellFormed waiting.dram (by simp),
            waiting.log, fun victim ptr address copied => ?_⟩ faithful'
          by_cases same : victim = block
          · subst same
            rw [source] at address
            exact ⟨copy, List.mem_append_right _ List.mem_cons_self, block_eq,
              Option.some.inj address, bytes⟩
          · have earlier_address := round.dram_address_of_ne wellFormed same address
            obtain ⟨older, pending, facts⟩ := waiting.waiting victim ptr earlier_address
              ((List.mem_cons.mp copied).resolve_left same)
            exact ⟨older, List.mem_append_left _ pending, facts⟩

end

/-- After successful calls, every copy that a lookup issues reads exactly its own block, whenever
the stream executes it, if and only if the slots of blocks queued by the call are kept until its
end or taken with the same bytes, and no offset of a copied block wraps around. -/
theorem pending_copies_faithful_iff {file : Bytes} {config : Config} {world : World}
    (small : file.length < 2 ^ 63)
    (reached : Reachable file .queued AnyReply ReturnsZero config world) (batch : List BlockId) :
    (∀ state, (memtierLookupBlocks world.handle batch).Visits
        (environment file .queued AnyReply) world.machine state →
      LogFaithful config file world.machine.executed state) ↔
      SlotsKept config file (world.handle.tiers.residents []) batch := by
  obtain ⟨wellFormed, settled, tracked, dram⟩ :=
    @Reachable.keeps file .queued AnyReply ReturnsZero config world
      (fun tiers machine => Settled tiers ∧ Tracked tiers ∧ DramHolds config file tiers machine)
      (fun _ => True) small (fun _ fresh _ => ⟨.fresh fresh, .fresh fresh, .fresh fresh⟩)
      (fun kept drains => ⟨kept.1, kept.2.1, kept.2.2.drains drains⟩)
      (fun {_ _ _ _ _ served} _ fails wellFormed kept round => by
        cases served with
        | none =>
            obtain ⟨request, rc, zero, nonzero⟩ := fails rfl
            exact absurd zero nonzero
        | some result =>
            exact ⟨round.settled kept.1, round.tracked wellFormed kept.2.1,
              round.dramHolds wellFormed kept.2.2 nofun⟩)
      (fun _ _ _ _ _ => trivial) reached
  have idle := reached.idle small fun _ _ zero => zero
  constructor
  · intro faithful
    have waiting : Waiting config file world.machine.executed [] world.handle.tiers world.machine :=
      ⟨wellFormed, settled, tracked, dram, rfl, fun victim ptr _ copied => by simp at copied⟩
    refine waiting.slotsKept small fun state looping => faithful state ?_
    have created : (environment file .queued AnyReply).Serves world.machine .streamCreate true
        world.machine := ⟨world.machine, .take 0, ⟨0, rfl⟩, rfl, trivial⟩
    exact Prog.visits_bind.mpr (.inr ⟨true, world.machine, Prog.evaluates_perform.mpr created,
      Prog.visits_bind.mpr (.inl looping)⟩)
  · intro kept state visits
    have underway : Underway config file world.machine.executed [] world.handle.tiers
        world.machine :=
      ⟨wellFormed, settled, tracked, dram,
        ⟨⟨[], by simp, by simp⟩, fun copy pending => by simp [idle] at pending⟩,
        fun copy pending => by simp [idle] at pending⟩
    exact (underway.visits_memtierLookupBlocks small kept visits).log

/-- Blocks of two bytes, room for one of them in host memory and for two in device memory. -/
def Config.oneSlot : Config where
  embeddingDim := 1
  rowsPerBlock := 1
  dtypeSize := 2
  dramCacheBytes := 2
  hbmCacheBytes := 4

/-- The second block takes the only slot of the DRAM cache, but its bytes are the same. -/
theorem pending_copies_faithful_same_bytes :
    ∃ world, Reachable [1, 2, 1, 2] .queued AnyReply ReturnsZero .oneSlot world ∧
      ∀ state, (memtierLookupBlocks world.handle [0, 1]).Visits
          (environment [1, 2, 1, 2] .queued AnyReply) world.machine state →
        LogFaithful .oneSlot [1, 2, 1, 2] world.machine.executed state := by
  obtain ⟨world, found, kept⟩ := (Option.any_eq_true _ _).mp (show
    (session? [1, 2, 1, 2] .queued AnyReply ReturnsZero .oneSlot []).any (fun world =>
      SlotsKept .oneSlot [1, 2, 1, 2] (world.handle.tiers.residents []) [0, 1]) from by
        decide +kernel)
  have reached := Reachable.of_session? found
  exact ⟨world, reached,
    (pending_copies_faithful_iff (by decide) reached [0, 1]).mpr (of_decide_eq_true kept)⟩

/-- With one slot in host memory, the second block of a batch is read into the slot that the copy
of the first one has yet to read. -/
theorem pending_copy_overwritten :
    ¬ ∀ world, Reachable [1, 2, 3, 4] .queued AnyReply ReturnsZero .oneSlot world →
      ∀ batch state, (memtierLookupBlocks world.handle batch).Visits
          (environment [1, 2, 3, 4] .queued AnyReply) world.machine state →
        LogFaithful .oneSlot [1, 2, 3, 4] world.machine.executed state := by
  intro faithful
  obtain ⟨world, found, later⟩ := (Option.any_eq_true _ _).mp (show
    (session? [1, 2, 3, 4] .queued AnyReply ReturnsZero .oneSlot []).any (fun world =>
      world.machine.executed = [] ∧
      (Prog.evaluate? (environment [1, 2, 3, 4] .queued AnyReply) (List.replicate 7 (.take 2))
        (memtierLookupBlocks world.handle [0, 1]) world.machine).any fun outcome =>
          outcome.1.2.rc = 0 ∧
            outcome.2.executed.head? = some (⟨0, 0, 0, 2⟩, [3, 4])) from by decide +kernel)
  obtain ⟨fresh, later⟩ := of_decide_eq_true later
  obtain ⟨⟨⟨handle, result⟩, machine⟩, evaluated, outcome⟩ := (Option.any_eq_true _ _).mp later
  obtain ⟨-, first⟩ := of_decide_eq_true outcome
  obtain ⟨copied, executed, copies⟩ := faithful world (.of_session? found) [0, 1] machine
    (Prog.Evaluates.of_evaluate? evaluated).visits
  rw [fresh, List.nil_append] at executed
  rw [executed] at first
  have wrong := (copies _ (List.mem_of_mem_head? first)).2
  exact absurd wrong (by decide +kernel)

end MemTier.Embedding
