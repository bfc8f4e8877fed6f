import MemTier.Containers.Arrays
import MemTier.Embedding.PendingCopies

/-!
# The table file

`generate_embedding_file` writes the rows of a table one after another, and nothing after the last
of them.  `load_block` reads whole blocks.  A block that the last rows only begin to fill can
therefore not be loaded.
-/

namespace MemTier.Embedding

open Containers Resumption

/-! ## Writing a table -/

inductive Dtype where
  | fp16 | fp32
  deriving DecidableEq, Repr

def Dtype.itemsize : Dtype → Nat
  | fp16 => 2
  | fp32 => 4

/-- NumPy's random generator: an array of normal variates, cast to a type and laid out row by row.
Each draw leaves the generator in another state. -/
structure Generator where
  State : Type
  defaultRng : Nat → State
  standardNormal : State → Nat → Nat → Dtype → Bytes × State
  length_standardNormal : ∀ state rows dim dtype,
    (standardNormal state rows dim dtype).1.length = rows * dim * dtype.itemsize

/-- The loop over chunks of rows. -/
def writeChunks (generator : Generator) (numEmbeddings embeddingDim : Nat) (dtype : Dtype)
    (rowsPerChunk : Nat) (positive : 0 < rowsPerChunk) (start : Nat) (state : generator.State) :
    Bytes :=
  if _more : start < numEmbeddings then
    let rows := min rowsPerChunk (numEmbeddings - start)
    let (chunk, state) := generator.standardNormal state rows embeddingDim dtype
    chunk ++ writeChunks generator numEmbeddings embeddingDim dtype rowsPerChunk positive
      (start + rowsPerChunk) state
  else []
termination_by numEmbeddings - start

/-- `generate_embedding_file`: what it writes, `none` when it raises. -/
def generateEmbeddingFile (generator : Generator) (numEmbeddings embeddingDim : Nat)
    (dtype : Dtype) (seed chunkMb : Nat) : Option Bytes :=
  if numEmbeddings = 0 ∨ embeddingDim = 0 ∨ chunkMb = 0 then none
  else
    let rowBytes := embeddingDim * dtype.itemsize
    let rowsPerChunk := max 1 (chunkMb * 1024 * 1024 / rowBytes)
    some (writeChunks generator numEmbeddings embeddingDim dtype rowsPerChunk
      (Nat.lt_of_lt_of_le Nat.zero_lt_one (Nat.le_max_left _ _)) 0 (generator.defaultRng seed))

theorem length_writeChunks (generator : Generator) (numEmbeddings embeddingDim : Nat)
    (dtype : Dtype) (rowsPerChunk : Nat) (positive : 0 < rowsPerChunk) (start : Nat)
    (state : generator.State) :
    (writeChunks generator numEmbeddings embeddingDim dtype rowsPerChunk positive start
      state).length = (numEmbeddings - start) * embeddingDim * dtype.itemsize := by
  fun_induction writeChunks with
  | case1 start state more rows chunk state' drawn induction =>
      have length := generator.length_standardNormal state rows embeddingDim dtype
      rw [drawn] at length
      rw [List.length_append, length, induction, ← Nat.add_mul, ← Nat.add_mul]
      congr 2
      omega
  | case2 start state done =>
      rw [show numEmbeddings - start = 0 by omega, Nat.zero_mul, Nat.zero_mul, List.length_nil]

/-- The file has the rows of the table and nothing else. -/
theorem length_generateEmbeddingFile {generator : Generator} {numEmbeddings embeddingDim : Nat}
    {dtype : Dtype} {seed chunkMb : Nat} {file : Bytes}
    (generated : generateEmbeddingFile generator numEmbeddings embeddingDim dtype seed chunkMb =
      some file) :
    file.length = numEmbeddings * embeddingDim * dtype.itemsize := by
  rw [generateEmbeddingFile] at generated
  split at generated
  · simp at generated
  · rw [← Option.some.inj generated, length_writeChunks, Nat.sub_zero]

/-- `ids_to_blocks`. -/
def idsToBlocks (ids : List Nat) (rowsPerBlock : Nat) : List Nat :=
  Arrays.unique (ids.map (· / rowsPerBlock))

/-! ## Calls in which nothing fails on its own account -/

/-- CUDA calls succeed, and a read fails only at an offset that no file has. -/
def CallsSucceed : (op : Op) → Reply op → Prop
  | .pread _ _ _ offset, delivered => delivered ≠ none ∨ 2 ^ 63 ≤ offset
  | .streamCreate, done | .memcpyAsync _, done | .streamSynchronize, done
  | .streamDestroy, done => done = true

instance : ∀ op reply, Decidable (CallsSucceed op reply)
  | .pread _ _ _ offset, delivered => inferInstanceAs (Decidable (delivered ≠ none ∨ 2 ^ 63 ≤ offset))
  | .streamCreate, done | .memcpyAsync _, done | .streamSynchronize, done
  | .streamDestroy, done => inferInstanceAs (Decidable (done = true))

section

variable {file : Bytes} {mode : CopyMode} {permits : (op : Op) → Reply op → Prop}

/-- Every operation can be served so. -/
theorem serves_callsSucceed (file : Bytes) (mode : CopyMode) (before : Machine) (op : Op) :
    ∃ reply after, (environment file mode CallsSucceed).Serves before op reply after := by
  cases op with
  | pread block dst count offset =>
      by_cases negative : 2 ^ 63 ≤ offset
      · refine ⟨none, before, before, .take 1, ⟨0, rfl⟩, ?_, .inr negative⟩
        simp only [environment, serve, MemTier.pread, if_pos negative]
      · let data := (slice file offset count).take (max 1 1)
        refine ⟨some data.length, { before with dram := before.dram.write dst data }, before,
          .take 1, ⟨0, rfl⟩, ?_, .inl (Option.some_ne_none _)⟩
        simp only [environment, serve, MemTier.pread, if_neg negative, data]
  | streamCreate => exact ⟨true, before, before, .take 0, ⟨0, rfl⟩, rfl, rfl⟩
  | memcpyAsync copy => exact ⟨true, _, before, .take 0, ⟨0, rfl⟩, rfl, rfl⟩
  | streamSynchronize => exact ⟨true, _, before, .take 0, ⟨0, rfl⟩, rfl, rfl⟩
  | streamDestroy => exact ⟨true, before, before, .take 0, ⟨0, rfl⟩, rfl, rfl⟩

/-- A load of a range inside the file returns. -/
theorem loadLoop_completes (small : file.length < 2 ^ 63) {block : BlockId}
    {offset dst bytes total : Nat} {result : Option Nat} (inside : offset + bytes ≤ file.length)
    {before after : Machine}
    (evaluation : (loadLoop block offset dst bytes total).Evaluates
      (environment file mode CallsSucceed) before result after) : result ≠ none := by
  induction gap : bytes - total using Nat.strong_induction_on generalizing total before with
  | _ left induction =>
    rw [loadLoop] at evaluation
    split at evaluation
    · rename_i more
      obtain ⟨reply, middle, execution, rest⟩ := Prog.evaluates_bind.mp evaluation
      rw [Run.pread, Prog.evaluates_perform] at execution
      obtain ⟨permitted, ready, -, outcome⟩ := serves_pread execution
      rw [Nat.mod_eq_of_lt (by omega)] at permitted outcome
      rcases outcome with ⟨rfl, -⟩ | ⟨data, -, nonempty, -, rfl, -⟩
      · rcases permitted with impossible | negative
        · exact absurd rfl impossible
        · omega
      · dsimp only at rest
        split at rest
        · rename_i eof
          have past := congrArg List.length (nonempty (List.length_eq_zero_iff.mp eof))
          rw [length_slice, List.length_nil] at past
          omega
        · exact induction _ (by omega) rest rfl
    · obtain ⟨rfl, -⟩ := evaluation
      exact Option.some_ne_none _

/-- A round throws because a copy cannot be issued or a load breaks off. -/
theorem lookupBlock_fails {handle handle' : Handle} {block : BlockId} {before after : Machine}
    (evaluation : (lookupBlock handle block).Evaluates
      (environment file mode permits) before (handle', none) after) :
    (∃ copy, permits (.memcpyAsync copy) false) ∨
      ∃ dst middle, (loadBlock handle.config block dst handle.blockBytes.toNat).Evaluates
        (environment file mode permits) before none middle := by
  have copies : ∀ {staged : Handle} {source : Nat} {path : ServedBy} {middle : Machine},
      (copyToHbm staged block source path).Evaluates
        (environment file mode permits) middle (handle', none) after →
      ∃ copy, permits (.memcpyAsync copy) false := by
    intro staged source path middle copying
    obtain ⟨issued, ready, -, permitted, outcome⟩ := copyToHbm_cases copying
    cases issued with
    | true => exact absurd outcome.2.1 (by simp)
    | false => exact ⟨_, permitted⟩
  rw [lookupBlock] at evaluation
  split at evaluation
  · obtain ⟨returned, -⟩ := evaluation
    simp at returned
  · exact .inl (copies evaluation)
  · obtain ⟨⟨found, staged⟩, middle, finding, rest⟩ := Prog.evaluates_bind.mp evaluation
    cases staged with
    | some staged => exact .inl (copies rest)
    | none =>
        right
        rw [findInDram] at finding
        split at finding
        · obtain ⟨returned, -⟩ := finding
          simp at returned
        · obtain ⟨result, loaded, loading, returning⟩ := Prog.evaluates_bind.mp finding
          cases result with
          | none => exact ⟨_, loaded, loading⟩
          | some read =>
              obtain ⟨returned, -⟩ := returning
              simp at returned

/-- A lookup of a block whose load cannot break off succeeds. -/
theorem memtierLookupBlocks_succeeds {handle handle' : Handle} {block : BlockId}
    {result : LookupResult} {before after : Machine}
    (loads : ∀ dst before after,
      ¬ (loadBlock handle.config block dst handle.blockBytes.toNat).Evaluates
        (environment file mode CallsSucceed) before none after)
    (evaluation : (memtierLookupBlocks handle [block]).Evaluates
      (environment file mode CallsSucceed) before (handle', result) after) : result.rc = 0 := by
  obtain ⟨created, ready, creation, evaluation⟩ := Prog.evaluates_bind.mp evaluation
  rw [Run.streamCreate, Prog.evaluates_perform] at creation
  obtain ⟨-, -, -, -, rfl⟩ := creation
  obtain ⟨⟨last, served, complete⟩, middle, loop, evaluation⟩ := Prog.evaluates_bind.mp evaluation
  obtain ⟨⟨next, outcome⟩, found, lookup, rest⟩ := Prog.evaluates_bind.mp loop
  have completes : complete = true := by
    cases outcome with
    | none =>
        rcases lookupBlock_fails lookup with ⟨copy, impossible⟩ | ⟨dst, middle, load⟩
        · exact absurd impossible (by simp [CallsSucceed])
        · exact absurd load (loads dst _ middle)
    | some served =>
        obtain ⟨returned, -⟩ := rest
        exact (Prod.mk.inj (Prod.mk.inj returned).2).2.symm
  subst completes
  obtain ⟨finished, waited, waiting, evaluation⟩ := Prog.evaluates_bind.mp evaluation
  rw [Run.streamSynchronize, Prog.evaluates_perform] at waiting
  obtain ⟨-, -, -, -, rfl⟩ := waiting
  obtain ⟨destroyed, last', destruction, evaluation⟩ := Prog.evaluates_bind.mp evaluation
  rw [Run.streamDestroy, Prog.evaluates_perform] at destruction
  obtain ⟨-, -, -, -, rfl⟩ := destruction
  obtain ⟨returned, -⟩ := evaluation
  rw [← (Prod.mk.inj returned).2]

end

/-! ## Blocks that were fetched -/

/-- Every block that is recorded or cached in host memory could be loaded. -/
structure Fetched (config : Config) (file : Bytes) (tiers : Tiers) : Prop where
  recorded : ∀ block, tiers.location block ≠ .nowhere → LoadsWhole config file block
  cached : ∀ block ptr, tiers.dram.address block = some ptr → LoadsWhole config file block

section

variable {file : Bytes} {mode : CopyMode} {permits : (op : Op) → Reply op → Prop}
  {config : Config} {tiers tiers' : Tiers} {block : BlockId} {before after : Machine}

theorem Fetched.mark (fetched : Fetched config file tiers) (whole : LoadsWhole config file block)
    (location : Location) : Fetched config file (tiers.mark block location) where
  recorded := by
    intro other there
    by_cases same : other = block
    · exact same ▸ whole
    · simp only [Tiers.mark, Function.update_of_ne same] at there
      exact fetched.recorded other there
  cached := fetched.cached

theorem Fetched.place (fetched : Fetched config file tiers) :
    Fetched config file (tiers.place block) where
  recorded := by
    intro other there
    simp only [Tiers.place] at there
    split at there
    · exact absurd rfl there
    · exact fetched.recorded other there
  cached := fetched.cached

theorem Staged.fetched {staged : Tiers} {source : Nat} {path : ServedBy}
    (stage : Staged file permits tiers block before staged source path after)
    (wellFormed : tiers.WellFormed config) (fetched : Fetched config file tiers) :
    Fetched config file staged ∧ LoadsWhole config file block := by
  cases stage with
  | recorded recorded => exact ⟨fetched, fetched.recorded block (by simp [recorded])⟩
  | found unrecorded cached =>
      have whole := fetched.cached block _ cached
      have searched : Fetched config file (tiers.search block) := by
        refine ⟨fetched.recorded, fun other ptr held => fetched.cached other ptr ?_⟩
        rw [← (wellFormed.dram.get block).2.2.2]
        exact held
      exact ⟨searched.mark whole _, whole⟩
  | loaded unrecorded absent load =>
      have whole : LoadsWhole config file block := by
        have inside := (load.complete _ rfl).2
        rw [wellFormed.config_eq, wellFormed.size] at inside
        exact inside
      have entered : Fetched config file (tiers.enter block) := by
        refine ⟨fetched.recorded, fun other ptr held => ?_⟩
        by_cases same : other = block
        · exact same ▸ whole
        · exact fetched.cached other ptr (wellFormed.dram.address_of_allocate same held)
      exact ⟨entered.mark whole _, whole⟩

/-- A round that serves its block has loaded it, now or earlier. -/
theorem Round.fetched {served : Served}
    (round : Round file mode permits tiers block before tiers' (some served) after)
    (wellFormed : tiers.WellFormed config) (fetched : Fetched config file tiers) :
    Fetched config file tiers' ∧ LoadsWhole config file block := by
  cases round with
  | hit resident => exact ⟨fetched, fetched.recorded block (by simp [resident])⟩
  | copied stage drains permitted =>
      obtain ⟨staged, whole⟩ := stage.fetched wellFormed fetched
      exact ⟨staged.place.mark whole _, whole⟩

/-- Successful calls fetch only what can be loaded. -/
theorem Reachable.fetched (small : file.length < 2 ^ 63) {world : World}
    (reached : Reachable file mode permits ReturnsZero config world) :
    world.handle.tiers.WellFormed config ∧ Fetched config file world.handle.tiers :=
  @Reachable.keeps file mode permits ReturnsZero config world
    (fun tiers _ => Fetched config file tiers) (fun _ => True) small
    (fun _ fresh _ => ⟨fun block there => absurd (fresh.location block) there,
      fun block ptr cached => by simp [fresh.dram block] at cached⟩)
    (fun kept _ => kept)
    (fun {_ _ _ _ _ served} _ fails wellFormed kept round => by
      cases served with
      | none =>
          obtain ⟨request, rc, zero, nonzero⟩ := fails rfl
          exact absurd zero nonzero
      | some result => exact (round.fetched wellFormed kept).1)
    (fun _ _ _ _ _ => trivial) reached

end

/-! ## Valid identifiers -/

/-- Bytes of one row. -/
def Config.rowBytes (config : Config) : Nat := config.embeddingDim.toNat * config.dtypeSize.toNat

/-- As long as nothing fails on its own account, a lookup of the block succeeds, and `load_block`
returns with the rows that the table has of it in place. -/
structure Loadable (config : Config) (file : Bytes) (mode : CopyMode) (numEmbeddings : Nat)
    (world : World) (block : Nat) : Prop where
  lookup : ∀ handle result machine,
    (memtierLookupBlocks world.handle [UInt64.ofNat block]).Evaluates
      (environment file mode CallsSucceed) world.machine (handle, result) machine → result.rc = 0
  rows : ∀ dst before result after,
    (loadBlock config (UInt64.ofNat block) dst config.blockSizeBytes.toNat).Evaluates
      (environment file mode CallsSucceed) before result after →
    result ≠ none ∧ ∀ row < numEmbeddings, row / config.rowsPerBlock.toNat = block →
      after.dram.read (dst + row % config.rowsPerBlock.toNat * config.rowBytes) config.rowBytes =
        slice file (row * config.rowBytes) config.rowBytes

/-- A table that `generate_embedding_file` wrote, and a configuration for it. -/
structure TableOf (config : Config) (numEmbeddings : Nat) (file : Bytes) : Prop where
  generated : ∃ generator dtype seed chunkMb,
    generateEmbeddingFile generator numEmbeddings config.embeddingDim.toNat dtype seed chunkMb =
      some file ∧ config.dtypeSize.toNat = dtype.itemsize
  rows_nonzero : config.rowsPerBlock ≠ 0
  table_small : numEmbeddings * config.embeddingDim.toNat * config.dtypeSize.toNat < 2 ^ 63
  block_small : config.exactBlockSize < 2 ^ 63

section

variable {config : Config} {numEmbeddings : Nat} {file : Bytes} {id : Nat}

theorem TableOf.length_eq (table : TableOf config numEmbeddings file) :
    file.length = numEmbeddings * config.rowBytes := by
  obtain ⟨generator, dtype, seed, chunkMb, generated, size⟩ := table.generated
  rw [length_generateEmbeddingFile generated, Config.rowBytes, size, Nat.mul_assoc]

theorem TableOf.rowBytes_pos (table : TableOf config numEmbeddings file) : 0 < config.rowBytes := by
  obtain ⟨generator, dtype, seed, chunkMb, generated, size⟩ := table.generated
  have dim : config.embeddingDim.toNat ≠ 0 := by
    intro zero
    simp [generateEmbeddingFile, zero] at generated
  have item : 0 < dtype.itemsize := by cases dtype <;> decide
  rw [Config.rowBytes, size]
  exact Nat.mul_pos (Nat.pos_of_ne_zero dim) item

theorem TableOf.small (table : TableOf config numEmbeddings file) : file.length < 2 ^ 63 := by
  rw [table.length_eq, Config.rowBytes, ← Nat.mul_assoc]
  exact table.table_small

theorem TableOf.rows_pos (table : TableOf config numEmbeddings file) :
    0 < config.rowsPerBlock.toNat := by
  refine Nat.pos_of_ne_zero fun zero => table.rows_nonzero ?_
  exact UInt32.toNat_inj.mp zero

theorem exactBlockSize_eq (config : Config) :
    config.exactBlockSize = config.rowsPerBlock.toNat * config.rowBytes := by
  rw [Config.exactBlockSize, Config.rowBytes, Nat.mul_assoc]

/-- The block of a valid identifier starts inside the table. -/
theorem TableOf.block_start (table : TableOf config numEmbeddings file) (valid : id < numEmbeddings) :
    id / config.rowsPerBlock.toNat * config.exactBlockSize < 2 ^ 63 := by
  have start : id / config.rowsPerBlock.toNat * config.rowsPerBlock.toNat ≤ id :=
    Nat.div_mul_le_self _ _
  calc id / config.rowsPerBlock.toNat * config.exactBlockSize
      = id / config.rowsPerBlock.toNat * config.rowsPerBlock.toNat * config.rowBytes := by
        rw [exactBlockSize_eq, Nat.mul_assoc]
    _ ≤ numEmbeddings * config.rowBytes := Nat.mul_le_mul_right _ (by omega)
    _ = file.length := table.length_eq.symm
    _ < 2 ^ 63 := table.small

/-- The number of the block of a valid identifier survives the conversion to 64 bits. -/
theorem TableOf.block_toNat (table : TableOf config numEmbeddings file)
    (valid : id < numEmbeddings) :
    (UInt64.ofNat (id / config.rowsPerBlock.toNat)).toNat = id / config.rowsPerBlock.toNat := by
  have positive := Nat.mul_pos table.rows_pos table.rowBytes_pos
  have start := table.block_start valid
  rw [exactBlockSize_eq] at start
  rw [UInt64.toNat_ofNat', Nat.mod_eq_of_lt]
  exact lt_of_le_of_lt (Nat.le_mul_of_pos_right _ positive) (by omega)

theorem TableOf.addressable (table : TableOf config numEmbeddings file)
    (valid : id < numEmbeddings) :
    config.Addressable (UInt64.ofNat (id / config.rowsPerBlock.toNat)) := by
  have start := table.block_start valid
  have size := table.block_small
  rw [Config.Addressable, table.block_toNat valid]
  omega

/-- The block of a valid identifier can be loaded if and only if the table has all its rows. -/
theorem TableOf.loadsWhole_iff (table : TableOf config numEmbeddings file)
    (valid : id < numEmbeddings) :
    LoadsWhole config file (UInt64.ofNat (id / config.rowsPerBlock.toNat)) ↔
      (id / config.rowsPerBlock.toNat + 1) * config.rowsPerBlock.toNat ≤ numEmbeddings := by
  have addressable := table.addressable valid
  rw [LoadsWhole, addressable.offset, addressable.size, table.block_toNat valid, table.length_eq,
    ← Nat.succ_mul, exactBlockSize_eq, ← Nat.mul_assoc]
  exact Nat.mul_le_mul_right_iff table.rowBytes_pos

/-- Where a row is once its block is in a slot. -/
theorem TableOf.row_read (table : TableOf config numEmbeddings file) (valid : id < numEmbeddings)
    (whole : LoadsWhole config file (UInt64.ofNat (id / config.rowsPerBlock.toNat)))
    {memory : Memory} {dst row : Nat}
    (same : row / config.rowsPerBlock.toNat = id / config.rowsPerBlock.toNat) :
    (memory.write dst (slice file
      (config.loadOffset (UInt64.ofNat (id / config.rowsPerBlock.toNat))).toNat
      config.blockSizeBytes.toNat)).read
        (dst + row % config.rowsPerBlock.toNat * config.rowBytes) config.rowBytes =
      slice file (row * config.rowBytes) config.rowBytes := by
  have addressable := table.addressable valid
  have length := length_slice_of_le whole
  have fits : row % config.rowsPerBlock.toNat * config.rowBytes + config.rowBytes ≤
      config.blockSizeBytes.toNat := by
    rw [addressable.size, exactBlockSize_eq, ← Nat.succ_mul]
    exact Nat.mul_le_mul_right _ (Nat.mod_lt _ table.rows_pos)
  have position : (config.loadOffset (UInt64.ofNat (id / config.rowsPerBlock.toNat))).toNat +
      row % config.rowsPerBlock.toNat * config.rowBytes = row * config.rowBytes := by
    rw [addressable.offset, table.block_toNat valid, exactBlockSize_eq, ← Nat.mul_assoc,
      ← Nat.add_mul, ← same, Nat.div_add_mod']
  rw [← Memory.slice_read fits]
  nth_rewrite 2 [← length]
  rw [Memory.read_write_same, slice_slice fits, position]

end

/-- For every table that `generate_embedding_file` writes, every valid identifier and every state
that successful calls lead to: a lookup of its block returns, and the block can be looked up and
loaded if and only if the table has all rows of the block. -/
theorem block_loadable_iff {config : Config} {numEmbeddings : Nat} {file : Bytes}
    {mode : CopyMode} {world : World} (table : TableOf config numEmbeddings file)
    (reached : Reachable file mode AnyReply ReturnsZero config world) {id : Nat}
    (valid : id < numEmbeddings) :
    idsToBlocks [id] config.rowsPerBlock.toNat = [id / config.rowsPerBlock.toNat] ∧
    (∃ handle result machine,
      (memtierLookupBlocks world.handle
        [UInt64.ofNat (id / config.rowsPerBlock.toNat)]).Evaluates
          (environment file mode CallsSucceed) world.machine (handle, result) machine) ∧
    (Loadable config file mode numEmbeddings world (id / config.rowsPerBlock.toNat) ↔
      (id / config.rowsPerBlock.toNat + 1) * config.rowsPerBlock.toNat ≤ numEmbeddings) := by
  have small := table.small
  obtain ⟨wellFormed, fetched⟩ := reached.fetched small
  have positive := wellFormed.positive_blockBytes
  obtain ⟨⟨handle, result⟩, machine, evaluation⟩ :=
    Prog.exists_evaluates (serves_callsSucceed file mode)
      (memtierLookupBlocks world.handle [UInt64.ofNat (id / config.rowsPerBlock.toNat)])
      world.machine
  refine ⟨rfl, ⟨handle, result, machine, evaluation⟩, ?_⟩
  rw [← table.loadsWhole_iff valid]
  constructor
  · intro loadable
    have success := loadable.lookup handle result machine evaluation
    rcases memtierLookupBlocks_cases small positive evaluation with
      ⟨failed, -, -⟩ | ⟨ready, middle, complete, -, batch, -, finishes⟩
    · simp [failed] at success
    · obtain rfl := (finishes success).1
      generalize result.served = served at batch
      cases batch with
      | step round rest => exact (round.fetched wellFormed fetched).2
  · intro whole
    have completes : ∀ dst before result after,
        (loadBlock config (UInt64.ofNat (id / config.rowsPerBlock.toNat)) dst
          config.blockSizeBytes.toNat).Evaluates (environment file mode CallsSucceed) before
            result after → result ≠ none :=
      fun dst before result after load => loadLoop_completes small whole load
    constructor
    · intro handle result machine evaluation
      refine memtierLookupBlocks_succeeds (fun dst before after load => ?_) evaluation
      rw [show world.handle.config = config from wellFormed.config_eq,
        show world.handle.blockBytes.toNat = config.blockSizeBytes.toNat from wellFormed.size] at load
      exact completes dst before none after load rfl
    · intro dst before result after load
      have returned := completes dst before result after load
      obtain ⟨data, -, all, written⟩ := (loadBlock_spec small wellFormed.positive load).written
      refine ⟨returned, fun row _ same => ?_⟩
      rw [written, all returned]
      exact table.row_read valid whole same

/-- Draws that are all zero. -/
def Generator.zeros : Generator where
  State := Unit
  defaultRng := fun _ => ()
  standardNormal := fun _ rows dim dtype => (List.replicate (rows * dim * dtype.itemsize) 0, ())
  length_standardNormal := by simp

/-- Two rows of one half-precision number in a block. -/
def Config.twoRows : Config where
  embeddingDim := 1
  rowsPerBlock := 2
  dtypeSize := 2
  dramCacheBytes := 8
  hbmCacheBytes := 8

/-- Three such rows on disk. -/
theorem tableOf_threeRows : TableOf .twoRows 3 [0, 0, 0, 0, 0, 0] where
  generated := by
    refine ⟨.zeros, .fp16, 0, 1, ?_, rfl⟩
    simp [generateEmbeddingFile, writeChunks, Config.twoRows, Generator.zeros, Dtype.itemsize]
  rows_nonzero := by decide
  table_small := by decide
  block_small := by decide

/-- Of three rows, the first two fill a block. -/
theorem block_loadable_first :
    ∃ world, Reachable [0, 0, 0, 0, 0, 0] .atIssue AnyReply ReturnsZero .twoRows world ∧
      Loadable .twoRows [0, 0, 0, 0, 0, 0] .atIssue 3 world 0 := by
  obtain ⟨world, found, -⟩ := (Option.any_eq_true _ _).mp (show
    (session? [0, 0, 0, 0, 0, 0] .atIssue AnyReply ReturnsZero .twoRows []).any (fun _ => true)
      from by decide +kernel)
  have reached := Reachable.of_session? found
  exact ⟨world, reached,
    (block_loadable_iff tableOf_threeRows reached (show 1 < 3 by decide)).2.2.mpr (by decide)⟩

/-- The third row is alone in its block, and looking the block up fails. -/
theorem last_block_not_loadable :
    ¬ ∀ world, Reachable [0, 0, 0, 0, 0, 0] .atIssue AnyReply ReturnsZero .twoRows world →
      TableOf .twoRows 3 [0, 0, 0, 0, 0, 0] → ∀ id < 3, ∀ handle result machine,
        (memtierLookupBlocks world.handle
          [UInt64.ofNat (id / Config.twoRows.rowsPerBlock.toNat)]).Evaluates
            (environment [0, 0, 0, 0, 0, 0] .atIssue CallsSucceed) world.machine (handle, result)
            machine → result.rc = 0 := by
  intro succeeds
  obtain ⟨world, found, later⟩ := (Option.any_eq_true _ _).mp (show
    (session? [0, 0, 0, 0, 0, 0] .atIssue AnyReply ReturnsZero .twoRows []).any (fun world =>
      (Prog.evaluate? (environment [0, 0, 0, 0, 0, 0] .atIssue CallsSucceed)
        (List.replicate 3 (.take 4)) (memtierLookupBlocks world.handle [1])
        world.machine).any fun outcome => outcome.1.2.rc = -1) from by decide +kernel)
  obtain ⟨⟨⟨handle, result⟩, machine⟩, evaluated, failed⟩ := (Option.any_eq_true _ _).mp later
  have failed : result.rc = -1 := of_decide_eq_true failed
  have success := succeeds world (.of_session? found) tableOf_threeRows 2 (by decide) handle result
    machine (Prog.Evaluates.of_evaluate? evaluated)
  simp [failed] at success

end MemTier.Embedding
