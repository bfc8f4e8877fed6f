import MemTier.Embedding.PendingCopies

/-!
# Offsets that wrap around

`load_block` multiplies a block id by the block size in 64 bits.  When the product or the block
size itself wraps around, the load reads another part of the file, and succeeds if the file has it.
-/

namespace MemTier.Embedding

open Containers Resumption

/-- A load of the block, as the lookup asks for it, returns only if the file has the whole block,
and then the destination holds it. -/
def LoadsExactly (handle : Handle) (file : Bytes) (block : BlockId) : Prop :=
  ∀ mode before after dst read,
    (loadBlock handle.config block dst handle.blockBytes.toNat).Evaluates
      (environment file mode AnyReply) before (some read) after →
    (block.toNat + 1) * handle.config.exactBlockSize ≤ file.length ∧
      after.dram.read dst handle.config.exactBlockSize =
        slice file (block.toNat * handle.config.exactBlockSize) handle.config.exactBlockSize

/-- Where a load looks for a block, as the remainders of exact products. -/
theorem toNat_loadOffset (config : Config) (block : BlockId) :
    (config.loadOffset block).toNat = block.toNat * config.exactBlockSize % 2 ^ 64 := by
  rw [Config.loadOffset, UInt64.toNat_mul, Config.toNat_blockSizeBytes, Nat.mul_mod_mod]

/-- Loads do not alias exactly if no wrapped range lies inside the file. -/
theorem load_block_exact_iff {config : Config} {dramBase hbmBase : Nat} {handle : Handle}
    (created : memtierInitEmbedding config dramBase hbmBase = some handle) {file : Bytes}
    (small : file.length < 2 ^ 63) (block : BlockId) :
    LoadsExactly handle file block ↔
      (block.toNat * config.exactBlockSize % 2 ^ 64 + config.exactBlockSize % 2 ^ 64 ≤
          file.length →
        config.exactBlockSize < 2 ^ 64 ∧ block.toNat * config.exactBlockSize < 2 ^ 64) := by
  have wellFormed := (memtierInitEmbedding_fresh created).1
  have config_eq : handle.config = config := wellFormed.config_eq
  have size : handle.blockBytes.toNat = config.blockSizeBytes.toNat := wellFormed.size
  rw [← toNat_loadOffset, ← Config.toNat_blockSizeBytes, LoadsExactly, config_eq, size]
  constructor
  · intro exactly whole
    have load := @evaluates_loadBlock config file block Machine.blank small wellFormed.positive
      whole 0
    exact BlockInside.addressable (exactly _ _ _ _ _ load).1 small
  · intro addressable mode before after dst read load
    obtain ⟨written, complete, -⟩ := loadBlock_spec small wellFormed.positive load
    obtain ⟨-, inside⟩ := complete read rfl
    have addressable : config.Addressable block := addressable inside
    obtain ⟨data, -, whole, dram⟩ := written
    obtain rfl := whole (Option.some_ne_none read)
    have length := length_slice_of_le inside
    rw [addressable.offset, addressable.size] at inside length dram
    rw [Nat.add_mul, Nat.one_mul, dram]
    refine ⟨inside, ?_⟩
    have stored := Memory.read_write_same before.dram dst
      (slice file (block.toNat * config.exactBlockSize) config.exactBlockSize)
    rwa [length] at stored

/-- A block at the start of a file. -/
theorem load_block_exact_iff_first :
    ∃ handle, memtierInitEmbedding .twoBytes 0 0 = some handle ∧
      LoadsExactly handle [1, 2, 3, 4] 1 := by
  obtain ⟨handle, created⟩ : ∃ handle, memtierInitEmbedding .twoBytes 0 0 = some handle :=
    ⟨_, rfl⟩
  exact ⟨handle, created, (load_block_exact_iff created (by simp) 1).mpr fun _ => by decide⟩

/-- A block far outside a file, read from its start. -/
theorem load_block_wraps :
    ¬ ∀ (config : Config) (dramBase hbmBase : Nat) (handle : Handle),
      memtierInitEmbedding config dramBase hbmBase = some handle → ∀ file : Bytes,
        file.length < 2 ^ 63 → ∀ block, LoadsExactly handle file block := by
  intro exactly
  obtain ⟨handle, created⟩ : ∃ handle, memtierInitEmbedding .twoBytes 0 0 = some handle :=
    ⟨_, rfl⟩
  have wellFormed := (memtierInitEmbedding_fresh created).1
  have config_eq : handle.config = .twoBytes := wellFormed.config_eq
  have size : handle.blockBytes.toNat = Config.twoBytes.blockSizeBytes.toNat := wellFormed.size
  have far := exactly .twoBytes 0 0 handle created [1, 2] (by simp) 0x8000000000000000
  rw [LoadsExactly, config_eq, size] at far
  have load := @evaluates_loadBlock .twoBytes [1, 2] 0x8000000000000000 Machine.blank (by simp)
    wellFormed.positive (by decide +kernel) 0
  exact absurd (far _ _ _ _ _ load).1 (by decide +kernel)

end MemTier.Embedding
