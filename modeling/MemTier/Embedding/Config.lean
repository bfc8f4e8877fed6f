import MemTier.Containers.Bytes

/-!
# Blocks of an embedding table

The table file is cut into blocks of equal size.  Sizes and offsets are computed in 64-bit
arithmetic, which agrees with exact arithmetic as long as neither wraps around.
-/

namespace MemTier.Embedding

open Containers

/-- A block of the table. -/
abbrev BlockId : Type := UInt64

/-- The fields of `memtier_embedding_config_t` that the runtime reads. -/
structure Config where
  embeddingDim : UInt32
  rowsPerBlock : UInt32
  dtypeSize : UInt32
  dramCacheBytes : UInt64
  hbmCacheBytes : UInt64
  deriving DecidableEq, Repr

namespace Config

/-- `block_size_bytes`. -/
def blockSizeBytes (config : Config) : UInt64 :=
  config.rowsPerBlock.toUInt64 * config.embeddingDim.toUInt64 * config.dtypeSize.toUInt64

/-- The size of a block in exact arithmetic. -/
def exactBlockSize (config : Config) : Nat :=
  config.rowsPerBlock.toNat * config.embeddingDim.toNat * config.dtypeSize.toNat

/-- Where `load_block` starts to read. -/
def loadOffset (config : Config) (block : BlockId) : UInt64 :=
  block * config.blockSizeBytes

/-- Neither the size nor the offset of the block wraps around. -/
def Addressable (config : Config) (block : BlockId) : Prop :=
  config.exactBlockSize < 2 ^ 64 ∧ block.toNat * config.exactBlockSize < 2 ^ 64

instance (config : Config) (block : BlockId) : Decidable (config.Addressable block) :=
  inferInstanceAs (Decidable (_ ∧ _))

theorem toNat_blockSizeBytes (config : Config) :
    config.blockSizeBytes.toNat = config.exactBlockSize % 2 ^ 64 := by
  simp [blockSizeBytes, exactBlockSize, Nat.mod_mul_mod]

theorem Addressable.size {config : Config} {block : BlockId} (addressable : config.Addressable block) :
    config.blockSizeBytes.toNat = config.exactBlockSize := by
  rw [toNat_blockSizeBytes, Nat.mod_eq_of_lt addressable.1]

theorem Addressable.offset {config : Config} {block : BlockId}
    (addressable : config.Addressable block) :
    (config.loadOffset block).toNat = block.toNat * config.exactBlockSize := by
  rw [loadOffset, UInt64.toNat_mul, addressable.size, Nat.mod_eq_of_lt addressable.2]

end Config

/-- The block lies inside the file. -/
def BlockInside (config : Config) (file : Bytes) (block : BlockId) : Prop :=
  (block.toNat + 1) * config.exactBlockSize ≤ file.length

instance (config : Config) (file : Bytes) (block : BlockId) :
    Decidable (BlockInside config file block) :=
  inferInstanceAs (Decidable (_ ≤ _))

/-- The bytes of a block. -/
def blockBytes (config : Config) (file : Bytes) (block : BlockId) : Bytes :=
  slice file (block.toNat * config.exactBlockSize) config.exactBlockSize

/-- A slot of a memory holds exactly the bytes of a block of the file. -/
def HoldsBlock (config : Config) (file : Bytes) (memory : Memory) (address : Nat)
    (block : BlockId) : Prop :=
  BlockInside config file block ∧
    memory.read address config.blockSizeBytes.toNat = blockBytes config file block

/-- A slot of a memory holds what `load_block` reads for a block. -/
def HoldsLoaded (config : Config) (file : Bytes) (memory : Memory) (address : Nat)
    (block : BlockId) : Prop :=
  (config.loadOffset block).toNat + config.blockSizeBytes.toNat ≤ file.length ∧
    memory.read address config.blockSizeBytes.toNat =
      slice file (config.loadOffset block).toNat config.blockSizeBytes.toNat

/-- A block inside a file that `off_t` can address is addressable. -/
theorem BlockInside.addressable {config : Config} {file : Bytes} {block : BlockId}
    (inside : BlockInside config file block) (small : file.length < 2 ^ 63) :
    config.Addressable block := by
  rw [BlockInside, Nat.add_mul, Nat.one_mul] at inside
  constructor <;> omega

/-- What was loaded for a block is the block, unless its offset wrapped around. -/
theorem HoldsLoaded.holdsBlock_iff {config : Config} {file : Bytes} {memory : Memory}
    {address : Nat} {block : BlockId} (loaded : HoldsLoaded config file memory address block)
    (small : file.length < 2 ^ 63) :
    HoldsBlock config file memory address block ↔ config.Addressable block := by
  constructor
  · exact fun holds => holds.1.addressable small
  · intro addressable
    obtain ⟨inside, data⟩ := loaded
    rw [addressable.offset, addressable.size] at inside data
    refine ⟨?_, ?_⟩
    · rw [BlockInside, Nat.add_mul, Nat.one_mul]
      exact inside
    · rw [addressable.size, data, blockBytes]

end MemTier.Embedding
