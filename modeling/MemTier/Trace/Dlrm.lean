import MemTier.Trace.Criteo

/-!
# Traces of DLRM ids

`convert` reads sparse ids that were prepared elsewhere as a matrix, maps them into a table and
writes the same kind of archive as `preprocess`.
-/

namespace MemTier.Trace

open Containers

/-! ## Sparse inputs -/

inductive InputFormat where
  | npy | npz | jsonl
  deriving DecidableEq, Repr

/-- A line of sparse ids. -/
structure SparseRow where
  sparseIds : Option (List Int)
  ids : Option (List Int)
  sparse : Option (List Int)
  deriving DecidableEq, Repr

/-- What an input file holds; blank lines of JSON are `none`. -/
inductive SparseContent where
  | npy (array : NdArray Int)
  | npz (members : List (String × NdArray Int))
  | jsonl (lines : List (Option SparseRow))
  deriving DecidableEq, Repr

structure SparseFile where
  path : String
  /-- The suffix of the path, in lower case. -/
  suffix : String
  content : SparseContent
  deriving DecidableEq, Repr

def keyCandidates : List String := ["sparse_ids", "sparse", "X_cat", "cat", "lS_i", "indices"]

/-- `detect_format`; no request stands for `auto`. -/
def detectFormat (file : SparseFile) (requested : Option InputFormat) :
    Except PyError InputFormat :=
  match requested with
  | some format => .ok format
  | none =>
      if file.suffix = ".npy" then .ok .npy
      else if file.suffix = ".npz" then .ok .npz
      else if file.suffix = ".jsonl" then .ok .jsonl
      else
        let path := file.path
        .error (.valueError s!"cannot auto-detect input format for {path}")

/-- `np.asarray` of a Python number that may be negative. -/
def asUint64 (libraries : Libraries) (value : Int) : Except PyError Nat :=
  if 0 ≤ value ∧ value < 2 ^ 64 then .ok value.toNat
  else if libraries.wraps ∧ -2 ^ 63 ≤ value ∧ value < 0 then .ok (value % 2 ^ 64).toNat
  else .error .overflowError

/-- `row.get("sparse_ids") or row.get("ids") or row.get("sparse")`. -/
def sparseIdsOf (row : SparseRow) : Option (List Int) :=
  (row.sparseIds.filter (· ≠ [])).or ((row.ids.filter (· ≠ [])).or row.sparse)

/-- The rows of a JSON input, as an array. -/
def loadRows (libraries : Libraries) (lines : List (Option SparseRow)) (maxSamples : Option Nat) :
    Except PyError (NdArray Int) := do
  let rows := (lines.filterMap id).map sparseIdsOf
  let rows := if EmbeddingTrace.truthy maxSamples then rows.take (maxSamples.getD 0) else rows
  let converted ← rows.mapM fun row =>
    match row with
    | none => throw .typeError
    | some ids => ids.mapM (asUint64 libraries)
  match NdArray.ofRows converted with
  | none => throw (.valueError "setting an array element with a sequence")
  | some array => return array.map Int.ofNat

/-- Bring an array into the shape of a matrix. -/
def asMatrix (array : NdArray Int) : Except PyError (NdArray Int) :=
  match shaped : array.shape with
  | [batches, samples, fields] =>
      .ok (array.reshape [batches * samples, fields] (by rw [shaped]; simp [Nat.mul_assoc]))
  | [samples] => .ok (array.reshape [samples, 1] (by rw [shaped]; simp))
  | [_, _] => .ok array
  | _ => .error (.valueError "unsupported sparse array shape")

/-- The array that an input holds; a format other than that of the content cannot be read. -/
def loadArray (libraries : Libraries) (file : SparseFile) (format : InputFormat)
    (maxSamples : Option Nat) : Except PyError (NdArray Int) :=
  match format, file.content with
  | .npy, .npy array => .ok array
  | .npz, .npz members =>
      match keyCandidates.findSome? (members.lookup ·) with
      | none =>
          let path := file.path
          .error (.valueError s!"no sparse key found in {path}; tried {keyCandidates}")
      | some array => .ok array
  | .jsonl, .jsonl lines => loadRows libraries lines maxSamples
  | _, _ => .error (.valueError "cannot read the input in this format")

def loadSparse (libraries : Libraries) (file : SparseFile) (format : InputFormat)
    (maxSamples : Option Nat) : Except PyError (NdArray Nat) := do
  let array ← loadArray libraries file format maxSamples
  let matrix ← asMatrix array
  let kept :=
    if ranked : matrix.shape ≠ [] ∧ EmbeddingTrace.truthy maxSamples then
      matrix.firstRows ranked.1 (maxSamples.getD 0)
    else matrix
  return kept.map fun id => (id % 2 ^ 64).toNat

/-! ## Mapping ids into a table -/

inductive FieldOffsetMode where
  | perFieldOffset | sharedHash | direct
  deriving DecidableEq, Repr

structure ConvertArgs where
  inputFormat : Option InputFormat
  rowsPerBlock : Nat
  numEmbeddings : Option Nat
  batchSize : Nat
  fieldOffsetMode : FieldOffsetMode
  hashSize : Option String
  maxSamples : Option Nat
  deriving DecidableEq, Repr

/-- What `apply_id_mapping` returns. -/
structure Mapped where
  ids : NdArray Nat
  fieldOffsets : List Nat
  hashSizes : List Nat
  totalEmbeddings : Nat
  deriving DecidableEq, Repr

/-- `ids.max()`, zero for an array without elements. -/
def maxId (ids : NdArray Nat) : Nat := ids.data.foldl max 0

/-- The sizes of the tables of all fields. -/
def mappingHashSizes (libraries : Libraries) (ids : NdArray Nat) (args : ConvertArgs) :
    Except PyError (List Nat) :=
  let numFields := ids.stride
  if args.hashSize.getD "" ≠ "" then parseHashSizes libraries (args.hashSize.getD "") numFields
  else if EmbeddingTrace.truthy args.numEmbeddings then
    if numFields = 0 then .error .zeroDivisionError
    else .ok (List.replicate numFields (max 1 (args.numEmbeddings.getD 0 / numFields)))
  else .ok (List.replicate numFields (maxId ids + 1))

/-- The ids by the offset mode. -/
def mapIds (ids : NdArray Nat) (args : ConvertArgs) (hashSizes : List Nat) :
    Except PyError (NdArray Nat) :=
  let given := args.numEmbeddings.filter (· ≠ 0)
  match args.fieldOffsetMode with
  | .perFieldOffset => do
      let tables ← ((fieldOffsetsFromHashSizes hashSizes).zip hashSizes).mapM
        fun (offset, size) => do return (← uint64 offset, ← uint64 size)
      return ids.mapIdx fun position id =>
        let (offset, size) := tables.getD (position % ids.stride) (0, 1)
        (offset + id % size) % 2 ^ 64
  | .sharedHash => do
      let total ← uint64 (given.getD hashSizes.sum)
      return ids.map (· % total)
  | .direct => do
      let total := given.getD (if ids.data = [] then 0 else maxId ids + 1)
      let total ← uint64 (max total 1)
      return ids.map (· % total)

def applyIdMapping (libraries : Libraries) (ids : NdArray Nat) (args : ConvertArgs) :
    Except PyError Mapped := do
  let hashSizes ← mappingHashSizes libraries ids args
  let mapped ← mapIds ids args hashSizes
  return ⟨mapped, fieldOffsetsFromHashSizes hashSizes, hashSizes,
    (args.numEmbeddings.filter (· ≠ 0)).getD hashSizes.sum⟩

/-- The first half of `convert`, up to the mapped ids. -/
def convertIds (libraries : Libraries) (file : SparseFile) (args : ConvertArgs) :
    Except PyError Mapped := do
  let format ← detectFormat file args.inputFormat
  let raw ← loadSparse libraries file format args.maxSamples
  applyIdMapping libraries raw args

/-- What `convert` passes to `np.savez`. -/
def Mapped.archive (args : ConvertArgs) (mapped : Mapped) : Archive where
  metadataJson := some
    { numFields := some mapped.ids.stride
      batchSize := some args.batchSize
      bagSize := some mapped.ids.stride
      rowsPerBlock := some args.rowsPerBlock
      totalNumEmbeddings := some mapped.totalEmbeddings
      traceLayout := some "samples_by_fields" }
  ids := some mapped.ids
  blockIds := some (mapped.ids.map fun id => id / args.rowsPerBlock % 2 ^ 64)

/-- `convert`, up to the archive that it writes. -/
def convert (libraries : Libraries) (file : SparseFile) (args : ConvertArgs) :
    Except PyError Archive := do
  let mapped ← convertIds libraries file args
  let _ ← uint64 args.rowsPerBlock
  -- `np.arange` over the offsets of the samples steps by the size of a bag.
  if mapped.ids.stride = 0 then throw .zeroDivisionError
  let _ ← mapped.fieldOffsets.mapM (asDtype libraries .uint64)
  let _ ← mapped.hashSizes.mapM (asDtype libraries .uint64)
  return mapped.archive args

/-! ## The shape of the matrix -/

section

variable {libraries : Libraries}

theorem asMatrix_shape {array matrix : NdArray Int} (formed : asMatrix array = .ok matrix) :
    ∃ samples fields, matrix.shape = [samples, fields] := by
  rw [asMatrix] at formed
  split at formed
  · exact ⟨_, _, by rw [← Except.ok.inj formed]; rfl⟩
  · exact ⟨_, _, by rw [← Except.ok.inj formed]; rfl⟩
  · rename_i samples fields shape
    exact ⟨samples, fields, Except.ok.inj formed ▸ shape⟩
  · simp at formed

/-- What is loaded is a matrix of ids of 64 bits. -/
theorem loadSparse_shape {file : SparseFile} {format : InputFormat} {maxSamples : Option Nat}
    {raw : NdArray Nat} (loaded : loadSparse libraries file format maxSamples = .ok raw) :
    (∃ samples fields, raw.shape = [samples, fields]) ∧ ∀ id ∈ raw.data, id < 2 ^ 64 := by
  rw [loadSparse] at loaded
  obtain ⟨array, -, loaded⟩ := bind_eq_ok.mp loaded
  obtain ⟨matrix, formed, loaded⟩ := bind_eq_ok.mp loaded
  obtain ⟨samples, fields, shape⟩ := asMatrix_shape formed
  obtain rfl := Except.ok.inj loaded
  constructor
  · split
    · exact ⟨min (maxSamples.getD 0) matrix.samples, fields, by
        simp [NdArray.map, NdArray.firstRows, shape]⟩
    · exact ⟨samples, fields, shape⟩
  · intro id member
    obtain ⟨value, -, rfl⟩ := List.mem_map.mp member
    omega

theorem mapIds_shape {raw ids : NdArray Nat} {args : ConvertArgs} {hashSizes : List Nat}
    (bounded : ∀ id ∈ raw.data, id < 2 ^ 64) (mapping : mapIds raw args hashSizes = .ok ids) :
    ids.shape = raw.shape ∧ ∀ id ∈ ids.data, id < 2 ^ 64 := by
  have reduced : ∀ total, ∀ id ∈ (raw.map (· % total)).data, id < 2 ^ 64 := by
    intro total id member
    obtain ⟨value, listed, rfl⟩ := List.mem_map.mp member
    exact (Nat.mod_le _ _).trans_lt (bounded value listed)
  rw [mapIds] at mapping
  split at mapping
  · obtain ⟨tables, -, mapping⟩ := bind_eq_ok.mp mapping
    obtain rfl := Except.ok.inj mapping
    refine ⟨rfl, fun id member => ?_⟩
    obtain ⟨position, inside, rfl⟩ := List.mem_mapIdx.mp member
    exact Nat.mod_lt _ (by positivity)
  · obtain ⟨total, -, mapping⟩ := bind_eq_ok.mp mapping
    obtain rfl := Except.ok.inj mapping
    exact ⟨rfl, reduced total⟩
  · obtain ⟨total, -, mapping⟩ := bind_eq_ok.mp mapping
    obtain rfl := Except.ok.inj mapping
    exact ⟨rfl, reduced total⟩

theorem applyIdMapping_shape {raw : NdArray Nat} {args : ConvertArgs} {mapped : Mapped}
    (bounded : ∀ id ∈ raw.data, id < 2 ^ 64)
    (result : applyIdMapping libraries raw args = .ok mapped) :
    mapped.ids.shape = raw.shape ∧ ∀ id ∈ mapped.ids.data, id < 2 ^ 64 := by
  rw [applyIdMapping] at result
  obtain ⟨hashSizes, -, result⟩ := bind_eq_ok.mp result
  obtain ⟨ids, mapping, result⟩ := bind_eq_ok.mp result
  obtain rfl := Except.ok.inj result
  exact mapIds_shape bounded mapping

theorem convert_eq_ok {file : SparseFile} {args : ConvertArgs} {archive : Archive}
    (written : convert libraries file args = .ok archive) :
    ∃ mapped, convertIds libraries file args = .ok mapped ∧ mapped.ids.stride ≠ 0 ∧
      archive = mapped.archive args := by
  rw [convert] at written
  obtain ⟨mapped, built, written⟩ := bind_eq_ok.mp written
  obtain ⟨rows, -, written⟩ := bind_eq_ok.mp written
  refine ⟨mapped, built, ?_⟩
  dsimp only at written
  split at written
  · simp [bind, Except.bind, throw, throwThe, MonadExceptOf.throw] at written
  · obtain ⟨_, -, written⟩ := bind_eq_ok.mp written
    obtain ⟨_, -, written⟩ := bind_eq_ok.mp written
    exact ⟨‹_›, (Except.ok.inj written).symm⟩

theorem convertIds_shape {file : SparseFile} {args : ConvertArgs} {mapped : Mapped}
    (result : convertIds libraries file args = .ok mapped) :
    (∃ samples fields, mapped.ids.shape = [samples, fields]) ∧
      ∀ id ∈ mapped.ids.data, id < 2 ^ 64 := by
  rw [convertIds] at result
  obtain ⟨format, -, result⟩ := bind_eq_ok.mp result
  obtain ⟨raw, loaded, result⟩ := bind_eq_ok.mp result
  obtain ⟨shape, bounded⟩ := loadSparse_shape loaded
  obtain ⟨same, bounded'⟩ := applyIdMapping_shape bounded result
  exact ⟨same ▸ shape, bounded'⟩

end

end MemTier.Trace
