import MemTier.Containers.Arrays
import MemTier.Containers.NdArray

/-!
# Reading traces

`EmbeddingTrace` reads ids batch by batch from an archive, from a single array or from lines of
JSON.  How many batches there are and what a batch is are decided apart from each other.
-/

namespace MemTier.Trace

open Containers

/-- What the code can raise. -/
inductive PyError where
  | valueError (message : String)
  | indexError (position : Nat)
  | runtimeError (message : String)
  | fileNotFound (path : String)
  | overflowError
  | typeError
  | zeroDivisionError
  deriving DecidableEq, Repr

section

variable {α β ε : Type}

theorem bind_eq_ok {action : Except ε α} {next : α → Except ε β} {value : β} :
    (action >>= next) = .ok value ↔ ∃ middle, action = .ok middle ∧ next middle = .ok value := by
  cases action with
  | error error => simp [bind, Except.bind]
  | ok middle => simp [bind, Except.bind]

/-- A loop whose rounds all succeed. -/
theorem mapM_eq_ok_of_forall {f : α → Except ε β} {g : α → β} {values : List α}
    (succeeds : ∀ value ∈ values, f value = .ok (g value)) :
    values.mapM f = .ok (values.map g) := by
  induction values with
  | nil => rfl
  | cons value rest induction =>
      rw [List.forall_mem_cons] at succeeds
      rw [List.mapM_cons, succeeds.1, induction succeeds.2]
      rfl

/-- In a loop that succeeds, every round does. -/
theorem forall₂_of_mapM_eq_ok {f : α → Except ε β} {values : List α} {results : List β}
    (succeeds : values.mapM f = .ok results) :
    List.Forall₂ (fun value result => f value = .ok result) values results := by
  induction values generalizing results with
  | nil =>
      obtain rfl := Except.ok.inj (succeeds : Except.ok [] = _)
      exact .nil
  | cons value rest induction =>
      rw [List.mapM_cons] at succeeds
      obtain ⟨first, here, succeeds⟩ := bind_eq_ok.mp succeeds
      obtain ⟨later, further, succeeds⟩ := bind_eq_ok.mp succeeds
      obtain rfl := Except.ok.inj (succeeds : Except.ok (first :: later) = _)
      exact .cons here (induction further)

theorem ok_of_mapM_eq_ok {f : α → Except ε β} {values : List α} {results : List β}
    (succeeds : values.mapM f = .ok results) {value : α} (member : value ∈ values) :
    ∃ result, f value = .ok result := by
  have rounds := forall₂_of_mapM_eq_ok succeeds
  clear succeeds
  induction rounds with
  | nil => simp at member
  | cons here _ induction =>
      rcases List.mem_cons.mp member with rfl | member
      · exact ⟨_, here⟩
      · exact induction member

theorem exists_of_mapM_eq_ok {f : α → Except ε β} {values : List α} {results : List β}
    (succeeds : values.mapM f = .ok results) {result : β} (member : result ∈ results) :
    ∃ value ∈ values, f value = .ok result := by
  have rounds := forall₂_of_mapM_eq_ok succeeds
  clear succeeds
  induction rounds with
  | nil => simp at member
  | cons here _ induction =>
      rcases List.mem_cons.mp member with rfl | member
      · exact ⟨_, List.mem_cons_self, here⟩
      · obtain ⟨value, listed, round⟩ := induction member
        exact ⟨value, List.mem_cons_of_mem _ listed, round⟩

end

/-! ## Numbers of fixed width -/

inductive Dtype where
  | uint32 | uint64
  deriving DecidableEq, Repr

def Dtype.bits : Dtype → Nat
  | uint32 => 32
  | uint64 => 64

/-- `np.uint64(value)`. -/
def uint64 (value : Nat) : Except PyError Nat :=
  if value < 2 ^ 64 then .ok value else .error .overflowError

theorem uint64_eq_ok {value result : Nat} :
    uint64 value = .ok result ↔ value < 2 ^ 64 ∧ result = value := by
  rw [uint64]
  split
  · rename_i fits
    rw [and_iff_right fits, Except.ok.injEq, eq_comm]
  · rename_i large
    exact iff_of_false (by simp) fun fits => large fits.1

/-- `array.astype(dtype)`. -/
def astype (dtype : Dtype) (values : List Nat) : List Nat := values.map (· % 2 ^ dtype.bits)

/-! ## Stored traces -/

/-- What the reader asks of the metadata. -/
structure Metadata where
  numFields : Option Nat := none
  batchSize : Option Nat := none
  bagSize : Option Nat := none
  rowsPerBlock : Option Nat := none
  totalNumEmbeddings : Option Nat := none
  traceLayout : Option String := none
  deriving DecidableEq, Repr

/-- The members of an `.npz` archive that the reader loads. -/
structure Archive where
  metadataJson : Option Metadata
  ids : Option (NdArray Nat)
  blockIds : Option (NdArray Nat)
  deriving DecidableEq, Repr

/-- A line of a `.jsonl` trace. -/
structure JsonRow where
  sparseIds : Option (List Nat)
  ids : Option (List Nat)
  deriving DecidableEq, Repr

/-- A trace on disk, by its suffix; blank lines of JSON are `none`. -/
inductive TraceFile where
  | npz (archive : Archive)
  | npy (ids : NdArray Nat) (metadata : Option Metadata)
  | jsonl (lines : List (Option JsonRow))
  | unsupported (path : String)

/-! ## The reader -/

structure EmbeddingTrace where
  rowsPerBlock : Option Nat
  metadata : Metadata
  /-- The rows that `_jsonl_offsets` points to. -/
  jsonlRows : Option (List JsonRow)
  ids : Option (NdArray Nat)
  blockIds : Option (NdArray Nat)
  deriving DecidableEq, Repr

namespace EmbeddingTrace

/-- `rows_per_block` of the caller, or that of the metadata if there is none. -/
def effectiveRows (rowsPerBlock : Option Nat) (metadata : Metadata) : Option Nat :=
  match rowsPerBlock with
  | some rows => some rows
  | none => metadata.rowsPerBlock.filter (· ≠ 0)

/-- `EmbeddingTrace(path, rows_per_block=…)`. -/
def init (file : TraceFile) (rowsPerBlock : Option Nat) : Except PyError EmbeddingTrace :=
  match file with
  | .npz archive =>
      let metadata := archive.metadataJson.getD {}
      .ok
        { rowsPerBlock := effectiveRows rowsPerBlock metadata
          metadata
          jsonlRows := none
          ids := archive.ids
          blockIds := archive.blockIds }
  | .npy ids stored =>
      let metadata := stored.getD {}
      .ok
        { rowsPerBlock := effectiveRows rowsPerBlock metadata
          metadata
          jsonlRows := none
          ids := some ids
          blockIds := none }
  | .jsonl lines =>
      .ok
        { rowsPerBlock := effectiveRows rowsPerBlock {}
          metadata := {}
          jsonlRows := some (lines.filterMap id)
          ids := none
          blockIds := none }
  | .unsupported path => .error (.valueError s!"unsupported trace format: {path}")

def batchSize (trace : EmbeddingTrace) : Option Nat := trace.metadata.batchSize

def bagSize (trace : EmbeddingTrace) : Option Nat :=
  (trace.metadata.bagSize.filter (· ≠ 0)).or trace.metadata.numFields

/-- A bag size that is stored is taken. -/
theorem bagSize_of_stored {trace : EmbeddingTrace} {size : Nat}
    (stored : trace.metadata.bagSize = some size) (nonempty : 0 < size) :
    trace.bagSize = some size := by
  have kept : decide (size ≠ 0) = true := decide_eq_true (Nat.pos_iff_ne_zero.mp nonempty)
  rw [bagSize, stored, Option.filter_some, if_pos kept, Option.some_or]

/-- Python's truth of an optional number. -/
def truthy (value : Option Nat) : Bool := value.getD 0 ≠ 0

/-- The test, made in two places, for a matrix of samples with as many columns as a bag has. -/
def columnsMatch (trace : EmbeddingTrace) (array : NdArray Nat) : Bool :=
  array.ndim = 2 && truthy trace.bagSize && array.shape[1]? = trace.bagSize &&
    truthy trace.batchSize

def numBatches (trace : EmbeddingTrace) : Except PyError Nat :=
  match trace.jsonlRows, trace.ids with
  | some rows, _ => .ok rows.length
  | none, none => .ok 0
  | none, some ids =>
      if ids.ndim = 0 then .error (.indexError 0)
      else if ids.ndim = 1 then .ok 1
      else if trace.metadata.traceLayout = some "samples_by_fields" ∧ truthy trace.batchSize then
        .ok (NdArray.runs ids.samples (trace.batchSize.getD 0))
      else if ids.ndim = 3 then .ok ids.samples
      else if trace.columnsMatch ids then
        .ok (NdArray.runs ids.samples (trace.batchSize.getD 0))
      else .ok ids.samples

/-- `np.asarray(array[position]).reshape(-1)`. -/
def flatIndex (array : NdArray Nat) (position : Nat) : Except PyError (List Nat) :=
  match array.index position with
  | some row => .ok row.data
  | none => .error (.indexError position)

def batchFromArray (trace : EmbeddingTrace) (array : NdArray Nat) (position : Nat) :
    Except PyError (List Nat) :=
  if array.ndim = 1 then
    if position ≠ 0 then .error (.indexError position) else .ok array.data
  else if array.ndim = 3 then flatIndex array position
  else if trace.columnsMatch array then
    let start := position * trace.batchSize.getD 0
    let stop := min array.samples (start + trace.batchSize.getD 0)
    .ok (array.rows start stop)
  else flatIndex array position

/-- `np.asarray(row.get("sparse_ids") or row.get("ids"), dtype=np.uint64)`. -/
def rowIds (row : JsonRow) : Except PyError (List Nat) :=
  match (row.sparseIds.filter (· ≠ [])).or row.ids with
  | none => .error .typeError
  | some ids => ids.mapM uint64

def getBatchIds (trace : EmbeddingTrace) (position : Nat) : Except PyError (List Nat) := do
  if (← trace.numBatches) ≤ position then throw (.indexError position)
  match trace.jsonlRows, trace.ids with
  | some rows, _ => rowIds (rows.getD position ⟨none, none⟩)
  | none, none => throw (.valueError "trace does not contain ids")
  | none, some ids => return astype .uint64 (← trace.batchFromArray ids position)

def getBatchBlockIds (trace : EmbeddingTrace) (position : Nat) : Except PyError (List Nat) := do
  match trace.blockIds with
  | some blockIds =>
      return Arrays.unique (astype .uint64 (← trace.batchFromArray blockIds position))
  | none =>
      if !truthy trace.rowsPerBlock then
        throw (.valueError "rows_per_block is required when trace has no block_ids")
      let ids ← trace.getBatchIds position
      let rows ← uint64 (trace.rowsPerBlock.getD 0)
      return Arrays.unique (ids.map (· / rows))

def iterBatches (trace : EmbeddingTrace) : Except PyError (List (List Nat)) := do
  (List.range (← trace.numBatches)).mapM trace.getBatchIds

def iterBlockBatches (trace : EmbeddingTrace) : Except PyError (List (List Nat)) := do
  (List.range (← trace.numBatches)).mapM trace.getBatchBlockIds

end EmbeddingTrace

end MemTier.Trace
