import MemTier.Containers.Binary64
import MemTier.Managed.TensorContents
import MemTier.Trace.Reader

/-!
# Data sets over a file of rows

A data set gives out the rows of a file in batches, and the benchmark touches every batch once. The
plain way copies the rows from a memory map or reads them into an array; the other reads them into
managed memory and gives that memory back before the next batch.
-/

namespace MemTier.Managed

open Resumption Resumption.Prog
open Containers (Bytes slice length_slice slice_append)

/-- Exceptions of the Python code; those of the extension go through it. -/
inductive PyFailure where
  | valueError (message : String)
  | indexError (idx : Int)
  | overflowError
  | typeError
  | fileNotFoundError
  | extension (failure : Failure)
  deriving DecidableEq, Repr

abbrev PyProgram (α : Type) : Type := Throwing FileReply PyFailure α

/-- A call of the extension. -/
def callExtension {α : Type} (program : Throwing FileReply Failure α) : PyProgram α :=
  ExceptT.mk (program.run >>= fun outcome => pure (outcome.mapError .extension))

/-- Python code that does not call the extension. -/
def liftExcept {α : Type} (value : Except PyFailure α) : PyProgram α := ExceptT.mk (pure value)

/-- The policies that a data set takes. -/
def policies : List String := ["none", "cpu", "gpu", "accessed_by"]

/-- `MemTierFileDataset` after its checks. -/
structure MemTierFileDataset where
  path : String
  rows : Nat
  cols : Nat
  batchRows : Nat
  device : Int
  policy : String
  positive : 0 < rows ∧ 0 < cols ∧ 0 < batchRows
  supported : policy ∈ policies

def MemTierFileDataset.init (path : String) (rows cols batchRows device : Int) (policy : String) :
    Except PyFailure MemTierFileDataset :=
  if positive : 0 < rows ∧ 0 < cols ∧ 0 < batchRows then
    if supported : policy ∈ policies then
      .ok {
        path
        rows := rows.toNat
        cols := cols.toNat
        batchRows := batchRows.toNat
        device
        policy
        positive := by omega
        supported }
    else .error (.valueError s!"unsupported MemTier policy: {policy}")
  else .error (.valueError "rows, cols, and batch_rows must be positive")

/-- `math.ceil(rows / batch_rows)`, as `len` returns it. -/
def lenOf (rows batchRows : Nat) : Except PyFailure Nat :=
  match Containers.Binary64.trueDivide rows batchRows with
  | none => .error .overflowError
  | some quotient =>
      if ⌈quotient⌉.toNat < 2 ^ 63 then .ok ⌈quotient⌉.toNat else .error .overflowError

/-- The rows of a batch. -/
def actualRows (rows batchRows idx : Nat) : Int := min batchRows (rows - idx * batchRows)

/-- A tensor with its shape. -/
structure UvmBatch where
  tensor : Tensor
  rows : Nat
  cols : Nat
  deriving DecidableEq, Repr

def UvmBatch.numel (batch : UvmBatch) : Nat := batch.rows * batch.cols

/-- The binding takes these integers as `int64_t`, `int64_t`, `uint64_t` and `int`. -/
def Convertible (rows : Int) (cols offset : Nat) (device : Int) : Prop :=
  -2 ^ 63 ≤ rows ∧ rows < 2 ^ 63 ∧ cols < 2 ^ 63 ∧ offset < 2 ^ 64 ∧
    -2 ^ 31 ≤ device ∧ device < 2 ^ 31

@[irreducible] instance (rows : Int) (cols offset : Nat) (device : Int) :
    Decidable (Convertible rows cols offset device) :=
  inferInstanceAs (Decidable (_ ∧ _ ∧ _ ∧ _ ∧ _ ∧ _))

/-- `uvm_tensor_from_file` as it is called from Python. -/
def bindUvmTensorFromFile (path : String) (rows : Int) (cols offset : Nat) (device : Int)
    (policy : String) : PyProgram UvmBatch := do
  require (Convertible rows cols offset device) .typeError
  let tensor ← callExtension (onStore (uvmTensorFromFile path (Int64.ofInt rows)
    (Int64.ofNat cols) (UInt64.ofNat offset) device policy))
  return { tensor, rows := rows.toNat, cols }

/-- `__getitem__`. -/
def MemTierFileDataset.getitem (dataset : MemTierFileDataset) (idx : Nat) : PyProgram UvmBatch := do
  let len ← liftExcept (lenOf dataset.rows dataset.batchRows)
  require (idx < len) (.indexError idx)
  bindUvmTensorFromFile dataset.path (actualRows dataset.rows dataset.batchRows idx) dataset.cols
    (idx * dataset.batchRows * dataset.cols * 4) dataset.device dataset.policy

/-- The tensor is read on the device. -/
def touch (batch : UvmBatch) : Throwing FileReply Failure Unit := do
  match ← issue (FileOp.touchGpu batch.tensor.ptr batch.numel) with
  | none => pure ()
  | some failure => throw failure

/-- The last reference to a tensor goes out of scope. -/
def destroy (tensor : Tensor) : Throwing FileReply Failure Unit :=
  onStore (cudaFreeNoexcept tensor.ptr tensor.bytes)

structure BenchmarkResult where
  numBatches : Nat
  totalBytes : Nat
  extensionStats : Stats
  deriving DecidableEq, Repr

/-- A batch in the loop of `run_uvm`, which is destroyed in any case. -/
def touchBatch (batch : UvmBatch) : Throwing FileReply Failure Unit := do
  tryCatch (touch batch) fun failure => do
    destroy batch.tensor
    throw failure
  destroy batch.tensor

/-- The loop of `run_uvm` over the batches that are left. -/
def MemTierFileDataset.touchBatches (dataset : MemTierFileDataset) :
    List Nat → Nat → Nat → PyProgram (Nat × Nat)
  | [], numBatches, totalBytes => pure (numBatches, totalBytes)
  | idx :: rest, numBatches, totalBytes => do
      let batch ← dataset.getitem idx
      callExtension (touchBatch batch)
      dataset.touchBatches rest (numBatches + 1) (totalBytes + batch.numel * 4)

/-- `run_uvm`. The loader asks for the batches in order. -/
def runUvm (path : String) (rows cols batchRows device : Int) (policy : String) :
    PyProgram BenchmarkResult := do
  callExtension (onStore resetStats)
  let dataset ← liftExcept (MemTierFileDataset.init path rows cols batchRows device policy)
  let len ← liftExcept (lenOf dataset.rows dataset.batchRows)
  let (numBatches, totalBytes) ← dataset.touchBatches (List.range len) 0 0
  let extensionStats ← issue FileOp.getStats
  return { numBatches, totalBytes, extensionStats }

/-! ## The plain way -/

/-- `BaselineNumpyDataset` with what it has mapped. -/
structure BaselineNumpyDataset where
  path : String
  rows : Nat
  cols : Nat
  batchRows : Nat
  memmap : Option Bytes

def BaselineNumpyDataset.init (files : Files) (path : String) (rows cols batchRows : Nat)
    (useMemmap : Bool) : Except PyFailure BaselineNumpyDataset :=
  if 0 < rows ∧ 0 < cols ∧ 0 < batchRows then
    if useMemmap then
      match files.find path with
      | none => .error .fileNotFoundError
      | some content =>
          if content.length < rows * cols * 4 then
            .error (.valueError "mmap length is greater than file size")
          else .ok ⟨path, rows, cols, batchRows, some (slice content 0 (rows * cols * 4))⟩
    else .ok ⟨path, rows, cols, batchRows, none⟩
  else .error (.valueError "rows, cols, and batch_rows must be positive")

/-- `__getitem__`: the bytes of the batch. An array that is too short cannot be given its shape. -/
def BaselineNumpyDataset.getitem (files : Files) (dataset : BaselineNumpyDataset) (idx : Nat) :
    Except PyFailure Bytes := do
  let len ← lenOf dataset.rows dataset.batchRows
  if len ≤ idx then throw (.indexError idx)
  else
    let actual := (actualRows dataset.rows dataset.batchRows idx).toNat
    let offset := idx * dataset.batchRows * dataset.cols * 4
    match dataset.memmap with
    | some mapped => return slice mapped offset (actual * dataset.cols * 4)
    | none =>
        match files.find dataset.path with
        | none => throw .fileNotFoundError
        | some content =>
            let cols := dataset.cols
            let items := (slice content offset (actual * cols * 4)).length / 4
            if items ≠ actual * cols then
              throw (.valueError
                s!"cannot reshape array of size {items} into shape ({actual},{cols})")
            else return slice content offset (items * 4)

/-- `run_baseline`: the batches that are copied to the device, their number and their bytes. -/
def runBaseline (files : Files) (path : String) (rows cols batchRows : Nat) (useMemmap : Bool) :
    Except PyFailure (List Bytes × Nat × Nat) := do
  let dataset ← BaselineNumpyDataset.init files path rows cols batchRows useMemmap
  let len ← lenOf rows batchRows
  let batches ← (List.range len).mapM (dataset.getitem files)
  return (batches, batches.length, (batches.map List.length).sum)

/-! ## Batches of a file -/

/-- Rows of a batch, where it begins inside the table. -/
def batchRowsAt (rows batchRows idx : Nat) : Nat := min batchRows (rows - idx * batchRows)

/-- The bytes of a batch of rows of `width` bytes. -/
def batchAt (content : Bytes) (rows batchRows width idx : Nat) : Bytes :=
  slice content (idx * batchRows * width) (batchRowsAt rows batchRows idx * width)

theorem mul_add_batchRowsAt (rows batchRows count : Nat) :
    min (count * batchRows) rows + batchRowsAt rows batchRows count =
      min ((count + 1) * batchRows) rows := by
  rw [batchRowsAt, Nat.succ_mul]
  omega

/-- Batches in a row are one part of the file. -/
theorem flatten_batches (content : Bytes) (rows batchRows width count : Nat) :
    ((List.range count).map (batchAt content rows batchRows width)).flatten =
      slice content 0 (min (count * batchRows) rows * width) := by
  induction count with
  | zero => simp [slice]
  | succ count induction =>
      rw [List.range_succ, List.map_append, List.flatten_append, induction, List.map_singleton,
        List.flatten_singleton, ← mul_add_batchRowsAt, Nat.add_mul, batchAt]
      rcases Nat.le_total (count * batchRows) rows with inside | past
      · rw [Nat.min_eq_left inside]
        have joined := slice_append content 0 (count * batchRows * width)
          (batchRowsAt rows batchRows count * width)
        rwa [Nat.zero_add] at joined
      · have nothing : batchRowsAt rows batchRows count = 0 := by
          rw [batchRowsAt]
          omega
        simp [nothing, slice]

theorem sum_batchRowsAt (rows batchRows count : Nat) :
    ((List.range count).map (batchRowsAt rows batchRows)).sum = min (count * batchRows) rows := by
  induction count with
  | zero => simp
  | succ count induction =>
      rw [List.range_succ, List.map_append, List.sum_append, induction, List.map_singleton,
        List.sum_singleton, mul_add_batchRowsAt]

section

variable {rows batchRows : Nat}

/-- All batches together have all rows. -/
theorem le_count_mul (positive : 0 < batchRows) :
    rows ≤ (rows + batchRows - 1) / batchRows * batchRows := by
  have := @Nat.lt_div_mul_add (rows + batchRows - 1) batchRows positive
  omega

/-- Every batch begins inside the table. -/
theorem mul_lt_of_lt_count {idx : Nat} (positive : 0 < batchRows)
    (inside : idx < (rows + batchRows - 1) / batchRows) : idx * batchRows < rows := by
  have whole := (Nat.le_div_iff_mul_le positive).mp (Nat.succ_le_of_lt inside)
  rw [Nat.succ_mul] at whole
  omega

theorem lenOf_eq (some_rows : 0 < rows) (small : rows < 2 ^ 53) (positive : 0 < batchRows)
    (moderate : batchRows < 2 ^ 1022) :
    lenOf rows batchRows = .ok ((rows + batchRows - 1) / batchRows) := by
  obtain ⟨quotient, divided, ceil⟩ :=
    Containers.Binary64.ceil_trueDivide some_rows small positive moderate
  have few : (rows + batchRows - 1) / batchRows ≤ rows := by
    rw [Nat.div_le_iff_le_mul_add_pred positive]
    have := Nat.le_mul_of_pos_left rows positive
    omega
  rw [lenOf, divided]
  dsimp only
  rw [ceil, Int.toNat_natCast, if_pos (few.trans_lt (small.trans (by decide)))]

theorem actualRows_eq {idx : Nat} (begins : idx * batchRows < rows) :
    actualRows rows batchRows idx = batchRowsAt rows batchRows idx := by
  rw [actualRows, batchRowsAt]
  push_cast
  omega

/-- A batch lies inside the table. -/
theorem batch_inside {cols idx : Nat} (begins : idx * batchRows < rows) :
    idx * batchRows * cols * 4 + batchRowsAt rows batchRows idx * cols * 4 ≤ rows * cols * 4 := by
  rw [← Nat.add_mul, ← Nat.add_mul]
  refine Nat.mul_le_mul_right 4 (Nat.mul_le_mul_right cols ?_)
  rw [batchRowsAt]
  omega

theorem batchAt_eq (content : Bytes) (cols idx : Nat) :
    batchAt content rows batchRows (cols * 4) idx =
      slice content (idx * batchRows * cols * 4) (batchRowsAt rows batchRows idx * cols * 4) := by
  rw [batchAt, Nat.mul_assoc (idx * batchRows), Nat.mul_assoc (batchRowsAt rows batchRows idx)]

theorem length_batchAt {content : Bytes} {cols idx : Nat} (begins : idx * batchRows < rows)
    (long : rows * cols * 4 ≤ content.length) :
    (batchAt content rows batchRows (cols * 4) idx).length =
      batchRowsAt rows batchRows idx * cols * 4 := by
  have inside := @batch_inside rows batchRows cols idx begins
  rw [batchAt_eq, length_slice]
  omega

section

variable {files : Files} {path : String} {content : Bytes} {cols : Nat} (some_rows : 0 < rows)
  (small : rows < 2 ^ 53) (positive : 0 < batchRows) (moderate : batchRows < 2 ^ 1022)

include some_rows small positive moderate

/-- A batch of the memory map. -/
theorem getitem_memmap {idx : Nat} (inside : idx < (rows + batchRows - 1) / batchRows) :
    BaselineNumpyDataset.getitem files
        ⟨path, rows, cols, batchRows, some (slice content 0 (rows * cols * 4))⟩ idx =
      .ok (batchAt content rows batchRows (cols * 4) idx) := by
  have begins := mul_lt_of_lt_count positive inside
  have part := @Containers.slice_slice content 0 (rows * cols * 4) (idx * batchRows * cols * 4)
    (batchRowsAt rows batchRows idx * cols * 4) (batch_inside begins)
  rw [Nat.zero_add] at part
  simp only [BaselineNumpyDataset.getitem, lenOf_eq some_rows small positive moderate,
    actualRows_eq begins, Int.toNat_natCast, part, Bind.bind, Except.bind,
    if_neg (not_le.mpr inside), batchAt_eq]
  rfl

variable (found : files.find path = some content) (long : rows * cols * 4 ≤ content.length)

include found long

/-- A batch that is read into an array. -/
theorem getitem_fromfile {idx : Nat} (inside : idx < (rows + batchRows - 1) / batchRows) :
    BaselineNumpyDataset.getitem files ⟨path, rows, cols, batchRows, none⟩ idx =
      .ok (batchAt content rows batchRows (cols * 4) idx) := by
  have begins := mul_lt_of_lt_count positive inside
  have length := length_batchAt begins long
  have items : batchRowsAt rows batchRows idx * cols * 4 / 4 =
      batchRowsAt rows batchRows idx * cols := Nat.mul_div_cancel _ (by decide)
  rw [batchAt_eq] at length ⊢
  simp only [BaselineNumpyDataset.getitem, lenOf_eq some_rows small positive moderate,
    actualRows_eq begins, Int.toNat_natCast, found, length, items, Bind.bind, Except.bind,
    if_neg (not_le.mpr inside), ne_eq, not_true_eq_false, if_false]
  rfl

/-- What the plain way copies, from a memory map or not. -/
theorem runBaseline_eq (some_cols : 0 < cols) (useMemmap : Bool) :
    runBaseline files path rows cols batchRows useMemmap =
      .ok ((List.range ((rows + batchRows - 1) / batchRows)).map
          (batchAt content rows batchRows (cols * 4)),
        (rows + batchRows - 1) / batchRows, rows * cols * 4) := by
  have checked : 0 < rows ∧ 0 < cols ∧ 0 < batchRows := ⟨some_rows, some_cols, positive⟩
  have whole : min ((rows + batchRows - 1) / batchRows * batchRows) rows = rows :=
    Nat.min_eq_right (le_count_mul positive)
  have total := congrArg List.length (flatten_batches content rows batchRows (cols * 4)
    ((rows + batchRows - 1) / batchRows))
  rw [whole, length_slice, ← Nat.mul_assoc, Nat.sub_zero, Nat.min_eq_left long,
    List.length_flatten] at total
  have copied : ∀ dataset, BaselineNumpyDataset.init files path rows cols batchRows useMemmap =
        .ok dataset →
      (∀ idx, idx < (rows + batchRows - 1) / batchRows → dataset.getitem files idx =
        .ok (batchAt content rows batchRows (cols * 4) idx)) →
      runBaseline files path rows cols batchRows useMemmap =
        .ok ((List.range ((rows + batchRows - 1) / batchRows)).map
            (batchAt content rows batchRows (cols * 4)),
          (rows + batchRows - 1) / batchRows, rows * cols * 4) := by
    intro dataset opened item
    have items := Trace.mapM_eq_ok_of_forall
      fun idx member => item idx (List.mem_range.mp member)
    simp only [runBaseline, opened, lenOf_eq some_rows small positive moderate, items, Bind.bind,
      Except.bind, Pure.pure, Except.pure, List.length_map, List.length_range, total]
  cases useMemmap with
  | false =>
      refine copied ⟨path, rows, cols, batchRows, none⟩ ?_
        fun idx => getitem_fromfile some_rows small positive moderate found long
      rw [BaselineNumpyDataset.init, if_pos checked]
      rfl
  | true =>
      refine copied ⟨path, rows, cols, batchRows, some (slice content 0 (rows * cols * 4))⟩ ?_
        fun idx => getitem_memmap some_rows small positive moderate
      rw [BaselineNumpyDataset.init, if_pos checked, if_pos rfl, found]
      exact if_neg (not_lt.mpr long)

end

end

/-! ## One batch -/

section

variable {files : Files} {permits : (op : FileOp) → FileReply op → Prop} {before after : Store}

theorem evaluates_callExtension {α : Type} {program : Throwing FileReply Failure α}
    {outcome : Except PyFailure α}
    (evaluation : Evaluates (onFiles files permits) (callExtension program).run before outcome
      after) :
    ∃ inner, Evaluates (onFiles files permits) program.run before inner after ∧
      outcome = inner.mapError .extension := by
  obtain ⟨inner, middle, called, rfl, rfl⟩ := evaluates_bind.mp evaluation
  exact ⟨inner, called, rfl⟩

theorem evaluates_liftExcept {α : Type} {value outcome : Except PyFailure α}
    (evaluation : Evaluates (onFiles files permits) (liftExcept value).run before outcome after) :
    outcome = value ∧ after = before := by
  obtain ⟨rfl, rfl⟩ := evaluation
  exact ⟨rfl, rfl⟩

/-- A tensor that goes out of scope is released. -/
theorem destroy_releases {tensor : Tensor} {outcome : Except Failure Unit}
    (sound : before.memory.account.Sound)
    (evaluation : Evaluates (onFiles files permits) (destroy tensor).run before outcome after) :
    outcome = .ok () ∧ after.memory.account = before.memory.account.released tensor.ptr ∧
      after.opened = before.opened ∧ after.touched = before.touched := by
  obtain ⟨inner, opened, touched⟩ := evaluates_onStore evaluation
  have alone_ := @evaluates_alone files permits (fun _ _ => True) _ _ _ _ _
    (fun _ _ _ => trivial) (fun _ _ _ _ _ => trivial) inner
  obtain ⟨returned, released⟩ := cudaFreeNoexcept_releases sound alone_
  exact ⟨returned, released, opened, touched⟩

/-- The device reads what the tensor holds. -/
theorem touch_reads {batch : UvmBatch} {data : Bytes} {outcome : Except Failure Unit}
    (kept : Kept batch.tensor.ptr batch.tensor.bytes data before.toFilled)
    (shape : batch.tensor.bytes.toNat = batch.numel * 4)
    (evaluation : Evaluates (onFiles files permits) (touch batch).run before outcome after) :
    after.memory = before.memory ∧ after.opened = before.opened ∧
      (outcome = .ok () → after.touched = before.touched ++ [data]) := by
  obtain ⟨reply, middle, ⟨_, choice, ⟨cells, alike, rfl⟩, served, -⟩, rest⟩ :=
    evaluates_issue_then.mp evaluation
  simp only [onFiles, serveFiles] at served
  split at served
  · simp only [Option.some.injEq, Prod.mk.injEq] at served
    obtain ⟨rfl, rfl⟩ := served
    obtain ⟨rfl, rfl⟩ := evaluates_throw.mp rest
    exact ⟨rfl, rfl, by simp⟩
  · simp only [Option.some.injEq, Prod.mk.injEq] at served
    obtain ⟨rfl, rfl⟩ := served
    obtain ⟨-, rfl⟩ := evaluates_pure.mp rest
    refine ⟨rfl, rfl, fun _ => ?_⟩
    obtain ⟨block, member, at_ptr, of_bytes⟩ := kept.live
    have same := alike.read member
    rw [at_ptr, of_bytes] at same
    dsimp only
    rw [← shape, same, kept.contents]

/-- The device reads what the tensor holds, and the tensor is released in any case. -/
theorem touchBatch_does {batch : UvmBatch} {data : Bytes} {outcome : Except Failure Unit}
    (sound : before.memory.account.Sound)
    (kept : Kept batch.tensor.ptr batch.tensor.bytes data before.toFilled)
    (shape : batch.tensor.bytes.toNat = batch.numel * 4)
    (evaluation : Evaluates (onFiles files permits) (touchBatch batch).run before outcome after) :
    after.memory.account = before.memory.account.released batch.tensor.ptr ∧
      after.opened = before.opened ∧
      (outcome = .ok () → after.touched = before.touched ++ [data]) := by
  rcases evaluates_then.mp evaluation with ⟨failure, failed, rfl⟩ | ⟨_, middle, used, destroyed⟩
  · rcases evaluates_tryCatch.mp failed with ⟨_, _, absurd_⟩ | ⟨reason, middle, used, handled⟩
    · exact absurd absurd_ (by simp)
    obtain ⟨memory, opened, -⟩ := touch_reads kept shape used
    rcases evaluates_then.mp handled with ⟨_, stopped, -⟩ | ⟨_, _, destroyed, thrown⟩
    · exact absurd (destroy_releases (memory ▸ sound) stopped).1 (by simp)
    obtain ⟨-, rfl⟩ := evaluates_throw.mp thrown
    obtain ⟨-, released, opened', -⟩ := destroy_releases (memory ▸ sound) destroyed
    exact ⟨by rw [released, memory], opened'.trans opened, by simp⟩
  · rcases evaluates_tryCatch.mp used with ⟨_, used, -⟩ | ⟨_, _, _, handled⟩
    · obtain ⟨memory, opened, touched⟩ := touch_reads kept shape used
      obtain ⟨-, released, opened', touched'⟩ := destroy_releases (memory ▸ sound) destroyed
      exact ⟨by rw [released, memory], opened'.trans opened,
        fun _ => touched'.trans (touched rfl)⟩
    · rcases evaluates_then.mp handled with ⟨_, _, absurd_⟩ | ⟨_, _, _, thrown⟩
      · exact absurd absurd_ (by simp)
      · exact absurd (evaluates_throw.mp thrown).1 (by simp)

end

/-! ### Batches in managed memory -/

/-- The file, if it is there, has this content. -/
def Files.Only (files : Files) (path : String) (content : Bytes) : Prop :=
  ∀ other, files.find path = some other → other = content

theorem Files.exists_only (files : Files) (path : String) : ∃ content, files.Only path content := by
  cases found : files.find path with
  | none => exact ⟨[], fun other present => absurd (found.symm.trans present) (by simp)⟩
  | some content => exact ⟨content, fun other present => Option.some.inj (present.symm.trans found)⟩

namespace MemTierFileDataset

variable {files : Files} {dataset : MemTierFileDataset} {content : Bytes} {before after : Store}
  {idx : Nat}

/-- The table fits into a file, and its length is not rounded. -/
structure Moderate (dataset : MemTierFileDataset) : Prop where
  rows : dataset.rows < 2 ^ 53
  batchRows : dataset.batchRows < 2 ^ 1022
  addressable : dataset.rows * dataset.cols * 4 < 2 ^ 63

/-- Number of batches. -/
def count (dataset : MemTierFileDataset) : Nat :=
  (dataset.rows + dataset.batchRows - 1) / dataset.batchRows

/-- There is a batch. -/
theorem count_pos (dataset : MemTierFileDataset) : 0 < dataset.count := by
  have positive := dataset.positive
  exact Nat.div_pos (by omega) positive.2.2

/-- The bytes of a batch of the file. -/
def batch (dataset : MemTierFileDataset) (content : Bytes) (idx : Nat) : Bytes :=
  batchAt content dataset.rows dataset.batchRows (dataset.cols * 4) idx

theorem len_eq (moderate : dataset.Moderate) :
    lenOf dataset.rows dataset.batchRows = .ok dataset.count :=
  lenOf_eq dataset.positive.1 moderate.rows dataset.positive.2.2 moderate.batchRows

/-- The size of a batch as the extension computes it. -/
theorem toNat_tensorBytes {rows cols : Nat} (addressable : rows * cols * 4 < 2 ^ 63) :
    (tensorBytes (Int64.ofInt rows) (Int64.ofNat cols)).toNat = rows * cols * 4 := by
  rw [tensorBytes, Int64.ofInt_eq_ofNat, Int64.toUInt64_ofNat', Int64.toUInt64_ofNat',
    ← UInt64.ofNat_mul, UInt64.toNat_mul, UInt64.toNat_ofNat']
  have four : (4 : UInt64).toNat = 4 := rfl
  rw [four, Nat.mod_mul_mod, Nat.mod_eq_of_lt (by omega)]

/-- A load, carried out. -/
theorem load_gains {path policy : String} {rows cols : Int64} {offset : UInt64} {device : Int}
    {inner : Except Failure Tensor} (sound : before.memory.account.Sound)
    (exact_ : before.memory.account.Exact)
    (evaluation : Evaluates (onFiles files OwnedFiles)
      (onStore (uvmTensorFromFile path rows cols offset device policy)).run before inner after) :
    after.opened = before.opened ∧ after.touched = before.touched ∧
      Gains before.memory.account Tensor.place inner after.memory.account ∧
      ∀ tensor, inner = .ok tensor →
        tensor.bytes = tensorBytes rows cols ∧ Holds files path offset tensor after.toFilled := by
  obtain ⟨once, opened, touched⟩ := evaluates_onStore evaluation
  have counted := @evaluates_alone files OwnedFiles Owned _ _ _ _ _ (fun _ _ owned => owned)
    (fun _ _ _ _ _ => trivial) once
  refine ⟨opened, touched, uvmTensorFromFile_gains sound exact_ counted, ?_⟩
  rintro tensor rfl
  exact uvmTensorFromFile_holds sound.separate once

/-- The tensor of a batch is in memory that was not live before, and has the batch in it. -/
structure Delivered (files : Files) (path : String) (content data : Bytes) (batch : UvmBatch)
    (before after : Store) : Prop where
  found : files.find path = some content
  fresh : before.memory.account.Fresh batch.tensor.ptr batch.tensor.bytes
  gained : after.memory.account =
    before.memory.account.gained batch.tensor.ptr batch.tensor.bytes
  size : batch.tensor.bytes.toNat = batch.numel * 4
  length : data.length = batch.numel * 4
  kept : Kept batch.tensor.ptr batch.tensor.bytes data after.toFilled

/-- A batch of this shape is delivered, or no memory is taken. -/
structure Loads (files : Files) (path : String) (content data : Bytes) (rows cols : Nat)
    (before : Store) (outcome : Except PyFailure UvmBatch) (after : Store) : Prop where
  opened : after.opened = before.opened
  touched : after.touched = before.touched
  memory : (∃ failure, outcome = .error failure ∧
      after.memory.account = before.memory.account) ∨
    ∃ tensor, outcome = .ok ⟨tensor, rows, cols⟩ ∧
      Delivered files path content data ⟨tensor, rows, cols⟩ before after

/-- A batch that is touched gives back the memory that it took. -/
theorem Delivered.touchBatch {path : String} {data : Bytes} {batch : UvmBatch} {loaded : Store}
    {outcome : Except Failure Unit}
    (delivered : Delivered files path content data batch before loaded)
    (sound : before.memory.account.Sound) (exact_ : before.memory.account.Exact)
    (evaluation : Evaluates (onFiles files OwnedFiles) (touchBatch batch).run loaded outcome
      after) :
    after.memory.account = before.memory.account ∧ after.opened = loaded.opened ∧
      (outcome = .ok () → after.touched = loaded.touched ++ [data]) := by
  have sound' : loaded.memory.account.Sound := by
    rw [delivered.gained]
    exact sound.gained delivered.fresh
  obtain ⟨account, opened, touched⟩ :=
    touchBatch_does sound' delivered.kept delivered.size evaluation
  refine ⟨?_, opened, touched⟩
  rw [account, delivered.gained]
  exact Account.released_gained sound exact_ delivered.fresh

theorem bindUvmTensorFromFile_loads {path policy : String} {rows cols offset : Nat} {device : Int}
    {outcome : Except PyFailure UvmBatch} (only : files.Only path content)
    (addressable : rows * cols * 4 < 2 ^ 63) (near : offset < 2 ^ 64)
    (sound : before.memory.account.Sound) (exact_ : before.memory.account.Exact)
    (evaluation : Evaluates (onFiles files OwnedFiles)
      (bindUvmTensorFromFile path rows cols offset device policy).run before outcome after) :
    Loads files path content (slice content offset (rows * cols * 4)) rows cols before outcome
      after := by
  rw [bindUvmTensorFromFile] at evaluation
  rcases evaluates_then.mp evaluation with ⟨failure, failed, rfl⟩ | ⟨_, _, converted, load⟩
  · obtain ⟨-, rfl⟩ := evaluates_require.mp failed
    exact ⟨rfl, rfl, .inl ⟨failure, rfl, rfl⟩⟩
  obtain ⟨-, rfl⟩ := evaluates_require.mp converted
  rcases evaluates_then.mp load with ⟨failure, failed, rfl⟩ | ⟨tensor, loaded, called, rest⟩
  · obtain ⟨inner, load, outcome_eq⟩ := evaluates_callExtension failed
    obtain ⟨opened, touched, gains, -⟩ := load_gains sound exact_ load
    refine ⟨opened, touched, .inl ⟨failure, rfl, ?_⟩⟩
    cases inner with
    | error reason => exact gains.of_error
    | ok tensor => exact absurd outcome_eq (by simp [Except.mapError])
  · obtain ⟨inner, load, outcome_eq⟩ := evaluates_callExtension called
    obtain ⟨rfl, rfl⟩ := evaluates_pure.mp rest
    obtain ⟨opened, touched, gains, holds⟩ := load_gains sound exact_ load
    cases inner with
    | error reason => exact absurd outcome_eq (by simp [Except.mapError])
    | ok tensor' =>
        obtain rfl := Except.ok.inj outcome_eq
        obtain ⟨bytes_eq, content', found, length, kept⟩ := holds tensor rfl
        obtain rfl := only content' found
        have size : tensor.bytes.toNat = rows * cols * 4 := by
          rw [bytes_eq]
          exact toNat_tensorBytes addressable
        have place : (UInt64.ofNat offset).toNat = offset := by
          rw [UInt64.toNat_ofNat']
          exact Nat.mod_eq_of_lt near
        rw [place, size] at length kept
        obtain ⟨fresh, gained⟩ := gains.of_ok
        exact ⟨opened, touched, .inr ⟨tensor, rfl, found, fresh, gained, size, length, kept⟩⟩

theorem getitem_loads (moderate : dataset.Moderate) (only : files.Only dataset.path content)
    (inside : idx < dataset.count) {outcome : Except PyFailure UvmBatch}
    (sound : before.memory.account.Sound) (exact_ : before.memory.account.Exact)
    (evaluation : Evaluates (onFiles files OwnedFiles) (dataset.getitem idx).run before outcome
      after) :
    Loads files dataset.path content (dataset.batch content idx)
      (batchRowsAt dataset.rows dataset.batchRows idx) dataset.cols before outcome after := by
  have begins := mul_lt_of_lt_count dataset.positive.2.2 inside
  have fits := @batch_inside dataset.rows dataset.batchRows dataset.cols idx begins
  have addressable := moderate.addressable
  rw [getitem] at evaluation
  rcases evaluates_then.mp evaluation with ⟨_, failed, -⟩ | ⟨len, _, counted, checks⟩
  · rw [len_eq moderate] at failed
    exact absurd (evaluates_liftExcept failed).1 (by simp)
  rw [len_eq moderate] at counted
  obtain ⟨len_eq, rfl⟩ := evaluates_liftExcept counted
  obtain rfl := Except.ok.inj len_eq
  rcases evaluates_then.mp checks with ⟨_, failed, -⟩ | ⟨_, _, checked, load⟩
  · exact absurd (evaluates_require.mp failed).1 (by simp [inside])
  obtain ⟨-, rfl⟩ := evaluates_require.mp checked
  rw [actualRows_eq begins] at load
  rw [batch, batchAt_eq]
  exact bindUvmTensorFromFile_loads only (by omega) (by omega) sound exact_ load

theorem whole_count : min (dataset.count * dataset.batchRows) dataset.rows = dataset.rows :=
  Nat.min_eq_right (le_count_mul dataset.positive.2.2)

/-- All batches are one part of the file. -/
theorem flatten_batch (dataset : MemTierFileDataset) (content : Bytes) :
    ((List.range dataset.count).map (dataset.batch content)).flatten =
      slice content 0 (dataset.rows * dataset.cols * 4) := by
  have joined := flatten_batches content dataset.rows dataset.batchRows (dataset.cols * 4)
    dataset.count
  rwa [whole_count, ← Nat.mul_assoc] at joined

section

variable (lengths : ∀ idx ∈ List.range dataset.count, (dataset.batch content idx).length =
  batchRowsAt dataset.rows dataset.batchRows idx * dataset.cols * 4)

include lengths

/-- Batches that are as long as they should be have the bytes of all rows. -/
theorem sum_length_batch :
    (((List.range dataset.count).map (dataset.batch content)).map List.length).sum =
      dataset.rows * dataset.cols * 4 := by
  have all_rows := sum_batchRowsAt dataset.rows dataset.batchRows dataset.count
  rw [whole_count] at all_rows
  rw [List.map_map, List.map_congr_left (f := List.length ∘ dataset.batch content) lengths]
  simp only [Nat.mul_assoc]
  rw [List.sum_map_mul_right, all_rows]

/-- They lie inside the file. -/
theorem content_long : dataset.rows * dataset.cols * 4 ≤ content.length := by
  have joined := congrArg List.length (flatten_batch dataset content)
  rw [List.length_flatten, sum_length_batch lengths, length_slice] at joined
  omega

end

/-- Whatever happens in the loop, all memory that it takes is given back; when nothing fails the
device has read the batches in order. -/
theorem touchBatches_does (moderate : dataset.Moderate)
    (only : files.Only dataset.path content) {outcome : Except PyFailure (Nat × Nat)}
    (idxs : List Nat) (inside : ∀ idx ∈ idxs, idx < dataset.count) (numBatches totalBytes : Nat)
    (sound : before.memory.account.Sound) (exact_ : before.memory.account.Exact)
    (evaluation : Evaluates (onFiles files OwnedFiles)
      (dataset.touchBatches idxs numBatches totalBytes).run before outcome after) :
    after.memory.account = before.memory.account ∧ after.opened = before.opened ∧
      ∀ result, outcome = .ok result →
        (idxs ≠ [] → files.find dataset.path = some content) ∧
        after.touched = before.touched ++ idxs.map (dataset.batch content) ∧
        (∀ idx ∈ idxs, (dataset.batch content idx).length =
          batchRowsAt dataset.rows dataset.batchRows idx * dataset.cols * 4) ∧
        result = (numBatches + idxs.length,
          totalBytes + ((idxs.map (dataset.batch content)).map List.length).sum) := by
  induction idxs generalizing before numBatches totalBytes with
  | nil =>
      obtain ⟨rfl, rfl⟩ := evaluates_pure.mp evaluation
      exact ⟨rfl, rfl, fun result same => ⟨by simp, by simp, by simp, (Except.ok.inj same).symm⟩⟩
  | cons idx rest induction =>
      obtain ⟨inside, inside_rest⟩ := List.forall_mem_cons.mp inside
      rcases evaluates_then.mp evaluation with ⟨failure, failed, rfl⟩ | ⟨batch, loaded, got, using_⟩
      · obtain ⟨opened, -, ⟨_, -, account⟩ | ⟨_, same, -⟩⟩ :=
          getitem_loads moderate only inside sound exact_ failed
        · exact ⟨account, opened, by simp⟩
        · exact absurd same (by simp)
      obtain ⟨opened, touched, ⟨_, same, -⟩ | ⟨tensor, same, delivered⟩⟩ :=
        getitem_loads moderate only inside sound exact_ got
      · exact absurd same (by simp)
      obtain rfl := Except.ok.inj same
      rcases evaluates_then.mp using_ with ⟨failure, failed, rfl⟩ | ⟨_, used, called, others⟩
      · obtain ⟨inner, use, -⟩ := evaluates_callExtension failed
        obtain ⟨account, opened', -⟩ := delivered.touchBatch sound exact_ use
        exact ⟨account, opened'.trans opened, by simp⟩
      obtain ⟨inner, use, inner_eq⟩ := evaluates_callExtension called
      obtain ⟨account, opened', touched'⟩ := delivered.touchBatch sound exact_ use
      have fine : inner = .ok () := by
        cases inner with
        | error reason => exact absurd inner_eq (by simp [Except.mapError])
        | ok => rfl
      obtain ⟨account', opened'', later⟩ := induction inside_rest (numBatches + 1) _
        (account ▸ sound) (account ▸ exact_) others
      refine ⟨account'.trans account, opened''.trans (opened'.trans opened), ?_⟩
      intro result same
      obtain ⟨-, in_order, lengths, rfl⟩ := later result same
      refine ⟨fun _ => delivered.found, ?_,
        List.forall_mem_cons.mpr ⟨delivered.length, lengths⟩, ?_⟩
      · rw [in_order, touched' fine, touched, List.map_cons, List.append_assoc,
          List.singleton_append]
      · rw [List.map_cons, List.map_cons, List.sum_cons, delivered.length, List.length_cons]
        simp only [UvmBatch.numel, Prod.mk.injEq]
        omega

theorem init_eq_ok {path policy : String} {rows cols batchRows : Nat} {device : Int}
    (opened : init path rows cols batchRows device policy = .ok dataset) :
    dataset.path = path ∧ dataset.rows = rows ∧ dataset.cols = cols ∧
      dataset.batchRows = batchRows := by
  rw [init] at opened
  split at opened
  · split at opened
    · obtain rfl := Except.ok.inj opened
      exact ⟨rfl, rfl, rfl, rfl⟩
    · exact absurd opened (by simp)
  · exact absurd opened (by simp)

end MemTierFileDataset

/-! ## The benchmark -/

section

variable {files : Files} {permits : (op : FileOp) → FileReply op → Prop} {before after : Store}

theorem resetStats_forgets {outcome : Except Failure Unit}
    (evaluation : Evaluates (onFiles files permits) (onStore resetStats).run before outcome after) :
    outcome = .ok () ∧ after.memory.account = before.memory.account.forgotten ∧
      after.opened = before.opened ∧ after.touched = before.touched := by
  obtain ⟨once, opened, touched⟩ := evaluates_onStore evaluation
  have reset := @evaluates_alone files permits (fun _ _ => True) _ _ _ _ _
    (fun _ _ _ => trivial) (fun _ _ _ _ _ => trivial) once
  obtain ⟨_, ⟨_, choice, rfl, execution, -⟩, rfl⟩ := evaluates_issue.mp reset
  simp only [alone, serve, Option.some.injEq, Prod.mk.injEq] at execution
  refine ⟨rfl, ?_, opened, touched⟩
  rw [← execution.2]
  rfl

end

/-- Choices under which a table of four rows is read in two batches, the first in two reads. -/
def fourRows : List FileChoice :=
  List.flatten [[{}], loadsAt 4096 [5, 7], [{}, {}, {}], loadsAt 4096 [4], [{}, {}, {}, {}]]

end MemTier.Managed
