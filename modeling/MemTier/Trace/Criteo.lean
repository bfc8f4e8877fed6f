import MemTier.Trace.Reader

/-!
# Traces of Criteo rows

`preprocess` turns lines of text into a matrix of embedding ids, one row for each line that is not
blank, and writes it with the blocks the ids lie in.
-/

namespace MemTier.Trace

open Containers

/-! ## The libraries underneath -/

/-- What is used of the standard library and NumPy and not looked into. -/
structure Libraries where
  /-- `int(text)`; `none` when it raises. -/
  int : String → Option Int
  /-- Eight bytes of `blake2b` under a person of eight bytes. -/
  blake2b : UInt64 → String → UInt64
  /-- NumPy before version 2 wraps numbers that do not fit their type. -/
  wraps : Bool

/-- The files there are, as lines, and what a pattern matches. -/
structure Workspace where
  lines : String → Option (List String)
  glob : String → List String

/-- `np.asarray` of a Python number. -/
def asDtype (libraries : Libraries) (dtype : Dtype) (value : Nat) : Except PyError Nat :=
  if value < 2 ^ dtype.bits then .ok value
  else if libraries.wraps ∧ value < 2 ^ 64 then .ok (value % 2 ^ dtype.bits)
  else .error .overflowError

/-- `np.asarray` of a label, as a signed byte. -/
def asInt8 (libraries : Libraries) (label : Int) : Except PyError Int :=
  if -2 ^ 7 ≤ label ∧ label < 2 ^ 7 then .ok label
  else if libraries.wraps ∧ -2 ^ 63 ≤ label ∧ label < 2 ^ 63 then .ok (Int.bmod label (2 ^ 8))
  else .error .overflowError

/-- `str.isspace` of a character. -/
def isSpace (char : Char) : Bool :=
  let code := char.toNat
  (9 ≤ code ∧ code ≤ 13) || (28 ≤ code ∧ code ≤ 32) || code = 0x85 || code = 0xA0 ||
    code = 0x1680 || (0x2000 ≤ code ∧ code ≤ 0x200A) || code = 0x2028 || code = 0x2029 ||
    code = 0x202F || code = 0x205F || code = 0x3000

/-- `text.strip()`. -/
def strip (text : List Char) : List Char :=
  ((text.dropWhile isSpace).reverse.dropWhile isSpace).reverse

/-- `text.split()`. -/
def splitSpaces (text : List Char) : List (List Char) :=
  (text.splitOnP isSpace).filter (· ≠ [])

/-! ## Rows -/

/-- A parsed row: its label, if that is a number, and its categorical features. -/
structure CriteoRow where
  label : Option Int
  cats : List String
  deriving DecidableEq, Repr

/-- Number of dense features, which are skipped. -/
def defaultNumDense : Nat := 13

def parseCriteoLine (libraries : Libraries) (line : String) (numFields : Nat) :
    Except PyError CriteoRow :=
  let text := (line.toList.reverse.dropWhile (· = '\n')).reverse
  let parts := (if '\t' ∈ text then text.splitOn '\t' else splitSpaces text).map String.ofList
  match parts with
  | [] => .error (.valueError "empty Criteo row")
  | first :: _ =>
      let catStart := 1 + defaultNumDense
      let cats := (parts.drop catStart).take numFields
      let cats := cats ++ List.replicate (numFields - cats.length) ""
      .ok { label := libraries.int first, cats := cats.take numFields }

/-- The rows of some files in order; a file that is missing is noticed when it is reached. -/
def iterCriteoRows (libraries : Libraries) (workspace : Workspace) (numFields : Nat)
    (paths : List String) : List (Except PyError CriteoRow) :=
  paths.flatMap fun path =>
    match workspace.lines path with
    | none => [.error (.fileNotFound path)]
    | some lines =>
        (lines.filter fun line => strip line.toList ≠ []).map
          fun line => parseCriteoLine libraries line numFields

/-! ## Ids -/

def positiveSize (libraries : Libraries) (piece : List Char) : Except PyError Nat :=
  match libraries.int (String.ofList piece) with
  | none => .error (.valueError "invalid literal for int()")
  | some size =>
      if size ≤ 0 then .error (.valueError "hash sizes must be positive") else .ok size.toNat

/-- One hash size for all fields, or one for each. -/
def parseHashSizes (libraries : Libraries) (value : String) (numFields : Nat) :
    Except PyError (List Nat) :=
  let pieces := ((value.toList.splitOn ',').map strip).filter (· ≠ [])
  match pieces with
  | [piece] => do return List.replicate numFields (← positiveSize libraries piece)
  | _ =>
      if pieces.length ≠ numFields then
        .error (.valueError s!"expected one hash size or {numFields} comma-separated sizes")
      else pieces.mapM (positiveSize libraries)

/-- The loop of `field_offsets_from_hash_sizes`. -/
def fieldOffsetsFrom (total : Nat) : List Nat → List Nat
  | [] => []
  | size :: sizes => total :: fieldOffsetsFrom (total + size) sizes

def fieldOffsetsFromHashSizes (hashSizes : List Nat) : List Nat := fieldOffsetsFrom 0 hashSizes

inductive GlobalIdMode where
  | perFieldOffset | sharedHash
  deriving DecidableEq, Repr

def stableHash64 (libraries : Libraries) (value : String) (seed : Int) : Except PyError Nat :=
  if 0 ≤ seed ∧ seed < 2 ^ 64 then
    .ok (libraries.blake2b (UInt64.ofNat seed.toNat) value).toNat
  else .error .overflowError

/-- The id of one field. -/
def fieldId (libraries : Libraries) (hashSizes fieldOffsets : List Nat) (mode : GlobalIdMode)
    (seed : Int) (field : Nat) (raw : String) : Except PyError Nat := do
  let value := if raw ≠ "" then raw else s!"__EMPTY_FIELD_{field}__"
  let hash ← stableHash64 libraries s!"{field}:{value}" seed
  match mode with
  | .perFieldOffset =>
      match hashSizes[field]?, fieldOffsets[field]? with
      | some size, some offset => return offset + hash % size
      | _, _ => throw (.indexError field)
  | .sharedHash =>
      if hashSizes.sum = 0 then throw .zeroDivisionError else return hash % hashSizes.sum

def categoricalToIds (libraries : Libraries) (cats : List String)
    (hashSizes fieldOffsets : List Nat) (mode : GlobalIdMode) (dropEmpty : Bool) (seed : Int) :
    Except PyError (List Nat) :=
  (cats.zipIdx.filter fun (raw, _) => !(raw = "" && dropEmpty)).mapM fun (raw, field) =>
    fieldId libraries hashSizes fieldOffsets mode seed field raw

/-! ## The trace -/

structure PreprocessArgs where
  input : Option String
  inputGlob : Option String
  maxSamples : Option Nat
  numFields : Nat
  batchSize : Nat
  bagSize : Nat
  hashSize : String
  globalIdMode : GlobalIdMode
  rowsPerBlock : Nat
  dropEmpty : Bool
  saveIds : Bool
  saveBlocks : Bool
  dtype : Dtype
  seed : Int
  deriving DecidableEq, Repr

def inputPaths (workspace : Workspace) (single pattern : Option String) :
    Except PyError (List String) :=
  let matched :=
    match pattern with
    | none => []
    | some pattern => if pattern = "" then [] else
        (workspace.glob pattern).insertionSort (· ≤ ·)
  let paths := single.toList ++ matched
  if paths = [] then .error (.valueError "one of --input or --input-glob is required")
  else .ok paths

/-- Pad a row that lost its empty fields, and cut it to the size of a bag. -/
def bagRow (args : PreprocessArgs) (rowIds : List Nat) : List Nat :=
  let rowIds :=
    if args.dropEmpty ∧ rowIds.length < args.bagSize then
      rowIds ++ List.replicate (args.bagSize - rowIds.length) 0
    else rowIds
  rowIds.take args.bagSize

/-- The loop over rows, the next of which has number `idx`: ids and labels. -/
def collectRows (libraries : Libraries) (args : PreprocessArgs)
    (hashSizes fieldOffsets : List Nat) :
    Nat → List (Except PyError CriteoRow) → Except PyError (List (List Nat) × List Int)
  | _, [] => return ([], [])
  | _, .error error :: _ => throw error
  | idx, .ok row :: rest => do
      let rowIds ← categoricalToIds libraries row.cats hashSizes fieldOffsets args.globalIdMode
        args.dropEmpty args.seed
      let label := row.label.getD (-1)
      if EmbeddingTrace.truthy args.maxSamples ∧ args.maxSamples.getD 0 ≤ idx then
        return ([bagRow args rowIds], [label])
      let (rows, labels) ← collectRows libraries args hashSizes fieldOffsets (idx + 1) rest
      return (bagRow args rowIds :: rows, label :: labels)

/-- What `preprocess` works out before it writes anything. -/
structure Processed where
  hashSizes : List Nat
  fieldOffsets : List Nat
  labels : List Int
  ids : NdArray Nat
  deriving DecidableEq, Repr

/-- The first half of `preprocess`, up to the matrix of ids. -/
def processRows (libraries : Libraries) (workspace : Workspace) (args : PreprocessArgs) :
    Except PyError Processed := do
  let paths ← inputPaths workspace args.input args.inputGlob
  let hashSizes ← parseHashSizes libraries args.hashSize args.numFields
  let fieldOffsets := fieldOffsetsFromHashSizes hashSizes
  let (idsRows, labels) ← collectRows libraries args hashSizes fieldOffsets 1
    (iterCriteoRows libraries workspace args.numFields paths)
  if idsRows = [] then throw (.runtimeError "no Criteo rows were processed")
  let converted ← idsRows.mapM fun row => row.mapM (asDtype libraries args.dtype)
  match NdArray.ofRows converted with
  | none => throw (.valueError "setting an array element with a sequence")
  | some ids => return { hashSizes, fieldOffsets, labels, ids }

/-- What `preprocess` passes to `np.savez`. -/
def Processed.archive (args : PreprocessArgs) (processed : Processed) : Archive where
  metadataJson := some
    { numFields := some processed.ids.stride
      batchSize := some args.batchSize
      bagSize := some args.bagSize
      rowsPerBlock := some args.rowsPerBlock
      totalNumEmbeddings := some processed.hashSizes.sum
      traceLayout := some "samples_by_fields" }
  ids := if args.saveIds then some processed.ids else none
  blockIds :=
    if args.saveBlocks then
      some (processed.ids.map fun id => id % 2 ^ 64 / args.rowsPerBlock % 2 ^ args.dtype.bits)
    else none

/-- `preprocess`, up to the archive that it writes. -/
def preprocess (libraries : Libraries) (workspace : Workspace) (args : PreprocessArgs) :
    Except PyError Archive := do
  let processed ← processRows libraries workspace args
  let _ ← uint64 args.rowsPerBlock
  -- `np.arange` over the offsets of the samples steps by the number of columns.
  if processed.ids.stride = 0 then throw .zeroDivisionError
  let _ ← processed.labels.mapM (asInt8 libraries)
  let _ ← processed.fieldOffsets.mapM (asDtype libraries .uint64)
  let _ ← processed.hashSizes.mapM (asDtype libraries .uint64)
  return processed.archive args

/-! ## The shape of the matrix -/

/-- Number of ids that a row contributes. -/
def PreprocessArgs.width (args : PreprocessArgs) : Nat :=
  if args.dropEmpty then args.bagSize else min args.numFields args.bagSize

section

variable {libraries : Libraries} {workspace : Workspace} {args : PreprocessArgs}

theorem length_cats {line : String} {numFields : Nat} {row : CriteoRow}
    (parsed : parseCriteoLine libraries line numFields = .ok row) :
    row.cats.length = numFields := by
  rw [parseCriteoLine] at parsed
  split at parsed
  · simp at parsed
  · obtain rfl := Except.ok.inj parsed
    simp only [List.length_take, List.length_append, List.length_replicate]
    omega

theorem length_cats_of_mem {numFields : Nat} {paths : List String} {row : CriteoRow}
    (member : .ok row ∈ iterCriteoRows libraries workspace numFields paths) :
    row.cats.length = numFields := by
  obtain ⟨path, -, member⟩ := List.mem_flatMap.mp member
  split at member
  · simp at member
  · obtain ⟨line, -, parsed⟩ := List.mem_map.mp member
    exact length_cats parsed

/-- Without dropping, every field of a row has an id. -/
theorem length_categoricalToIds {cats : List String} {hashSizes fieldOffsets rowIds : List Nat}
    {mode : GlobalIdMode} {seed : Int}
    (mapped : categoricalToIds libraries cats hashSizes fieldOffsets mode false seed =
      .ok rowIds) : rowIds.length = cats.length := by
  have rounds := (forall₂_of_mapM_eq_ok mapped).length_eq
  simpa using rounds.symm

theorem length_bagRow {rowIds : List Nat}
    (complete : args.dropEmpty = false → rowIds.length = args.numFields) :
    (bagRow args rowIds).length = args.width := by
  rw [bagRow, PreprocessArgs.width, List.length_take]
  cases dropped : args.dropEmpty with
  | false => simp [complete dropped, Nat.min_comm]
  | true =>
      simp only [true_and, if_true]
      split
      · simp only [List.length_append, List.length_replicate]
        omega
      · omega

/-- A first row that is collected, on its own or with the rows that follow. -/
theorem collectRows_cons_eq_ok {hashSizes fieldOffsets : List Nat} {idx : Nat}
    {item : Except PyError CriteoRow} {rest : List (Except PyError CriteoRow)}
    {rows : List (List Nat)} {labels : List Int}
    (collected : collectRows libraries args hashSizes fieldOffsets idx (item :: rest) =
      .ok (rows, labels)) :
    ∃ row rowIds, item = .ok row ∧
      categoricalToIds libraries row.cats hashSizes fieldOffsets args.globalIdMode args.dropEmpty
        args.seed = .ok rowIds ∧
      (rows = [bagRow args rowIds] ∨ ∃ later laterLabels,
        collectRows libraries args hashSizes fieldOffsets (idx + 1) rest =
          .ok (later, laterLabels) ∧ rows = bagRow args rowIds :: later) := by
  cases item with
  | error error => simp [collectRows, throw, throwThe, MonadExceptOf.throw] at collected
  | ok row =>
      rw [collectRows] at collected
      obtain ⟨rowIds, mapped, collected⟩ := bind_eq_ok.mp collected
      refine ⟨row, rowIds, rfl, mapped, ?_⟩
      dsimp only at collected
      split at collected
      · obtain ⟨rfl, -⟩ := Prod.mk.inj (Except.ok.inj (collected : Except.ok ([_], [_]) = _))
        exact .inl rfl
      · obtain ⟨⟨later, laterLabels⟩, further, collected⟩ := bind_eq_ok.mp collected
        obtain ⟨rfl, -⟩ := Prod.mk.inj (Except.ok.inj (collected : Except.ok (_ :: later, _) = _))
        exact .inr ⟨later, laterLabels, further, rfl⟩

/-- All rows that are collected are equally long. -/
theorem length_collectRows {hashSizes fieldOffsets : List Nat} {idx : Nat}
    {items : List (Except PyError CriteoRow)} {rows : List (List Nat)} {labels : List Int}
    (complete : ∀ row, .ok row ∈ items → row.cats.length = args.numFields)
    (collected : collectRows libraries args hashSizes fieldOffsets idx items = .ok (rows, labels)) :
    ∀ row ∈ rows, row.length = args.width := by
  induction items generalizing idx rows labels with
  | nil =>
      obtain ⟨rfl, -⟩ := Prod.mk.inj (Except.ok.inj (collected : Except.ok ([], []) = _))
      simp
  | cons item rest induction =>
      obtain ⟨row, rowIds, rfl, mapped, rows_eq⟩ := collectRows_cons_eq_ok collected
      have bag : (bagRow args rowIds).length = args.width := by
        refine length_bagRow fun kept => ?_
        rw [kept] at mapped
        rw [length_categoricalToIds mapped, complete row List.mem_cons_self]
      rcases rows_eq with rfl | ⟨later, laterLabels, further, rfl⟩
      · simpa using bag
      · rw [List.forall_mem_cons]
        exact ⟨bag, induction (fun row member => complete row (List.mem_cons_of_mem _ member))
          further⟩

theorem asDtype_lt {dtype : Dtype} {value result : Nat}
    (converted : asDtype libraries dtype value = .ok result) : result < 2 ^ dtype.bits := by
  rw [asDtype] at converted
  split at converted
  · rename_i fits
    exact Except.ok.inj converted ▸ fits
  · split at converted
    · exact Except.ok.inj converted ▸ Nat.mod_lt _ (by positivity)
    · simp at converted

/-- What it takes to write an archive. -/
theorem preprocess_eq_ok {archive : Archive}
    (written : preprocess libraries workspace args = .ok archive) :
    ∃ processed, processRows libraries workspace args = .ok processed ∧
      args.rowsPerBlock < 2 ^ 64 ∧ processed.ids.stride ≠ 0 ∧
        archive = processed.archive args := by
  rw [preprocess] at written
  obtain ⟨processed, built, written⟩ := bind_eq_ok.mp written
  obtain ⟨rows, fits, written⟩ := bind_eq_ok.mp written
  refine ⟨processed, built, (uint64_eq_ok.mp fits).1, ?_⟩
  dsimp only at written
  split at written
  · simp [bind, Except.bind, throw, throwThe, MonadExceptOf.throw] at written
  · obtain ⟨_, -, written⟩ := bind_eq_ok.mp written
    obtain ⟨_, -, written⟩ := bind_eq_ok.mp written
    obtain ⟨_, -, written⟩ := bind_eq_ok.mp written
    exact ⟨‹_›, (Except.ok.inj written).symm⟩

/-- The matrix of ids has a row for each sample, as wide as a bag or as the fields allow, and its
ids fit their type. -/
theorem processRows_shape {processed : Processed}
    (built : processRows libraries workspace args = .ok processed) :
    (∃ samples, 0 < samples ∧ processed.ids.shape = [samples, args.width]) ∧
      ∀ id ∈ processed.ids.data, id < 2 ^ args.dtype.bits := by
  rw [processRows] at built
  obtain ⟨paths, -, built⟩ := bind_eq_ok.mp built
  obtain ⟨hashSizes, -, built⟩ := bind_eq_ok.mp built
  obtain ⟨⟨rows, labels⟩, collected, built⟩ := bind_eq_ok.mp built
  dsimp only at built
  split at built
  · simp [bind, Except.bind, throw, throwThe, MonadExceptOf.throw] at built
  · rename_i nonempty
    obtain ⟨converted, conversion, built⟩ := bind_eq_ok.mp built
    have equal := length_collectRows (fun row member => length_cats_of_mem member) collected
    have equal' : ∀ row ∈ converted, row.length = args.width := by
      intro row member
      obtain ⟨source, listed, round⟩ := exists_of_mapM_eq_ok conversion member
      rw [← (forall₂_of_mapM_eq_ok round).length_eq, equal source listed]
    have nonempty' : converted ≠ [] := by
      rintro rfl
      exact nonempty (List.forall₂_nil_right_iff.mp (forall₂_of_mapM_eq_ok conversion))
    split at built
    · simp [throw, throwThe, MonadExceptOf.throw] at built
    · rename_i ids assembled
      obtain rfl := Except.ok.inj built
      obtain ⟨shape, data⟩ := NdArray.ofRows_eq_some nonempty' equal' assembled
      refine ⟨⟨converted.length, List.length_pos_iff.mpr nonempty', shape⟩, fun id member => ?_⟩
      rw [data] at member
      obtain ⟨row, listed, member⟩ := List.mem_flatten.mp member
      obtain ⟨source, -, round⟩ := exists_of_mapM_eq_ok conversion listed
      obtain ⟨value, -, cast⟩ := exists_of_mapM_eq_ok round member
      exact asDtype_lt cast

end

end MemTier.Trace
