import Mathlib.Algebra.BigOperators.Group.List.Basic
import Mathlib.Data.List.Flatten
import Mathlib.Tactic

/-!
# Arrays of several dimensions

What NumPy does to arrays, on a shape and the elements in row-major order.  Taking the rows of an
array in runs of a fixed length and joining them gives back the elements.
-/

namespace Containers

/-- An array: its shape and its elements, row by row. -/
structure NdArray (α : Type) where
  shape : List Nat
  data : List α
  sized : data.length = shape.prod
  deriving DecidableEq, Repr

namespace NdArray

variable {α β : Type}

def ndim (array : NdArray α) : Nat := array.shape.length

/-- Apply a function to every element. -/
def map (f : α → β) (array : NdArray α) : NdArray β where
  shape := array.shape
  data := array.data.map f
  sized := by rw [List.length_map, array.sized]

/-- Apply a function to every element and its position in row-major order. -/
def mapIdx (f : Nat → α → β) (array : NdArray α) : NdArray β where
  shape := array.shape
  data := array.data.mapIdx f
  sized := by rw [List.length_mapIdx, array.sized]

/-- `array.reshape(shape)`. -/
def reshape (array : NdArray α) (shape : List Nat) (same : shape.prod = array.shape.prod) :
    NdArray α where
  shape
  data := array.data
  sized := by rw [array.sized, same]

/-- Number of elements for each position of the first axis. -/
def stride (array : NdArray α) : Nat := array.shape.tail.prod

/-- Extent of the first axis; zero-dimensional arrays have none. -/
def samples (array : NdArray α) : Nat := array.shape.headD 0

theorem length_data (array : NdArray α) (ranked : array.shape ≠ []) :
    array.data.length = array.samples * array.stride := by
  rw [array.sized, samples, stride]
  cases shape : array.shape with
  | nil => exact absurd shape ranked
  | cons samples rest => simp

/-- `array[position]`; `none` for an index out of range. -/
def index (array : NdArray α) (position : Nat) : Option (NdArray α) :=
  if bounded : position < array.samples then
    some
      { shape := array.shape.tail
        data := (array.data.drop (position * array.stride)).take array.stride
        sized := by
          have ranked : array.shape ≠ [] := by
            intro empty
            simp [samples, empty] at bounded
          have room : position * array.stride + array.stride ≤ array.samples * array.stride := by
            rw [← Nat.succ_mul]
            exact Nat.mul_le_mul_right _ bounded
          rw [List.length_take, List.length_drop, array.length_data ranked]
          exact Nat.min_eq_left (by omega) }
  else none

/-- `array[:count]`. -/
def firstRows (array : NdArray α) (ranked : array.shape ≠ []) (count : Nat) : NdArray α where
  shape := min count array.samples :: array.shape.tail
  data := array.data.take (count * array.stride)
  sized := by
    rw [List.length_take, array.length_data ranked, List.prod_cons, Nat.mul_min_mul_right,
      stride]

/-- The elements of `array[start:stop]`, taken along the first axis. -/
def rows (array : NdArray α) (start stop : Nat) : List α :=
  (array.data.take (stop * array.stride)).drop (start * array.stride)

theorem rows_map (f : α → β) (array : NdArray α) (start stop : Nat) :
    (array.map f).rows start stop = (array.rows start stop).map f := by
  simp only [rows, map, stride, List.map_take, List.map_drop]

/-- `np.asarray` of a list of rows; `none` unless they are equally long. -/
def ofRows (lists : List (List α)) : Option (NdArray α) :=
  match lists with
  | [] => some { shape := [0], data := [], sized := rfl }
  | first :: rest =>
      if equal : ∀ row ∈ rest, row.length = first.length then
        some
          { shape := [(first :: rest).length, first.length]
            data := (first :: rest).flatten
            sized := by
              have lengths : (first :: rest).map List.length =
                  List.replicate (first :: rest).length first.length := by
                rw [List.eq_replicate_iff]
                refine ⟨by simp, ?_⟩
                simpa using equal
              rw [List.length_flatten, lengths]
              simp }
      else none

theorem ofRows_eq_some {lists : List (List α)} {array : NdArray α} {width : Nat}
    (nonempty : lists ≠ []) (equal : ∀ row ∈ lists, row.length = width)
    (built : ofRows lists = some array) :
    array.shape = [lists.length, width] ∧ array.data = lists.flatten := by
  cases lists with
  | nil => exact absurd rfl nonempty
  | cons first rest =>
      simp only [ofRows] at built
      split at built
      · obtain rfl := Option.some.inj built
        obtain rfl := equal first List.mem_cons_self
        exact ⟨rfl, rfl⟩
      · simp at built

/-- Rows that make an array are its elements. -/
theorem data_of_ofRows {lists : List (List α)} {array : NdArray α}
    (built : ofRows lists = some array) : array.data = lists.flatten := by
  cases lists with
  | nil => rw [← Option.some.inj (built : some _ = _)]; rfl
  | cons first rest =>
      simp only [ofRows] at built
      split at built
      · rw [← Option.some.inj built]
      · simp at built

/-! ## Runs of rows -/

/-- Successive runs of a list, joined. -/
theorem flatMap_runs (data : List α) (run count : Nat) :
    (List.range count).flatMap (fun position => (data.drop (position * run)).take run) =
      data.take (count * run) := by
  induction count with
  | zero => simp
  | succ count induction =>
      rw [List.range_succ, List.flatMap_append, induction, Nat.succ_mul, List.take_add]
      simp

/-- All values but the last of a function on a range. -/
theorem mem_dropLast_map_range {f : Nat → β} {count : Nat} {value : β} :
    value ∈ ((List.range count).map f).dropLast ↔ ∃ position, position + 1 < count ∧
      f position = value := by
  rw [List.dropLast_eq_take, List.length_map, List.length_range, ← List.map_take,
    List.take_range, List.mem_map]
  simp only [List.mem_range]
  constructor
  · rintro ⟨position, inside, rfl⟩
    exact ⟨position, by omega, rfl⟩
  · rintro ⟨position, inside, rfl⟩
    exact ⟨position, by omega, rfl⟩

/-- Number of runs that cover a number of rows. -/
def runs (samples run : Nat) : Nat := (samples + run - 1) / run

theorem le_runs_mul {samples run : Nat} (positive : 0 < run) : samples ≤ runs samples run * run := by
  have split := Nat.div_add_mod' (samples + run - 1) run
  have inside := Nat.mod_lt (samples + run - 1) positive
  rw [runs]
  omega

theorem runs_le {samples run : Nat} (positive : 0 < run) : runs samples run ≤ samples := by
  rw [runs, Nat.div_le_iff_le_mul positive]
  have large := Nat.le_mul_of_pos_right samples positive
  omega

/-- All runs but the last are full. -/
theorem succ_mul_le_of_lt_runs {samples run position : Nat} (positive : 0 < run)
    (inner : position + 1 < runs samples run) : (position + 1) * run < samples := by
  rw [runs, Nat.lt_iff_add_one_le, Nat.le_div_iff_mul_le positive, Nat.succ_mul] at inner
  omega

/-- There are as many runs as rows only if runs are of one row, or there is one row at most. -/
theorem runs_eq_self_iff {samples run : Nat} (positive : 0 < run) :
    runs samples run = samples ↔ run = 1 ∨ samples ≤ 1 := by
  constructor
  · intro same
    by_contra neither
    rw [not_or] at neither
    have full := @succ_mul_le_of_lt_runs samples run (samples - 2) positive (by omega)
    have large : (samples - 2 + 1) * 2 ≤ (samples - 2 + 1) * run :=
      Nat.mul_le_mul_left _ (by omega)
    omega
  · rintro (rfl | small)
    · simp [runs]
    · rw [runs]
      interval_cases samples
      · exact Nat.div_eq_of_lt (by omega)
      · exact Nat.div_eq_of_lt_le (by omega) (by omega)

/-- A run of rows that ends with the array at the latest. -/
theorem rows_run (array : NdArray α) (ranked : array.shape ≠ []) (run position : Nat) :
    array.rows (position * run) (min array.samples (position * run + run)) =
      (array.data.drop (position * (run * array.stride))).take (run * array.stride) := by
  have length := array.length_data ranked
  rw [rows, List.drop_take, ← Nat.mul_assoc, ← Nat.sub_mul]
  rcases Nat.le_total (position * run + run) array.samples with inside | beyond
  · rw [Nat.min_eq_right inside, Nat.add_sub_cancel_left]
  · rw [Nat.min_eq_left beyond, List.take_of_length_le, List.take_of_length_le]
    · rw [List.length_drop, length, ← Nat.sub_mul]
      exact Nat.mul_le_mul_right _ (by omega)
    · rw [List.length_drop, length, ← Nat.sub_mul]

/-- Runs of rows give back the elements. -/
theorem flatMap_rows (array : NdArray α) (ranked : array.shape ≠ []) {run : Nat}
    (positive : 0 < run) :
    (List.range (runs array.samples run)).flatMap (fun position =>
      array.rows (position * run) (min array.samples (position * run + run))) = array.data := by
  simp only [array.rows_run ranked]
  rw [flatMap_runs, List.take_of_length_le]
  rw [array.length_data ranked, ← Nat.mul_assoc]
  exact Nat.mul_le_mul_right _ (le_runs_mul positive)

/-- All runs but the last have their full length. -/
theorem length_rows (array : NdArray α) (ranked : array.shape ≠ []) {run position : Nat}
    (positive : 0 < run) (inner : position + 1 < runs array.samples run) :
    (array.rows (position * run) (min array.samples (position * run + run))).length =
      run * array.stride := by
  have room : (position + 1) * run * array.stride ≤ array.samples * array.stride :=
    Nat.mul_le_mul_right _ (succ_mul_le_of_lt_runs positive inner).le
  rw [array.rows_run ranked, List.length_take, List.length_drop, array.length_data ranked]
  rw [Nat.add_mul, Nat.add_mul, Nat.one_mul, Nat.mul_assoc] at room
  omega

/-! ## Rows of a matrix -/

/-- An array of two dimensions with the given rows; `none` unless they all have the given width. -/
def matrix (width : Nat) (lists : List (List α)) : Option (NdArray α) :=
  if equal : ∀ row ∈ lists, row.length = width then
    some
      { shape := [lists.length, width]
        data := lists.flatten
        sized := by
          have lengths : lists.map List.length = List.replicate lists.length width := by
            rw [List.eq_replicate_iff]
            exact ⟨List.length_map _, by simpa using equal⟩
          rw [List.length_flatten, lengths]
          simp }
  else none

/-- The rows of an array, one after another. -/
def rowList (array : NdArray α) : List (List α) :=
  (List.range array.samples).map fun position => array.rows position (position + 1)

theorem rows_succ (array : NdArray α) (position : Nat) :
    array.rows position (position + 1) =
      (array.data.drop (position * array.stride)).take array.stride := by
  rw [rows, List.drop_take, Nat.succ_mul, Nat.add_sub_cancel_left]

/-- Runs of the width of all rows are the rows. -/
theorem map_runs_flatten {width : Nat} {lists : List (List α)}
    (equal : ∀ row ∈ lists, row.length = width) :
    (List.range lists.length).map (fun position =>
      (lists.flatten.drop (position * width)).take width) = lists := by
  induction lists with
  | nil => rfl
  | cons first lists induction =>
      obtain ⟨here, later⟩ := List.forall_mem_cons.mp equal
      rw [List.length_cons, List.range_succ_eq_map, List.map_cons, List.map_map, List.flatten_cons,
        Nat.zero_mul, List.drop_zero, List.take_left' here]
      refine congrArg (first :: ·) ((List.map_congr_left fun position _ => ?_).trans
        (induction later))
      rw [Function.comp_apply, Nat.succ_mul, Nat.add_comm, ← List.drop_drop, List.drop_left' here]

theorem matrix_eq_some {width : Nat} {lists : List (List α)} {array : NdArray α}
    (built : matrix width lists = some array) :
    array.shape = [lists.length, width] ∧ array.data = lists.flatten ∧ array.rowList = lists ∧
      ∀ row ∈ lists, row.length = width := by
  rw [matrix] at built
  split at built
  · rename_i equal
    obtain rfl := Option.some.inj built
    refine ⟨rfl, rfl, ?_, equal⟩
    rw [rowList, samples, List.headD_cons]
    simp only [rows_succ, stride, List.tail_cons, List.prod_singleton]
    exact map_runs_flatten equal
  · simp at built

end NdArray

end Containers
