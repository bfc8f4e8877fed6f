import MemTier.Containers.Scatter
import MemTier.Managed.Memory

/-!
# Touching a tensor on the device

`touch_gpu` copies a managed tensor to device memory, one thread for each element. The index of a
thread is computed in 32 bits and widened afterwards.
-/

namespace MemTier.Managed

open Containers

/-- A thread of a launch with blocks in one dimension. -/
structure Thread where
  blockIdx : UInt32
  threadIdx : UInt32
  deriving DecidableEq, Repr

/-- Number of threads of a block. -/
def blockDim : UInt32 := 256

/-- The index of a thread, before it is widened to an `int64_t`. -/
def Thread.index (thread : Thread) : UInt32 :=
  thread.blockIdx * blockDim + thread.threadIdx

/-- Number of blocks for so many elements. -/
def blocks (n : Nat) : Int32 := Int32.ofNat ((n + blockDim.toNat - 1) / blockDim.toNat)

/-- The grids that a device accepts. -/
def AcceptsGrid (blocks : Int32) : Prop :=
  0 < blocks.toUInt32.toNat ∧ blocks.toUInt32.toNat < 2 ^ 31

instance (blocks : Int32) : Decidable (AcceptsGrid blocks) := inferInstanceAs (Decidable (_ ∧ _))

/-- The threads of a launch. -/
def threads (blocks : Int32) : List Thread :=
  (List.range blocks.toUInt32.toNat).flatMap fun blockIdx =>
    (List.range blockDim.toNat).map fun threadIdx =>
      { blockIdx := UInt32.ofNat blockIdx, threadIdx := UInt32.ofNat threadIdx }

/-- The thread stores into the element. -/
def Thread.Touches (n : Nat) (thread : Thread) (element : Nat) : Prop :=
  thread.index.toNat = element ∧ thread.index.toNat < n

instance (n : Nat) (thread : Thread) (element : Nat) : Decidable (thread.Touches n element) :=
  inferInstanceAs (Decidable (_ ∧ _))

section

variable {float : Type} [Mul float] [One float]

/-- What a thread stores, and where. -/
def touchKernel (x : List float) (n : Nat) (thread : Thread) : Option (Option (Nat × float)) :=
  let i := thread.index.toNat
  if i < n then do
    let value ← x[i]?
    return some (i, value * 1)
  else return none

/-- Element types of a tensor, as far as they are told apart. -/
inductive ScalarType where
  | float32 | other
  deriving DecidableEq, Repr

/-- A tensor of PyTorch without its shape. -/
structure FloatTensor (float : Type) where
  scalarType : ScalarType
  isContiguous : Bool
  isCuda : Bool
  data : List float
  deriving DecidableEq, Repr

/-- What the device and PyTorch do during a call: which calls succeed, what `torch::empty` finds in
the memory it takes, and the order in which threads get to run. -/
structure TouchRun (float : Type) where
  getDevice : Bool
  guarded : Bool
  allocated : Bool
  contents : Nat → float
  launched : Bool
  synchronized : Bool
  order : List Thread

def touchGpu (run : TouchRun float) (tensor : FloatTensor float) :
    Except Failure (FloatTensor float) := do
  if tensor.scalarType ≠ .float32 then
    throw (.c10Error "touch_gpu currently supports float32 tensors only")
  if !tensor.isContiguous then throw (.c10Error "touch_gpu expects a contiguous tensor")
  if tensor.isCuda then
    throw (.c10Error "touch_gpu expects the UVM pointer wrapped as a CPU tensor")
  if tensor.data.length = 0 then throw (.c10Error "touch_gpu expects a non-empty tensor")
  if !run.getDevice then throw (.cudaError "cudaGetDevice(&device)")
  if !run.guarded then throw (.c10Error "CUDAGuard")
  if !run.allocated then throw (.c10Error "empty")
  let n := tensor.data.length
  let out := (List.range n).map run.contents
  if !run.launched ∨ ¬ AcceptsGrid (blocks n) then throw (.cudaError "cudaGetLastError()")
  match Scatter.run (touchKernel tensor.data n) run.order out with
  | none => throw (.cudaError "cudaStreamSynchronize(stream)")
  | some data =>
      if !run.synchronized then throw (.cudaError "cudaStreamSynchronize(stream)")
      return { tensor with isCuda := true, data }

end

/-! ## Which thread touches which element -/

theorem flatMap_range_block (count size : Nat) :
    ((List.range count).flatMap fun block => (List.range size).map fun lane => block * size + lane) =
      List.range (count * size) := by
  induction count with
  | zero => simp
  | succ count induction =>
      rw [List.range_succ, List.flatMap_append, induction, Nat.succ_mul, List.range_add,
        List.flatMap_singleton]

/-- The threads have the numbers from zero on as indices, until 32 bits do not suffice. -/
theorem index_threads (blocks : Int32) :
    (threads blocks).map (·.index.toNat) =
      (List.range (blocks.toUInt32.toNat * blockDim.toNat)).map (· % 2 ^ 32) := by
  rw [← flatMap_range_block, threads, List.map_flatMap, List.map_flatMap]
  simp only [List.map_map]
  congr 1
  funext block
  apply List.map_congr_left
  intro lane _
  have size : blockDim.toNat = 256 := rfl
  simp only [Function.comp_apply, Thread.index, UInt32.toNat_add, UInt32.toNat_mul,
    UInt32.toNat_ofNat', size]
  omega

theorem gridDim_eq {n : Nat} (small : n < 2 ^ 38) :
    (blocks n).toUInt32.toNat = (n + 255) / 256 := by
  have size : blockDim.toNat = 256 := rfl
  rw [blocks, size, Int32.toUInt32_ofNat', UInt32.toNat_ofNat']
  omega

theorem acceptsGrid_blocks {n : Nat} (positive : 0 < n) (small : n < 2 ^ 38) :
    AcceptsGrid (blocks n) := by
  rw [AcceptsGrid, gridDim_eq small]
  omega

/-- How many threads touch an element. -/
def touchCount (n element : Nat) : Nat :=
  (threads (blocks n)).countP fun thread => thread.Touches n element

theorem touchCount_eq {n : Nat} (small : n < 2 ^ 38) (element : Nat) :
    touchCount n element =
      if element < n then
        ((List.range ((n + 255) / 256 * 256)).map (· % 2 ^ 32)).count element
      else 0 := by
  have indices := index_threads (blocks n)
  have size : blockDim.toNat = 256 := rfl
  rw [gridDim_eq small, size] at indices
  rw [touchCount]
  split
  · rename_i inside
    rw [← indices, List.count, List.countP_map]
    apply List.countP_congr
    intro thread _
    rw [decide_eq_true_iff, Function.comp_apply, beq_iff_eq, Thread.Touches]
    omega
  · rename_i outside
    apply List.countP_eq_zero.mpr
    intro thread _
    rw [decide_eq_true_eq, Thread.Touches]
    omega

/-- As long as 32 bits suffice, every element is touched by one thread. -/
theorem touchCount_of_le {n : Nat} (le : n ≤ 2 ^ 32) (element : Nat) :
    touchCount n element = if element < n then 1 else 0 := by
  rw [touchCount_eq (by omega)]
  split
  · have unwrapped : (List.range ((n + 255) / 256 * 256)).map (· % 2 ^ 32) =
        List.range ((n + 255) / 256 * 256) := by
      conv_rhs => rw [← List.map_id (List.range ((n + 255) / 256 * 256))]
      apply List.map_congr_left
      intro number member
      rw [List.mem_range] at member
      exact Nat.mod_eq_of_lt (by omega)
    rw [unwrapped, List.count_range, if_pos (by omega)]
  · rfl

/-- Beyond that there are elements that no thread touches. -/
theorem touchCount_wrapped {n element : Nat} (small : n < 2 ^ 38) (high : 2 ^ 32 ≤ element) :
    touchCount n element = 0 := by
  rw [touchCount_eq small]
  split
  · apply List.count_eq_zero.mpr
    intro member
    obtain ⟨number, -, same⟩ := List.mem_map.mp member
    omega
  · rfl

/-! ## What is returned -/

/-- The tensors that `touch_gpu` takes. -/
structure FloatTensor.Valid {float : Type} (tensor : FloatTensor float) : Prop where
  scalarType : tensor.scalarType = .float32
  isContiguous : tensor.isContiguous = true
  isCuda : tensor.isCuda = false
  nonempty : 0 < tensor.data.length

/-- No call fails, and every thread of the launch runs once. -/
structure TouchRun.Succeeds {float : Type} (run : TouchRun float) (n : Nat) : Prop where
  getDevice : run.getDevice = true
  guarded : run.guarded = true
  allocated : run.allocated = true
  launched : run.launched = true
  synchronized : run.synchronized = true
  order : run.order.Perm (threads (blocks n))

section

variable {float : Type} [Mul float] [One float] {run : TouchRun float}
  {tensor : FloatTensor float}

theorem touchGpu_eq (valid : tensor.Valid) (small : tensor.data.length < 2 ^ 38)
    (succeeds : run.Succeeds tensor.data.length) {data : List float}
    (ran : Scatter.run (touchKernel tensor.data tensor.data.length) run.order
      ((List.range tensor.data.length).map run.contents) = some data) :
    touchGpu run tensor = .ok { tensor with isCuda := true, data } := by
  have grid := acceptsGrid_blocks valid.nonempty small
  have nonzero := valid.nonempty.ne'
  simp [touchGpu, valid.scalarType, valid.isContiguous, valid.isCuda, nonzero, succeeds.getDevice,
    succeeds.guarded, succeeds.allocated, succeeds.launched, succeeds.synchronized, grid, ran]
  rfl

/-- What a thread stores. -/
def stores (x : List float) (thread : Thread) : Option (Nat × float) :=
  if inside : thread.index.toNat < x.length then
    some (thread.index.toNat, x[thread.index.toNat] * 1)
  else none

theorem touchKernel_eq {x : List float} (thread : Thread) :
    touchKernel x x.length thread = some (stores x thread) := by
  rw [touchKernel, stores]
  split
  · rename_i inside
    simp [inside]
  · rfl

theorem stores_eq_some {x : List float} {thread : Thread} {store : Nat × float}
    (stored : stores x thread = some store) :
    thread.Touches x.length store.1 ∧ x[store.1]?.map (· * 1) = some store.2 := by
  rw [stores] at stored
  split at stored
  · rename_i inside
    rw [Option.some.injEq] at stored
    subst stored
    exact ⟨⟨rfl, inside⟩, by simp [inside]⟩
  · simp at stored

theorem stores_of_touches {x : List float} {thread : Thread} {element : Nat}
    (touches : thread.Touches x.length element) :
    ∃ value, stores x thread = some (element, value) := by
  obtain ⟨rfl, inside⟩ := touches
  exact ⟨_, by rw [stores, dif_pos inside]⟩

/-- No thread stores outside the tensor. -/
theorem stores_inside (x : List float) (order : List Thread) (contents : Nat → float) :
    ∀ thread ∈ order, ∀ store ∈ stores x thread,
      store.1 < ((List.range x.length).map contents).length := by
  intro thread _ store stored
  obtain ⟨here, inside⟩ := (stores_eq_some stored).1
  rw [List.length_map, List.length_range]
  omega

/-- Every thread of a launch keeps to the tensor, whatever the order. -/
theorem run_stays (x : List float) (order : List Thread) (contents : Nat → float) :
    ∃ data, Scatter.run (touchKernel x x.length) order ((List.range x.length).map contents) =
        some data ∧
      ∀ element, (∀ thread ∈ order, ¬ thread.Touches x.length element) →
        data[element]? = ((List.range x.length).map contents)[element]? := by
  obtain ⟨data, ran, others⟩ :=
    Scatter.run_inside (fun thread _ => touchKernel_eq thread) (stores_inside x order contents)
  refine ⟨data, ran, fun element untouched => others element ?_⟩
  rintro thread member store stored rfl
  exact untouched thread member (stores_eq_some stored).1

/-- No two threads touch the same element if no element is touched twice. -/
theorem pairwise_touches {n : Nat} {order : List Thread}
    (once : ∀ element, order.countP (fun thread => thread.Touches n element) ≤ 1) :
    order.Pairwise fun thread other =>
      ∀ element, thread.Touches n element → ¬ other.Touches n element := by
  induction order with
  | nil => exact .nil
  | cons thread rest induction =>
      simp only [List.countP_cons] at once
      refine .cons ?_ (induction fun element => Nat.le_of_add_right_le (once element))
      intro other member element touches touched
      have some_other : 0 < rest.countP fun thread => thread.Touches n element :=
        List.countP_pos_iff.mpr ⟨other, member, decide_eq_true touched⟩
      have count := once element
      rw [if_pos (decide_eq_true touches)] at count
      omega

/-- Where every element is touched by one thread, all of them are copied. -/
theorem run_copies {x : List float} {order : List Thread} (contents : Nat → float)
    (once : ∀ element, order.countP (fun thread => thread.Touches x.length element) =
      if element < x.length then 1 else 0) :
    Scatter.run (touchKernel x x.length) order ((List.range x.length).map contents) =
      some (x.map (· * 1)) := by
  have distinct : order.Pairwise fun thread other =>
      ∀ store ∈ stores x thread, ∀ store' ∈ stores x other, store.1 ≠ store'.1 := by
    apply (pairwise_touches fun element => ?_).imp
    · intro thread other apart store stored store' stored' same
      apply apart store.1 (stores_eq_some stored).1
      rw [same]
      exact (stores_eq_some stored').1
    · rw [once]
      split <;> omega
  obtain ⟨data, ran, length, kept, -⟩ := Scatter.run_distinct
    (fun thread _ => touchKernel_eq thread) distinct (stores_inside x order contents)
  rw [List.length_map, List.length_range] at length
  rw [ran, Option.some.injEq]
  apply List.ext_getElem?
  intro element
  by_cases inside : element < x.length
  · have some_thread : 0 < order.countP (fun thread => thread.Touches x.length element) := by
      rw [once, if_pos inside]
      exact Nat.one_pos
    obtain ⟨thread, member, touches⟩ := List.countP_pos_iff.mp some_thread
    obtain ⟨value, stored⟩ := stores_of_touches (of_decide_eq_true touches)
    rw [kept thread member _ stored, List.getElem?_map]
    exact (stores_eq_some stored).2.symm
  · rw [List.getElem?_eq_none (by omega), List.getElem?_eq_none (by rw [List.length_map]; omega)]

end

/-! ## Coverage -/

/-- The elements that threads touch are those of the tensor, each touched by one thread. -/
def Covers (n : Nat) : Prop :=
  ∀ element, touchCount n element = if element < n then 1 else 0

/-- In every call for so many elements that fails nowhere, a tensor that multiplication by one does
not change is returned as it is. -/
def Copies (float : Type) [Mul float] [One float] (n : Nat) : Prop :=
  ∀ (run : TouchRun float) (tensor : FloatTensor float), tensor.data.length = n → tensor.Valid →
    run.Succeeds n → (∀ value ∈ tensor.data, value * 1 = value) →
    ∃ out, touchGpu run tensor = .ok out ∧ out.data = tensor.data

section

variable {float : Type} [Mul float] [One float]

theorem copies_of_covers {n : Nat} (small : n < 2 ^ 38) (covers : Covers n) : Copies float n := by
  rintro run tensor rfl valid succeeds unchanged
  have once : ∀ element, run.order.countP (fun thread => thread.Touches tensor.data.length element) =
      if element < tensor.data.length then 1 else 0 := by
    intro element
    rw [succeeds.order.countP_eq]
    exact covers element
  refine ⟨_, touchGpu_eq valid small succeeds (run_copies run.contents once), ?_⟩
  conv_rhs => rw [← List.map_id tensor.data]
  exact List.map_congr_left unchanged

theorem not_covers {n : Nat} (small : n < 2 ^ 38) (large : 2 ^ 32 < n) : ¬ Covers n := by
  intro covers
  have last := covers (2 ^ 32)
  rw [touchCount_wrapped small (Nat.le_refl _), if_pos large] at last
  simp at last

/-- What `torch::empty` found stays where no thread stores anything. -/
theorem not_copies {n : Nat} (small : n < 2 ^ 38) (large : 2 ^ 32 < n) {value other : float}
    (unchanged : value * 1 = value) (different : other ≠ value) : ¬ Copies float n := by
  intro copies
  let tensor : FloatTensor float :=
    { scalarType := .float32, isContiguous := true, isCuda := false, data := List.replicate n value }
  let run : TouchRun float :=
    { getDevice := true, guarded := true, allocated := true, contents := fun _ => other,
      launched := true, synchronized := true, order := threads (blocks n) }
  have length : tensor.data.length = n := List.length_replicate ..
  have valid : tensor.Valid := ⟨rfl, rfl, rfl, by omega⟩
  have succeeds : run.Succeeds tensor.data.length := ⟨rfl, rfl, rfl, rfl, rfl, by rw [length]⟩
  obtain ⟨out, returned, same⟩ := copies run tensor length valid (length ▸ succeeds) (by
    intro stored member
    rw [List.eq_of_mem_replicate member]
    exact unchanged)
  obtain ⟨data, ran, others⟩ := run_stays tensor.data run.order run.contents
  rw [touchGpu_eq valid (by rw [length]; exact small) succeeds ran, Except.ok.injEq] at returned
  have untouched : touchCount n (2 ^ 32) = 0 := touchCount_wrapped small (Nat.le_refl _)
  have last := others (2 ^ 32) fun thread member touches =>
    List.countP_eq_zero.mp untouched thread member (decide_eq_true (length ▸ touches))
  rw [← returned] at same
  change data = List.replicate n value at same
  rw [length, same, List.getElem?_replicate, if_pos large, List.getElem?_map,
    List.getElem?_range large, Option.map_some, Option.some.injEq] at last
  exact different last.symm

/-- `touch_gpu` covers a tensor and returns it as it is exactly when the indices of its elements fit
into 32 bits. -/
theorem touch_gpu_covers_iff {n : Nat} (small : n < 2 ^ 38) :
    Covers n ∧ Copies float n ↔ n ≤ 2 ^ 32 := by
  constructor
  · rintro ⟨covers, -⟩
    exact Nat.le_of_not_lt fun large => not_covers small large covers
  · intro le
    have covers : Covers n := touchCount_of_le le
    exact ⟨covers, copies_of_covers small covers⟩

end

theorem touch_gpu_covers_thousand : Covers 1000 ∧ Copies Int 1000 :=
  (touch_gpu_covers_iff (by decide)).mpr (by decide)

/-- Of a tensor with one element more than that, the last one is never stored. -/
theorem touch_gpu_misses_last : ¬ Covers (2 ^ 32 + 1) ∧ ¬ Copies Int (2 ^ 32 + 1) :=
  ⟨not_covers (by decide) (by decide),
    not_copies (by decide) (by decide) (Int.mul_one 0) Int.one_ne_zero⟩

end MemTier.Managed
