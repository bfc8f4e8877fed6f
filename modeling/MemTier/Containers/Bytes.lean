import Mathlib.Tactic

/-!
# Byte strings and byte memory

File contents and buffers are byte strings; `slice` is the range of a string that a read asks for.
A `Memory` is a flat byte-addressed store, in which ranges that do not meet do not interfere.
-/

namespace Containers

/-- A byte string. -/
abbrev Bytes : Type := List UInt8

/-- The bytes of a content from `offset` on, at most `length` of them. -/
def slice (content : Bytes) (offset length : Nat) : Bytes :=
  (content.drop offset).take length

@[simp] theorem length_slice (content : Bytes) (offset length : Nat) :
    (slice content offset length).length = min length (content.length - offset) := by
  simp [slice]

theorem length_slice_of_le {content : Bytes} {offset length : Nat}
    (inside : offset + length ≤ content.length) :
    (slice content offset length).length = length := by
  rw [length_slice]
  omega

/-- Adjacent ranges join. -/
theorem slice_append (content : Bytes) (offset first second : Nat) :
    slice content offset first ++ slice content (offset + first) second =
      slice content offset (first + second) := by
  simp [slice, List.take_add, List.drop_drop]

/-- A range inside a range. -/
theorem slice_slice {content : Bytes} {offset length inner count : Nat}
    (inside : inner + count ≤ length) :
    slice (slice content offset length) inner count = slice content (offset + inner) count := by
  simp only [slice, List.drop_take, List.take_take, List.drop_drop]
  congr 1
  omega

/-- A content that only grew still holds every range it held. -/
theorem slice_of_grown {content grown : Bytes} {offset length : Nat}
    (growth : content <+: grown) (inside : offset + length ≤ content.length) :
    slice grown offset length = slice content offset length := by
  obtain ⟨appended, rfl⟩ := growth
  have short : length - (content.length - offset) = 0 := by omega
  rw [slice, slice, List.drop_append_of_le_length (by omega), List.take_append]
  simp [short]

/-- A range past the end is empty. -/
theorem slice_eq_nil {content : Bytes} {offset length : Nat}
    (past : content.length ≤ offset) : slice content offset length = [] := by
  simp [slice, List.drop_eq_nil_of_le past]

/-- Strings of one length, laid out one after another. -/
theorem slice_flatten {strings : List Bytes} {width : Nat}
    (uniform : ∀ string ∈ strings, string.length = width) {index : Nat} {string : Bytes}
    (found : strings[index]? = some string) :
    slice strings.flatten (index * width) width = string := by
  induction strings generalizing index with
  | nil => simp at found
  | cons first strings induction =>
      rw [List.forall_mem_cons] at uniform
      rw [List.flatten_cons, slice]
      cases index with
      | zero =>
          obtain rfl := Option.some.inj found
          rw [Nat.zero_mul, List.drop_zero, List.take_left' uniform.1]
      | succ index =>
          rw [List.getElem?_cons_succ] at found
          rw [Nat.succ_mul, Nat.add_comm, ← List.drop_drop, List.drop_left' uniform.1]
          exact induction uniform.2 found

/-- A string read from an offset on is the range of its own length. -/
theorem eq_slice_of_front {content data : Bytes} {offset : Nat}
    (read : data <+: content.drop offset) : data = slice content offset data.length :=
  List.prefix_iff_eq_take.mp read

/-- Reading on where the last read stopped. -/
theorem append_prefix_drop {content data more : Bytes} {offset count : Nat}
    (read : data <+: content.drop offset)
    (next : more <+: slice content (offset + data.length) count) :
    data ++ more <+: content.drop offset := by
  obtain ⟨rest, split⟩ := read
  have tail : content.drop (offset + data.length) = rest := by
    rw [← List.drop_drop, ← split, List.drop_left]
  rw [← split]
  refine (List.prefix_append_right_inj data).mpr ?_
  rw [← tail]
  exact next.trans (List.take_prefix _ _)

/-- A zero-initialised buffer after `data` was stored at its start. -/
def zeroFill (size : Nat) (data : Bytes) : Bytes :=
  data ++ List.replicate (size - data.length) 0

theorem length_zeroFill {size : Nat} {data : Bytes} (fits : data.length ≤ size) :
    (zeroFill size data).length = size := by
  simp only [zeroFill, List.length_append, List.length_replicate]
  omega

theorem zeroFill_of_length {size : Nat} {data : Bytes} (full : data.length = size) :
    zeroFill size data = data := by
  simp [zeroFill, full]

@[simp] theorem take_zeroFill (size : Nat) (data : Bytes) :
    (zeroFill size data).take data.length = data := by
  simp [zeroFill]

/-- The filling does not reach into ranges of the data. -/
theorem slice_zeroFill {size : Nat} {data : Bytes} {offset length : Nat}
    (inside : offset + length ≤ data.length) :
    slice (zeroFill size data) offset length = slice data offset length :=
  slice_of_grown (List.prefix_append _ _) inside

/-- Reading a buffer cell by cell. -/
theorem map_getD_range {size : Nat} {data : Bytes} (length : data.length = size) :
    (List.range size).map (fun index => data.getD index 0) = data := by
  apply List.ext_getElem (by simp [length])
  intro index _ bound
  simp [List.getD_eq_getElem?_getD, List.getElem?_eq_getElem bound]

/-- A flat byte-addressed store. -/
abbrev Memory : Type := Nat → UInt8

namespace Memory

/-- Store a byte string from an address on. -/
def write (memory : Memory) (address : Nat) (bytes : Bytes) : Memory := fun cell =>
  if address ≤ cell then (bytes[cell - address]?).getD (memory cell) else memory cell

/-- Load `length` bytes from an address on. -/
def read (memory : Memory) (address length : Nat) : Bytes :=
  (List.range length).map fun index => memory (address + index)

@[simp] theorem length_read (memory : Memory) (address length : Nat) :
    (memory.read address length).length = length := by
  simp [read]

theorem write_apply_of_lt {memory : Memory} {address cell : Nat} {bytes : Bytes}
    (before : cell < address) : memory.write address bytes cell = memory cell := by
  simp [write, Nat.not_le.mpr before]

theorem write_apply_of_ge {memory : Memory} {address cell : Nat} {bytes : Bytes}
    (after : address + bytes.length ≤ cell) : memory.write address bytes cell = memory cell := by
  have past : bytes[cell - address]? = none := List.getElem?_eq_none (by omega)
  simp [write, past]

/-- A store does not change a range it does not meet. -/
theorem read_write_disjoint {memory : Memory} {address target length : Nat} {bytes : Bytes}
    (disjoint : address + length ≤ target ∨ target + bytes.length ≤ address) :
    (memory.write target bytes).read address length = memory.read address length := by
  apply List.map_congr_left
  intro index member
  have bound := List.mem_range.mp member
  rcases disjoint with before | after
  · exact write_apply_of_lt (by omega)
  · exact write_apply_of_ge (by omega)

/-- Loading what was just stored. -/
theorem read_write_same (memory : Memory) (address : Nat) (bytes : Bytes) :
    (memory.write address bytes).read address bytes.length = bytes := by
  apply List.ext_getElem (by simp)
  intro index _ bound
  simp [read, write, List.getElem?_eq_getElem bound]

/-- Two stores in a row, the second right behind the first. -/
theorem write_write_append (memory : Memory) (address : Nat) (first second : Bytes) :
    (memory.write address first).write (address + first.length) second =
      memory.write address (first ++ second) := by
  funext cell
  by_cases before : cell < address
  · rw [write_apply_of_lt (by omega), write_apply_of_lt before, write_apply_of_lt before]
  · by_cases inFirst : cell < address + first.length
    · rw [write_apply_of_lt inFirst]
      simp [write, Nat.not_lt.mp before,
        List.getElem?_append_left (show cell - address < first.length by omega)]
    · have shift : cell - address - first.length = cell - (address + first.length) := by omega
      have past : first[cell - address]? = none := List.getElem?_eq_none (by omega)
      simp [write, Nat.not_lt.mp before, Nat.not_lt.mp inFirst,
        List.getElem?_append_right (show first.length ≤ cell - address by omega), past, shift]

/-- Storing what is already there changes nothing. -/
theorem write_of_read_eq {memory : Memory} {address : Nat} {bytes : Bytes}
    (there : memory.read address bytes.length = bytes) : memory.write address bytes = memory := by
  funext cell
  by_cases before : cell < address
  · exact write_apply_of_lt before
  · by_cases past : address + bytes.length ≤ cell
    · exact write_apply_of_ge past
    · have bound : cell - address < bytes.length := by omega
      have entry : bytes[cell - address]? = some (memory cell) := by
        conv_lhs => rw [← there]
        simp only [read, List.getElem?_map, List.getElem?_range bound, Option.map_some]
        congr 2
        omega
      simp [write, entry]

/-- A range inside a range. -/
theorem slice_read {memory : Memory} {address length inner count : Nat}
    (inside : inner + count ≤ length) :
    slice (memory.read address length) inner count = memory.read (address + inner) count := by
  apply List.ext_getElem
  · simp only [length_slice, length_read]
    omega
  · intro index first second
    simp [slice, read, Nat.add_assoc]

/-- What was stored is in front. -/
theorem prefix_read_write (memory : Memory) (address : Nat) {bytes : Bytes} {length : Nat}
    (fits : bytes.length ≤ length) :
    bytes <+: (memory.write address bytes).read address length := by
  have front := @slice_read (memory.write address bytes) address length 0 bytes.length (by omega)
  rw [Nat.add_zero, read_write_same] at front
  rw [List.prefix_iff_eq_take]
  simpa [slice] using front.symm

end Memory
end Containers
