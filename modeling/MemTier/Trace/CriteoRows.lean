import Mathlib.Data.List.GetD
import MemTier.Trace.DeclaredTable

/-!
# Ids of Criteo rows

Each field of a row is mapped to its id on its own, by a hash of its number and its text.  In the
mode that lays fields out one after another the ids of a field stay in the range of the field.
-/

namespace MemTier.Trace

open Containers

/-! ## Ranges of fields -/

theorem le_fieldOffset {total field offset : Nat} {sizes : List Nat}
    (offset_eq : (fieldOffsetsFrom total sizes)[field]? = some offset) : total ≤ offset := by
  induction sizes generalizing total field with
  | nil => simp [fieldOffsetsFrom] at offset_eq
  | cons first sizes induction =>
      cases field with
      | zero => exact (Option.some.inj offset_eq).le
      | succ field => exact Nat.le_of_add_right_le (induction offset_eq)

/-- The ranges of the fields follow one another. -/
theorem fieldOffset_add_le_fieldOffset {total field other offset offset' size : Nat}
    {sizes : List Nat} (before : field < other)
    (offset_eq : (fieldOffsetsFrom total sizes)[field]? = some offset)
    (size_eq : sizes[field]? = some size)
    (offset_eq' : (fieldOffsetsFrom total sizes)[other]? = some offset') :
    offset + size ≤ offset' := by
  induction sizes generalizing total field other with
  | nil => simp at size_eq
  | cons first sizes induction =>
      obtain ⟨other, rfl⟩ := Nat.exists_eq_succ_of_ne_zero (Nat.ne_of_gt (Nat.zero_lt_of_lt before))
      cases field with
      | zero =>
          obtain rfl := Option.some.inj offset_eq
          obtain rfl := Option.some.inj size_eq
          exact le_fieldOffset offset_eq'
      | succ field =>
          exact induction (Nat.lt_of_succ_lt_succ before) offset_eq size_eq offset_eq'

/-! ## The id of a field -/

/-- What stands for the text of an empty field. -/
def placeholder (field : Nat) : String := s!"__EMPTY_FIELD_{field}__"

/-- `stable_hash64` under a seed that it accepts. -/
def seededHash (libraries : Libraries) (seed : Int) (value : String) : Nat :=
  (libraries.blake2b (UInt64.ofNat seed.toNat) value).toNat

/-- The id of a field with the given number and text. -/
def idOf (hash : String → Nat) (hashSizes : List Nat) (mode : GlobalIdMode) (field : Nat)
    (raw : String) : Nat :=
  let value := if raw ≠ "" then raw else placeholder field
  match mode with
  | .perFieldOffset =>
      (fieldOffsetsFromHashSizes hashSizes).getD field 0 +
        hash s!"{field}:{value}" % hashSizes.getD field 0
  | .sharedHash => hash s!"{field}:{value}" % hashSizes.sum

/-- The fields of a row that get ids, with their numbers. -/
def keptFields (dropEmpty : Bool) (cats : List String) : List (String × Nat) :=
  cats.zipIdx.filter fun (raw, _) => !(raw = "" && dropEmpty)

/-- The ids of a row, field by field. -/
def rowIdsOf (hash : String → Nat) (hashSizes : List Nat) (args : PreprocessArgs)
    (row : CriteoRow) : List Nat :=
  (keptFields args.dropEmpty row.cats).map fun (raw, field) =>
    idOf hash hashSizes args.globalIdMode field raw

section

variable {libraries : Libraries} {hashSizes : List Nat} {mode : GlobalIdMode} {seed : Int}

theorem stableHash64_eq_ok {value : String} {hash : Nat}
    (hashed : stableHash64 libraries value seed = .ok hash) :
    hash = seededHash libraries seed value := by
  rw [stableHash64] at hashed
  split at hashed
  · exact (Except.ok.inj hashed).symm
  · simp at hashed

theorem fieldId_eq_ok {field id : Nat} {raw : String}
    (mapped : fieldId libraries hashSizes (fieldOffsetsFromHashSizes hashSizes) mode seed field raw =
      .ok id) : id = idOf (seededHash libraries seed) hashSizes mode field raw := by
  rw [fieldId] at mapped
  obtain ⟨hash, hashed, mapped⟩ := bind_eq_ok.mp mapped
  obtain rfl := stableHash64_eq_ok hashed
  cases mode with
  | perFieldOffset =>
      dsimp only at mapped
      split at mapped
      · rename_i size offset size_eq offset_eq
        simp only [idOf, placeholder, List.getD_eq_getElem?_getD, size_eq, offset_eq,
          Option.getD_some]
        exact (Except.ok.inj mapped).symm
      · simp [throw, throwThe, MonadExceptOf.throw] at mapped
  | sharedHash =>
      dsimp only at mapped
      split at mapped
      · simp [throw, throwThe, MonadExceptOf.throw] at mapped
      · exact (Except.ok.inj mapped).symm

theorem categoricalToIds_eq_ok {args : PreprocessArgs} {row : CriteoRow} {rowIds : List Nat}
    (mapped : categoricalToIds libraries row.cats hashSizes (fieldOffsetsFromHashSizes hashSizes)
      args.globalIdMode args.dropEmpty args.seed = .ok rowIds) :
    rowIds = rowIdsOf (seededHash libraries args.seed) hashSizes args row := by
  have rounds : List.Forall₂ Eq (rowIdsOf (seededHash libraries args.seed) hashSizes args row)
      rowIds :=
    List.forall₂_map_left_iff.mpr <| (forall₂_of_mapM_eq_ok mapped).imp
      fun (_, _) _ round => (fieldId_eq_ok round).symm
  rw [List.forall₂_eq_eq_eq] at rounds
  exact rounds.symm

/-- The rows collected are those of the first lines, each on its own. -/
theorem collectRows_eq_ok {args : PreprocessArgs} {idx : Nat}
    {items : List (Except PyError CriteoRow)} {rows : List (List Nat)} {labels : List Int}
    (collected : collectRows libraries args hashSizes (fieldOffsetsFromHashSizes hashSizes) idx
      items = .ok (rows, labels)) :
    ∃ parsed : List CriteoRow, parsed.map .ok <+: items ∧
      rows = parsed.map fun row =>
        bagRow args (rowIdsOf (seededHash libraries args.seed) hashSizes args row) := by
  induction items generalizing idx rows labels with
  | nil =>
      obtain ⟨rfl, -⟩ := Prod.mk.inj (Except.ok.inj (collected : Except.ok ([], []) = _))
      exact ⟨[], List.nil_prefix, rfl⟩
  | cons item rest induction =>
      obtain ⟨row, rowIds, rfl, mapped, rows_eq⟩ := collectRows_cons_eq_ok collected
      obtain rfl := categoricalToIds_eq_ok mapped
      rcases rows_eq with rfl | ⟨later, laterLabels, further, rfl⟩
      · exact ⟨[row], (List.prefix_cons_inj _).mpr List.nil_prefix, rfl⟩
      · obtain ⟨parsed, front, rfl⟩ := induction further
        exact ⟨row :: parsed, (List.prefix_cons_inj _).mpr front, rfl⟩

end

/-! ## Where ids lie -/

section

variable {hash : String → Nat} {hashSizes : List Nat} {args : PreprocessArgs}

/-- In the mode that lays fields out one after another every id is in the range of its field. -/
theorem idOf_range {field : Nat} (raw : String) (inside : field < hashSizes.length)
    (positive : ∀ size ∈ hashSizes, 0 < size) :
    ∃ offset size, (fieldOffsetsFromHashSizes hashSizes)[field]? = some offset ∧
      hashSizes[field]? = some size ∧ offset ≤ idOf hash hashSizes .perFieldOffset field raw ∧
      idOf hash hashSizes .perFieldOffset field raw < offset + size := by
  have inside' : field < (fieldOffsetsFromHashSizes hashSizes).length := by
    rwa [fieldOffsetsFromHashSizes, length_fieldOffsetsFrom]
  refine ⟨_, _, List.getElem?_eq_getElem inside', List.getElem?_eq_getElem inside, ?_⟩
  simp only [idOf, List.getD_eq_getElem _ _ inside, List.getD_eq_getElem _ _ inside']
  have below : ∀ text, hash text % hashSizes[field] < hashSizes[field] :=
    fun text => Nat.mod_lt _ (positive _ (List.getElem_mem inside))
  exact ⟨Nat.le_add_right _ _, Nat.add_lt_add_left (below _) _⟩

theorem idOf_lt {field : Nat} (mode : GlobalIdMode) (raw : String)
    (inside : field < hashSizes.length) (positive : ∀ size ∈ hashSizes, 0 < size) :
    idOf hash hashSizes mode field raw < hashSizes.sum := by
  cases mode with
  | perFieldOffset =>
      obtain ⟨offset, size, offset_eq, size_eq, -, below⟩ :=
        @idOf_range hash hashSizes field raw inside positive
      have bounded := fieldOffset_add_le offset_eq size_eq
      omega
  | sharedHash =>
      have present := positive _ (List.getElem_mem inside)
      have some_size := List.le_sum_of_mem (List.getElem_mem inside)
      exact Nat.mod_lt _ (by omega)

theorem mem_keptFields {dropEmpty : Bool} {cats : List String} {raw : String} {field : Nat}
    (member : (raw, field) ∈ keptFields dropEmpty cats) : field < cats.length := by
  have listed := (List.mem_filter.mp member).1
  have here := List.mem_zipIdx_iff_getElem?.mp listed
  exact (List.getElem?_eq_some_iff.mp here).1

/-- Every id of a bag, also one that pads it, lies in the table. -/
theorem bagRow_lt {row : CriteoRow} (width : row.cats.length = hashSizes.length)
    (nonempty : hashSizes ≠ []) (positive : ∀ size ∈ hashSizes, 0 < size) {id : Nat}
    (member : id ∈ bagRow args (rowIdsOf hash hashSizes args row)) : id < hashSizes.sum := by
  have mapped : ∀ id ∈ rowIdsOf hash hashSizes args row, id < hashSizes.sum := by
    intro id member
    obtain ⟨⟨raw, field⟩, kept, rfl⟩ := List.mem_map.mp member
    exact idOf_lt _ _ (width ▸ mem_keptFields kept) positive
  have listed := List.mem_of_mem_take member
  split at listed
  · rcases List.mem_append.mp listed with here | padding
    · exact mapped id here
    · rw [List.eq_of_mem_replicate padding]
      obtain ⟨size, present⟩ := List.exists_mem_of_ne_nil _ nonempty
      have bounded := List.le_sum_of_mem present
      have some_size := positive size present
      omega
  · exact mapped id listed

/-- Without dropping, a column holds the ids of one field. -/
theorem getElem?_bagRow {row : CriteoRow} {field id : Nat} (kept : args.dropEmpty = false)
    (held : (bagRow args (rowIdsOf hash hashSizes args row))[field]? = some id) :
    ∃ raw, row.cats[field]? = some raw ∧ id = idOf hash hashSizes args.globalIdMode field raw := by
  have fields : keptFields args.dropEmpty row.cats = row.cats.zipIdx := by
    simp [keptFields, kept]
  rw [bagRow, if_neg (by simp [kept]), rowIdsOf, fields] at held
  rw [List.getElem?_take] at held
  split at held
  · rw [List.getElem?_map, List.getElem?_zipIdx, Option.map_map] at held
    obtain ⟨raw, present, rfl⟩ := Option.map_eq_some_iff.mp held
    exact ⟨raw, present, by simp⟩
  · simp at held

/-- Ids of different columns differ. -/
theorem ne_of_ranges {field field' id id' offset offset' size size' : Nat} (other : field ≠ field')
    (offset_eq : (fieldOffsetsFromHashSizes hashSizes)[field]? = some offset)
    (size_eq : hashSizes[field]? = some size) (low : offset ≤ id) (high : id < offset + size)
    (offset_eq' : (fieldOffsetsFromHashSizes hashSizes)[field']? = some offset')
    (size_eq' : hashSizes[field']? = some size') (low' : offset' ≤ id')
    (high' : id' < offset' + size') : id ≠ id' := by
  rcases Nat.lt_or_gt_of_ne other with before | after
  · have apart := fieldOffset_add_le_fieldOffset before offset_eq size_eq offset_eq'
    omega
  · have apart := fieldOffset_add_le_fieldOffset after offset_eq' size_eq' offset_eq
    omega

end

section

variable {libraries : Libraries} {workspace : Workspace} {args : PreprocessArgs}
  {paths : List String} {hashSizes : List Nat} {rows : List (List Nat)} {labels : List Int}

/-- The rows that `preprocess` collects are equally long, their ids lie in the table, laid out one
after another the fields keep to their ranges, and the id of a field depends on the field alone. -/
theorem criteo_rows_rectangular (fields : 1 ≤ args.numFields)
    (sized : parseHashSizes libraries args.hashSize args.numFields = .ok hashSizes)
    (collected : collectRows libraries args hashSizes (fieldOffsetsFromHashSizes hashSizes) 1
      (iterCriteoRows libraries workspace args.numFields paths) = .ok (rows, labels)) :
    (∀ row ∈ rows,
      row.length = if args.dropEmpty then args.bagSize else min args.numFields args.bagSize) ∧
    (∀ row ∈ rows, ∀ id ∈ row, id < hashSizes.sum) ∧
    (args.globalIdMode = .perFieldOffset → args.dropEmpty = false →
      (∀ row ∈ rows, ∀ field id : Nat, row[field]? = some id →
        ∃ offset size, (fieldOffsetsFromHashSizes hashSizes)[field]? = some offset ∧
          hashSizes[field]? = some size ∧ offset ≤ id ∧ id < offset + size) ∧
      ∀ row ∈ rows, ∀ row' ∈ rows, ∀ field field' id id' : Nat, field ≠ field' →
        row[field]? = some id → row'[field']? = some id' → id ≠ id') ∧
    (∃ parsed : List CriteoRow,
      parsed.map .ok <+: iterCriteoRows libraries workspace args.numFields paths ∧
      rows = parsed.map fun row => bagRow args ((keptFields args.dropEmpty row.cats).map
        fun (raw, field) =>
          idOf (seededHash libraries args.seed) hashSizes args.globalIdMode field raw)) ∧
    ∀ field, idOf (seededHash libraries args.seed) hashSizes args.globalIdMode field "" =
      idOf (seededHash libraries args.seed) hashSizes args.globalIdMode field
        (placeholder field) := by
  obtain ⟨length, positive⟩ := parseHashSizes_spec sized
  obtain ⟨parsed, front, rows_eq⟩ := collectRows_eq_ok collected
  have width : ∀ row ∈ parsed, row.cats.length = hashSizes.length := by
    intro row member
    rw [length]
    exact length_cats_of_mem (front.mem (List.mem_map_of_mem member))
  have nonempty : hashSizes ≠ [] := by
    rintro rfl
    simp at length
    omega
  have ranges : args.globalIdMode = .perFieldOffset → args.dropEmpty = false →
      ∀ row ∈ rows, ∀ field id : Nat, row[field]? = some id →
        ∃ offset size, (fieldOffsetsFromHashSizes hashSizes)[field]? = some offset ∧
          hashSizes[field]? = some size ∧ offset ≤ id ∧ id < offset + size := by
    intro laid_out kept row member field id held
    rw [rows_eq] at member
    obtain ⟨source, listed, rfl⟩ := List.mem_map.mp member
    obtain ⟨raw, present, rfl⟩ := getElem?_bagRow kept held
    rw [laid_out]
    apply idOf_range raw _ positive
    rw [← width source listed]
    exact (List.getElem?_eq_some_iff.mp present).1
  refine ⟨length_collectRows (fun row member => length_cats_of_mem member) collected, ?_, ?_,
    ⟨parsed, front, rows_eq⟩, ?_⟩
  · intro row member id listed
    rw [rows_eq] at member
    obtain ⟨source, parsed_source, rfl⟩ := List.mem_map.mp member
    exact bagRow_lt (width source parsed_source) nonempty positive listed
  · intro laid_out kept
    refine ⟨ranges laid_out kept, ?_⟩
    intro row member row' member' field field' id id' other held held'
    obtain ⟨offset, size, offset_eq, size_eq, low, high⟩ :=
      ranges laid_out kept row member field id held
    obtain ⟨offset', size', offset_eq', size_eq', low', high'⟩ :=
      ranges laid_out kept row' member' field' id' held'
    exact ne_of_ranges other offset_eq size_eq low high offset_eq' size_eq' low' high'
  · intro field
    have shown : placeholder field ≠ "" := by
      intro empty
      simpa [placeholder] using congrArg String.length empty
    cases args.globalIdMode <;> simp [idOf, shown]

end

/-- Two rows of two empty fields, with a table of seven ids for each field. -/
theorem criteo_rows_rectangular_empty :
    ∃ rows labels,
      collectRows lengthLibraries { twoRows 2 with numFields := 2 } [7, 7]
        (fieldOffsetsFromHashSizes [7, 7]) 1
        (iterCriteoRows lengthLibraries twoLines 2 ["train.txt"]) = .ok (rows, labels) ∧
      rows.length = 2 ∧ ∀ row ∈ rows, row.length = 2 ∧ ∀ id ∈ row, id < 14 := by
  have evaluated : (collectRows lengthLibraries { twoRows 2 with numFields := 2 } [7, 7]
      (fieldOffsetsFromHashSizes [7, 7]) 1
      (iterCriteoRows lengthLibraries twoLines 2 ["train.txt"])).toOption.any
        (·.1.length = 2) = true := by
    decide +kernel
  cases collected : collectRows lengthLibraries { twoRows 2 with numFields := 2 } [7, 7]
      (fieldOffsetsFromHashSizes [7, 7]) 1
      (iterCriteoRows lengthLibraries twoLines 2 ["train.txt"]) with
  | error error => simp [collected, Except.toOption] at evaluated
  | ok result =>
      obtain ⟨rows, labels⟩ := result
      obtain ⟨equal, below, -⟩ := criteo_rows_rectangular (by decide) (by decide +kernel) collected
      exact ⟨rows, labels, rfl, by simpa [collected, Except.toOption] using evaluated,
        fun row member => ⟨equal row member, below row member⟩⟩

end MemTier.Trace
