import MemTier.Trace.RoundTrip

/-!
# Ids inside the declared table

`apply_id_mapping` reduces ids in one way and declares the size of their table in another.  The
sizes of the fields, a number of embeddings that is given and the greatest id that occurs take
part in either.
-/

namespace MemTier.Trace

open Containers

/-! ## Sizes and offsets of fields -/

theorem length_fieldOffsetsFrom (total : Nat) (sizes : List Nat) :
    (fieldOffsetsFrom total sizes).length = sizes.length := by
  induction sizes generalizing total with
  | nil => rfl
  | cons size sizes induction => simp [fieldOffsetsFrom, induction]

/-- The range of every field ends with the sum of all sizes at the latest. -/
theorem fieldOffset_add_le {total field offset size : Nat} {sizes : List Nat}
    (offset_eq : (fieldOffsetsFrom total sizes)[field]? = some offset)
    (size_eq : sizes[field]? = some size) : offset + size ≤ total + sizes.sum := by
  induction sizes generalizing total field with
  | nil => simp at size_eq
  | cons first sizes induction =>
      rw [List.sum_cons]
      cases field with
      | zero =>
          obtain rfl := Option.some.inj offset_eq
          obtain rfl := Option.some.inj size_eq
          omega
      | succ field =>
          have bounded := induction offset_eq size_eq
          omega

section

variable {libraries : Libraries} {value : String} {numFields : Nat} {sizes : List Nat}

theorem positiveSize_pos {piece : List Char} {size : Nat}
    (parsed : positiveSize libraries piece = .ok size) : 0 < size := by
  rw [positiveSize] at parsed
  split at parsed
  · simp at parsed
  · split at parsed
    · simp at parsed
    · obtain rfl := Except.ok.inj parsed
      omega

/-- Every field has a size, and it is positive. -/
theorem parseHashSizes_spec (parsed : parseHashSizes libraries value numFields = .ok sizes) :
    sizes.length = numFields ∧ ∀ size ∈ sizes, 0 < size := by
  rw [parseHashSizes] at parsed
  split at parsed
  · obtain ⟨size, single, parsed⟩ := bind_eq_ok.mp parsed
    obtain rfl := Except.ok.inj parsed
    refine ⟨List.length_replicate, fun other member => ?_⟩
    rw [List.eq_of_mem_replicate member]
    exact positiveSize_pos single
  · split at parsed
    · simp at parsed
    · rename_i enough
      refine ⟨(forall₂_of_mapM_eq_ok parsed).length_eq.symm.trans (not_not.mp enough), ?_⟩
      intro size member
      obtain ⟨piece, -, single⟩ := exists_of_mapM_eq_ok parsed member
      exact positiveSize_pos single

theorem mappingHashSizes_spec {raw : NdArray Nat} {args : ConvertArgs}
    (found : mappingHashSizes libraries raw args = .ok sizes) :
    sizes.length = raw.stride ∧ ∀ size ∈ sizes, 0 < size := by
  simp only [mappingHashSizes] at found
  split at found
  · exact parseHashSizes_spec found
  · split at found
    · split at found
      · simp at found
      · obtain rfl := Except.ok.inj found
        refine ⟨List.length_replicate, fun size member => ?_⟩
        rw [List.eq_of_mem_replicate member]
        omega
    · obtain rfl := Except.ok.inj found
      refine ⟨List.length_replicate, fun size member => ?_⟩
      rw [List.eq_of_mem_replicate member]
      omega

end

/-- No id is greater than the greatest. -/
theorem le_maxId {raw : NdArray Nat} {id : Nat} (member : id ∈ raw.data) : id ≤ maxId raw := by
  have bounds : ∀ (values : List Nat) (start : Nat),
      start ≤ values.foldl max start ∧ ∀ value ∈ values, value ≤ values.foldl max start := by
    intro values
    induction values with
    | nil => simp
    | cons first values induction =>
        intro start
        obtain ⟨above, all⟩ := induction (max start first)
        rw [List.foldl_cons, List.forall_mem_cons]
        exact ⟨by omega, by omega, all⟩
  exact (bounds raw.data 0).2 id member

/-! ## Mapped ids -/

/-- When the declared table is large enough.  The ids of shared hashing are reduced by what is
declared, as are those of direct mapping if a number of embeddings is given.  Otherwise direct
mapping keeps ids as they are, and the sizes of the fields are declared.  Fields laid out one after
another end below the sum of their sizes, which may be more than a number that is given. -/
def TableCovers (args : ConvertArgs) (raw : NdArray Nat) (hashSizes : List Nat) : Prop :=
  match args.fieldOffsetMode, args.numEmbeddings.filter (· ≠ 0) with
  | .sharedHash, _ => True
  | .direct, some _ => True
  | .direct, none => ∀ id ∈ raw.data, id < hashSizes.sum
  | .perFieldOffset, none => True
  | .perFieldOffset, some total => ∀ (position id offset size : Nat),
      raw.data[position]? = some id →
        (fieldOffsetsFromHashSizes hashSizes)[position % raw.stride]? = some offset →
          hashSizes[position % raw.stride]? = some size → offset + id % size < total

section

variable {args : ConvertArgs} {raw ids : NdArray Nat} {hashSizes : List Nat}

/-- The tables that offsets and sizes are read from. -/
theorem tables_eq {pairs tables : List (Nat × Nat)}
    (cast : (pairs.mapM fun (offset, size) => do return (← uint64 offset, ← uint64 size)) =
      (.ok tables : Except PyError (List (Nat × Nat)))) : tables = pairs := by
  have rounds := forall₂_of_mapM_eq_ok cast
  clear cast
  induction rounds with
  | nil => rfl
  | @cons pair table pairs tables here _ induction =>
      obtain ⟨offset, first, here⟩ := bind_eq_ok.mp here
      obtain ⟨size, second, here⟩ := bind_eq_ok.mp here
      obtain rfl := Except.ok.inj here
      rw [induction, (uint64_eq_ok.mp first).2, (uint64_eq_ok.mp second).2]

/-- Fields laid out one after another: the id of a field is its offset and a residue. -/
theorem mapIds_perFieldOffset (mode : args.fieldOffsetMode = .perFieldOffset)
    (complete : hashSizes.length = raw.stride) (positive : ∀ size ∈ hashSizes, 0 < size)
    (columns : 0 < raw.stride) (small : hashSizes.sum < 2 ^ 64)
    (mapping : mapIds raw args hashSizes = .ok ids) (id : Nat) :
    id ∈ ids.data ↔ ∃ position rawId offset size, raw.data[position]? = some rawId ∧
      (fieldOffsetsFromHashSizes hashSizes)[position % raw.stride]? = some offset ∧
        hashSizes[position % raw.stride]? = some size ∧ offset + rawId % size = id ∧
          offset + size ≤ hashSizes.sum ∧ rawId % size < size := by
  rw [mapIds, mode] at mapping
  obtain ⟨tables, cast, mapping⟩ := bind_eq_ok.mp mapping
  obtain rfl := Except.ok.inj mapping
  obtain rfl := tables_eq cast
  have table : ∀ position, ∃ offset size,
      (fieldOffsetsFromHashSizes hashSizes)[position % raw.stride]? = some offset ∧
        hashSizes[position % raw.stride]? = some size ∧
          ((fieldOffsetsFromHashSizes hashSizes).zip hashSizes).getD (position % raw.stride) (0, 1) =
            (offset, size) ∧ offset + size ≤ hashSizes.sum ∧ 0 < size := by
    intro position
    have inside : position % raw.stride < hashSizes.length := by
      rw [complete]
      exact Nat.mod_lt _ columns
    have inside' : position % raw.stride < (fieldOffsetsFromHashSizes hashSizes).length := by
      rwa [fieldOffsetsFromHashSizes, length_fieldOffsetsFrom]
    have offset_eq := List.getElem?_eq_getElem inside'
    have size_eq := List.getElem?_eq_getElem inside
    refine ⟨_, _, offset_eq, size_eq, ?_, ?_, positive _ (List.getElem_mem inside)⟩
    · rw [List.getD_eq_getElem?_getD,
        (List.getElem?_zip_eq_some (z := (_, _))).mpr ⟨offset_eq, size_eq⟩, Option.getD_some]
    · have bounded := fieldOffset_add_le offset_eq size_eq
      rwa [Nat.zero_add] at bounded
  simp only [NdArray.mapIdx, List.mem_mapIdx]
  constructor
  · rintro ⟨position, inside, rfl⟩
    obtain ⟨offset, size, offset_eq, size_eq, pair, bounded, nonempty⟩ := table position
    have residue := Nat.mod_lt raw.data[position] nonempty
    refine ⟨position, _, offset, size, List.getElem?_eq_getElem inside, offset_eq, size_eq, ?_,
      bounded, residue⟩
    rw [pair]
    exact (Nat.mod_eq_of_lt (by omega)).symm
  · rintro ⟨position, rawId, offset, size, found, offset_eq, size_eq, rfl, bounded, residue⟩
    obtain ⟨inside, rfl⟩ := List.getElem?_eq_some_iff.mp found
    obtain ⟨offset', size', offset_eq', size_eq', pair, -⟩ := table position
    obtain rfl := Option.some.inj (offset_eq.symm.trans offset_eq')
    obtain rfl := Option.some.inj (size_eq.symm.trans size_eq')
    refine ⟨position, inside, ?_⟩
    rw [pair]
    show (offset + raw.data[position] % size) % 2 ^ 64 = _
    exact Nat.mod_eq_of_lt (by omega)

theorem mem_map_mod {total id : Nat} :
    id ∈ (raw.map (· % total)).data ↔ ∃ rawId ∈ raw.data, rawId % total = id := List.mem_map

/-- Ids that are reduced by what is declared. -/
theorem mapIds_sharedHash (mode : args.fieldOffsetMode = .sharedHash)
    (mapping : mapIds raw args hashSizes = .ok ids)
    (positive : 0 < (args.numEmbeddings.filter (· ≠ 0)).getD hashSizes.sum) :
    ∀ id ∈ ids.data, id < (args.numEmbeddings.filter (· ≠ 0)).getD hashSizes.sum := by
  rw [mapIds, mode] at mapping
  obtain ⟨total, cast, mapping⟩ := bind_eq_ok.mp mapping
  obtain rfl := Except.ok.inj mapping
  obtain rfl := (uint64_eq_ok.mp cast).2
  intro id member
  obtain ⟨rawId, -, rfl⟩ := mem_map_mod.mp member
  exact Nat.mod_lt _ positive

/-- Directly mapped ids are reduced by a number of embeddings that is given, and else kept. -/
theorem mapIds_direct (mode : args.fieldOffsetMode = .direct)
    (mapping : mapIds raw args hashSizes = .ok ids) :
    match args.numEmbeddings.filter (· ≠ 0) with
    | some total => ∀ id ∈ ids.data, id < total
    | none => ids.data = raw.data := by
  rw [mapIds, mode] at mapping
  obtain ⟨total, cast, mapping⟩ := bind_eq_ok.mp mapping
  obtain rfl := Except.ok.inj mapping
  obtain rfl := (uint64_eq_ok.mp cast).2
  cases given : args.numEmbeddings.filter (· ≠ 0) with
  | some total =>
      have nonzero : total ≠ 0 := of_decide_eq_true (Option.filter_eq_some_iff.mp given).2
      intro id member
      obtain ⟨rawId, -, rfl⟩ := mem_map_mod.mp member
      rw [Option.getD_some, Nat.max_eq_left (by omega)]
      exact Nat.mod_lt _ (by omega)
  | none =>
      refine (List.map_congr_left fun id member => ?_).trans (List.map_id _)
      have greatest := le_maxId member
      rw [Option.getD_none, if_neg (List.ne_nil_of_mem member), Nat.max_eq_left (by omega)]
      exact Nat.mod_eq_of_lt (by omega)

end

/-- Sizes that are derived from a number of embeddings, or from the ids, make the table large enough
unless there are more fields than embeddings. -/
theorem tableCovers_of_derived {libraries : Libraries} {args : ConvertArgs} {raw : NdArray Nat}
    {hashSizes : List Nat} (columns : 0 < raw.stride) (derived : args.hashSize = none)
    (found : mappingHashSizes libraries raw args = .ok hashSizes)
    (enough : ∀ total, args.numEmbeddings.filter (· ≠ 0) = some total → raw.stride ≤ total) :
    TableCovers args raw hashSizes := by
  obtain ⟨complete, positive⟩ := mappingHashSizes_spec found
  rw [mappingHashSizes, derived] at found
  simp only [Option.getD_none, ne_eq, not_true_eq_false, if_false] at found
  rw [TableCovers]
  split
  · trivial
  · trivial
  · rename_i given
    intro id member
    have absent : EmbeddingTrace.truthy args.numEmbeddings = false := by
      cases count : args.numEmbeddings with
      | none => rfl
      | some total =>
          rw [count, Option.filter_some] at given
          simpa [EmbeddingTrace.truthy] using given
    rw [if_neg (by simp [absent])] at found
    obtain rfl := Except.ok.inj found
    have greatest := le_maxId member
    have large := Nat.le_mul_of_pos_left (maxId raw + 1) columns
    rw [List.sum_replicate, smul_eq_mul]
    omega
  · trivial
  · rename_i total _ given
    intro position id offset size _ offset_eq size_eq
    have bounded := fieldOffset_add_le offset_eq size_eq
    have residue := Nat.mod_lt id (positive size (List.mem_of_getElem? size_eq))
    have fields := enough total given
    obtain ⟨count, nonzero⟩ := Option.filter_eq_some_iff.mp given
    have present : EmbeddingTrace.truthy args.numEmbeddings = true := by
      rw [count]
      exact nonzero
    rw [if_pos present, if_neg (Nat.pos_iff_ne_zero.mp columns), count] at found
    obtain rfl := Except.ok.inj found
    have share : 1 ≤ total / raw.stride := (Nat.one_le_div_iff columns).mpr fields
    have covered := Nat.mul_div_le total raw.stride
    rw [List.sum_replicate, smul_eq_mul, Option.getD_some, Nat.max_eq_right share] at bounded
    omega

/-- One row of two ids. -/
def oneRow : NdArray Nat where
  shape := [1, 2]
  data := [9, 5]
  sized := rfl

end MemTier.Trace
