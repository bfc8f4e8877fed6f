import Mathlib.Data.List.GetD
import MemTier.Trace.Analyzer

/-!
# Blocks that ranks share

The analyzer splits the blocks of a batch among ranks after it has made them distinct.  No block is
then given to two ranks, whatever ids the ranks look up.
-/

namespace MemTier.Trace

open Containers

/-! ## Splitting -/

theorem sum_partLengths {parts : Nat} (positive : 0 < parts) (length : Nat) :
    (partLengths length parts).sum = length := by
  have inside := Nat.mod_lt length positive
  have split := Nat.div_add_mod length parts
  have larger : length % parts * (length / parts) ≤ parts * (length / parts) :=
    Nat.mul_le_mul_right _ inside.le
  rw [partLengths, List.sum_append, List.sum_replicate, List.sum_replicate, smul_eq_mul,
    smul_eq_mul, Nat.mul_add, Nat.sub_mul]
  omega

/-- The parts of an array, joined. -/
theorem flatten_arraySplit (values : List Nat) : (arraySplit values ranks).flatten = values := by
  rw [arraySplit, List.flatten_splitLengths]
  rw [sum_partLengths (by decide)]

/-! ## What is reported and what ranks share -/

/-- Distinct blocks that the ranks touch, rank by rank, less those of the batch. -/
def rankSharing (rows : Nat) (ids : List Nat) : Int :=
  (((arraySplit ids ranks).map fun part => (part.map (· / rows)).toFinset.card).sum : Nat) -
    ((ids.map (· / rows)).toFinset.card : Nat)

/-- Ids of two different ranks lie in one block. -/
def SharedBlock (rows : Nat) (ids : List Nat) : Prop :=
  ∃ rank rank', rank < rank' ∧ ∃ id ∈ (arraySplit ids ranks).getD rank [],
    ∃ id' ∈ (arraySplit ids ranks).getD rank' [], id / rows = id' / rows

theorem not_sharedBlock_iff {rows : Nat} {ids : List Nat} :
    ¬ SharedBlock rows ids ↔ (arraySplit ids ranks).Pairwise fun part other =>
      ∀ id ∈ part, ∀ id' ∈ other, id / rows ≠ id' / rows := by
  rw [List.pairwise_iff_getElem]
  constructor
  · intro apart rank rank' inside inside' less id member id' member' same
    refine apart ⟨rank, rank', less, id, ?_, id', ?_, same⟩
    · rwa [List.getD_eq_getElem _ _ inside]
    · rwa [List.getD_eq_getElem _ _ inside']
  · rintro apart ⟨rank, rank', less, id, member, id', member', same⟩
    rcases Nat.lt_or_ge rank' (arraySplit ids ranks).length with inside' | outside
    · rw [List.getD_eq_getElem _ _ (less.trans inside')] at member
      rw [List.getD_eq_getElem _ _ inside'] at member'
      exact apart rank rank' _ inside' less id member id' member' same
    · rw [List.getD_eq_default _ _ outside] at member'
      simp at member'

/-- What the number of duplicates of a batch is for. -/
structure MeasuresSharing (rows : Nat) (ids : List Nat) (duplicate : Int) : Prop where
  counts : duplicate = rankSharing rows ids
  positive : SharedBlock rows ids → 0 < duplicate

/-- Distinct blocks have no duplicates. -/
theorem duplicate_eq_zero {blocks : List Nat} (distinct : blocks.Nodup) :
    (batchMultiGpuOverlap blocks).2 = 0 := by
  have apart : ((arraySplit blocks ranks).map List.toFinset).Pairwise Disjoint := by
    rw [← flatten_arraySplit blocks, List.nodup_flatten] at distinct
    rw [List.pairwise_map]
    exact distinct.2.imp fun {part other} disjoint => List.disjoint_toFinset_iff_disjoint.mpr disjoint
  have joined := (Arrays.card_foldl_union_eq_iff _).mpr apart
  rw [batchMultiGpuOverlap]
  dsimp only
  rw [joined]
  exact Int.sub_self _

/-- Ranks share nothing exactly if no block is touched by two of them. -/
theorem rankSharing_spec (rows : Nat) (ids : List Nat) :
    0 ≤ rankSharing rows ids ∧ (rankSharing rows ids = 0 ↔ ¬ SharedBlock rows ids) := by
  let touched := (arraySplit ids ranks).map fun part => (part.map (· / rows)).toFinset
  have union : touched.foldl (· ∪ ·) ∅ = (ids.map (· / rows)).toFinset := by
    ext block
    rw [Arrays.mem_foldl_union]
    conv_rhs => rw [← flatten_arraySplit ids]
    simp [touched]
  have cards : touched.map Finset.card =
      (arraySplit ids ranks).map fun part => (part.map (· / rows)).toFinset.card := by
    rw [List.map_map]
    rfl
  have le := (Arrays.card_foldl_union touched ∅).1
  have eq_iff := Arrays.card_foldl_union_eq_iff touched
  rw [union, cards] at le eq_iff
  rw [Finset.card_empty, Nat.zero_add] at le
  have apart : touched.Pairwise Disjoint ↔ ¬ SharedBlock rows ids := by
    rw [not_sharedBlock_iff, List.pairwise_map]
    apply List.Pairwise.iff
    intro part other
    rw [List.disjoint_toFinset_iff_disjoint, List.disjoint_left]
    simp only [List.mem_map, forall_exists_index, and_imp, forall_apply_eq_imp_iff₂, not_exists,
      not_and, ne_eq]
    constructor
    · intro disjoint id member id' member' same
      exact disjoint id member id' member' same.symm
    · intro disjoint id member id' member' same
      exact disjoint id member id' member' same.symm
  rw [← apart, ← eq_iff, rankSharing]
  omega

/-! ## The loop over batches -/

theorem duplicateBlocks_foldl (rows : Nat) (batches : List (List Nat)) (tally : Tally) :
    (batches.foldl (Tally.batch rows) tally).duplicateBlocks = tally.duplicateBlocks ++
      batches.map fun ids => (batchMultiGpuOverlap (Arrays.unique (ids.map (· / rows)))).2 := by
  induction batches generalizing tally with
  | nil => simp
  | cons ids batches induction =>
      rw [List.foldl_cons, induction, List.map_cons, Tally.batch, List.append_assoc]
      rfl

theorem tallyTrace_eq_ok {trace : EmbeddingTrace} {rowsPerBlock blockBytes : Nat}
    {batches : List (List Nat)} {tally : Tally} (read : trace.iterBatches = .ok batches)
    (tallied : tallyTrace trace rowsPerBlock blockBytes = .ok tally) :
    tally = batches.foldl (Tally.batch rowsPerBlock) (Tally.initial blockBytes) := by
  rw [tallyTrace] at tallied
  obtain ⟨batches', read', tallied⟩ := bind_eq_ok.mp tallied
  obtain rfl := Except.ok.inj (read.symm.trans read')
  dsimp only at tallied
  split at tallied
  · obtain ⟨_, -, tallied⟩ := bind_eq_ok.mp tallied
    exact (Except.ok.inj tallied).symm
  · exact (Except.ok.inj tallied).symm

/-- When the reported overlap measures sharing: for the batches in which ranks share nothing. -/
theorem overlap_measures_sharing_iff (trace : EmbeddingTrace) (rowsPerBlock blockBytes : Nat)
    (batches : List (List Nat)) (read : trace.iterBatches = .ok batches) (tally : Tally)
    (tallied : tallyTrace trace rowsPerBlock blockBytes = .ok tally) :
    tally.duplicateBlocks.length = batches.length ∧
      ∀ (position : Nat) (ids : List Nat) (duplicate : Int), batches[position]? = some ids →
        tally.duplicateBlocks[position]? = some duplicate →
          (MeasuresSharing rowsPerBlock ids duplicate ↔ ¬ SharedBlock rowsPerBlock ids) := by
  obtain rfl := tallyTrace_eq_ok read tallied
  rw [duplicateBlocks_foldl, Tally.initial, List.nil_append]
  refine ⟨List.length_map _, fun position ids duplicate batch found => ?_⟩
  rw [List.getElem?_map, batch, Option.map_some, duplicate_eq_zero
    ((Arrays.unique_increasing _).imp ne_of_lt)] at found
  obtain rfl := Option.some.inj found
  obtain ⟨-, zero_iff⟩ := rankSharing_spec rowsPerBlock ids
  constructor
  · rintro ⟨counts, -⟩
    exact zero_iff.mp counts.symm
  · intro apart
    exact ⟨(zero_iff.mpr apart).symm, fun shared => absurd shared apart⟩

/-- An array of ids, as a trace of one batch. -/
def singleBatch (ids : List Nat) : EmbeddingTrace where
  rowsPerBlock := some 4
  metadata := {}
  jsonlRows := none
  ids := some { shape := [ids.length], data := ids, sized := by simp }
  blockIds := none

/-- Two ids of different blocks. -/
theorem overlap_measures_sharing_iff_apart :
    ∃ tally, tallyTrace (singleBatch [0, 8]) 4 1 = .ok tally ∧
      tally.duplicateBlocks = [0] ∧ MeasuresSharing 4 [0, 8] 0 := by
  have read : (singleBatch [0, 8]).iterBatches = .ok [[0, 8]] := by decide +kernel
  obtain ⟨tally, tallied⟩ : ∃ tally, tallyTrace (singleBatch [0, 8]) 4 1 = .ok tally := ⟨_, rfl⟩
  have duplicates : tally.duplicateBlocks = [0] := by
    rw [tallyTrace_eq_ok read tallied, duplicateBlocks_foldl]
    decide +kernel
  have spec := overlap_measures_sharing_iff (singleBatch [0, 8]) 4 1 [[0, 8]] read tally tallied
  refine ⟨tally, tallied, duplicates, (spec.2 0 [0, 8] 0 rfl ?_).mpr ?_⟩
  · rw [duplicates]
    rfl
  · rw [not_sharedBlock_iff]
    decide +kernel

/-- Two ids of one block, looked up by two ranks. -/
theorem overlap_unnoticed :
    ¬ ∀ (trace : EmbeddingTrace) (rowsPerBlock blockBytes : Nat) (batches : List (List Nat)),
      trace.iterBatches = .ok batches → ∀ tally : Tally,
        tallyTrace trace rowsPerBlock blockBytes = .ok tally →
        ∀ (position : Nat) (ids : List Nat) (duplicate : Int), batches[position]? = some ids →
          tally.duplicateBlocks[position]? = some duplicate →
            MeasuresSharing rowsPerBlock ids duplicate := by
  intro measures
  have read : (singleBatch [0, 1]).iterBatches = .ok [[0, 1]] := by decide +kernel
  obtain ⟨tally, tallied⟩ : ∃ tally, tallyTrace (singleBatch [0, 1]) 4 1 = .ok tally := ⟨_, rfl⟩
  have duplicates : tally.duplicateBlocks = [0] := by
    rw [tallyTrace_eq_ok read tallied, duplicateBlocks_foldl]
    decide +kernel
  have counts := (measures (singleBatch [0, 1]) 4 1 [[0, 1]] read tally tallied 0 [0, 1] 0 rfl
    (by rw [duplicates]; rfl)).counts
  exact absurd counts (by decide +kernel)

end MemTier.Trace
