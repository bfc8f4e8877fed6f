import MemTier.Runtime.Read
import Mathlib.Data.String.Basic

/-!
# Vectored reads

`memtier_readv` sorts its ranges, merges neighbours that are close enough into one read each, and
copies the ranges out of the merged buffers.
-/

namespace MemTier

open Containers Resumption

/-- One range of a vectored read, with its destination. -/
structure Range where
  path : Option String
  offset : UInt64
  size : UInt64
  dst : Option Nat
  deriving DecidableEq, Repr

/-- A range whose arguments were checked. -/
structure Item where
  path : String
  off : UInt64
  sz : UInt64
  dst : Nat
  deriving DecidableEq, Repr

/-- The range an item was made from. -/
def Item.range (item : Item) : Range where
  path := some item.path
  offset := item.off
  size := item.sz
  dst := some item.dst

/-- Check one range. -/
def Range.item? (range : Range) : Option Item :=
  match range.path, range.dst with
  | some path, some dst =>
      if range.size = 0 then none
      else some { path, off := range.offset, sz := range.size, dst }
  | _, _ => none

/-- The comparator handed to `std::sort`: by path, then by offset. -/
def Item.before (left right : Item) : Bool :=
  if left.path ≠ right.path then decide (left.path < right.path)
  else decide (left.off < right.off)

/-- What `std::sort` promises: a permutation without inversions, ties in any order. -/
structure Sorter where
  sort : List Item → List Item
  perm : ∀ items, (sort items).Perm items
  ordered : ∀ items, (sort items).Pairwise fun left right => right.before left = false

/-- The comparator is a strict weak order: it orders by the pair of path and offset. -/
theorem Item.not_before_iff (left right : Item) :
    right.before left = false ↔
      toLex (left.path, left.off.toNat) ≤ toLex (right.path, right.off.toNat) := by
  rw [Item.before, Prod.Lex.toLex_le_toLex]
  split
  · rename_i different
    rw [decide_eq_false_iff_not, not_lt]
    constructor
    · exact fun le => .inl (lt_of_le_of_ne le (Ne.symm different))
    · rintro (lt | ⟨same, -⟩)
      · exact lt.le
      · exact absurd same.symm different
  · rename_i same
    simp only [ne_eq, not_not] at same
    simp [same, UInt64.lt_iff_toNat_lt]

/-- Insertion sort by the comparator. -/
def Sorter.insertion : Sorter where
  sort := List.insertionSort fun left right => right.before left = false
  perm := List.perm_insertionSort _
  ordered :=
    haveI : Std.Total fun left right : Item => right.before left = false :=
      ⟨fun left right => by simp only [Item.not_before_iff]; exact le_total _ _⟩
    haveI : IsTrans Item fun left right => right.before left = false :=
      ⟨fun _ _ _ => by simp only [Item.not_before_iff]; exact le_trans⟩
    List.pairwise_insertionSort _

/-- Neighbouring ranges of one path that are read together. -/
structure Group where
  path : String
  base : UInt64
  total : UInt64
  items : List Item

/-- Whether the next item joins a group that so far covers `[base, base + total)`. -/
def joins (options : Options) (path : String) (base total : UInt64) (item : Item) : Bool :=
  decide (item.path = path) &&
    (decide (base + total ≤ item.off) &&
      (decide ((item.off - (base + total)).toNat ≤ options.coalesceGap) &&
        decide ((item.off + item.sz - base).toNat ≤ options.maxCoalesceSize)))

/-- The inner loop: extend a group as far as possible.  Returns the final length, the items that
joined and those that remain. -/
def extendGroup (options : Options) (path : String) (base total : UInt64) :
    List Item → UInt64 × List Item × List Item
  | [] => (total, [], [])
  | item :: rest =>
      if joins options path base total item then
        let (final, joined, remaining) :=
          extendGroup options path base (item.off + item.sz - base) rest
        (final, item :: joined, remaining)
      else (total, [], item :: rest)

theorem extendGroup_suffix (options : Options) (path : String) (base total : UInt64)
    (items : List Item) :
    (extendGroup options path base total items).2.2 <:+ items := by
  induction items generalizing total with
  | nil => exact List.suffix_rfl
  | cons item rest induction =>
      rw [extendGroup]
      split
      · exact (induction _).trans (List.suffix_cons _ _)
      · exact List.suffix_rfl

/-- The groups the outer loop forms. -/
def groups (options : Options) : List Item → List Group
  | [] => []
  | first :: rest =>
      let extended := extendGroup options first.path first.off first.sz rest
      { path := first.path, base := first.off, total := extended.1,
        items := first :: extended.2.1 } :: groups options extended.2.2
termination_by items => items.length
decreasing_by
  exact Nat.lt_succ_of_le
    (extendGroup_suffix options first.path first.off first.sz rest).length_le

/-- Bytes stored by a call, in order: address and contents. -/
abbrev Stores : Type := List (Nat × Bytes)

/-- Memory after a sequence of stores. -/
def Stores.apply (stores : Stores) (memory : Memory) : Memory :=
  stores.foldl (fun memory store => memory.write store.1 store.2) memory

/-- Result of a vectored read. -/
structure ReadvResult where
  rc : Err
  stores : Stores
  deriving DecidableEq, Repr

/-- Copy the ranges of a group out of its buffer. -/
def copyItems (context : Context) (target : Target) (base : UInt64) (tmp : Bytes) :
    List Item → Run ReadvResult
  | [] => return { rc := .ok, stores := [] }
  | item :: rest => do
      let bytes := slice tmp (item.off - base).toNat item.sz.toNat
      if (← copyTarget context target bytes) ≠ .ok then return { rc := .cuda, stores := [] }
      let copied ← copyItems context target base tmp rest
      return { copied with stores := (item.dst, bytes) :: copied.stores }

/-- The outer loop, one read for each group. -/
def readvLoop (context : Context) (target : Target) : List Group → Run ReadvResult
  | [] => return { rc := .ok, stores := [] }
  | group :: rest => do
      let result ← doReadImpl context
        { path := some group.path, offset := group.base, size := group.total,
          dstNull := false, target := .cpu }
      if result.rc ≠ .ok then return { rc := result.rc, stores := [] }
      let tmp := zeroFill group.total.toNat result.out
      let copied ← copyItems context target group.base tmp group.items
      if copied.rc ≠ .ok then return copied
      let later ← readvLoop context target rest
      return { later with stores := copied.stores ++ later.stores }

/-- Arguments of `memtier_readv`.  A missing options pointer means the CPU target. -/
structure ReadvArgs where
  ranges : List Range
  target : Target
  deriving DecidableEq, Repr

def memtierReadv (context : Context) (sorter : Sorter) (args : ReadvArgs) :
    Run ReadvResult :=
  if args.ranges = [] then return { rc := .invalid, stores := [] }
  else
    match args.ranges.mapM Range.item? with
    | none => return { rc := .invalid, stores := [] }
    | some items => do
        let formed := groups context.options (sorter.sort items)
        let result ← readvLoop context args.target formed
        if result.rc ≠ .ok then return result
        Run.updateStats fun stats =>
          { stats with
            readvRequests := stats.readvRequests + 1
            originalRanges := stats.originalRanges + args.ranges.length
            coalescedRanges := stats.coalescedRanges + formed.length
            coalescedBytes :=
              stats.coalescedBytes + (formed.map fun group => group.total.toNat).sum }
        return result

/-- Chunk descriptors are ranges with a name. -/
structure ChunkDesc where
  range : Range
  chunkId : UInt64

def memtierLoadChunks (context : Context) (sorter : Sorter)
    (chunks : List ChunkDesc) (target : Option Target) : Run ReadvResult :=
  if chunks = [] then return { rc := .invalid, stores := [] }
  else if ∃ chunk ∈ chunks, chunk.range.item? = none then
    return { rc := .invalid, stores := [] }
  else
    memtierReadv context sorter
      { ranges := chunks.map ChunkDesc.range, target := target.getD .cpu }

end MemTier
