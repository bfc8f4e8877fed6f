import MemTier.Runtime.Conservation
import MemTier.Runtime.VectoredDelivery

/-!
# Merged ranges

A vectored read merges sorted ranges greedily.  The groups partition the ranges, no two groups in
a row could have been one, and what is read beyond the ranges themselves is bounded by the gaps that
were bridged.
-/

namespace MemTier

open Containers Resumption

/-! ## One group -/

/-- The item could be read together with a group, in exact arithmetic. -/
def Mergeable (options : Options) (path : String) (base total : UInt64) (item : Item) : Prop :=
  item.path = path ∧ base.toNat + total.toNat ≤ item.off.toNat ∧
    item.off.toNat - (base.toNat + total.toNat) ≤ options.coalesceGap ∧
      item.finish - base.toNat ≤ options.maxCoalesceSize

/-- The condition of the inner loop, which is computed without overflow. -/
theorem joins_iff {options : Options} {path : String} {base total : UInt64} {item : Item}
    (straight : base.toNat + total.toNat < 2 ^ 64) (item_straight : item.Straight) :
    joins options path base total item = true ↔ Mergeable options path base total item := by
  have finish : (base + total).toNat = base.toNat + total.toNat := by
    rw [UInt64.toNat_add, Nat.mod_eq_of_lt straight]
  simp only [joins, Mergeable, Bool.and_eq_true, decide_eq_true_iff]
  rw [UInt64.le_iff_toNat_le, finish]
  refine and_congr_right fun _ => and_congr_right fun behind => ?_
  have gap : (item.off - (base + total)).toNat =
      item.off.toNat - (base.toNat + total.toNat) := by
    rw [UInt64.toNat_sub_of_le _ _ (UInt64.le_iff_toNat_le.mpr (finish ▸ behind)), finish]
  rw [gap, toNat_extended base item_straight (by omega)]

/-- Items one behind the other, each starting at most `gap` bytes after the one before. -/
def Follow (gap : Nat) : Nat → List Item → Prop
  | _, [] => True
  | finish, item :: rest =>
      finish ≤ item.off.toNat ∧ item.off.toNat ≤ finish + gap ∧ Follow gap item.finish rest

/-- Number of bytes of some ranges. -/
def sizes (items : List Item) : Nat := (items.map fun item => item.sz.toNat).sum

/-- What the inner loop adds to a group. -/
structure Extends (options : Options) (path : String) (base total : UInt64)
    (extended : UInt64 × List Item × List Item) : Prop where
  follow : Follow options.coalesceGap (base.toNat + total.toNat) extended.2.1
  useful : total.toNat + sizes extended.2.1 ≤ extended.1.toNat
  wasted : extended.1.toNat ≤
    total.toNat + sizes extended.2.1 + extended.2.1.length * options.coalesceGap
  bounded : extended.2.1 ≠ [] → extended.1.toNat ≤ options.maxCoalesceSize
  maximal : ∀ item ∈ extended.2.2.head?, ¬ Mergeable options path base extended.1 item

theorem extendGroup_extends (options : Options) (path : String) {base total : UInt64}
    {items : List Item} (straight : base.toNat + total.toNat < 2 ^ 64)
    (items_straight : ∀ item ∈ items, item.Straight) :
    Extends options path base total (extendGroup options path base total items) := by
  induction items generalizing total with
  | nil =>
      constructor <;> simp [extendGroup, Follow, sizes]
  | cons item rest induction =>
      have item_straight := items_straight item List.mem_cons_self
      rw [extendGroup]
      split
      · rename_i joined
        rw [joins_iff straight item_straight] at joined
        obtain ⟨-, behind, near, short⟩ := joined
        have merged := toNat_extended base item_straight (by omega)
        have finish_lt : item.finish < 2 ^ 64 := item_straight.2
        have finish : item.finish = item.off.toNat + item.sz.toNat := rfl
        have further := @induction (item.off + item.sz - base) (by omega)
          fun other member => items_straight other (List.mem_cons_of_mem _ member)
        generalize extendGroup options path base (item.off + item.sz - base) rest = extended at *
        obtain ⟨final, joined, remaining⟩ := extended
        obtain ⟨follow, useful, wasted, bounded, maximal⟩ := further
        dsimp only at *
        have here : base.toNat + (item.off + item.sz - base).toNat = item.finish := by omega
        rw [here] at follow
        have cons_sizes : sizes (item :: joined) = item.sz.toNat + sizes joined := rfl
        refine ⟨⟨behind, by omega, follow⟩, ?_, ?_, fun _ => ?_, maximal⟩
        · dsimp only
          omega
        · dsimp only
          rw [List.length_cons, Nat.succ_mul]
          omega
        · cases joined with
          | nil =>
              simp only [sizes, List.map_nil, List.sum_nil, List.length_nil] at wasted
              dsimp only
              omega
          | cons next others => exact bounded (List.cons_ne_nil _ _)
      · rename_i apart
        rw [joins_iff straight item_straight] at apart
        exact ⟨trivial, by simp [sizes], by simp [sizes], by simp, by simpa using apart⟩

/-- Items that follow each other do not overlap, and gaps are small. -/
theorem Follow.spread {gap finish : Nat} {items : List Item} (follow : Follow gap finish items) :
    items.Pairwise (fun left right => left.finish ≤ right.off.toNat) ∧
      items.IsChain (fun left right => right.off.toNat ≤ left.finish + gap) ∧
      ∀ item ∈ items, finish ≤ item.off.toNat := by
  induction items generalizing finish with
  | nil => exact ⟨.nil, .nil, by simp⟩
  | cons item rest induction =>
      obtain ⟨behind, -, later⟩ := follow
      obtain ⟨apart, close, beyond⟩ := induction later
      have longer : item.off.toNat ≤ item.finish := Nat.le_add_right _ _
      refine ⟨apart.cons beyond, ?_, ?_⟩
      · cases rest with
        | nil => exact .singleton _
        | cons next others => exact .cons_cons later.2.1 close
      · rw [List.forall_mem_cons]
        exact ⟨behind, fun other member => behind.trans (longer.trans (beyond other member))⟩

/-! ## All groups -/

/-- What is read together. -/
structure Group.Coalesced (options : Options) (group : Group) : Prop where
  nonempty : group.items ≠ []
  paths : ∀ item ∈ group.items, item.path = group.path
  within : ∀ item ∈ group.items, group.base.toNat ≤ item.off.toNat ∧
    item.finish ≤ group.base.toNat + group.total.toNat
  apart : group.items.Pairwise fun left right => left.finish ≤ right.off.toNat
  close : group.items.IsChain fun left right =>
    right.off.toNat ≤ left.finish + options.coalesceGap
  bounded : 2 ≤ group.items.length → group.total.toNat ≤ options.maxCoalesceSize

/-- Bytes that are read for a group. -/
structure Group.Bounded (options : Options) (group : Group) : Prop where
  useful : sizes group.items ≤ group.total.toNat
  wasted : group.total.toNat ≤
    sizes group.items + (group.items.length - 1) * options.coalesceGap

/-- Sorted items are cut into groups, none of which could go on. -/
structure Coalesces (options : Options) (sorted : List Item) (formed : List Group) : Prop where
  partition : formed.flatMap Group.items = sorted
  groups : ∀ group ∈ formed, group.Coalesced options
  maximal : formed.IsChain fun group next => ∀ item ∈ next.items.head?,
    ¬ Mergeable options group.path group.base group.total item

theorem groups_coalesce {options : Options} {items : List Item}
    (straight : ∀ item ∈ items, item.Straight) :
    Coalesces options items (groups options items) ∧
      ∀ group ∈ groups options items, group.Bounded options := by
  obtain ⟨partition, covers⟩ := @groups_cover options items straight
  suffices formed : (∀ group ∈ groups options items, group.items ≠ [] ∧
      group.items.Pairwise (fun left right => left.finish ≤ right.off.toNat) ∧
      group.items.IsChain (fun left right =>
        right.off.toNat ≤ left.finish + options.coalesceGap) ∧
      (2 ≤ group.items.length → group.total.toNat ≤ options.maxCoalesceSize) ∧
      group.Bounded options) ∧
      (groups options items).IsChain fun group next => ∀ item ∈ next.items.head?,
        ¬ Mergeable options group.path group.base group.total item by
    refine ⟨⟨partition, fun group member => ?_, formed.2⟩, fun group member => ?_⟩
    · obtain ⟨nonempty, apart, close, bounded, -⟩ := formed.1 group member
      exact ⟨nonempty, (covers group member).paths, (covers group member).within, apart, close,
        bounded⟩
    · exact (formed.1 group member).2.2.2.2
  clear partition covers
  induction items using groups.induct options with
  | case1 => simp [groups]
  | case2 first rest extended induction =>
      rw [List.forall_mem_cons] at straight
      have split := (extendGroup_covers options first.path straight.1.2 straight.2).2.2.2.2
      have further := extendGroup_extends options first.path straight.1.2 straight.2
      obtain ⟨members, chain⟩ := induction fun item member =>
        straight.2 item (split ▸ List.mem_append_right _ member)
      obtain ⟨follow, useful, wasted, bounded, maximal⟩ := further
      have chained : Follow options.coalesceGap first.off.toNat (first :: _) :=
        ⟨le_rfl, Nat.le_add_right _ _, follow⟩
      have spread := chained.spread
      rw [groups, List.forall_mem_cons]
      refine ⟨⟨⟨List.cons_ne_nil _ _, spread.1, spread.2.1, ?_, ?_, ?_⟩, members⟩, ?_⟩
      · intro several
        apply bounded
        intro alone
        change 2 ≤ extended.2.1.length + 1 at several
        rw [alone] at several
        simp at several
      · exact useful
      · exact wasted
      · -- The next group starts with the item that did not join.
        refine List.isChain_cons.mpr ⟨fun group heads item member => ?_, chain⟩
        change group ∈ (groups options extended.2.2).head? at heads
        cases remaining : extended.2.2 with
        | nil =>
            rw [remaining, groups] at heads
            simp at heads
        | cons next others =>
            rw [remaining, groups] at heads
            obtain rfl := Option.some.inj heads
            obtain rfl := Option.some.inj member
            exact maximal next (by rw [remaining]; rfl)

/-- What is read beyond the ranges is bounded by the gaps that were bridged. -/
theorem sum_totals {options : Options} {formed : List Group}
    (bounded : ∀ group ∈ formed, group.Bounded options)
    (nonempty : ∀ group ∈ formed, group.items ≠ []) :
    let items := formed.flatMap Group.items
    let total := (formed.map fun group => group.total.toNat).sum
    formed.length ≤ items.length ∧ sizes items ≤ total ∧
      total ≤ sizes items + (items.length - formed.length) * options.coalesceGap := by
  induction formed with
  | nil => simp [sizes]
  | cons group formed induction =>
      rw [List.forall_mem_cons] at bounded nonempty
      obtain ⟨fewer, useful, wasted⟩ := induction bounded.2 nonempty.2
      have positive : 0 < group.items.length := List.length_pos_iff.mpr nonempty.1
      have joined : sizes (group.items ++ formed.flatMap Group.items) =
          sizes group.items + sizes (formed.flatMap Group.items) := by
        rw [sizes, List.map_append, List.sum_append]
        rfl
      have gaps : group.items.length + (formed.flatMap Group.items).length - (formed.length + 1) =
          (group.items.length - 1) + ((formed.flatMap Group.items).length - formed.length) := by
        omega
      obtain ⟨useful', wasted'⟩ := bounded.1
      intro items total
      have items_eq : items = group.items ++ formed.flatMap Group.items := rfl
      have total_eq : total =
          group.total.toNat + (formed.map fun group => group.total.toNat).sum := rfl
      rw [items_eq, total_eq, joined, List.length_append, List.length_cons, gaps, Nat.add_mul]
      omega

/-! ## Counting -/

/-- One thread among others that may do anything to what is shared.  Beside the shared state stands
what its own critical sections make of statistics that nobody else updates. -/
def Context.tallying (context : Context) : Environment (Shared × Stats) Choice Reply where
  serve state op choice :=
    (serve context.setup state.1 op choice).map fun (reply, after) =>
      (reply, (after, op.effect state.2))
  background before after := after.2 = before.2
  permits _ _ := True
  background_refl _ := rfl

instance (context : Context) (op : Op) (reply : Reply op) :
    Decidable (context.tallying.permits op reply) :=
  inferInstanceAs (Decidable True)

/-- Operations that do not count merged ranges. -/
def Op.CountsNoRanges (op : Op) : Prop :=
  ∀ stats, ((op.effect stats).coalescedRanges, (op.effect stats).coalescedBytes) =
    (stats.coalescedRanges, stats.coalescedBytes)

/-- A program that does not count merged ranges. -/
abbrev CountingNoRanges {α : Type} (program : Run α) : Prop :=
  program.Confined (fun _ _ => True) Op.CountsNoRanges

section

variable {context : Context}

theorem Op.countsNoRanges_inert (op : Op) (inert : op.Inert) : op.CountsNoRanges := by
  cases op with
  | lookup key => exact absurd inert id
  | insert key data validSize => exact absurd inert id
  | updateStats update => exact absurd inert id
  | _ => exact fun _ => rfl

theorem Op.countsNoRanges_misses : ComprisesMisses Op.CountsNoRanges :=
  ⟨Op.countsNoRanges_inert, fun _ counts stats => Prod.ext (counts stats).2.1 (counts stats).2.2⟩

theorem countingNoRanges_readPiece {path : String} {target : Target} {piece : Piece} :
    CountingNoRanges (readPiece context path target piece) := by
  have misses := Op.countsNoRanges_misses
  apply Prog.confined_perform_bind (fun _ => rfl)
  intro found _
  apply Prog.confined_perform_bind (misses.counted _ (countsMiss_onSelected _))
  intro _ _
  split
  · exact confined_delivered misses.inert (confined_counted fun _ => rfl)
  · exact confined_serveGds misses
  · exact confined_serveGds misses
  · exact confined_servePosix misses fun _ _ _ _ _ => rfl
  · exact confined_servePosix misses fun _ _ _ _ _ => rfl

/-- The reads and copies of a vectored read. -/
theorem countingNoRanges_readvLoop {target : Target} {formed : List Group} :
    CountingNoRanges (readvLoop context target formed) :=
  confined_readvLoop Op.countsNoRanges_misses fun _ _ _ => countingNoRanges_readPiece

theorem tallying_serves {before after : Shared × Stats} {op : Op} {reply : Reply op}
    (execution : context.tallying.Serves before op reply after) :
    after.2 = op.effect before.2 := by
  obtain ⟨ready, choice, quiet, execution, -⟩ := execution
  obtain ⟨served, -, same⟩ := Option.map_eq_some_iff.mp execution
  rw [← (Prod.mk.inj same).2, ← quiet]

/-- What a successful vectored read counts. -/
theorem evaluates_memtierReadv {sorter : Sorter} {args : ReadvArgs} {start after : Shared}
    {stats own : Stats} {result : ReadvResult}
    (evaluation : (memtierReadv context sorter args).Evaluates context.tallying (start, stats)
      result (after, own)) (succeeded : result.rc = .ok) :
    ∃ items, args.ranges.mapM Range.item? = some items ∧
      let formed := groups context.options (sorter.sort items)
      own.coalescedRanges = stats.coalescedRanges + formed.length ∧
        own.coalescedBytes =
          stats.coalescedBytes + (formed.map fun group => group.total.toNat).sum := by
  rw [memtierReadv] at evaluation
  split at evaluation
  · obtain ⟨rfl, -⟩ := evaluation
    simp at succeeded
  · cases checked : args.ranges.mapM Range.item? with
    | none =>
        rw [checked] at evaluation
        obtain ⟨rfl, -⟩ := evaluation
        simp at succeeded
    | some items =>
        rw [checked] at evaluation
        obtain ⟨read, middle, reading, evaluation⟩ := Prog.evaluates_bind.mp evaluation
        have step : ∀ (before : Shared × Stats) op reply after, op.CountsNoRanges →
            context.tallying.Serves before op reply after → True ∧
              (after.2.coalescedRanges, after.2.coalescedBytes) =
                (before.2.coalescedRanges, before.2.coalescedBytes) := by
          intro before op reply after kind execution
          rw [tallying_serves execution]
          exact ⟨trivial, kind before.2⟩
        have uncounted := Prod.mk.inj (countingNoRanges_readvLoop.evaluates step reading)
        split at evaluation
        · rename_i failed
          obtain ⟨rfl, -⟩ := evaluation
          exact absurd succeeded failed
        · obtain ⟨_, counted, execution, rfl, final⟩ := evaluation
          have updated := tallying_serves execution
          rw [final] at updated
          dsimp only at updated
          rw [updated]
          refine ⟨items, rfl, ?_⟩
          dsimp only [Op.effect]
          rw [uncounted.1, uncounted.2]
          exact ⟨rfl, rfl⟩

end

/-- Merging is a partition with bounded waste.  When a vectored read succeeds, whatever other
threads do meanwhile, its sorted ranges were cut into groups that could not have been merged any
further.  The bytes it counts are those of the ranges and at most one gap for each range that
joined another one. -/
theorem readv_coalesces (context : Context) (sorter : Sorter) (args : ReadvArgs)
    (straight : ∀ range ∈ args.ranges, range.offset.toNat + range.size.toNat < 2 ^ 64)
    (start after : Shared) (own : Stats) (result : ReadvResult)
    (evaluation : (memtierReadv context sorter args).Evaluates context.tallying (start, {}) result
      (after, own)) (succeeded : result.rc = .ok) :
    ∃ items, args.ranges.mapM Range.item? = some items ∧
      Coalesces context.options (sorter.sort items) (groups context.options (sorter.sort items)) ∧
      own.coalescedRanges = (groups context.options (sorter.sort items)).length ∧
      let size := (args.ranges.map fun range => range.size.toNat).sum
      let ranges := args.ranges.length
      own.coalescedRanges ≤ ranges ∧ size ≤ own.coalescedBytes ∧
        own.coalescedBytes ≤
          size + (ranges - own.coalescedRanges) * context.options.coalesceGap := by
  obtain ⟨items, checked, counted, bytes⟩ := evaluates_memtierReadv evaluation succeeded
  obtain ⟨same, positive⟩ := mapM_item?_eq_some.mp checked
  have perm := sorter.perm items
  have items_straight : ∀ item ∈ sorter.sort items, item.Straight := by
    intro item member
    have listed := perm.mem_iff.mp member
    refine ⟨?_, straight item.range (same ▸ List.mem_map_of_mem listed)⟩
    have nonempty := positive item listed
    rw [Ne, ← UInt64.toNat_inj] at nonempty
    exact Nat.pos_of_ne_zero nonempty
  obtain ⟨coalesces, bounded⟩ := @groups_coalesce context.options _ items_straight
  have totals := sum_totals bounded fun group member => (coalesces.groups group member).nonempty
  dsimp only at totals
  rw [coalesces.partition, perm.length_eq] at totals
  have size : sizes (sorter.sort items) = (args.ranges.map fun range => range.size.toNat).sum := by
    rw [sizes, (perm.map _).sum_eq, same, List.map_map]
    rfl
  have length : items.length = args.ranges.length := by
    rw [same, List.length_map]
  rw [size, length] at totals
  rw [counted, bytes]
  refine ⟨items, checked, coalesces, Nat.zero_add _, ?_⟩
  simpa only [Nat.zero_add] using totals

/-- Two ranges in reverse order that are merged into one read. -/
theorem readv_coalesces_pair :
    let context := Context.small id
    let args : ReadvArgs :=
      { ranges := [{ path := some "a", offset := 5, size := 2, dst := some 100 },
          { path := some "a", offset := 0, size := 3, dst := some 0 }], target := .cpu }
    ∃ items, ∃ own : Stats, args.ranges.mapM Range.item? = some items ∧
      Coalesces context.options (Sorter.insertion.sort items)
        (groups context.options (Sorter.insertion.sort items)) ∧ 5 ≤ own.coalescedBytes := by
  intro context args
  let start := context.initial (Files.single [1, 2, 3, 4, 5, 6, 7, 8])
  have evaluated : ((Prog.evaluate? context.tallying (List.replicate 20 (.take 3))
      (memtierReadv context .insertion args) (start, {})).map fun found => found.1.rc) =
        some .ok := by
    decide +kernel
  obtain ⟨⟨result, after, own⟩, found, succeeded⟩ := Option.map_eq_some_iff.mp evaluated
  obtain ⟨items, checked, coalesces, -, -, useful, -⟩ := readv_coalesces context .insertion args
    (by decide) start after own result (Prog.Evaluates.of_evaluate? found) succeeded
  exact ⟨items, own, checked, coalesces, useful⟩

end MemTier
