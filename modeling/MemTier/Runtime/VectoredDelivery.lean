import MemTier.Runtime.Delivery

/-!
# What vectored reads deliver

A group covers its ranges exactly up to the end of the last one, so reading the group fails only
if reading one of its ranges does, and every copy out of the merged buffer stays inside it.
-/

namespace MemTier

open Containers Resumption

/-! ## Groups -/

/-- The range of an item does not wrap around. -/
def Item.Straight (item : Item) : Prop :=
  0 < item.sz.toNat ∧ item.off.toNat + item.sz.toNat < 2 ^ 64

/-- The end of an item's range. -/
def Item.finish (item : Item) : Nat := item.off.toNat + item.sz.toNat

/-- A group reads from its base up to the end of its last range. -/
structure Group.Covers (group : Group) : Prop where
  straight : 0 < group.total.toNat ∧ group.base.toNat + group.total.toNat < 2 ^ 64
  paths : ∀ item ∈ group.items, item.path = group.path
  within : ∀ item ∈ group.items, group.base.toNat ≤ item.off.toNat ∧
    item.finish ≤ group.base.toNat + group.total.toNat
  tight : ∃ item ∈ group.items, item.finish = group.base.toNat + group.total.toNat

/-- Every copy stays inside the buffer of its group. -/
theorem Group.Covers.copy_inside {group : Group} (covers : group.Covers) {item : Item}
    (member : item ∈ group.items) :
    (item.off - group.base).toNat = item.off.toNat - group.base.toNat ∧
      (item.off - group.base).toNat + item.sz.toNat ≤ group.total.toNat := by
  obtain ⟨base_le, finish_le⟩ := covers.within item member
  have difference : (item.off - group.base).toNat = item.off.toNat - group.base.toNat :=
    UInt64.toNat_sub_of_le _ _ (UInt64.le_iff_toNat_le.mpr base_le)
  rw [Item.finish] at finish_le
  exact ⟨difference, by omega⟩

/-- The merged length after an item joined. -/
theorem toNat_extended (base : UInt64) {item : Item} (straight : item.Straight)
    (base_le : base.toNat ≤ item.off.toNat) :
    (item.off + item.sz - base).toNat = item.finish - base.toNat := by
  have sum : (item.off + item.sz).toNat = item.finish := by
    rw [UInt64.toNat_add, Nat.mod_eq_of_lt straight.2, Item.finish]
  have base_le' : base ≤ item.off + item.sz := by
    rw [UInt64.le_iff_toNat_le, sum, Item.finish]
    omega
  rw [UInt64.toNat_sub_of_le _ _ base_le', sum]

/-- Extending a group keeps it straight, and the last item that joined ends where it ends. -/
theorem extendGroup_covers (options : Options) (path : String) {base total : UInt64}
    {items : List Item} (straight : base.toNat + total.toNat < 2 ^ 64)
    (items_straight : ∀ item ∈ items, item.Straight) :
    let extended := extendGroup options path base total items
    total.toNat ≤ extended.1.toNat ∧ base.toNat + extended.1.toNat < 2 ^ 64 ∧
      (∀ item ∈ extended.2.1, item.path = path ∧ base.toNat ≤ item.off.toNat ∧
        item.finish ≤ base.toNat + extended.1.toNat) ∧
      (extended.1 = total ∨
        ∃ item ∈ extended.2.1, item.finish = base.toNat + extended.1.toNat) ∧
      extended.2.1 ++ extended.2.2 = items := by
  induction items generalizing total with
  | nil => exact ⟨le_rfl, straight, fun item member => absurd member List.not_mem_nil, .inl rfl, rfl⟩
  | cons item rest induction =>
      rw [extendGroup]
      split
      · rename_i joined
        simp only [joins, Bool.and_eq_true, decide_eq_true_iff] at joined
        obtain ⟨same_path, behind, -, -⟩ := joined
        have item_straight := items_straight item List.mem_cons_self
        have end_le : base.toNat + total.toNat ≤ item.off.toNat := by
          rw [UInt64.le_iff_toNat_le, UInt64.toNat_add, Nat.mod_eq_of_lt straight] at behind
          exact behind
        have merged := toNat_extended base item_straight (by omega)
        have finish_lt : item.finish < 2 ^ 64 := item_straight.2
        have finish_ge : item.off.toNat ≤ item.finish := Nat.le_add_right _ _
        obtain ⟨longer, bounded, members, last, split⟩ :=
          induction (show base.toNat + (item.off + item.sz - base).toNat < 2 ^ 64 by omega)
            fun other member => items_straight other (List.mem_cons_of_mem _ member)
        generalize extendGroup options path base (item.off + item.sz - base) rest = extended at *
        obtain ⟨final, joined, remaining⟩ := extended
        dsimp only at *
        refine ⟨by omega, bounded, ?_, .inr ?_, by simpa using split⟩
        · rw [List.forall_mem_cons]
          exact ⟨⟨same_path, by omega, by omega⟩, members⟩
        · rcases last with same | ⟨final, member, ends⟩
          · refine ⟨item, List.mem_cons_self, ?_⟩
            rw [same, merged]
            omega
          · exact ⟨final, List.mem_cons_of_mem _ member, ends⟩
      · exact ⟨le_rfl, straight, fun item member => absurd member List.not_mem_nil, .inl rfl, rfl⟩

/-- The groups partition the items in order, and each covers its own. -/
theorem groups_cover {options : Options} {items : List Item}
    (straight : ∀ item ∈ items, item.Straight) :
    (groups options items).flatMap Group.items = items ∧
      ∀ group ∈ groups options items, group.Covers := by
  induction length : items.length using Nat.strong_induction_on generalizing items with
  | h length induction =>
      cases items with
      | nil =>
          rw [groups]
          exact ⟨rfl, by simp⟩
      | cons first rest =>
          have first_straight := straight first List.mem_cons_self
          have rest_straight : ∀ item ∈ rest, item.Straight :=
            fun item member => straight item (List.mem_cons_of_mem _ member)
          obtain ⟨longer, bounded, members, last, split⟩ :=
            extendGroup_covers options first.path first_straight.2 rest_straight
          have shorter :=
            (extendGroup_suffix options first.path first.off first.sz rest).length_le
          rw [groups]
          generalize extendGroup options first.path first.off first.sz rest = extended at *
          obtain ⟨final, joined, remaining⟩ := extended
          dsimp only at *
          rw [List.length_cons] at length
          obtain ⟨partition, covers⟩ := induction remaining.length (by omega)
            (fun item member => rest_straight item (split ▸ List.mem_append_right _ member)) rfl
          constructor
          · rw [List.flatMap_cons, partition, ← split]
            rfl
          · rw [List.forall_mem_cons]
            refine ⟨⟨⟨?_, bounded⟩, ?_, ?_, ?_⟩, covers⟩
            · exact first_straight.1.trans_le longer
            · rw [List.forall_mem_cons]
              exact ⟨rfl, fun item member => (members item member).1⟩
            · rw [List.forall_mem_cons]
              refine ⟨⟨le_rfl, ?_⟩, fun item member => (members item member).2⟩
              exact Nat.add_le_add_left longer _
            · rcases last with same | ⟨item, member, ends⟩
              · exact ⟨first, List.mem_cons_self, by rw [same]; rfl⟩
              · exact ⟨item, List.mem_cons_of_mem _ member, ends⟩

/-- Every group reads the path of one of the items. -/
theorem path_of_mem_groups {options : Options} {items : List Item} :
    ∀ group ∈ groups options items, ∃ item ∈ items, item.path = group.path := by
  induction length : items.length using Nat.strong_induction_on generalizing items with
  | h length induction =>
      cases items with
      | nil =>
          rw [groups]
          simp
      | cons first rest =>
          have suffix := extendGroup_suffix options first.path first.off first.sz rest
          have shorter := suffix.length_le
          rw [groups, List.forall_mem_cons]
          refine ⟨⟨first, List.mem_cons_self, rfl⟩, fun group member => ?_⟩
          rw [List.length_cons] at length
          obtain ⟨item, item_mem, same⟩ := induction _ (by omega) rfl group member
          exact ⟨item, List.mem_cons_of_mem _ (suffix.mem item_mem), same⟩

/-! ## Outcomes -/

/-- A store delivers the range of its item. -/
def Item.Served (naming : Naming) (now : Shared) (item : Item) (store : Nat × Bytes) : Prop :=
  store.1 = item.dst ∧ ∃ content, now.content naming item.path = some content ∧
    item.finish ≤ content.length ∧ store.2 = slice content item.off.toNat item.sz.toNat

/-- Outcome of a vectored read of checked items. -/
structure ReadvOutcome (naming : Naming) (target : Target) (items : List Item)
    (start now : Shared) (result : ReadvResult) : Prop where
  served : result.rc = .ok → List.Forall₂ (Item.Served naming now) items result.stores
  failed : result.rc ≠ .ok → target = .cpu → result.rc = .io ∧ ∃ item ∈ items,
    ∀ first, start.content naming item.path = some first → first.length < item.finish

section

variable {context : Context} {used : Set String} {interference : Interference}
  {start shared : Shared}

theorem Item.Served.grow {now later : Shared} {item : Item} {store : Nat × Bytes}
    (served : item.Served context.setup.naming now store)
    (follows : Follows context used interference now later) :
    item.Served context.setup.naming later store := by
  obtain ⟨address, content, present, inside, data⟩ := served
  obtain ⟨grown, present', growth⟩ := follows.content present
  exact ⟨address, grown, present', inside.trans growth.length_le,
    by rw [data, slice_of_grown growth inside]⟩

/-- Copying to the host stores every range of the group. -/
theorem keeps_copyItems {target : Target} {base : UInt64} {tmp : Bytes} {items : List Item}
    (valid : SharedValid context used shared) :
    context.Keeps used interference
      (fun result _ => (result.rc = .ok → result.stores = items.map fun item =>
          (item.dst, slice tmp (item.off - base).toNat item.sz.toNat)) ∧
        (target = .cpu → result.rc = .ok))
      (copyItems context target base tmp items) shared := by
  induction items generalizing shared with
  | nil => exact keeps_ret fun _ _ => ⟨fun _ => rfl, fun _ => rfl⟩
  | cons item rest induction =>
      refine keeps_copyTarget valid fun rc copied follows onHost => ?_
      split
      · rename_i failed
        exact keeps_ret fun _ _ => ⟨nofun, fun host => absurd (onHost host) failed⟩
      · refine keeps_bind follows.valid (induction follows.valid) ?_
        intro result now _ outcome
        refine keeps_ret fun _ _ => ⟨fun succeeded => ?_, outcome.2⟩
        exact congrArg (List.cons _) (outcome.1 succeeded)

/-- The ranges of a group, copied out of its buffer. -/
theorem Group.Covers.served {group : Group} (covers : group.Covers) {now : Shared}
    {content : Bytes} {naming : Naming} (present : now.content naming group.path = some content)
    (inside : group.base.toNat + group.total.toNat ≤ content.length) :
    List.Forall₂ (Item.Served naming now) group.items (group.items.map fun item =>
      (item.dst, slice (zeroFill group.total.toNat
        (slice content group.base.toNat group.total.toNat))
        (item.off - group.base).toNat item.sz.toNat)) := by
  rw [List.forall₂_map_right_iff, List.forall₂_same]
  intro item member
  obtain ⟨difference, fits⟩ := covers.copy_inside member
  obtain ⟨base_le, finish_le⟩ := covers.within item member
  refine ⟨rfl, content, by rw [covers.paths item member, present], finish_le.trans inside, ?_⟩
  dsimp only
  rw [zeroFill_of_length (length_slice_of_le inside), slice_slice fits, difference]
  congr 1
  omega

theorem keeps_readvLoop {target : Target} {formed : List Group}
    (follows : Follows context used interference start shared)
    (injective : context.setup.naming.InjectiveOn used)
    (paths_used : ∀ group ∈ formed, group.path ∈ used) :
    context.Keeps used interference
      (fun result now => ¬ context.GdsStubReads → (∀ group ∈ formed, group.Covers) →
        ReadvOutcome context.setup.naming target (formed.flatMap Group.items) start now result)
      (readvLoop context target formed) shared := by
  induction formed generalizing shared with
  | nil =>
      exact keeps_ret fun _ _ _ _ => ⟨fun _ => .nil, fun failed => absurd rfl failed⟩
  | cons group rest induction =>
      rw [List.forall_mem_cons] at paths_used
      refine keeps_bind follows.valid (keeps_doReadImpl follows.valid injective ?_) ?_
      · rintro path ⟨⟩
        exact paths_used.1
      intro result now read outcome
      -- Covered groups are nonempty and do not wrap, so their read is an honest one.
      have transparent : ¬ context.GdsStubReads → group.Covers →
          Transparent .cpu group.base.toNat group.total.toNat
            (shared.content context.setup.naming group.path)
            (now.content context.setup.naming group.path) result := by
        intro honest covers
        have positive := covers.straight.1
        refine (outcome group.path rfl rfl ?_ rfl).transparent honest positive
          group.base.toNat_lt
        rintro (empty : group.total = 0)
        simp [empty] at positive
      dsimp only
      split
      · rename_i failed
        refine keeps_ret fun later _ honest covers => ⟨fun ok => absurd ok failed, fun _ host => ?_⟩
        rw [List.forall_mem_cons] at covers
        obtain ⟨io, past⟩ := (transparent honest covers.1).failed failed rfl
        obtain ⟨item, member, ends⟩ := covers.1.tight
        refine ⟨io, item, ?_, fun first known => ?_⟩
        · rw [List.flatMap_cons]
          exact List.mem_append_left _ member
        · rw [covers.1.paths item member] at known
          obtain ⟨grown, present, growth⟩ := follows.content known
          rw [ends]
          exact growth.length_le.trans_lt (past grown present)
      · rename_i succeeded
        have succeeded := not_not.mp succeeded
        refine keeps_bind read.valid (keeps_copyItems read.valid) ?_
        intro copied now' copying outcome'
        split
        · rename_i failed
          refine keeps_ret fun later _ honest covers => ⟨fun ok => absurd ok failed, fun _ host => ?_⟩
          exact absurd (outcome'.2 host) failed
        · rename_i copied_ok
          have stores := outcome'.1 (not_not.mp copied_ok)
          refine keeps_bind copying.valid
            (induction ((follows.trans read).trans copying) paths_used.2) ?_
          intro later now'' reading rest_outcome
          refine keeps_ret fun _ final honest covers => ?_
          rw [List.forall_mem_cons] at covers
          have remaining := rest_outcome honest covers.2
          obtain ⟨content, present, inside, data⟩ :=
            (transparent honest covers.1).served succeeded
          rw [data] at stores
          constructor
          · intro ok
            rw [List.flatMap_cons, stores]
            have after := (copying.trans reading).trans final
            refine List.rel_append ?_ ?_
            · exact (covers.1.served present inside).imp fun _ _ served => served.grow after
            · exact (remaining.served ok).imp fun _ _ served => served.grow final
          · intro failed host
            obtain ⟨io, item, member, blamed⟩ := remaining.failed failed host
            refine ⟨io, item, ?_, blamed⟩
            rw [List.flatMap_cons]
            exact List.mem_append_right _ member

theorem Range.item?_eq_some {range : Range} {item : Item} :
    range.item? = some item ↔ range = item.range ∧ item.sz ≠ 0 := by
  constructor
  · intro checked
    rw [Range.item?] at checked
    split at checked
    · rename_i path dst named placed
      split at checked
      · simp at checked
      · rename_i nonempty
        simp only [Option.some.injEq] at checked
        subst checked
        refine ⟨?_, nonempty⟩
        rw [Item.range, ← named, ← placed]
    · simp at checked
  · rintro ⟨rfl, nonempty⟩
    simp [Range.item?, Item.range, nonempty]

/-- Checking succeeds exactly on the ranges of nonempty items. -/
theorem mapM_item?_eq_some {ranges : List Range} {items : List Item} :
    ranges.mapM Range.item? = some items ↔
      ranges = items.map Item.range ∧ ∀ item ∈ items, item.sz ≠ 0 := by
  induction ranges generalizing items with
  | nil =>
      cases items with
      | nil => simp
      | cons item tail => simp
  | cons range rest induction =>
      cases items with
      | nil => simp [Option.bind_eq_some_iff]
      | cons item tail =>
          simp only [List.mapM_cons, Option.pure_def, Option.bind_eq_bind,
            Option.bind_eq_some_iff, Option.some.injEq, List.cons.injEq, List.map_cons,
            List.forall_mem_cons, Range.item?_eq_some, induction]
          constructor
          · rintro ⟨_, ⟨rfl, nonempty⟩, _, ⟨rfl, others⟩, rfl, rfl⟩
            exact ⟨⟨rfl, rfl⟩, nonempty, others⟩
          · rintro ⟨⟨rfl, rfl⟩, nonempty, others⟩
            exact ⟨item, ⟨rfl, nonempty⟩, tail, ⟨rfl, others⟩, rfl, rfl⟩

/-- Groups of checked ranges read used paths only. -/
theorem group_path_mem {options : Options} {sorter : Sorter} {ranges : List Range}
    {items : List Item} (checked : ranges.mapM Range.item? = some items)
    (paths_used : ∀ range ∈ ranges, ∀ path, range.path = some path → path ∈ used) :
    ∀ group ∈ groups options (sorter.sort items), group.path ∈ used := by
  intro group member
  obtain ⟨item, item_mem, same⟩ := path_of_mem_groups group member
  have range_mem : item.range ∈ ranges := by
    rw [(mapM_item?_eq_some.mp checked).1]
    exact List.mem_map_of_mem ((sorter.perm items).mem_iff.mp item_mem)
  exact same ▸ paths_used item.range range_mem item.path rfl

theorem keeps_memtierReadv {sorter : Sorter} {args : ReadvArgs}
    (valid : SharedValid context used shared)
    (injective : context.setup.naming.InjectiveOn used)
    (paths_used : ∀ range ∈ args.ranges, ∀ path, range.path = some path → path ∈ used) :
    context.Keeps used interference
      (fun result now => ∀ items, args.ranges ≠ [] → args.ranges.mapM Range.item? = some items →
        ¬ context.GdsStubReads → (∀ item ∈ items, item.Straight) →
          ReadvOutcome context.setup.naming args.target (sorter.sort items) shared now result)
      (memtierReadv context sorter args) shared := by
  rw [memtierReadv]
  split
  · rename_i empty
    exact keeps_ret fun _ _ _ nonempty => absurd empty nonempty
  · split
    · rename_i rejected
      refine keeps_ret fun _ _ items _ checked => ?_
      exact absurd (rejected.symm.trans checked) nofun
    · rename_i items checked
      refine keeps_bind valid (keeps_readvLoop (Follows.refl valid) injective
        (group_path_mem checked paths_used)) ?_
      intro result now reading outcome
      have outcome' : ∀ later, Follows context used interference now later → ∀ others,
          args.ranges ≠ [] → args.ranges.mapM Range.item? = some others →
            ¬ context.GdsStubReads → (∀ item ∈ others, item.Straight) →
              ReadvOutcome context.setup.naming args.target (sorter.sort others) shared later
                result := by
        intro later follows others _ same honest straight
        obtain rfl := Option.some.inj (checked.symm.trans same)
        obtain ⟨partition, covers⟩ := @groups_cover context.options (sorter.sort items)
          fun item member => straight item ((sorter.perm items).mem_iff.mp member)
        have settled := outcome honest covers
        rw [partition] at settled
        exact ⟨fun ok => (settled.served ok).imp fun _ _ served => served.grow follows,
          settled.failed⟩
      split
      · exact keeps_ret fun later final => outcome' later final
      · exact keeps_updateStats fun counted follows => keeps_ret fun later final =>
          outcome' later (follows.trans final)

end

end MemTier
