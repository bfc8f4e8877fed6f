import MemTier.Runtime.Transparency

/-!
# Vectored reads equal individual reads

Destinations that do not overlap are filled independently of the order in which the groups copy,
so a vectored read of immutable files amounts to one read for each range.
-/

namespace MemTier

open Containers Resumption

/-! ## Stores to disjoint destinations -/

/-- Two stores that do not meet. -/
def Apart (left right : Nat × Bytes) : Prop :=
  left.1 + left.2.length ≤ right.1 ∨ right.1 + right.2.length ≤ left.1

theorem Stores.apply_cons (store : Nat × Bytes) (stores : Stores) (memory : Memory) :
    Stores.apply (store :: stores) memory =
      Stores.apply stores (memory.write store.1 store.2) := rfl

/-- Stores leave alone what they do not meet. -/
theorem Stores.read_apply_apart {stores : Stores} {kept : Nat × Bytes}
    (apart : ∀ store ∈ stores, Apart kept store) (memory : Memory) :
    (stores.apply memory).read kept.1 kept.2.length = memory.read kept.1 kept.2.length := by
  induction stores generalizing memory with
  | nil => rfl
  | cons store rest induction =>
      rw [List.forall_mem_cons] at apart
      rw [Stores.apply_cons, induction apart.2, Memory.read_write_disjoint apart.1]

/-- Disjoint stores are all there in the end. -/
theorem Stores.read_apply {stores : Stores} (disjoint : stores.Pairwise Apart) (memory : Memory) :
    ∀ store ∈ stores, (stores.apply memory).read store.1 store.2.length = store.2 := by
  induction disjoint generalizing memory with
  | nil => exact nofun
  | cons apart _ induction =>
      rw [List.forall_mem_cons]
      refine ⟨?_, induction _⟩
      rw [Stores.apply_cons, Stores.read_apply_apart apart, Memory.read_write_same]

/-! ## Immutable files -/

/-- The destinations of two items do not overlap. -/
def Item.Disjoint (left right : Item) : Prop :=
  left.dst + left.sz.toNat ≤ right.dst ∨ right.dst + right.sz.toNat ≤ left.dst

/-- The range of an item lies inside its file. -/
def Item.Inside (naming : Naming) (files : Files) (item : Item) : Prop :=
  ∃ content, files (naming.inode item.path) = some content ∧ item.finish ≤ content.length

/-- What reading the range of an item delivers. -/
def Item.bytes (naming : Naming) (files : Files) (item : Item) : Bytes :=
  slice ((files (naming.inode item.path)).getD []) item.off.toNat item.sz.toNat

/-- A store that serves an item, when files did not change. -/
theorem Item.Served.eq {naming : Naming} {now : Shared} {item : Item} {store : Nat × Bytes}
    (served : item.Served naming now store) :
    item.Inside naming now.files ∧ (item.dst, item.bytes naming now.files) = store := by
  obtain ⟨address, content, present, inside, data⟩ := served
  change now.files (naming.inode item.path) = some content at present
  refine ⟨⟨content, present, inside⟩, ?_⟩
  rw [Item.bytes, present, ← address]
  exact congrArg (Prod.mk _) data.symm

theorem Item.Inside.length_bytes {naming : Naming} {files : Files} {item : Item}
    (inside : item.Inside naming files) : (item.bytes naming files).length = item.sz.toNat := by
  obtain ⟨content, present, finish_le⟩ := inside
  rw [Item.bytes, present]
  exact length_slice_of_le finish_le

/-- The outcome of a vectored read, when files did not change. -/
theorem ReadvOutcome.settles {naming : Naming} {items sorted : List Item} {start now : Shared}
    {result : ReadvResult} (outcome : ReadvOutcome naming .cpu sorted start now result)
    (frozen : now.files = start.files) (perm : sorted.Perm items)
    (disjoint : items.Pairwise Item.Disjoint) :
    (result.rc = .ok ↔ ∀ item ∈ items, item.Inside naming start.files) ∧
      (result.rc = .ok → ∀ memory, ∀ item ∈ items,
        (result.stores.apply memory).read item.dst item.sz.toNat =
          item.bytes naming start.files) := by
  have served : result.rc = .ok → (∀ item ∈ sorted, item.Inside naming start.files) ∧
      sorted.map (fun item => (item.dst, item.bytes naming start.files)) = result.stores := by
    intro ok
    have delivered := (outcome.served ok).imp fun _ _ => Item.Served.eq
    rw [frozen, List.forall₂_and_left, ← List.forall₂_map_left_iff, List.forall₂_eq_eq_eq]
      at delivered
    exact delivered
  refine ⟨⟨fun ok item member => (served ok).1 item (perm.mem_iff.mpr member), ?_⟩, ?_⟩
  · intro inside
    by_contra failed
    obtain ⟨-, item, member, blamed⟩ := outcome.failed failed rfl
    obtain ⟨content, present, finish_le⟩ := inside item (perm.mem_iff.mp member)
    exact absurd (blamed content present) (Nat.not_lt.mpr finish_le)
  · intro ok memory item member
    obtain ⟨inside, stores⟩ := served ok
    have symmetric : ∀ {left right : Item}, left.Disjoint right → right.Disjoint left :=
      fun apart => apart.symm
    have apart : result.stores.Pairwise Apart := by
      rw [← stores, List.pairwise_map]
      refine ((perm.pairwise_iff symmetric).mpr disjoint).imp_of_mem ?_
      intro left right left_mem right_mem separate
      rw [Apart, (inside left left_mem).length_bytes, (inside right right_mem).length_bytes]
      exact separate
    have sorted_mem := perm.mem_iff.mpr member
    have found := Stores.read_apply apart memory (item.dst, item.bytes naming start.files)
      (by rw [← stores]; exact List.mem_map_of_mem sorted_mem)
    rwa [(inside item sorted_mem).length_bytes] at found

/-- A vectored read equals the individual reads.  From every reachable state of a context over
immutable files it returns; it succeeds exactly when every range lies inside its file, and then
every destination holds the bytes of its range.  No copy leaves the buffer of its group. -/
theorem readv_reads_ranges (context : Context) (sorter : Sorter) (used : Set String)
    (files : Files) (injective : context.setup.naming.InjectiveOn used)
    (never : context.GdsNeverSucceeds)
    (small : ∀ inode content, files inode = some content → content.length < 2 ^ 63)
    (system : System) (reachable : System.Reachable context sorter used false files system)
    (items : List Item) (nonempty : items ≠ []) (items_used : ∀ item ∈ items, item.path ∈ used)
    (straight : ∀ item ∈ items, item.Straight) (disjoint : items.Pairwise Item.Disjoint)
    (stream : Nat → Choice) (reliable : ∀ time, (stream time).Reliable)
    (fair : Prog.Fair Choice.Completes stream) :
    (∃ result after,
      Prog.Returns (serve context.setup) stream system.shared
        (memtierReadv context sorter { ranges := items.map Item.range, target := .cpu })
        result after ∧
      (result.rc = .ok ↔ ∀ item ∈ items, item.Inside context.setup.naming files) ∧
      (result.rc = .ok → ∀ memory, ∀ item ∈ items,
        (result.stores.apply memory).read item.dst item.sz.toNat =
          item.bytes context.setup.naming files)) ∧
    ∀ group ∈ groups context.options (sorter.sort items), ∀ item ∈ group.items,
      (item.off - group.base).toNat + item.sz.toNat ≤ group.total.toNat := by
  have sorted_straight : ∀ item ∈ sorter.sort items, item.Straight :=
    fun item member => straight item ((sorter.perm items).mem_iff.mp member)
  constructor
  · have sound := reachable.sound injective small
    obtain ⟨result, after, returned⟩ := Prog.returns_of_fair (serve_completes context.setup) fair
      system.shared (memtierReadv context sorter
        { ranges := items.map Item.range, target := .cpu })
    have checked : (items.map Item.range).mapM Range.item? = some items := by
      refine mapM_item?_eq_some.mpr ⟨rfl, fun item member empty => ?_⟩
      have positive := (straight item member).1
      simp [empty] at positive
    have kept : context.Keeps used .frozen _ (memtierReadv context sorter
        { ranges := items.map Item.range, target := .cpu }) system.shared :=
      keeps_mono (keeps_memtierReadv sound.valid injective ?_)
        fun value now follows outcome => And.intro follows.allowed outcome
    · obtain ⟨-, frozen, outcome⟩ := kept.returns sound.valid (fun _ => rfl) reliable returned
      have settled := (outcome items (by simpa using nonempty) checked never.honest
        straight).settles frozen (sorter.perm items) disjoint
      rw [reachable.files_eq] at settled
      exact ⟨result, after, returned, settled⟩
    · intro range member path named
      obtain ⟨item, item_mem, rfl⟩ := List.mem_map.mp member
      exact Option.some.inj named ▸ items_used item item_mem
  · intro group member item item_mem
    exact (((groups_cover sorted_straight).2 group member).copy_inside item_mem).2

/-- Two ranges in reverse order that are merged into one read. -/
theorem readv_reads_ranges_merged :
    let context := Context.small id
    let items : List Item :=
      [{ path := "a", off := 5, sz := 2, dst := 100 }, { path := "a", off := 0, sz := 3, dst := 0 }]
    ∃ result after,
      Prog.Returns (serve context.setup) (fun _ => .take 3)
        (context.initial (Files.single [1, 2, 3, 4, 5, 6, 7, 8]))
        (memtierReadv context .insertion { ranges := items.map Item.range, target := .cpu })
        result after ∧
      result.rc = .ok ∧ ∀ memory, (result.stores.apply memory).read 100 2 = [6, 7] ∧
        (result.stores.apply memory).read 0 3 = [1, 2, 3] := by
  intro context items
  obtain ⟨⟨result, after, returned, succeeds, fills⟩, -⟩ :=
    readv_reads_ranges context .insertion {"a"} (Files.single [1, 2, 3, 4, 5, 6, 7, 8])
      (fun _ _ _ _ _ => rfl) (.inl rfl) (Files.single_small (by norm_num)) _ .init items
      (by simp [items]) (by simp [items]) (by simp [items, Item.Straight])
      (by simp [items, Item.Disjoint]) (fun _ => .take 3) (fun _ => nofun)
      fun time => ⟨time, le_rfl, nofun⟩
  have ok : result.rc = .ok := succeeds.mpr (by
    simp [items, Item.Inside, Item.finish, Files.single, context, Context.small, memtierInit])
  have filled := fills ok
  simp only [items, List.forall_mem_cons] at filled
  exact ⟨result, after, returned, ok, fun memory => ⟨(filled memory).1, (filled memory).2.1⟩⟩

end MemTier
