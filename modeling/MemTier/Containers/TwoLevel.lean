import MemTier.Containers.Conservative
import MemTier.Containers.Replacement

/-!
# Two levels of keys

A small level in front of a larger one.  The upper level is a queue of arrivals, the lower level a
least-recently-used list that only sees what the upper level misses.
-/

namespace Containers

/-- Where a request finds its key. -/
inductive Level where
  | upper | lower | outside
  deriving DecidableEq, Repr

/-- The keys of both levels, in the upper one the newest arrival first, in the lower one the most
recent key first. -/
structure TwoLevel (κ : Type) where
  upper : List κ
  lower : List κ
  deriving DecidableEq, Repr

namespace TwoLevel

variable {κ : Type} [DecidableEq κ]

def empty : TwoLevel κ where
  upper := []
  lower := []

def find (store : TwoLevel κ) (key : κ) : Level :=
  if key ∈ store.upper then .upper else if key ∈ store.lower then .lower else .outside

/-- A hit in the upper level changes nothing.  A miss there refreshes the key in the lower level or
takes it in, and enters it into the upper level. -/
def fetch (upperRoom lowerRoom : Nat) (store : TwoLevel κ) (key : κ) : TwoLevel κ :=
  match store.find key with
  | .upper => store
  | .lower =>
      { upper := Recency.enter upperRoom key store.upper, lower := Recency.use key store.lower }
  | .outside =>
      { upper := Recency.enter upperRoom key store.upper
        lower := Recency.enter lowerRoom key store.lower }

/-- Where the requests of a trace find their keys. -/
def levels (upperRoom lowerRoom : Nat) : TwoLevel κ → List κ → List Level
  | _, [] => []
  | store, key :: trace =>
      store.find key :: levels upperRoom lowerRoom (store.fetch upperRoom lowerRoom key) trace

/-- Both levels after a trace. -/
def after (upperRoom lowerRoom : Nat) (store : TwoLevel κ) (trace : List κ) : TwoLevel κ :=
  trace.foldl (fetch upperRoom lowerRoom) store

theorem levels_append (upperRoom lowerRoom : Nat) (store : TwoLevel κ) (first second : List κ) :
    levels upperRoom lowerRoom store (first ++ second) =
      levels upperRoom lowerRoom store first ++
        levels upperRoom lowerRoom (store.after upperRoom lowerRoom first) second := by
  induction first generalizing store with
  | nil => rfl
  | cons key first induction => exact congrArg (store.find key :: ·) (induction _)

theorem after_append (upperRoom lowerRoom : Nat) (store : TwoLevel κ) (first second : List κ) :
    store.after upperRoom lowerRoom (first ++ second) =
      (store.after upperRoom lowerRoom first).after upperRoom lowerRoom second :=
  List.foldl_append

variable {upperRoom lowerRoom : Nat} {store : TwoLevel κ} {key : κ}

theorem find_eq_upper : store.find key = .upper ↔ key ∈ store.upper := by
  rw [find]
  split_ifs <;> simp_all

theorem find_eq_outside : store.find key = .outside ↔ key ∉ store.upper ++ store.lower := by
  rw [find, List.mem_append]
  split_ifs <;> simp_all

theorem fetch_of_mem (member : key ∈ store.upper) :
    store.fetch upperRoom lowerRoom key = store := by
  rw [fetch, find_eq_upper.mpr member]

/-- What a miss of the upper level does to it. -/
theorem upper_fetch (absent : key ∉ store.upper) :
    (store.fetch upperRoom lowerRoom key).upper = Recency.enter upperRoom key store.upper := by
  rw [fetch, find, if_neg absent]
  split_ifs <;> rfl

/-- What a miss of the upper level does to the lower one. -/
theorem lower_fetch (absent : key ∉ store.upper) :
    (store.fetch upperRoom lowerRoom key).lower =
      if key ∈ store.lower then Recency.use key store.lower
      else Recency.enter lowerRoom key store.lower := by
  rw [fetch, find, if_neg absent]
  split_ifs <;> rfl

theorem upper_fetch_subset :
    (store.fetch upperRoom lowerRoom key).upper ⊆ key :: store.upper := by
  by_cases member : key ∈ store.upper
  · rw [fetch_of_mem member]
    exact List.subset_cons_self _ _
  · rw [upper_fetch member]
    exact Recency.enter_subset (List.Subset.refl _)

theorem lower_fetch_subset :
    (store.fetch upperRoom lowerRoom key).lower ⊆ key :: store.lower := by
  by_cases member : key ∈ store.upper
  · rw [fetch_of_mem member]
    exact List.subset_cons_self _ _
  · rw [lower_fetch member]
    split_ifs
    · exact List.subset_cons_of_subset _ (Recency.use_perm key store.lower).subset
    · exact Recency.enter_subset (List.Subset.refl _)

/-! ## Counting -/

/-- The upper level for itself. -/
@[simps]
def upperStore (upperRoom lowerRoom : Nat) : DemandStore κ (TwoLevel κ) where
  held := upper
  serve := fetch upperRoom lowerRoom
  demand _ _ := upper_fetch_subset

/-- Both levels together. -/
@[simps]
def wholeStore (upperRoom lowerRoom : Nat) : DemandStore κ (TwoLevel κ) where
  held store := store.upper ++ store.lower
  serve := fetch upperRoom lowerRoom
  demand store key := by
    intro other member
    rcases List.mem_append.mp member with above | below
    · rcases List.mem_cons.mp (upper_fetch_subset above) with rfl | held
      · exact List.mem_cons_self
      · exact List.mem_cons_of_mem _ (List.mem_append_left _ held)
    · rcases List.mem_cons.mp (lower_fetch_subset below) with rfl | held
      · exact List.mem_cons_self
      · exact List.mem_cons_of_mem _ (List.mem_append_right _ held)

theorem length_levels (store : TwoLevel κ) (trace : List κ) :
    (levels upperRoom lowerRoom store trace).length = trace.length := by
  induction trace generalizing store with
  | nil => rfl
  | cons key trace induction => rw [levels, List.length_cons, List.length_cons, induction]

theorem count_outside (store : TwoLevel κ) (trace : List κ) :
    (levels upperRoom lowerRoom store trace).count .outside =
      (wholeStore upperRoom lowerRoom).misses store trace := by
  induction trace generalizing store with
  | nil => rfl
  | cons key trace induction =>
      rw [levels, DemandStore.misses, List.count_cons, induction, Nat.add_comm, wholeStore_serve]
      refine congrArg₂ _ ?_ rfl
      simp only [wholeStore_held, beq_iff_eq, find_eq_outside]
      split_ifs <;> rfl

theorem count_upper (store : TwoLevel κ) (trace : List κ) :
    (levels upperRoom lowerRoom store trace).count .upper +
      (upperStore upperRoom lowerRoom).misses store trace = trace.length := by
  induction trace generalizing store with
  | nil => rfl
  | cons key trace induction =>
      have later := induction (store.fetch upperRoom lowerRoom key)
      rw [levels, DemandStore.misses, List.count_cons, List.length_cons, ← later]
      simp only [upperStore_held, upperStore_serve, beq_iff_eq, find_eq_upper]
      split_ifs <;> omega

/-! ## The upper level for itself -/

/-- The upper level after a trace. -/
def arrivals (room : Nat) (order trace : List κ) : List κ :=
  trace.foldl (fun order key => if key ∈ order then order else Recency.enter room key order) order

section

variable {room : Nat} {order trace : List κ}

theorem arrivals_cons_of_mem (member : key ∈ order) :
    arrivals room order (key :: trace) = arrivals room order trace := by
  rw [arrivals, List.foldl_cons, if_pos member, arrivals]

theorem arrivals_cons_of_notMem (missing : key ∉ order) :
    arrivals room order (key :: trace) = arrivals room (Recency.enter room key order) trace := by
  rw [arrivals, List.foldl_cons, if_neg missing, arrivals]

theorem upper_after (store : TwoLevel κ) (trace : List κ) :
    (store.after upperRoom lowerRoom trace).upper = arrivals upperRoom store.upper trace := by
  induction trace generalizing store with
  | nil => rfl
  | cons key trace induction =>
      refine (induction (store.fetch upperRoom lowerRoom key)).trans ?_
      by_cases above : key ∈ store.upper
      · rw [fetch_of_mem above, arrivals_cons_of_mem above]
      · rw [upper_fetch above, arrivals_cons_of_notMem above]

theorem arrivals_subset : arrivals room order trace ⊆ trace ++ order := by
  have held := (upperStore room 0).held_foldl_subset (TwoLevel.mk order []) trace
  rwa [upperStore_held, show trace.foldl (upperStore room 0).serve (TwoLevel.mk order []) =
    (TwoLevel.mk order []).after room 0 trace from rfl, upper_after] at held

end

/-- All requests hit the upper level if and only if it holds all their keys to begin with. -/
theorem levels_upper_iff {trace : List κ} :
    (∀ level ∈ levels upperRoom lowerRoom store trace, level = .upper) ↔
      ∀ key ∈ trace, key ∈ store.upper := by
  induction trace with
  | nil => simp [levels]
  | cons key trace induction =>
      rw [levels, List.forall_mem_cons, List.forall_mem_cons, find_eq_upper]
      refine and_congr_right fun above => ?_
      rw [fetch_of_mem above]
      exact induction

/-! ## Room -/

theorem length_lt_of_new {keys : Finset κ} {held : List κ} (distinct : held.Nodup)
    (inside : ∀ other ∈ held, other ∈ keys) (member : key ∈ keys) (absent : key ∉ held) :
    held.length < keys.card := by
  rw [← List.toFinset_card_of_nodup distinct]
  refine Finset.card_lt_card ((Finset.ssubset_iff_of_subset fun other => ?_).mpr ⟨key, member, ?_⟩)
  · rw [List.mem_toFinset]
    exact inside other
  · rw [List.mem_toFinset]
    exact absent

omit [DecidableEq κ] in
/-- Entering a key where there is room for it. -/
theorem enter_of_room {room : Nat} {keys : List κ} (short : keys.length < room) :
    Recency.enter room key keys = key :: keys := by
  rw [Recency.enter, if_neg (by omega), if_pos short]

/-- A lower level with room for a set of keys. -/
theorem hasRoom_whole {keys : Finset κ} (room : keys.card ≤ lowerRoom) :
    (wholeStore upperRoom lowerRoom).HasRoom
      (fun store => store.upper ⊆ store.lower ∧ store.lower.Nodup) keys := by
  have lowers : ∀ (store : TwoLevel κ) (key : κ), store.lower.Nodup →
      (∀ other ∈ store.upper ++ store.lower, other ∈ keys) → key ∈ keys → key ∉ store.upper →
      key :: store.lower ⊆ (store.fetch upperRoom lowerRoom key).lower ∧
        (store.fetch upperRoom lowerRoom key).lower.Nodup := by
    intro store key distinct inside member absent
    rw [lower_fetch absent]
    split_ifs with held
    · have perm := Recency.use_perm key store.lower
      refine ⟨?_, perm.nodup_iff.mpr distinct⟩
      exact List.cons_subset.mpr ⟨perm.symm.subset held, perm.symm.subset⟩
    · rw [enter_of_room]
      · exact ⟨List.Subset.refl _, distinct.cons held⟩
      · exact (length_lt_of_new distinct (fun other below => inside other
          (List.mem_append_right _ below)) member held).trans_le room
  constructor
  · rintro store key ⟨inclusion, distinct⟩ inside member
    by_cases above : key ∈ store.upper
    · rw [wholeStore_serve, fetch_of_mem above]
      exact ⟨inclusion, distinct⟩
    · obtain ⟨stays, distinct'⟩ := lowers store key distinct inside member above
      refine ⟨fun other listed => stays ?_, distinct'⟩
      rcases List.mem_cons.mp (upper_fetch_subset listed) with rfl | held
      · exact List.mem_cons_self
      · exact List.mem_cons_of_mem _ (inclusion held)
  · rintro store key ⟨inclusion, distinct⟩ inside member other listed
    rw [wholeStore_held] at listed
    rw [wholeStore_held, wholeStore_serve]
    by_cases above : key ∈ store.upper
    · rw [fetch_of_mem above]
      rcases List.mem_cons.mp listed with rfl | held
      · exact List.mem_append_left _ above
      · exact held
    · refine List.mem_append_right _ ((lowers store key distinct inside member above).1 ?_)
      rcases List.mem_cons.mp listed with rfl | held
      · exact List.mem_cons_self
      · rcases List.mem_append.mp held with here | below
        · exact List.mem_cons_of_mem _ (inclusion here)
        · exact List.mem_cons_of_mem _ below

/-- An upper level with room for a set of keys. -/
theorem hasRoom_upper {keys : Finset κ} (room : keys.card ≤ upperRoom) :
    (upperStore upperRoom lowerRoom).HasRoom (fun store => store.upper.Nodup) keys := by
  have uppers : ∀ (store : TwoLevel κ) (key : κ), store.upper.Nodup →
      (∀ other ∈ store.upper, other ∈ keys) → key ∈ keys →
      key :: store.upper ⊆ (store.fetch upperRoom lowerRoom key).upper ∧
        (store.fetch upperRoom lowerRoom key).upper.Nodup := by
    intro store key distinct inside member
    by_cases above : key ∈ store.upper
    · rw [fetch_of_mem above]
      exact ⟨List.cons_subset.mpr ⟨above, List.Subset.refl _⟩, distinct⟩
    · rw [upper_fetch above, enter_of_room
        ((length_lt_of_new distinct inside member above).trans_le room)]
      exact ⟨List.Subset.refl _, distinct.cons above⟩
  exact ⟨fun store key distinct inside member => (uppers store key distinct inside member).2,
    fun store key distinct inside member => (uppers store key distinct inside member).1⟩

/-- From empty levels on, every key of a trace is found outside once at least. -/
theorem card_le_count_outside (trace : List κ) :
    trace.toFinset.card ≤ (levels upperRoom lowerRoom empty trace).count .outside := by
  rw [count_outside]
  refine le_trans (Finset.card_le_card fun key member => ?_)
    ((wholeStore upperRoom lowerRoom).card_missing_le_misses empty trace)
  exact (DemandStore.mem_missing _).mpr ⟨List.mem_toFinset.mp member, by simp [wholeStore, empty]⟩

/-- With room for all keys in the lower level, every key is found outside once. -/
theorem count_outside_eq_card {trace : List κ} (room : trace.toFinset.card ≤ lowerRoom) :
    (levels upperRoom lowerRoom empty trace).count .outside = trace.toFinset.card := by
  rw [count_outside, (hasRoom_whole room).misses_eq
    ⟨List.Subset.refl _, List.nodup_nil⟩ (by simp [empty])
    (fun key member => List.mem_toFinset.mpr member)]
  simp [DemandStore.missing, empty]

/-- With room for all keys in the upper level, only the first request for a key is not found
there. -/
theorem count_upper_add_card {trace : List κ} (room : trace.toFinset.card ≤ upperRoom) :
    (levels upperRoom lowerRoom empty trace).count .upper + trace.toFinset.card = trace.length := by
  have missed : (upperStore upperRoom lowerRoom).misses empty trace = _ :=
    (hasRoom_upper room).misses_eq List.nodup_nil (by simp [empty])
      fun key member => List.mem_toFinset.mpr member
  have missing : (upperStore upperRoom lowerRoom).missing empty trace = trace.toFinset := by
    simp [DemandStore.missing, upperStore, empty]
  rw [← @count_upper κ _ upperRoom lowerRoom empty trace, missed, missing]

/-! ## Conservative levels -/

/-- The upper level is conservative: a key that has entered stays until as many others enter as
there is room for. -/
theorem guarding_upper :
    (upperStore upperRoom lowerRoom).Guarding (fun store : TwoLevel κ => store.upper.Nodup)
      upperRoom (fun store => Recency.Front store.upper) := by
  constructor
  case step =>
    intro store key distinct
    rw [upperStore_serve]
    by_cases above : key ∈ store.upper
    · rwa [fetch_of_mem above]
    · rw [upper_fetch above]
      exact Recency.enter_nodup distinct above
  case start => exact fun store distinct => ⟨[], store.upper, rfl, rfl⟩
  case held => exact fun store keys guarded => guarded.mem
  case serve =>
    intro store keys key distinct guarded few
    rw [upperStore_serve, upperStore_held]
    by_cases above : key ∈ store.upper
    · rw [fetch_of_mem above]
      exact ⟨keys, guarded, Finset.Subset.refl _, Finset.subset_insert _ _,
        fun absent => absurd above absent⟩
    · rw [upper_fetch above]
      exact ⟨insert key keys, guarded.enter distinct above few, Finset.subset_insert _ _,
        Finset.Subset.refl _, fun _ => Finset.mem_insert_self _ _⟩

/-- Both levels together are as conservative as the lower one, although it is not told what the
upper one hits. -/
theorem guarding_whole :
    (wholeStore upperRoom lowerRoom).Guarding (fun store : TwoLevel κ => store.lower.Nodup)
      lowerRoom (fun store => Recency.Front store.lower) := by
  constructor
  case step =>
    intro store key distinct
    rw [wholeStore_serve]
    by_cases above : key ∈ store.upper
    · rwa [fetch_of_mem above]
    · rw [lower_fetch above]
      split_ifs with below
      · exact (Recency.use_perm key store.lower).nodup_iff.mpr distinct
      · exact Recency.enter_nodup distinct below
  case start => exact fun store distinct => ⟨[], store.lower, rfl, rfl⟩
  case held => exact fun store keys guarded key member =>
    List.mem_append_right _ (guarded.mem key member)
  case serve =>
    intro store keys key distinct guarded few
    rw [wholeStore_serve, wholeStore_held]
    by_cases above : key ∈ store.upper
    · rw [fetch_of_mem above]
      exact ⟨keys, guarded, Finset.Subset.refl _, Finset.subset_insert _ _,
        fun absent => absurd (List.mem_append_left _ above) absent⟩
    · refine ⟨insert key keys, ?_, Finset.subset_insert _ _, Finset.Subset.refl _,
        fun _ => Finset.mem_insert_self _ _⟩
      rw [lower_fetch above]
      split_ifs with below
      · exact guarded.use distinct below
      · exact guarded.enter distinct below few

/-- Keys that were not in the upper level and fit there are all found there the second time. -/
theorem levels_upper_of_fits {trace : List κ} (distinct : store.upper.Nodup)
    (fits : trace.toFinset.card ≤ upperRoom) (fresh : ∀ key ∈ trace, key ∉ store.upper) :
    ∀ level ∈ levels upperRoom lowerRoom (store.after upperRoom lowerRoom trace) trace,
      level = .upper := by
  have few := ((@guarding_upper κ _ upperRoom lowerRoom).conservative distinct
    (trace ++ trace)).whole
  rw [DemandStore.loads_log, DemandStore.requested_log, List.toFinset_append, Finset.union_self,
    DemandStore.misses_append] at few
  have first := (upperStore upperRoom lowerRoom).card_missing_le_misses store trace
  have all : (upperStore upperRoom lowerRoom).missing store trace = trace.toFinset := by
    rw [DemandStore.missing, Finset.sdiff_eq_self_iff_disjoint, List.disjoint_toFinset_iff_disjoint]
    exact fun key listed held => fresh key listed held
  rw [all] at first
  have count := @count_upper κ _ upperRoom lowerRoom (store.after upperRoom lowerRoom trace) trace
  have again : (upperStore upperRoom lowerRoom).misses (store.after upperRoom lowerRoom trace)
      trace = 0 := by
    change _ → _ + (upperStore upperRoom lowerRoom).misses
      (store.after upperRoom lowerRoom trace) trace ≤ _ at few
    have bound := few fits
    omega
  rw [again, Nat.add_zero, ← length_levels (store.after upperRoom lowerRoom trace) trace] at count
  intro level member
  exact (List.count_eq_length.mp count level member).symm

end TwoLevel
end Containers
