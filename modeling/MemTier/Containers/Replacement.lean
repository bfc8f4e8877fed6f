import MemTier.Containers.Recency

/-!
# Replacement by arrival and by last use

A first-in-first-out cache and a least-recently-used one, driven by the same sequence of requests.
They agree as long as no key that was hit is evicted ahead of its turn.  Requests are listed newest
first.
-/

namespace Containers.Recency

variable {κ : Type} [DecidableEq κ]

/-- The keys of a first-in-first-out cache after a sequence of requests. -/
def fifo (capacity : Nat) : List κ → List κ
  | [] => []
  | key :: asked =>
      if key ∈ fifo capacity asked then fifo capacity asked
      else enter capacity key (fifo capacity asked)

/-- The keys of a least-recently-used cache after a sequence of requests. -/
def lru (capacity : Nat) : List κ → List κ
  | [] => []
  | key :: asked =>
      if key ∈ lru capacity asked then use key (lru capacity asked)
      else enter capacity key (lru capacity asked)

/-- Every eviction of the first-in-first-out cache removes the key whose last request is the
oldest. -/
def EvictsOldest (capacity : Nat) : List κ → Prop
  | [] => True
  | key :: asked =>
      (key ∉ fifo capacity asked → ∀ oldest ∈ victim capacity (fifo capacity asked),
        ∀ other ∈ fifo capacity asked, other ≠ oldest → asked.idxOf other < asked.idxOf oldest) ∧
      EvictsOldest capacity asked

instance EvictsOldest.decidable (capacity : Nat) :
    ∀ asked : List κ, Decidable (EvictsOldest capacity asked)
  | [] => instDecidableTrue
  | key :: asked =>
      have := EvictsOldest.decidable capacity asked
      have := Option.decidableForallMem (o := victim capacity (fifo capacity asked))
        (p := fun oldest => ∀ other ∈ fifo capacity asked, other ≠ oldest →
          asked.idxOf other < asked.idxOf oldest)
      inferInstanceAs (Decidable ((key ∉ fifo capacity asked → _) ∧ _))

/-- When a key is evicted whose last request was a hit, every key that had arrived after it by the
time of that hit has been requested since. -/
def HitsRenewed (capacity : Nat) (asked : List κ) : Prop :=
  ∀ later missed between key earlier, asked = later ++ missed :: (between ++ key :: earlier) →
    key ∉ between → key ∈ fifo capacity earlier →
    missed ∉ fifo capacity (between ++ key :: earlier) →
    victim capacity (fifo capacity (between ++ key :: earlier)) = some key →
    ∀ newer, (fifo capacity earlier).idxOf newer < (fifo capacity earlier).idxOf key →
      newer ∈ between

/-! ## Both caches -/

theorem fifo_nodup (capacity : Nat) (asked : List κ) : (fifo capacity asked).Nodup := by
  induction asked with
  | nil => exact List.nodup_nil
  | cons key asked induction =>
      rw [fifo]
      split_ifs with member
      · exact induction
      · exact enter_nodup induction member

theorem fifo_length_le (capacity : Nat) (asked : List κ) :
    (fifo capacity asked).length ≤ capacity := by
  induction asked with
  | nil => exact Nat.zero_le capacity
  | cons key asked induction =>
      rw [fifo]
      split_ifs
      · exact induction
      · exact enter_length_le induction

theorem fifo_subset (capacity : Nat) (asked : List κ) : fifo capacity asked ⊆ asked := by
  induction asked with
  | nil => exact List.Subset.refl []
  | cons key asked induction =>
      rw [fifo]
      split_ifs
      · exact List.subset_cons_of_subset _ induction
      · exact enter_subset induction

/-- Refreshing a key rearranges the keys. -/
theorem use_perm (key : κ) (keys : List κ) : (use key keys).Perm keys := by
  rw [use]
  split_ifs with member
  · exact (List.perm_cons_erase member).symm
  · exact .refl keys

/-- A new request moves all others back by one. -/
theorem pairwise_idxOf_cons {asked keys : List κ} {key : κ} (absent : key ∉ keys)
    (sorted : keys.Pairwise fun left right => asked.idxOf left < asked.idxOf right) :
    (key :: keys).Pairwise fun left right =>
      (key :: asked).idxOf left < (key :: asked).idxOf right := by
  have shifted : ∀ other ∈ keys, (key :: asked).idxOf other = asked.idxOf other + 1 := by
    intro other member
    exact List.idxOf_cons_ne _ fun same => absent (same ▸ member)
  rw [List.pairwise_cons]
  constructor
  · intro other member
    rw [List.idxOf_cons_self, shifted other member]
    exact Nat.succ_pos _
  · refine List.Pairwise.imp_of_mem ?_ sorted
    intro left right here there less
    rw [shifted left here, shifted right there]
    exact Nat.succ_lt_succ less

/-- A least-recently-used cache lists its keys by their last request. -/
theorem lru_sorted (capacity : Nat) (asked : List κ) :
    (lru capacity asked).Pairwise fun left right => asked.idxOf left < asked.idxOf right := by
  induction asked with
  | nil => exact List.Pairwise.nil
  | cons key asked induction =>
      rw [lru]
      split_ifs with member
      · have distinct : (lru capacity asked).Nodup :=
          induction.imp fun less same => absurd less (by rw [same]; exact lt_irrefl _)
        rw [use, if_pos member]
        exact pairwise_idxOf_cons distinct.not_mem_erase (induction.sublist List.erase_sublist)
      · rw [enter]
        split_ifs
        · exact (pairwise_idxOf_cons member induction).of_cons
        · exact pairwise_idxOf_cons member induction
        · exact pairwise_idxOf_cons (fun kept => member (List.dropLast_subset _ kept))
            (induction.sublist (List.dropLast_sublist _))

theorem lru_nodup (capacity : Nat) (asked : List κ) : (lru capacity asked).Nodup :=
  (lru_sorted capacity asked).imp fun less same => absurd less (by rw [same]; exact lt_irrefl _)

section

variable {capacity : Nat} {left right : List κ}

omit [DecidableEq κ] in
/-- The victims of two full caches with the same keys. -/
theorem victims_of_perm (positive : 0 < capacity) (same : left.Perm right) :
    (left.length < capacity ∧ right.length < capacity) ∨
    ¬ left.length < capacity ∧ ¬ right.length < capacity ∧
      ∃ oldest oldest', left.getLast? = some oldest ∧ right.getLast? = some oldest' := by
  have lengths := same.length_eq
  by_cases room : left.length < capacity
  · exact .inl ⟨room, by omega⟩
  · have left_nonempty : left ≠ [] := List.ne_nil_of_length_pos (by omega)
    have right_nonempty : right ≠ [] := List.ne_nil_of_length_pos (by omega)
    exact .inr ⟨room, by omega, _, _, List.getLast?_eq_getLast_of_ne_nil left_nonempty,
      List.getLast?_eq_getLast_of_ne_nil right_nonempty⟩

omit [DecidableEq κ] in
/-- Caches with the same keys evict the same key if and only if they have the same keys
afterwards. -/
theorem victim_eq_iff_same (positive : 0 < capacity) (distinct : left.Nodup)
    (same : left.Perm right) {key : κ} (absent : key ∉ left) :
    victim capacity left = victim capacity right ↔
      ∀ other, other ∈ enter capacity key left ↔ other ∈ enter capacity key right := by
  rw [enter, enter, if_neg positive.ne', if_neg positive.ne', victim, victim]
  rcases victims_of_perm positive same with ⟨room, room'⟩ | ⟨full, full', oldest, oldest', last, last'⟩
  · simp [room, room', same.mem_iff]
  · simp only [full, full', if_false, List.mem_cons, last, last', mem_dropLast distinct last,
      mem_dropLast (same.nodup_iff.mp distinct) last', ← same.mem_iff, Option.some.injEq]
    constructor
    · rintro rfl other
      rfl
    · intro equal
      by_contra different
      have member : oldest ∈ left := List.mem_of_getLast? last
      rcases (equal oldest).mpr (.inr ⟨different, member⟩) with rfl | ⟨impossible, -⟩
      · exact absent member
      · exact impossible rfl

/-- A cache evicts the key that one sorted by last request evicts if and only if the last request of
its victim is the oldest. -/
theorem victim_eq_iff_oldest (positive : 0 < capacity) {asked : List κ} (same : left.Perm right)
    (sorted : right.Pairwise fun here there => asked.idxOf here < asked.idxOf there) :
    victim capacity left = victim capacity right ↔
      ∀ oldest ∈ victim capacity left, ∀ other ∈ left, other ≠ oldest →
        asked.idxOf other < asked.idxOf oldest := by
  rw [victim, victim]
  rcases victims_of_perm positive same with ⟨room, room'⟩ | ⟨full, full', oldest, oldest', last, last'⟩
  · simp [room, room']
  · simp only [full, full', if_false, last, last', Option.mem_some_iff, Option.some.injEq,
      forall_eq']
    obtain ⟨front, rfl⟩ := List.getLast?_eq_some_iff.mp last'
    obtain ⟨-, -, older⟩ := List.pairwise_append.mp sorted
    constructor
    · rintro rfl other member different
      have member := same.mem_iff.mp member
      simp only [List.mem_append, List.mem_singleton, different, or_false] at member
      exact older other member _ (List.mem_singleton_self _)
    · intro oldest_first
      by_contra different
      have less := oldest_first oldest' (same.mem_iff.mpr (by simp)) (Ne.symm different)
      have member := same.mem_iff.mp (List.mem_of_getLast? last)
      simp only [List.mem_append, List.mem_singleton, different, or_false] at member
      exact absurd (older oldest member _ (List.mem_singleton_self _)) (by omega)

end

/-- The two caches have the same keys all along if and only if every eviction by arrival is one by
last use. -/
theorem same_keys_iff {capacity : Nat} (positive : 0 < capacity) (asked : List κ) :
    (∀ recent, recent <:+ asked →
      ∀ key, key ∈ fifo capacity recent ↔ key ∈ lru capacity recent) ↔
    EvictsOldest capacity asked := by
  induction asked with
  | nil => simp [EvictsOldest, fifo, lru]
  | cons key asked induction =>
      simp only [List.suffix_cons_iff, forall_eq_or_imp, EvictsOldest]
      rw [← induction]
      refine and_congr_left fun agree => ?_
      have same : (fifo capacity asked).Perm (lru capacity asked) :=
        (List.perm_ext_iff_of_nodup (fifo_nodup capacity asked) (lru_nodup capacity asked)).mpr
          (agree asked List.suffix_rfl)
      rw [fifo, lru]
      by_cases member : key ∈ fifo capacity asked
      · simp only [member, same.mem_iff.mp member, if_true, not_true, false_implies, iff_true]
        intro other
        rw [same.mem_iff, (use_perm key _).mem_iff]
      · have member' : key ∉ lru capacity asked := fun there => member (same.mem_iff.mpr there)
        simp only [member, member', if_false, not_false_iff, true_implies]
        rw [← victim_eq_iff_same positive (fifo_nodup capacity asked) same member,
          victim_eq_iff_oldest positive same (lru_sorted capacity asked)]

/-! ## Hits and evictions -/

/-- What is left of the keys of a first-in-first-out cache stands behind the keys that have arrived
since. -/
theorem fifo_append (capacity : Nat) (later earlier : List κ) :
    ∃ arrived kept, fifo capacity (later ++ earlier) = arrived ++ kept ∧ arrived ⊆ later ∧
      kept <+: fifo capacity earlier := by
  induction later with
  | nil => exact ⟨[], _, rfl, List.Subset.refl _, List.prefix_rfl⟩
  | cons key later induction =>
      obtain ⟨arrived, kept, queue, known, stays⟩ := induction
      rw [List.cons_append, fifo, queue, enter]
      split_ifs
      · exact ⟨arrived, kept, rfl, List.subset_cons_of_subset _ known, stays⟩
      · exact ⟨arrived, kept, rfl, List.subset_cons_of_subset _ known, stays⟩
      · exact ⟨key :: arrived, kept, rfl, List.cons_subset_cons _ known, stays⟩
      · by_cases gone : kept = []
        · subst gone
          rw [List.append_nil]
          exact ⟨key :: arrived.dropLast, [], (List.append_nil _).symm,
            List.cons_subset_cons _ (List.Subset.trans (List.dropLast_subset _) known),
            List.nil_prefix⟩
        · rw [List.dropLast_append_of_ne_nil gone]
          exact ⟨key :: arrived, kept.dropLast, rfl, List.cons_subset_cons _ known,
            (List.dropLast_prefix kept).trans stays⟩

/-- What comes before the first occurrence of a key. -/
theorem idxOf_lt_iff {front back : List κ} {key : κ} (fresh : key ∉ front) (other : κ) :
    (front ++ key :: back).idxOf other < (front ++ key :: back).idxOf key ↔ other ∈ front := by
  rw [List.idxOf_append_of_notMem fresh, List.idxOf_cons_self, List.idxOf_append]
  split_ifs with member
  · simp [member, List.idxOf_lt_length_iff]
  · simp [member]

/-- The key at the end of the queue has the oldest last request if and only if that request was not
a hit, or what had arrived after it by then has been requested since. -/
theorem oldest_iff_renewed {capacity : Nat} {between earlier : List κ} {key : κ}
    (fresh : key ∉ between)
    (last : (fifo capacity (between ++ key :: earlier)).getLast? = some key) :
    (∀ other ∈ fifo capacity (between ++ key :: earlier), other ≠ key →
      (between ++ key :: earlier).idxOf other < (between ++ key :: earlier).idxOf key) ↔
    (key ∈ fifo capacity earlier →
      ∀ newer, (fifo capacity earlier).idxOf newer < (fifo capacity earlier).idxOf key →
        newer ∈ between) := by
  obtain ⟨arrived, kept, queue, known, stays⟩ := fifo_append capacity between (key :: earlier)
  have distinct := fifo_nodup capacity (between ++ key :: earlier)
  -- The key has not been requested since, so it is among those kept, and it is the last of them.
  obtain ⟨ahead, rfl⟩ : ∃ ahead, kept = ahead ++ [key] := by
    rw [← List.getLast?_eq_some_iff]
    rw [queue] at last
    by_cases gone : kept = []
    · rw [gone, List.append_nil] at last
      exact absurd (known (List.mem_of_getLast? last)) fresh
    · rwa [List.getLast?_append_of_ne_nil _ gone] at last
  rw [queue] at distinct ⊢
  have alone : key ∉ ahead := by
    intro member
    have := (List.nodup_append.mp (List.nodup_append.mp distinct).2.1).2.2
    exact this key member key (List.mem_singleton_self key) rfl
  obtain ⟨behind, was⟩ := stays
  by_cases hit : key ∈ fifo capacity earlier
  · rw [fifo, if_pos hit, List.append_assoc, List.singleton_append] at was
    simp only [idxOf_lt_iff fresh, ← was, idxOf_lt_iff alone]
    constructor
    · intro recent _ newer member
      exact recent newer (by simp [member]) fun same => alone (same ▸ member)
    · intro renewed other member different
      simp only [List.mem_append, List.mem_singleton, different, or_false] at member
      exact member.elim (fun new => known new) (renewed (by simp) other)
  · have first : ahead = [] := by
      have nonzero : capacity ≠ 0 := by
        rintro rfl
        have bound := fifo_length_le 0 (key :: earlier)
        rw [← was] at bound
        simp at bound
      have head : (fifo capacity (key :: earlier)).head? = some key := by
        rw [fifo, if_neg hit, enter, if_neg nonzero]
        split <;> rfl
      rw [← was] at head
      cases ahead with
      | nil => rfl
      | cons other ahead => exact absurd (by simpa using head) (List.ne_of_not_mem_cons alone).symm
    subst first
    simp only [hit, false_implies, iff_true, idxOf_lt_iff fresh]
    intro other member different
    simp only [List.nil_append, List.mem_append, List.mem_singleton, different, or_false] at member
    exact known member

/-- Every eviction removes the key whose last request is the oldest if and only if hits are
renewed. -/
theorem evictsOldest_iff (capacity : Nat) (asked : List κ) :
    EvictsOldest capacity asked ↔ HitsRenewed capacity asked := by
  induction asked with
  | nil => simp [EvictsOldest, HitsRenewed]
  | cons missed asked induction =>
      have split : HitsRenewed capacity (missed :: asked) ↔
          (∀ between key earlier, asked = between ++ key :: earlier → key ∉ between →
            key ∈ fifo capacity earlier → missed ∉ fifo capacity asked →
            victim capacity (fifo capacity asked) = some key →
            ∀ newer, (fifo capacity earlier).idxOf newer < (fifo capacity earlier).idxOf key →
              newer ∈ between) ∧ HitsRenewed capacity asked := by
        constructor
        · intro renewed
          constructor
          · rintro between key earlier rfl
            exact renewed [] missed between key earlier rfl
          · rintro later missed' between key earlier rfl
            exact renewed (missed :: later) missed' between key earlier rfl
        · rintro ⟨now, before⟩ later missed' between key earlier division
          cases later with
          | nil =>
              obtain ⟨rfl, rfl⟩ := List.cons.inj division
              exact now between key earlier rfl
          | cons first later =>
              exact before later missed' between key earlier (List.cons.inj division).2
      rw [split, EvictsOldest, induction]
      refine and_congr_left fun _ => ?_
      constructor
      · rintro oldest between key earlier rfl fresh hit miss evicted
        exact (oldest_iff_renewed fresh (getLast?_of_victim evicted)).mp (oldest miss key evicted) hit
      · intro renewed miss key evicted
        have last := getLast?_of_victim evicted
        obtain ⟨between, earlier, rfl, fresh⟩ :=
          List.eq_append_cons_of_mem (fifo_subset capacity asked (List.mem_of_getLast? last))
        exact (oldest_iff_renewed fresh last).mpr fun hit =>
          renewed between key earlier rfl fresh hit miss evicted

end Containers.Recency
