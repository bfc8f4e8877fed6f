import Mathlib.Data.List.Defs
import Mathlib.Tactic

/-!
# Visits

A sequence of sets of keys.  A key of the next set that was visited before comes again after a gap,
the number of sets from its last visit on.  How many gaps there are, how long they are together, and
how many of them are shortest can be told from the sets alone.
-/

namespace Containers.Visits

variable {κ : Type} [DecidableEq κ]

/-- All keys visited. -/
def visited (visits : List (Finset κ)) : Finset κ := visits.foldl (· ∪ ·) ∅

/-- The first set that a key is in. -/
def first (visits : List (Finset κ)) (key : κ) : Nat := visits.findIdx (key ∈ ·)

/-- The last set that a key is in. -/
def last (visits : List (Finset κ)) (key : κ) : Nat :=
  visits.length - 1 - visits.reverse.findIdx (key ∈ ·)

/-- The set visited last. -/
def current (visits : List (Finset κ)) : Finset κ := visits.getLast?.getD ∅

/-- After how many sets a key comes again. -/
def gap (visits : List (Finset κ)) (key : κ) : Option Int :=
  if key ∈ visited visits then some (visits.length - last visits key) else none

section

variable {visits : List (Finset κ)} {keys : Finset κ} {key : κ}

theorem visited_concat : visited (visits ++ [keys]) = visited visits ∪ keys :=
  List.foldl_append

theorem mem_visited : key ∈ visited visits ↔ ∃ keys ∈ visits, key ∈ keys := by
  induction visits using List.reverseRecOn with
  | nil => simp [visited]
  | append_singleton visits keys induction =>
      rw [visited_concat, Finset.mem_union, induction]
      simp [or_and_right, exists_or]

theorem first_concat : first (visits ++ [keys]) key =
    if key ∈ visited visits then first visits key
    else if key ∈ keys then visits.length else visits.length + 1 := by
  rw [first, List.findIdx_append]
  have found : visits.findIdx (key ∈ ·) < visits.length ↔ key ∈ visited visits := by
    rw [List.findIdx_lt_length, mem_visited]
    simp
  simp only [found]
  split_ifs with earlier here
  · rfl
  · rw [List.findIdx_cons, decide_eq_true here, cond_true, Nat.zero_add]
  · rw [List.findIdx_cons, decide_eq_false here, cond_false, List.findIdx_nil, Nat.add_comm]

theorem last_concat_of_mem (member : key ∈ keys) : last (visits ++ [keys]) key = visits.length := by
  rw [last, List.reverse_append, List.reverse_singleton, List.singleton_append, List.findIdx_cons,
    decide_eq_true member, cond_true, List.length_append, List.length_singleton]
  omega

theorem last_concat_of_notMem (absent : key ∉ keys) :
    last (visits ++ [keys]) key = last visits key := by
  rw [last, List.reverse_append, List.reverse_singleton, List.singleton_append, List.findIdx_cons,
    decide_eq_false absent, cond_false, List.length_append, List.length_singleton, last]
  omega

theorem last_lt (member : key ∈ visited visits) : last visits key < visits.length := by
  obtain ⟨keys, listed, -⟩ := mem_visited.mp member
  have nonempty := List.length_pos_of_mem listed
  rw [last]
  omega

/-- A gap of one. -/
theorem last_eq_iff (member : key ∈ visited visits) :
    last visits key + 1 = visits.length ↔ key ∈ current visits := by
  induction visits using List.reverseRecOn with
  | nil => simp [visited] at member
  | append_singleton visits keys =>
      rw [current, List.getLast?_concat, Option.getD_some, List.length_append,
        List.length_singleton, Nat.add_right_cancel_iff]
      by_cases here : key ∈ keys
      · exact iff_of_true (last_concat_of_mem here) here
      · rw [visited_concat, Finset.mem_union] at member
        have before := last_lt (member.resolve_right here)
        rw [last_concat_of_notMem here]
        exact iff_of_false before.ne here

theorem current_subset : current visits ⊆ visited visits := by
  intro key member
  induction visits using List.reverseRecOn with
  | nil => simp [current] at member
  | append_singleton visits keys =>
      rw [current, List.getLast?_concat, Option.getD_some] at member
      rw [visited_concat]
      exact Finset.mem_union_right _ member

omit [DecidableEq κ] in
theorem consecutivePairs_concat (nonempty : visits ≠ []) :
    (visits ++ [keys]).consecutivePairs = visits.consecutivePairs ++ [(current visits, keys)] := by
  induction visits with
  | nil => exact absurd rfl nonempty
  | cons one rest induction =>
      cases rest with
      | nil => rfl
      | cons two rest =>
          have later := induction (List.cons_ne_nil _ _)
          simp only [List.consecutivePairs, List.cons_append, List.tail_cons,
            List.zip_cons_cons] at later ⊢
          rw [later]
          rfl

end

/-! ## Accounts of the gaps -/

section

variable {visits : List (Finset κ)} {keys : Finset κ} {gaps : List Int} {listing : List κ}

omit [DecidableEq κ] in
/-- What is drawn from a list of different keys, as a sum over the set of them. -/
theorem length_filterMap_gap (draw : κ → Option Int) (listing : List κ) :
    (listing.filterMap draw).length =
      (listing.map fun key => if (draw key).isSome then 1 else 0).sum := by
  induction listing with
  | nil => rfl
  | cons key listing induction =>
      rw [List.filterMap_cons, List.map_cons, List.sum_cons, ← induction]
      cases draw key with
      | none => exact (Nat.zero_add _).symm
      | some value => exact Nat.add_comm _ _

omit [DecidableEq κ] in
theorem sum_filterMap_gap (draw : κ → Option Int) (listing : List κ) :
    (listing.filterMap draw).sum = (listing.map fun key => (draw key).getD 0).sum := by
  induction listing with
  | nil => rfl
  | cons key listing induction =>
      rw [List.filterMap_cons, List.map_cons, List.sum_cons, ← induction]
      cases draw key with
      | none => exact (Int.zero_add _).symm
      | some value => exact List.sum_cons

omit [DecidableEq κ] in
theorem count_filterMap_gap (draw : κ → Option Int) (value : Int) (listing : List κ) :
    (listing.filterMap draw).count value =
      (listing.map fun key => if draw key = some value then 1 else 0).sum := by
  induction listing with
  | nil => rfl
  | cons key listing induction =>
      rw [List.filterMap_cons, List.map_cons, List.sum_cons, ← induction]
      cases draw key with
      | none => exact (Nat.zero_add _).symm
      | some other =>
          rw [List.count_cons, Nat.add_comm]
          simp

/-- What the gaps of a sequence of visits come to. -/
structure Accounts (visits : List (Finset κ)) (gaps : List Int) : Prop where
  /-- Every visit of a key but the first one ends a gap. -/
  length : gaps.length + (visited visits).card = (visits.map Finset.card).sum
  range : ∀ gap ∈ gaps, 0 < gap ∧ gap < visits.length
  /-- The gaps of a key join to the span from its first visit to its last. -/
  sum : gaps.sum = ∑ key ∈ visited visits, ((last visits key : Int) - first visits key)
  /-- The shortest gaps are those of keys that two successive sets share. -/
  shortest : gaps.count 1 =
    (visits.consecutivePairs.map fun pair => (pair.2 ∩ pair.1).card).sum

theorem accounts_nil : Accounts ([] : List (Finset κ)) [] where
  length := rfl
  range _ := nofun
  sum := rfl
  shortest := rfl

theorem Accounts.concat (accounts : Accounts visits gaps) (distinct : listing.Nodup)
    (lists : listing.toFinset = keys) :
    Accounts (visits ++ [keys]) (gaps ++ listing.filterMap (gap visits)) where
  length := by
    have again : (listing.filterMap (gap visits)).length = (keys ∩ visited visits).card := by
      rw [length_filterMap_gap, ← List.sum_toFinset _ distinct, lists, Finset.card_eq_sum_ones,
        ← Finset.sum_filter]
      refine Finset.sum_congr (Finset.ext fun key => ?_) fun _ _ => rfl
      rw [Finset.mem_filter, Finset.mem_inter, gap]
      split_ifs with earlier <;> simp [earlier]
    have joined := Finset.card_union_add_card_inter (visited visits) keys
    have before := accounts.length
    rw [Finset.inter_comm] at joined
    rw [List.length_append, again, visited_concat, List.map_append, List.sum_append,
      List.map_singleton, List.sum_singleton]
    omega
  range value member := by
    rw [List.length_append, List.length_singleton]
    push_cast
    rcases List.mem_append.mp member with earlier | new
    · have bounds := accounts.range value earlier
      omega
    · obtain ⟨key, -, drawn⟩ := List.mem_filterMap.mp new
      rw [gap] at drawn
      split at drawn
      · rename_i seen
        have before := last_lt seen
        obtain rfl := Option.some.inj drawn
        omega
      · simp at drawn
  sum := by
    have again : (listing.filterMap (gap visits)).sum =
        ∑ key ∈ visited visits, ((last (visits ++ [keys]) key : Int) - last visits key) := by
      rw [sum_filterMap_gap, ← List.sum_toFinset _ distinct, lists]
      have shared : ∑ key ∈ keys, ((gap visits key).getD 0) =
          ∑ key ∈ visited visits ∩ keys, ((gap visits key).getD 0) := by
        refine (Finset.sum_subset Finset.inter_subset_right fun key member outside => ?_).symm
        rw [gap, if_neg fun seen => outside (Finset.mem_inter.mpr ⟨seen, member⟩)]
        rfl
      rw [shared]
      refine (Finset.sum_congr rfl fun key member => ?_).trans
        (Finset.sum_subset Finset.inter_subset_left fun key member outside => ?_)
      · obtain ⟨seen, here⟩ := Finset.mem_inter.mp member
        rw [gap, if_pos seen, Option.getD_some, last_concat_of_mem here]
      · rw [last_concat_of_notMem fun here => outside (Finset.mem_inter.mpr ⟨member, here⟩), sub_self]
    have fresh : ∑ key ∈ keys \ visited visits,
        ((last (visits ++ [keys]) key : Int) - first (visits ++ [keys]) key) = 0 := by
      refine Finset.sum_eq_zero fun key member => ?_
      obtain ⟨here, absent⟩ := Finset.mem_sdiff.mp member
      rw [last_concat_of_mem here, first_concat, if_neg absent, if_pos here, sub_self]
    have kept : ∀ key ∈ visited visits, first (visits ++ [keys]) key = first visits key :=
      fun key seen => by rw [first_concat, if_pos seen]
    calc (gaps ++ listing.filterMap (gap visits)).sum
        = ∑ key ∈ visited visits, ((last visits key : Int) - first visits key) +
          ∑ key ∈ visited visits, ((last (visits ++ [keys]) key : Int) - last visits key) := by
          rw [List.sum_append, accounts.sum, again]
      _ = ∑ key ∈ visited visits,
          ((last (visits ++ [keys]) key : Int) - first (visits ++ [keys]) key) := by
          rw [← Finset.sum_add_distrib]
          refine Finset.sum_congr rfl fun key seen => ?_
          rw [kept key seen]
          ring
      _ = _ := by
          rw [visited_concat, ← Finset.union_sdiff_self_eq_union,
            Finset.sum_union Finset.disjoint_sdiff, fresh, add_zero]
  shortest := by
    have again : (listing.filterMap (gap visits)).count 1 = (keys ∩ current visits).card := by
      rw [count_filterMap_gap, ← List.sum_toFinset _ distinct, lists, Finset.card_eq_sum_ones,
        ← Finset.sum_filter]
      refine Finset.sum_congr (Finset.ext fun key => ?_) fun _ _ => rfl
      rw [Finset.mem_filter, Finset.mem_inter, gap]
      refine and_congr_right fun _ => ?_
      split_ifs with seen
      · have before := last_lt seen
        rw [← last_eq_iff seen, Option.some.injEq]
        omega
      · exact iff_of_false (by simp) fun member => seen (current_subset member)
    rw [List.count_append, again, accounts.shortest]
    rcases List.eq_nil_or_concat' visits with rfl | ⟨earlier, newest, rfl⟩
    · simp [current, List.consecutivePairs]
    · rw [consecutivePairs_concat (List.append_ne_nil_of_right_ne_nil _ (List.cons_ne_nil _ _)),
        List.map_append, List.sum_append, List.map_singleton, List.sum_singleton]

end

end Containers.Visits
