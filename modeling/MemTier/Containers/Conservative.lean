import MemTier.Containers.Demand

/-!
# Conservative logs

A log of requests is conservative when requests for no more keys than there is room for load each of
them once at most, whatever was held before.  Such a log has not many more loads than a smaller store
has misses that knows the requests in advance: the log is cut into phases of as many keys as there is
room for, each key of a phase is loaded once at most, and the smaller store has no room for all of
them.
-/

namespace Containers

variable {κ σ : Type} [DecidableEq κ]

/-! ## Logs -/

/-- How many requests of a log loaded their key. -/
def loads (log : List (κ × Bool)) : Nat := log.countP Prod.snd

/-- The keys requested. -/
def requested (log : List (κ × Bool)) : Finset κ := (log.map Prod.fst).toFinset

omit [DecidableEq κ] in
theorem loads_append (first second : List (κ × Bool)) :
    loads (first ++ second) = loads first + loads second :=
  List.countP_append

theorem requested_append (first second : List (κ × Bool)) :
    requested (first ++ second) = requested first ∪ requested second := by
  rw [requested, List.map_append, List.toFinset_append, requested, requested]

theorem requested_cons (entry : κ × Bool) (log : List (κ × Bool)) :
    requested (entry :: log) = insert entry.1 (requested log) :=
  List.toFinset_cons

theorem requested_singleton (entry : κ × Bool) : requested [entry] = {entry.1} := rfl

/-- Requests for at most `room` keys in a row load each of them once at most. -/
def Conservative (room : Nat) (log : List (κ × Bool)) : Prop :=
  ∀ before segment after, log = before ++ segment ++ after → (requested segment).card ≤ room →
    loads segment ≤ (requested segment).card

section

variable {room : Nat} {log : List (κ × Bool)}

theorem Conservative.whole (conservative : Conservative room log)
    (few : (requested log).card ≤ room) : loads log ≤ (requested log).card :=
  conservative [] log [] (by simp) few

theorem Conservative.split {first second : List (κ × Bool)}
    (conservative : Conservative room (first ++ second)) :
    Conservative room first ∧ Conservative room second := by
  constructor <;> rintro before segment after rfl few
  · exact conservative before segment (after ++ second) (by simp) few
  · exact conservative (first ++ before) segment after (by simp) few

end

/-! ## Keys that are guarded -/

/-- A way to protect keys from replacement while no more than `room` of them are requested: what is
protected after each request, and that a key is protected once it is loaded. -/
inductive Guarded (room : Nat) : List (κ × Bool) → (Finset κ → Prop) → Prop
  | nil {guards : Finset κ → Prop} (start : guards ∅) : Guarded room [] guards
  | snoc {log : List (κ × Bool)} {guards guards' : Finset κ → Prop} {key : κ} {loaded : Bool}
      (earlier : Guarded room log guards) (start : guards' ∅)
      (step : ∀ keys, guards keys → (insert key keys).card ≤ room →
        ∃ keys', guards' keys' ∧ keys ⊆ keys' ∧ keys' ⊆ insert key keys ∧
          (loaded = true → key ∈ keys' ∧ key ∉ keys)) :
      Guarded room (log ++ [(key, loaded)]) guards'

section

variable {room : Nat} {log : List (κ × Bool)} {guards : Finset κ → Prop}

theorem Guarded.suffix (guarded : Guarded room log guards) {before segment : List (κ × Bool)}
    (split : log = before ++ segment) (few : (requested segment).card ≤ room) :
    ∃ keys, guards keys ∧ keys ⊆ requested segment ∧ loads segment ≤ keys.card := by
  induction guarded generalizing segment with
  | nil start =>
      obtain ⟨rfl, rfl⟩ := List.append_eq_nil_iff.mp split.symm
      exact ⟨∅, start, Finset.empty_subset _, Nat.zero_le _⟩
  | @snoc log guards guards' key loaded earlier start step induction =>
      rcases List.eq_nil_or_concat' segment with rfl | ⟨segment, last, rfl⟩
      · exact ⟨∅, start, Finset.empty_subset _, Nat.zero_le _⟩
      · rw [← List.append_assoc] at split
        obtain ⟨shorter, same⟩ := List.append_inj' split rfl
        obtain rfl := (List.cons.inj same).1
        rw [requested_append, requested_singleton, Finset.union_comm, ← Finset.insert_eq] at few ⊢
        obtain ⟨keys, guarded, inside, counted⟩ := induction shorter
          ((Finset.card_le_card (Finset.subset_insert _ _)).trans few)
        obtain ⟨keys', guarded', grows, bounded, taken⟩ := step keys guarded
          ((Finset.card_le_card (Finset.insert_subset_insert _ inside)).trans few)
        refine ⟨keys', guarded', bounded.trans (Finset.insert_subset_insert _ inside), ?_⟩
        rw [loads_append]
        cases loaded with
        | false => exact counted.trans (Finset.card_le_card grows)
        | true =>
            obtain ⟨present, absent⟩ := taken rfl
            have larger := Finset.card_le_card (Finset.insert_subset present grows)
            rw [Finset.card_insert_of_notMem absent] at larger
            exact (Nat.succ_le_succ counted).trans larger

theorem Guarded.conservative (guarded : Guarded room log guards) : Conservative room log := by
  induction guarded with
  | nil start =>
      intro before segment after split few
      rw [(List.append_eq_nil_iff.mp (List.append_eq_nil_iff.mp split.symm).1).2]
      exact Nat.zero_le _
  | @snoc log guards guards' key loaded earlier start step induction =>
      intro before segment after split few
      rcases List.eq_nil_or_concat' after with rfl | ⟨after, last, rfl⟩
      · rw [List.append_nil] at split
        obtain ⟨keys, -, inside, counted⟩ := (Guarded.snoc earlier start step).suffix split few
        exact counted.trans (Finset.card_le_card inside)
      · rw [← List.append_assoc] at split
        exact induction before segment after (List.append_inj' split rfl).1 few

end

/-! ## Recency lists -/

namespace Recency

variable {room : Nat} {held : List κ} {keys : Finset κ} {key : κ}

omit [DecidableEq κ] in
/-- Keys at the front stay there when another one enters, as long as they do not fill the list. -/
theorem enter_front {front back : List κ} (short : front.length < room) (key : κ) :
    ∃ rest, enter room key (front ++ back) = key :: front ++ rest := by
  rw [enter, if_neg (by omega)]
  split_ifs with free
  · exact ⟨back, rfl⟩
  · have nonempty : back ≠ [] := by
      rintro rfl
      rw [List.append_nil] at free
      exact free short
    exact ⟨back.dropLast, by rw [List.dropLast_append_of_ne_nil nonempty, List.cons_append]⟩

/-- The guarded keys of a list are those at its front. -/
def Front (held : List κ) (keys : Finset κ) : Prop :=
  ∃ front back, held = front ++ back ∧ front.toFinset = keys

theorem Front.mem (guarded : Front held keys) :
    ∀ key ∈ keys, key ∈ held := by
  obtain ⟨front, back, rfl, rfl⟩ := guarded
  intro key member
  exact List.mem_append_left _ (List.mem_toFinset.mp member)

theorem Front.enter (guarded : Front held keys)
    (distinct : held.Nodup) (absent : key ∉ held) (few : (insert key keys).card ≤ room) :
    Front (enter room key held) (insert key keys) := by
  have fresh : key ∉ keys := fun member => absent (guarded.mem key member)
  obtain ⟨front, back, rfl, rfl⟩ := guarded
  rw [Finset.card_insert_of_notMem fresh,
    List.toFinset_card_of_nodup (List.nodup_append.mp distinct).1] at few
  obtain ⟨rest, entered⟩ := enter_front few key
  exact ⟨key :: front, rest, entered, List.toFinset_cons⟩

theorem Front.use (guarded : Front held keys)
    (distinct : held.Nodup) (member : key ∈ held) :
    Front (use key held) (insert key keys) := by
  obtain ⟨front, back, rfl, rfl⟩ := guarded
  rw [use, if_pos member]
  by_cases near : key ∈ front
  · refine ⟨key :: front.erase key, back, by rw [List.erase_append_left _ near]; rfl, ?_⟩
    ext other
    rw [List.toFinset_cons, Finset.mem_insert, Finset.mem_insert, List.mem_toFinset,
      List.mem_toFinset, (List.nodup_append.mp distinct).1.mem_erase_iff]
    by_cases same : other = key <;> simp [same]
  · exact ⟨key :: front, back.erase key, by rw [List.erase_append_right _ near]; rfl,
      List.toFinset_cons⟩

end Recency

/-! ## The log of a store -/

namespace DemandStore

variable (store : DemandStore κ σ)

/-- The requests of a trace, and which of them are for keys that are not held. -/
def log : σ → List κ → List (κ × Bool)
  | _, [] => []
  | state, key :: trace =>
      (key, decide (key ∉ store.held state)) :: log (store.serve state key) trace

theorem log_append (state : σ) (first second : List κ) :
    store.log state (first ++ second) =
      store.log state first ++ store.log (first.foldl store.serve state) second := by
  induction first generalizing state with
  | nil => rfl
  | cons key first induction => exact congrArg (_ :: ·) (induction _)

theorem map_log (state : σ) (trace : List κ) : (store.log state trace).map Prod.fst = trace := by
  induction trace generalizing state with
  | nil => rfl
  | cons key trace induction => exact congrArg (key :: ·) (induction _)

theorem requested_log (state : σ) (trace : List κ) :
    requested (store.log state trace) = trace.toFinset := by
  rw [requested, map_log]

theorem loads_log (state : σ) (trace : List κ) :
    loads (store.log state trace) = store.misses state trace := by
  induction trace generalizing state with
  | nil => rfl
  | cons key trace induction =>
      rw [log, misses, ← induction, loads, List.countP_cons, Nat.add_comm, loads]
      by_cases member : key ∈ store.held state <;> simp [member]

/-- What a store guards, as long as it keeps an invariant. -/
structure Guarding (keeps : σ → Prop) (room : Nat) (guards : σ → Finset κ → Prop) : Prop where
  step : ∀ state key, keeps state → keeps (store.serve state key)
  start : ∀ state, keeps state → guards state ∅
  held : ∀ state keys, guards state keys → ∀ key ∈ keys, key ∈ store.held state
  serve : ∀ state keys key, keeps state → guards state keys → (insert key keys).card ≤ room →
    ∃ keys', guards (store.serve state key) keys' ∧ keys ⊆ keys' ∧ keys' ⊆ insert key keys ∧
      (key ∉ store.held state → key ∈ keys')

theorem Guarding.guarded {store : DemandStore κ σ} {keeps : σ → Prop} {room : Nat}
    {guards : σ → Finset κ → Prop} (guarding : store.Guarding keeps room guards) {state : σ}
    (kept : keeps state) (trace : List κ) :
    Guarded room (store.log state trace) (guards (trace.foldl store.serve state)) ∧
      keeps (trace.foldl store.serve state) := by
  induction trace using List.reverseRecOn with
  | nil => exact ⟨.nil (guarding.start state kept), kept⟩
  | append_singleton trace key induction =>
      obtain ⟨guarded, kept'⟩ := induction
      have kept_key := guarding.step _ key kept'
      rw [log_append, List.foldl_concat]
      refine ⟨.snoc guarded (guarding.start _ kept_key) fun keys there few => ?_, kept_key⟩
      obtain ⟨keys', guarded', grows, bounded, taken⟩ :=
        guarding.serve _ keys key kept' there few
      refine ⟨keys', guarded', grows, bounded, fun missed => ?_⟩
      have absent := of_decide_eq_true missed
      exact ⟨taken absent, fun member => absent (guarding.held _ keys there key member)⟩

theorem Guarding.conservative {store : DemandStore κ σ} {keeps : σ → Prop} {room : Nat}
    {guards : σ → Finset κ → Prop} (guarding : store.Guarding keeps room guards) {state : σ}
    (kept : keeps state) (trace : List κ) : Conservative room (store.log state trace) :=
  (guarding.guarded kept trace).1.conservative

/-- The store holds the key that it has just served, and never more than `room` keys. -/
structure Bounded (keeps : σ → Prop) (room : Nat) : Prop where
  step : ∀ state key, keeps state → keeps (store.serve state key)
  serves : ∀ state key, keeps state → key ∈ store.held (store.serve state key)
  card : ∀ state, keeps state → (store.held state).toFinset.card ≤ room

/-- A store with room for one key. -/
def last : DemandStore κ (Option κ) where
  held := Option.toList
  serve _ key := some key
  demand _ _ := by simp

theorem bounded_last : (last : DemandStore κ (Option κ)).Bounded (fun _ => True) 1 where
  step _ _ _ := trivial
  serves _ _ _ := by simp [last]
  card state _ := by cases state <;> simp [last]

end DemandStore

/-! ## Phases -/

/-- A log has few keys, or a first phase of exactly `room` keys that ends before another key. -/
theorem exists_phase {room : Nat} (seen : Finset κ) (few : seen.card ≤ room)
    (log : List (κ × Bool)) :
    (seen ∪ requested log).card ≤ room ∨ ∃ phase entry rest, log = phase ++ entry :: rest ∧
      (seen ∪ requested phase).card = room ∧ entry.1 ∉ seen ∪ requested phase := by
  induction log generalizing seen with
  | nil =>
      left
      rwa [requested, List.map_nil, List.toFinset_nil, Finset.union_empty]
  | cons entry log induction =>
      have moved : ∀ later : List (κ × Bool),
          insert entry.1 seen ∪ requested later = seen ∪ requested (entry :: later) := by
        intro later
        rw [requested_cons, Finset.insert_union, Finset.union_insert]
      by_cases room_left : (insert entry.1 seen).card ≤ room
      · rcases induction _ room_left with all | ⟨phase, next, rest, rfl, full, fresh⟩
        · exact .inl (moved log ▸ all)
        · exact .inr ⟨entry :: phase, next, rest, rfl, moved phase ▸ full, moved phase ▸ fresh⟩
      · right
        have fresh : entry.1 ∉ seen := by
          intro member
          rw [Finset.insert_eq_of_mem member] at room_left
          exact room_left few
        rw [Finset.card_insert_of_notMem fresh] at room_left
        refine ⟨[], entry, log, rfl, ?_, ?_⟩ <;>
          rw [requested, List.map_nil, List.toFinset_nil, Finset.union_empty]
        · omega
        · exact fresh

section

variable {room room' : Nat} {rival : DemandStore κ σ} {keeps : σ → Prop} {state : σ}

/-- What a store has no room for, it misses. -/
theorem DemandStore.Bounded.card_le (bounded : rival.Bounded keeps room') (kept : keeps state)
    {keys : Finset κ} {log : List (κ × Bool)}
    (covered : keys ⊆ (rival.held state).toFinset ∪ requested log) :
    keys.card ≤ room' + rival.misses state (log.map Prod.fst) := by
  have split : keys ⊆ (rival.held state).toFinset ∪ rival.missing state (log.map Prod.fst) := by
    rw [DemandStore.missing, Finset.union_sdiff_self_eq_union]
    exact covered
  have sizes := (Finset.card_le_card split).trans (Finset.card_union_le _ _)
  have held := bounded.card state kept
  have missed := rival.card_missing_le_misses state (log.map Prod.fst)
  omega

/-- The misses of a log that is cut after an entry. -/
theorem DemandStore.misses_append_cons (phase : List (κ × Bool)) (entry : κ × Bool)
    (rest : List (κ × Bool)) :
    rival.misses state ((phase ++ entry :: rest).map Prod.fst) =
      rival.misses state ((phase ++ [entry]).map Prod.fst) +
        rival.misses (rival.serve ((phase.map Prod.fst).foldl rival.serve state) entry.1)
          (rest.map Prod.fst) := by
  rw [show phase ++ entry :: rest = (phase ++ [entry]) ++ rest by simp, List.map_append,
    rival.misses_append, List.map_append, List.map_singleton, List.foldl_concat]

theorem DemandStore.Bounded.foldl (bounded : rival.Bounded keeps room') (kept : keeps state)
    (trace : List κ) : keeps (trace.foldl rival.serve state) := by
  induction trace generalizing state with
  | nil => exact kept
  | cons key trace induction => exact induction (bounded.step state key kept)

/-- From the beginning of a phase on, when the rival has just served the first key of the phase. -/
theorem Conservative.loads_le_of_held {first : κ × Bool} {rest : List (κ × Bool)}
    (conservative : Conservative room (first :: rest)) (bounded : rival.Bounded keeps room')
    (positive : 0 < room') (smaller : room' ≤ room) (kept : keeps state)
    (held : first.1 ∈ rival.held state) :
    (room + 1 - room') * loads (first :: rest) ≤
      room * rival.misses state (rest.map Prod.fst) + room' * (room + 1 - room') := by
  induction length : rest.length using Nat.strong_induction_on generalizing state first rest with
  | _ size induction =>
    have single : ({first.1} : Finset κ).card ≤ room := by
      rw [Finset.card_singleton]
      omega
    have covered : ∀ log : List (κ × Bool),
        {first.1} ∪ requested log ⊆ (rival.held state).toFinset ∪ requested log :=
      fun log => Finset.union_subset_union_left
        (Finset.singleton_subset_iff.mpr (List.mem_toFinset.mpr held))
    have listed : ∀ log, requested (first :: log) = {first.1} ∪ requested log :=
      fun log => requested_cons first log
    rcases exists_phase {first.1} single rest with few | ⟨phase, entry, rest, rfl, full, fresh⟩
    · have upper := conservative.whole (listed rest ▸ few)
      rw [listed] at upper
      have lower := bounded.card_le kept (covered rest)
      calc (room + 1 - room') * loads (first :: rest)
          ≤ (room + 1 - room') * (room' + rival.misses state (rest.map Prod.fst)) :=
            Nat.mul_le_mul_left _ (upper.trans lower)
        _ = (room + 1 - room') * rival.misses state (rest.map Prod.fst) +
            room' * (room + 1 - room') := by ring
        _ ≤ _ := Nat.add_le_add_right (Nat.mul_le_mul_right _ (by omega)) _
    · rw [← List.cons_append] at conservative ⊢
      obtain ⟨here, later⟩ := conservative.split
      have upper := here.whole (listed phase ▸ full.le)
      rw [listed, full] at upper
      have lower : room + 1 ≤ room' + rival.misses state ((phase ++ [entry]).map Prod.fst) := by
        have enlarged := bounded.card_le kept (covered (phase ++ [entry]))
        rw [requested_append, requested_singleton, ← Finset.union_assoc,
          Finset.union_comm _ {entry.1}, ← Finset.insert_eq, Finset.card_insert_of_notMem fresh,
          full] at enlarged
        exact enlarged
      have kept_phase := bounded.foldl kept (phase.map Prod.fst)
      have after := induction rest.length
        (by rw [← length, List.length_append, List.length_cons]; omega) later
        (bounded.step _ entry.1 kept_phase) (bounded.serves _ entry.1 kept_phase) rfl
      rw [loads_append, DemandStore.misses_append_cons]
      have paid : (room + 1 - room') * loads (first :: phase) ≤
          room * rival.misses state ((phase ++ [entry]).map Prod.fst) :=
        (Nat.mul_le_mul_left _ upper).trans
          ((Nat.mul_comm _ _).trans_le (Nat.mul_le_mul_left _ (by omega)))
      rw [Nat.mul_add, Nat.mul_add]
      omega

/-- The loads of a conservative log beside the misses of any store that starts empty and never holds
more than `room'` keys. -/
theorem Conservative.competitive {log : List (κ × Bool)} (conservative : Conservative room log)
    (bounded : rival.Bounded keeps room') (positive : 0 < room') (smaller : room' ≤ room)
    (kept : keeps state) (empty : rival.held state = []) :
    (room + 1 - room') * loads log ≤ room * rival.misses state (log.map Prod.fst) := by
  have lower : ∀ log : List (κ × Bool),
      (requested log).card ≤ rival.misses state (log.map Prod.fst) := by
    intro log
    have missed := rival.card_missing_le_misses state (log.map Prod.fst)
    rwa [DemandStore.missing, empty, List.toFinset_nil, Finset.sdiff_empty] at missed
  rcases exists_phase ∅ (Nat.zero_le room) log with few | ⟨phase, entry, rest, rfl, full, fresh⟩ <;>
    rw [Finset.empty_union] at *
  · have upper := (conservative.whole few).trans (lower log)
    exact (Nat.mul_le_mul_left _ upper).trans (Nat.mul_le_mul_right _ (by omega))
  · obtain ⟨here, later⟩ := conservative.split
    have upper := here.whole full.le
    have first : room + 1 ≤ rival.misses state ((phase ++ [entry]).map Prod.fst) := by
      have missed := lower (phase ++ [entry])
      rwa [requested_append, requested_singleton, Finset.union_comm, ← Finset.insert_eq,
        Finset.card_insert_of_notMem fresh, full] at missed
    have kept_phase := bounded.foldl kept (phase.map Prod.fst)
    have after := later.loads_le_of_held bounded positive smaller
      (bounded.step _ entry.1 kept_phase) (bounded.serves _ entry.1 kept_phase)
    rw [loads_append, DemandStore.misses_append_cons, Nat.mul_add, Nat.mul_add]
    have paid : (room + 1 - room') * room + room' * (room + 1 - room') ≤ room * (room + 1) := by
      obtain ⟨more, rfl⟩ := Nat.exists_eq_add_of_le smaller
      rw [show room' + more + 1 - room' = more + 1 by omega]
      nlinarith
    have spent := Nat.mul_le_mul_left (room + 1 - room') (full ▸ upper)
    have earned := Nat.mul_le_mul_left room first
    omega

end

end Containers
