import MemTier.Containers.Conservative
import MemTier.Runtime.PrefetchResidency

/-!
# How often chunks are loaded

In sequential use the cache directory is an exact LRU cache, and hits, misses, prefetches that pass a
resident chunk without renewing it, and loads that fail are all mixed.  Its log of keys is
conservative all the same.
-/

namespace MemTier

open Containers Resumption

/-- What an operation adds to the log of keys, and whether the key was taken in. -/
def Op.touched : (op : Op) → Reply op → List (CacheKey × Bool)
  | .lookup key, _ => [(key, false)]
  | .contains key, _ => [(key, false)]
  | .insert key _ _, inserted => [(key, inserted)]
  | _, _ => []

namespace Session

/-- What an event adds to the log of keys. -/
def touched (context : Context) (session : Session) : SessionEvent → List (CacheKey × Bool)
  | .invoke _ => []
  | .step choice =>
      match session.running with
      | some (.call op _) =>
          match serve context.setup session.shared op choice with
          | none => []
          | some (reply, _) => op.touched reply
      | _ => []

/-- Sequential use from `memtier_init` on, with the keys that the cache directory was asked for and
those that it took in, oldest first. -/
inductive Logged (context : Context) (sorter : Sorter) (used : Set String) (files : Files) :
    List (CacheKey × Bool) → Session → Prop
  | init : Logged context sorter used files [] (initial context files)
  | next {log : List (CacheKey × Bool)} {session after : Session} {event : SessionEvent}
      (earlier : Logged context sorter used files log session)
      (admissible : event.Admissible used)
      (happens : session.next context sorter event = some after) :
      Logged context sorter used files (log ++ session.touched context event) after

section

variable {context : Context} {sorter : Sorter} {used : Set String} {files : Files}
  {log : List (CacheKey × Bool)} {session after : Session}

theorem Logged.reachable (logged : Logged context sorter used files log session) :
    Reachable context sorter used files session := by
  induction logged with
  | init => exact .init
  | next earlier admissible happens induction => exact .next induction admissible happens

theorem touched_returned {value : ApiResult} {choice : Choice}
    (standing : session.running = some (.ret value)) :
    session.touched context (.step choice) = [] := by
  simp only [touched, standing]

theorem touched_refused {op : Op} {continuation : Reply op → Run ApiResult} {choice : Choice}
    (standing : session.running = some (.call op continuation))
    (execution : serve context.setup session.shared op choice = none) :
    session.touched context (.step choice) = [] := by
  simp only [touched, standing, execution]

theorem touched_served {op : Op} {continuation : Reply op → Run ApiResult} {choice : Choice}
    {reply : Reply op} {shared : Shared}
    (standing : session.running = some (.call op continuation))
    (execution : serve context.setup session.shared op choice = some (reply, shared)) :
    session.touched context (.step choice) = op.touched reply := by
  simp only [touched, standing, execution]

/-- Every run has a log. -/
theorem Reachable.logged (reachable : Reachable context sorter used files session) :
    ∃ log, Logged context sorter used files log session := by
  induction reachable with
  | init => exact ⟨[], .init⟩
  | next _ admissible happens induction =>
      obtain ⟨log, logged⟩ := induction
      exact ⟨_, .next logged admissible happens⟩

/-- An operation that does not take a key in leaves the guarded keys guarded. -/
theorem front_lruStep {chunkSize capacity : Nat} {op : Op} {keys : List CacheKey}
    {guarded : Finset CacheKey} {key : CacheKey} {reply : Reply op}
    (touched : op.touched reply = [(key, false)])
    (refused : ∀ data validSize, op = .insert key data validSize →
      lruStep chunkSize capacity op keys = keys)
    (distinct : keys.Nodup) (front : Recency.Front keys guarded) :
    ∃ guarded', Recency.Front (lruStep chunkSize capacity op keys) guarded' ∧ guarded ⊆ guarded' ∧
      guarded' ⊆ insert key guarded := by
  cases op with
  | lookup asked =>
      obtain rfl : asked = key := (Prod.mk.inj (List.cons.inj touched).1).1
      rw [lruStep]
      by_cases member : asked ∈ keys
      · exact ⟨_, front.use distinct member, Finset.subset_insert _ _, Finset.Subset.refl _⟩
      · rw [Recency.use, if_neg member]
        exact ⟨_, front, Finset.Subset.refl _, Finset.subset_insert _ _⟩
  | contains asked => exact ⟨_, front, Finset.Subset.refl _, Finset.subset_insert _ _⟩
  | insert asked data validSize =>
      obtain ⟨rfl, -⟩ := Prod.mk.inj (List.cons.inj touched).1
      rw [refused data validSize rfl]
      exact ⟨_, front, Finset.Subset.refl _, Finset.subset_insert _ _⟩
  | _ => simp [Op.touched] at touched

/-- One step of a call. -/
theorem Orderly.guarded_step {op : Op} {continuation : Reply op → Run ApiResult} {choice : Choice}
    {reply : Reply op} {shared : Shared} (orderly : session.Orderly context used files)
    (use : SoloUse context used files) (standing : session.running = some (.call op continuation))
    (execution : serve context.setup session.shared op choice = some (reply, shared))
    (guarded : Guarded context.capacity log (Recency.Front session.reference)) :
    Guarded context.capacity (log ++ op.touched reply)
      (Recency.Front (lruStep context.options.chunkSize context.capacity op session.reference)) := by
  have distinct : session.reference.Nodup := orderly.reference ▸ orderly.valid.accurate.distinct
  obtain ⟨permitted, -⟩ := orderly.running _ standing session.shared rfl orderly.valid
  have start : ∀ keys : List CacheKey, Recency.Front keys ∅ := fun keys => ⟨[], keys, rfl, rfl⟩
  have quiet : ∀ key, op.touched reply = [(key, false)] →
      (∀ data validSize, op = .insert key data validSize →
        lruStep context.options.chunkSize context.capacity op session.reference =
          session.reference) →
      Guarded context.capacity (log ++ op.touched reply)
        (Recency.Front
          (lruStep context.options.chunkSize context.capacity op session.reference)) := by
    intro key touched refused
    rw [touched]
    refine .snoc guarded (start _) fun keys front _ => ?_
    obtain ⟨keys', front', grows, bounded⟩ := front_lruStep touched refused distinct front
    exact ⟨keys', front', grows, bounded, by simp⟩
  cases op with
  | lookup key => exact quiet key rfl nofun
  | contains key => exact quiet key rfl nofun
  | insert key data validSize =>
      have order := orderly.valid.serve_recency use.roomy
        (show insertsFresh (.insert key data validSize) session.shared from permitted) execution
      simp only [serve, Option.some.injEq, Prod.mk.injEq] at execution
      obtain ⟨inserted, rfl⟩ := execution
      cases reply with
      | false =>
          refine quiet key rfl fun _ _ _ => ?_
          rw [CacheDirectory.insert_of_refused inserted] at order
          rw [← orderly.reference]
          exact order.symm
      | true =>
          obtain ⟨bytes, -, admitted, -⟩ := CacheDirectory.insert_of_accepted inserted
          have sized : ¬ (validSize = 0 ∨ context.options.chunkSize < validSize) := by
            have chunk := orderly.valid.chunkSize
            obtain ⟨nonempty, fits, -⟩ := admitted
            omega
          have absent : key ∉ session.reference := by
            rw [← orderly.reference, orderly.valid.accurate.keys]
            exact permitted
          rw [lruStep, if_neg sized]
          refine .snoc guarded (start _) fun keys front few => ?_
          exact ⟨insert key keys, front.enter distinct absent few, Finset.subset_insert _ _,
            Finset.Subset.refl _, fun _ => ⟨Finset.mem_insert_self _ _,
              fun member => absent (front.mem key member)⟩⟩
  | _ =>
      change Guarded context.capacity (log ++ []) _
      rw [List.append_nil]
      exact guarded

theorem Logged.guarded (logged : Logged context sorter used files log session)
    (use : SoloUse context used files) :
    Guarded context.capacity log (Recency.Front session.reference) := by
  induction logged with
  | init => exact .nil ⟨[], [], rfl, rfl⟩
  | @next log session after event earlier admissible happens induction =>
      have orderly := earlier.reachable.orderly use
      cases event with
      | invoke call =>
          rw [touched, List.append_nil]
          simp only [Session.next] at happens
          rcases standing : session.running with _ | program
          · simp only [standing, Option.some.injEq] at happens
            subst happens
            exact induction
          · simp [standing] at happens
      | step choice =>
          simp only [Session.next] at happens
          rcases standing : session.running with _ | value | ⟨op, continuation⟩
          · simp [standing] at happens
          · simp only [standing, Option.some.injEq] at happens
            subst happens
            rw [touched_returned standing, List.append_nil]
            exact induction
          · rcases execution : serve context.setup session.shared op choice with
              _ | ⟨reply, shared⟩
            · simp only [standing, execution, Option.some.injEq] at happens
              subst happens
              rw [touched_refused standing execution, List.append_nil]
              exact induction
            · simp only [standing, execution, Option.some.injEq] at happens
              subst happens
              rw [touched_served standing execution]
              exact orderly.guarded_step use standing execution induction

/-- The log and the state after a sequence of events, if all of them can happen. -/
def runLogged (context : Context) (sorter : Sorter) :
    List SessionEvent → Session → Option (List (CacheKey × Bool) × Session)
  | [], session => some ([], session)
  | event :: rest, session =>
      (session.next context sorter event).bind fun after =>
        (runLogged context sorter rest after).map fun (log, last) =>
          (session.touched context event ++ log, last)

theorem Logged.run {events : List SessionEvent} {more : List (CacheKey × Bool)}
    (logged : Logged context sorter used files log session)
    (admissible : ∀ event ∈ events, event.Admissible used)
    (happens : runLogged context sorter events session = some (more, after)) :
    Logged context sorter used files (log ++ more) after := by
  induction events generalizing log session more with
  | nil =>
      obtain ⟨rfl, rfl⟩ := Prod.mk.inj (Option.some.inj happens)
      rwa [List.append_nil]
  | cons event rest induction =>
      rw [List.forall_mem_cons] at admissible
      obtain ⟨middle, first, later⟩ := Option.bind_eq_some_iff.mp happens
      obtain ⟨⟨log', last⟩, found, same⟩ := Option.map_eq_some_iff.mp later
      obtain ⟨rfl, rfl⟩ := Prod.mk.inj same
      rw [← List.append_assoc]
      exact induction (.next logged admissible.1 first) admissible.2 found

end

end Session

/-- In sequential use over immutable files, whatever calls are made and whichever of them fail: while
no more chunks are asked for than the cache has room for, none of them is taken in twice; and over a
whole run, the chunks taken in are not many more than the misses of any store that starts empty,
fetches on demand, knows the run in advance, and never holds more than `room` chunks. -/
theorem chunk_loads_competitive (context : Context) (sorter : Sorter) (used : Set String)
    (files : Files) (injective : context.setup.naming.InjectiveOn used)
    (small : ∀ inode content, files inode = some content → content.length < 2 ^ 63)
    (roomy : context.options.chunkSize + context.options.dramCacheSize < 2 ^ 64)
    (cached : context.options.bypassCache = false) (log : List (CacheKey × Bool))
    (session : Session) (logged : Session.Logged context sorter used files log session) :
    (∀ before segment after, log = before ++ segment ++ after →
      (requested segment).card ≤ context.capacity → loads segment ≤ (requested segment).card) ∧
    ∀ (σ : Type) (rival : DemandStore CacheKey σ) (keeps : σ → Prop) (room : Nat) (start : σ),
      rival.Bounded keeps room → 0 < room → room ≤ context.capacity → keeps start →
        rival.held start = [] →
          (context.capacity + 1 - room) * loads log ≤
            context.capacity * rival.misses start (log.map Prod.fst) := by
  have conservative := (logged.guarded ⟨injective, small, roomy, cached⟩).conservative
  exact ⟨conservative, fun σ rival keeps room start bounded positive smaller kept empty =>
    conservative.competitive bounded positive smaller kept empty⟩

/-- Three chunks are read through a cache of two, and the first of them is prefetched in between. -/
theorem chunk_loads_competitive_last :
    ∃ log session, Session.Logged (Context.small id) .insertion {"a"}
        (Files.single [1, 2, 3, 4, 5, 6, 7, 8, 9, 10, 11, 12]) log session ∧ loads log = 3 ∧
      2 * loads log ≤ 2 * DemandStore.last.misses none (log.map Prod.fst) := by
  let events : List SessionEvent :=
    .invoke (fourBytes 0) :: List.replicate 8 (.step (.take 4)) ++
      .invoke (.prefetch eightBytes) :: List.replicate 9 (.step (.take 4))
  obtain ⟨⟨log, session⟩, happens, three⟩ := (Option.any_eq_true _ _).mp (show
    (Session.runLogged (Context.small id) .insertion events
      (Session.initial (Context.small id)
        (Files.single [1, 2, 3, 4, 5, 6, 7, 8, 9, 10, 11, 12]))).any
          (fun outcome => decide (loads outcome.1 = 3)) from by decide +kernel)
  have admissible : ∀ event ∈ events, event.Admissible {"a"} := by
    simp [events, fourBytes, eightBytes, SessionEvent.Admissible, ApiCall.Uses, or_imp, forall_and]
  have logged := Session.Logged.run .init admissible happens
  have bound := (chunk_loads_competitive (Context.small id) .insertion {"a"} _
    (fun _ _ _ _ _ => rfl) (Files.single_small (by norm_num)) (by decide) rfl log session
    logged).2 _ DemandStore.last _ 1 none DemandStore.bounded_last Nat.one_pos (by decide) trivial
      rfl
  exact ⟨log, session, logged, of_decide_eq_true three, bound⟩

end MemTier
