import MemTier.Runtime.AsyncRequests

/-!
# Completion of asynchronous requests

Every request that was submitted is in the queue, with one worker, or complete.  From this follows
that each is executed once and that nothing is left when the workers have been joined.  The last
access of a worker to a request comes after the moment at which clients can see that the request
is complete, so a client that frees it at once may free it too early.
-/

namespace MemTier.Async

open Containers Resumption

/-- Every request is in one place. -/
structure Placed (state : Async) : Prop where
  queued : ∀ request ∈ state.queue, request < state.submitted ∧
    (state.requests request).done = false ∧ ∀ worker, (worker, request) ∉ state.popped
  held : ∀ worker request, (state.workers worker).holds = some request →
    request < state.submitted ∧ (state.requests request).done = false ∧
      (worker, request) ∈ state.popped
  distinct : state.queue.Nodup
  once : (state.popped.map Prod.snd).Nodup
  known : ∀ pop ∈ state.popped, pop.2 < state.submitted
  pending : ∀ request < state.submitted, (state.requests request).done = false →
    request ∈ state.queue ∨ ∃ worker, (state.workers worker).holds = some request

section

variable {context : Context} {files : Files} {frees : Async → Nat → Prop} {state after : Async}
  {event : AsyncEvent}

theorem Placed.initial : Placed (initial context files) where
  queued := by simp [Async.initial]
  held := by simp [Async.initial, Worker.holds]
  distinct := List.nodup_nil
  once := List.nodup_nil
  known := by simp [Async.initial]
  pending := by simp [Async.initial]

/-- What the placement depends on. -/
theorem Placed.congr (placed : Placed state) (submitted : after.submitted = state.submitted)
    (queue : after.queue = state.queue) (popped : after.popped = state.popped)
    (done : ∀ request, (after.requests request).done = (state.requests request).done)
    (holds : ∀ worker, (after.workers worker).holds = (state.workers worker).holds) :
    Placed after where
  queued := by simpa only [submitted, queue, popped, done] using placed.queued
  held := by simpa only [submitted, popped, done, holds] using placed.held
  distinct := queue ▸ placed.distinct
  once := popped ▸ placed.once
  known := by simpa only [submitted, popped] using placed.known
  pending := by simpa only [submitted, queue, done, holds] using placed.pending

@[simp] theorem workers_move (state : Async) (worker : Nat) (place : Worker) (other : Nat) :
    (state.move worker place).workers other = if other = worker then place else state.workers other :=
  Function.update_apply ..

@[simp] theorem requests_move (state : Async) (worker : Nat) (place : Worker) :
    (state.move worker place).requests = state.requests := rfl

@[simp] theorem requests_modify (state : Async) (request : Nat)
    (change : AsyncRequest → AsyncRequest) (other : Nat) :
    (state.modify request change).requests other =
      if other = request then change (state.requests request) else state.requests other :=
  Function.update_apply ..

/-- A worker moves without taking or completing a request. -/
theorem holds_move {worker : Nat} {place : Worker}
    (same : place.holds = (state.workers worker).holds) (other : Nat) :
    ((state.move worker place).workers other).holds = (state.workers other).holds := by
  rw [workers_move]
  split
  · rename_i here
    rw [same, here]
  · rfl

/-- A request changes without being completed. -/
theorem done_modify {request : Nat} {change : AsyncRequest → AsyncRequest}
    (same : (change (state.requests request)).done = (state.requests request).done) (other : Nat) :
    ((state.modify request change).requests other).done = (state.requests other).done := by
  rw [requests_modify]
  split
  · rename_i here
    rw [same, here]
  · rfl

theorem Placed.submit (placed : Placed state) (args : AsyncArgs) :
    Placed (state.memtierReadAsync args) where
  queued := by
    intro request member
    rcases List.mem_append.mp member with member | member
    · obtain ⟨bound, pending, unpopped⟩ := placed.queued request member
      refine ⟨Nat.lt_succ_of_lt bound, ?_, unpopped⟩
      simp only [memtierReadAsync, Function.update_of_ne bound.ne, pending]
    · obtain rfl := List.mem_singleton.mp member
      refine ⟨Nat.lt_succ_self _, by simp [memtierReadAsync], fun worker popped => ?_⟩
      exact absurd (placed.known _ popped) (lt_irrefl _)
  held := by
    intro worker request holds
    obtain ⟨bound, pending, popped⟩ := placed.held worker request holds
    refine ⟨Nat.lt_succ_of_lt bound, ?_, popped⟩
    simp only [memtierReadAsync, Function.update_of_ne bound.ne, pending]
  distinct := by
    refine List.nodup_append.mpr ⟨placed.distinct, List.nodup_singleton _, ?_⟩
    rintro request member _ new rfl
    obtain rfl := List.mem_singleton.mp new
    exact absurd (placed.queued _ member).1 (lt_irrefl _)
  once := placed.once
  known := fun pop member => Nat.lt_succ_of_lt (placed.known pop member)
  pending := by
    intro request bound pending
    rcases Nat.lt_succ_iff_lt_or_eq.mp bound with bound | rfl
    · simp only [memtierReadAsync, Function.update_of_ne bound.ne] at pending
      exact (placed.pending request bound pending).imp_left (List.mem_append_left _)
    · exact .inl (List.mem_append_right _ (List.mem_singleton_self _))

theorem Placed.pop (placed : Placed state) {worker request : Nat} {queue : List Nat}
    {args : AsyncArgs} {rest : Run ReadResult} (stands : state.workers worker = .waiting)
    (front : state.queue = request :: queue) :
    Placed { state.move worker (.reading request args rest) with
      queue, popped := (worker, request) :: state.popped } where
  queued := by
    intro other member
    have distinct := placed.distinct
    rw [front, List.nodup_cons] at distinct
    obtain ⟨bound, pending, unpopped⟩ := placed.queued other (by simp [front, member])
    refine ⟨bound, pending, fun taker popped => ?_⟩
    rcases List.mem_cons.mp popped with same | popped
    · rw [(Prod.mk.inj same).2] at member
      exact distinct.1 member
    · exact unpopped taker popped
  held := by
    intro other taken holds
    simp only [workers_move] at holds
    split at holds
    · rename_i same
      obtain rfl := Option.some.inj holds
      obtain ⟨bound, pending, -⟩ := placed.queued request (by simp [front])
      exact ⟨bound, pending, by simp [same]⟩
    · obtain ⟨bound, pending, popped⟩ := placed.held other taken holds
      exact ⟨bound, pending, List.mem_cons_of_mem _ popped⟩
  distinct := by
    have distinct := placed.distinct
    rw [front, List.nodup_cons] at distinct
    exact distinct.2
  once := by
    refine List.nodup_cons.mpr ⟨fun member => ?_, placed.once⟩
    obtain ⟨⟨taker, taken⟩, popped, same⟩ := List.mem_map.mp member
    obtain rfl : taken = request := same
    exact (placed.queued taken (by simp [front])).2.2 taker popped
  known := by
    refine List.forall_mem_cons.mpr ⟨?_, placed.known⟩
    exact (placed.queued request (by simp [front])).1
  pending := by
    intro other bound pending
    rcases placed.pending other bound pending with member | ⟨taker, holds⟩
    · rw [front] at member
      rcases List.mem_cons.mp member with rfl | member
      · exact .inr ⟨worker, by simp [Worker.holds]⟩
      · exact .inl member
    · refine .inr ⟨taker, ?_⟩
      have different : taker ≠ worker := by
        rintro rfl
        simp [stands, Worker.holds] at holds
      simp [different, holds]

/-- A request is taken by one worker. -/
theorem Placed.sole (placed : Placed state) {first second request : Nat}
    (here : (first, request) ∈ state.popped) (there : (second, request) ∈ state.popped) :
    first = second :=
  (Prod.mk.inj (List.inj_on_of_nodup_map placed.once here there rfl)).1

theorem Placed.store (placed : Placed state) {worker request : Nat} {args : AsyncArgs}
    {value : ReadResult} (stands : state.workers worker = .storing request args value) :
    Placed { (state.modify request fun cell => { cell with result := value.rc, done := true }).move
      worker (.notifying request) with
        completed := { worker, request, args, value } :: state.completed } := by
  obtain ⟨-, -, taken⟩ := placed.held worker request (by rw [stands]; rfl)
  refine ⟨?_, ?_, placed.distinct, placed.once, placed.known, ?_⟩
  · intro other member
    obtain ⟨bound, pending, unpopped⟩ := placed.queued other member
    have different : other ≠ request := by
      rintro rfl
      exact unpopped worker taken
    exact ⟨bound, by simp [different, pending], unpopped⟩
  · intro taker other holds
    simp only [workers_move] at holds
    split at holds
    · simp [Worker.holds] at holds
    · rename_i elsewhere
      obtain ⟨bound, pending, popped⟩ := placed.held taker other holds
      have different : other ≠ request := by
        rintro rfl
        exact elsewhere (placed.sole popped taken)
      exact ⟨bound, by simp [different, pending], popped⟩
  · intro other bound pending
    have different : other ≠ request := by
      rintro rfl
      simp at pending
    have pending : (state.requests other).done = false := by simpa [different] using pending
    refine (placed.pending other bound pending).imp_right ?_
    rintro ⟨taker, holds⟩
    refine ⟨taker, ?_⟩
    have elsewhere : taker ≠ worker := by
      rintro rfl
      rw [stands] at holds
      exact different (Option.some.inj holds).symm
    rw [workers_move, if_neg elsewhere]
    exact holds

theorem Placed.moves (placed : Placed state) (moves : Moves context state event after) :
    Placed after := by
  cases moves with
  | nothing => exact placed
  | submit args running => exact placed.submit args
  | exit exists_worker stands stopping empty =>
      exact placed.congr rfl rfl rfl (fun _ => rfl) (holds_move (by rw [stands]; rfl))
  | pop exists_worker stands front => exact placed.pop stands front
  | read exists_worker stands =>
      exact placed.congr rfl rfl rfl (fun _ => rfl) (holds_move (by rw [stands]; rfl))
  | finish exists_worker stands =>
      exact placed.congr rfl rfl rfl (fun _ => rfl) (holds_move (by rw [stands]; rfl))
  | store exists_worker stands => exact placed.store stands
  | notify exists_worker stands =>
      exact placed.congr rfl rfl rfl (fun _ => rfl) (holds_move (by rw [stands]; rfl))
  | report done => exact placed.congr rfl rfl rfl (done_modify rfl) (fun _ => rfl)
  | free submitted reported => exact placed.congr rfl rfl rfl (done_modify rfl) (fun _ => rfl)
  | setStop => exact placed.congr rfl rfl rfl (fun _ => rfl) (fun _ => rfl)
  | join exited => exact placed.congr rfl rfl rfl (fun _ => rfl) (fun _ => rfl)
  | others shared => exact placed.congr rfl rfl rfl (fun _ => rfl) (fun _ => rfl)

end

/-- Results are what `do_read_impl` returned. -/
structure Logged (context : Context) (state : Async) : Prop where
  reading : ∀ worker request args rest, state.workers worker = .reading request args rest →
    args = (state.requests request).args ∧ (doReadImpl context args.read).Reaches rest
  storing : ∀ worker request args value, state.workers worker = .storing request args value →
    args = (state.requests request).args ∧ (doReadImpl context args.read).Reaches (.ret value)
  fresh : ∀ request, (state.requests request).done = false →
    (state.requests request).result = .internal
  entries : ∀ entry ∈ state.completed, entry.request < state.submitted ∧
    (state.requests entry.request).done = true ∧
    (state.requests entry.request).result = entry.value.rc ∧
    (state.requests entry.request).args = entry.args ∧
    (entry.worker, entry.request) ∈ state.popped ∧
    (doReadImpl context entry.args.read).Reaches (.ret entry.value)
  once : (state.completed.map Execution.request).Nodup
  all : ∀ request < state.submitted, (state.requests request).done = true →
    ∃ entry ∈ state.completed, entry.request = request

section

variable {context : Context} {files : Files} {frees : Async → Nat → Prop} {state after : Async}
  {event : AsyncEvent}

theorem Logged.initial : Logged context (initial context files) where
  reading := by simp [Async.initial]
  storing := by simp [Async.initial]
  fresh := by simp [Async.initial]
  entries := by simp [Async.initial]
  once := List.nodup_nil
  all := by simp [Async.initial]

/-- What the log depends on. -/
theorem Logged.congr (logged : Logged context state)
    (submitted : after.submitted = state.submitted) (popped : after.popped = state.popped)
    (completed : after.completed = state.completed)
    (requests : ∀ request, (after.requests request).args = (state.requests request).args ∧
      (after.requests request).result = (state.requests request).result ∧
      (after.requests request).done = (state.requests request).done)
    (workers : ∀ worker, after.workers worker = state.workers worker ∨
      (after.workers worker).holds = none) : Logged context after where
  reading := by
    intro worker request args rest stands
    rcases workers worker with same | free
    · rw [(requests request).1]
      exact logged.reading worker request args rest (same ▸ stands)
    · simp [stands, Worker.holds] at free
  storing := by
    intro worker request args value stands
    rcases workers worker with same | free
    · rw [(requests request).1]
      exact logged.storing worker request args value (same ▸ stands)
    · simp [stands, Worker.holds] at free
  fresh := by simpa only [requests] using logged.fresh
  entries := by simpa only [submitted, popped, completed, requests] using logged.entries
  once := completed ▸ logged.once
  all := by simpa only [submitted, completed, requests] using logged.all

/-- A change that clients make to a request. -/
theorem Logged.modify (logged : Logged context state) {request : Nat}
    {change : AsyncRequest → AsyncRequest}
    (same : ∀ cell, (change cell).args = cell.args ∧ (change cell).result = cell.result ∧
      (change cell).done = cell.done) : Logged context (state.modify request change) := by
  refine logged.congr rfl rfl rfl (fun other => ?_) (fun _ => .inl rfl)
  rw [requests_modify]
  split
  · rename_i here
    rw [here]
    exact same _
  · exact ⟨rfl, rfl, rfl⟩

/-- A worker that goes where it holds no request. -/
theorem Logged.leave (logged : Logged context state) {worker : Nat} {place : Worker}
    (free : place.holds = none) : Logged context (state.move worker place) := by
  refine logged.congr rfl rfl rfl (fun _ => ⟨rfl, rfl, rfl⟩) (fun other => ?_)
  rw [workers_move]
  split
  · exact .inr free
  · exact .inl rfl

theorem Logged.submit (logged : Logged context state) (placed : Placed state) (args : AsyncArgs) :
    Logged context (state.memtierReadAsync args) where
  reading := by
    intro worker request args' rest stands
    have bound := (placed.held worker request (by rw [show state.workers worker = _ from stands]; rfl)).1
    simp only [memtierReadAsync, Function.update_of_ne bound.ne]
    exact logged.reading worker request args' rest stands
  storing := by
    intro worker request args' value stands
    have bound := (placed.held worker request (by rw [show state.workers worker = _ from stands]; rfl)).1
    simp only [memtierReadAsync, Function.update_of_ne bound.ne]
    exact logged.storing worker request args' value stands
  fresh := by
    intro request pending
    by_cases new : request = state.submitted
    · simp [memtierReadAsync, new]
    · simp only [memtierReadAsync, Function.update_of_ne new] at pending ⊢
      exact logged.fresh request pending
  entries := by
    intro entry member
    obtain ⟨bound, facts⟩ := logged.entries entry member
    refine ⟨Nat.lt_succ_of_lt bound, ?_⟩
    simp only [memtierReadAsync, Function.update_of_ne bound.ne]
    exact facts
  once := logged.once
  all := by
    intro request bound done
    rcases Nat.lt_succ_iff_lt_or_eq.mp bound with bound | rfl
    · simp only [memtierReadAsync, Function.update_of_ne bound.ne] at done
      exact logged.all request bound done
    · simp [memtierReadAsync] at done

/-- A worker that takes a request or reads on. -/
theorem Logged.enter (logged : Logged context state) {worker request : Nat} {args : AsyncArgs}
    {rest : Run ReadResult} (own : args = (state.requests request).args)
    (reaches : (doReadImpl context args.read).Reaches rest) :
    Logged context (state.move worker (.reading request args rest)) where
  reading := by
    intro other request' args' rest' stands
    rw [workers_move] at stands
    split at stands
    · obtain ⟨rfl, rfl, rfl⟩ := Worker.reading.inj stands
      exact ⟨own, reaches⟩
    · exact logged.reading other request' args' rest' stands
  storing := by
    intro other request' args' value stands
    rw [workers_move] at stands
    split at stands
    · simp at stands
    · exact logged.storing other request' args' value stands
  fresh := logged.fresh
  entries := logged.entries
  once := logged.once
  all := logged.all

/-- A pop is only added to the log of pops. -/
theorem Logged.pop (logged : Logged context state) (queue : List Nat) (pop : Nat × Nat) :
    Logged context { state with queue, popped := pop :: state.popped } where
  reading := logged.reading
  storing := logged.storing
  fresh := logged.fresh
  entries := by
    intro entry member
    obtain ⟨bound, done, result, args, popped, returned⟩ := logged.entries entry member
    exact ⟨bound, done, result, args, List.mem_cons_of_mem _ popped, returned⟩
  once := logged.once
  all := logged.all

theorem Logged.finish (logged : Logged context state) {worker request : Nat} {args : AsyncArgs}
    {value : ReadResult} (stands : state.workers worker = .reading request args (.ret value)) :
    Logged context (state.move worker (.storing request args value)) where
  reading := by
    intro other request' args' rest stands'
    rw [workers_move] at stands'
    split at stands'
    · simp at stands'
    · exact logged.reading other request' args' rest stands'
  storing := by
    intro other request' args' value' stands'
    rw [workers_move] at stands'
    split at stands'
    · obtain ⟨rfl, rfl, rfl⟩ := Worker.storing.inj stands'
      exact logged.reading worker request args (.ret value) stands
    · exact logged.storing other request' args' value' stands'
  fresh := logged.fresh
  entries := logged.entries
  once := logged.once
  all := logged.all

theorem Logged.store (logged : Logged context state) (placed : Placed state)
    {worker request : Nat} {args : AsyncArgs} {value : ReadResult}
    (stands : state.workers worker = .storing request args value) :
    Logged context
      { (state.modify request fun cell => { cell with result := value.rc, done := true }).move
          worker (.notifying request) with
        completed := { worker, request, args, value } :: state.completed } := by
  obtain ⟨bound, pending, popped⟩ := placed.held worker request (by rw [stands]; rfl)
  obtain ⟨own, returned⟩ := logged.storing worker request args value stands
  have others : ∀ entry ∈ state.completed, entry.request ≠ request := by
    rintro entry member rfl
    rw [(logged.entries entry member).2.1] at pending
    simp at pending
  constructor
  · intro other request' args' rest stands'
    simp only [workers_move] at stands'
    split at stands'
    · simp at stands'
    · obtain ⟨own', reaches⟩ := logged.reading other request' args' rest stands'
      refine ⟨?_, reaches⟩
      simp only [requests_move, requests_modify]
      split
      · rename_i same
        rw [own', same]
      · exact own'
  · intro other request' args' value' stands'
    simp only [workers_move] at stands'
    split at stands'
    · simp at stands'
    · obtain ⟨own', returned'⟩ := logged.storing other request' args' value' stands'
      refine ⟨?_, returned'⟩
      simp only [requests_move, requests_modify]
      split
      · rename_i same
        rw [own', same]
      · exact own'
  · intro other pending'
    simp only [requests_move, requests_modify] at pending' ⊢
    split at pending'
    · simp at pending'
    · rename_i different
      rw [if_neg different]
      exact logged.fresh other pending'
  · refine List.forall_mem_cons.mpr ⟨?_, fun entry member => ?_⟩
    · exact ⟨bound, by simp, by simp, by simp [own], popped, returned⟩
    · simp only [requests_move, requests_modify, if_neg (others entry member)]
      exact logged.entries entry member
  · refine List.nodup_cons.mpr ⟨fun member => ?_, logged.once⟩
    obtain ⟨entry, member, same⟩ := List.mem_map.mp member
    exact others entry member same
  · intro other bound' done
    by_cases same : other = request
    · exact ⟨_, List.mem_cons_self, same.symm⟩
    · simp only [requests_move, requests_modify, if_neg same] at done
      obtain ⟨entry, member, here⟩ := logged.all other bound' done
      exact ⟨entry, List.mem_cons_of_mem _ member, here⟩

theorem Logged.moves (logged : Logged context state) (placed : Placed state)
    (moves : Moves context state event after) : Logged context after := by
  have unchanged : ∀ request, (state.requests request).args = (state.requests request).args ∧
      (state.requests request).result = (state.requests request).result ∧
      (state.requests request).done = (state.requests request).done :=
    fun _ => ⟨rfl, rfl, rfl⟩
  cases moves with
  | nothing => exact logged
  | submit args running => exact logged.submit placed args
  | exit exists_worker stands stopping empty => exact logged.leave rfl
  | pop exists_worker stands front => exact (logged.enter rfl .refl).pop _ _
  | read exists_worker stands =>
      obtain ⟨own, reaches⟩ := logged.reading _ _ _ _ stands
      exact (logged.enter own (reaches.advance _ _ _)).congr rfl rfl rfl unchanged (fun _ => .inl rfl)
  | finish exists_worker stands => exact logged.finish stands
  | store exists_worker stands => exact logged.store placed stands
  | notify exists_worker stands => exact logged.leave rfl
  | report done => exact logged.modify fun _ => ⟨rfl, rfl, rfl⟩
  | free submitted reported => exact logged.modify fun _ => ⟨rfl, rfl, rfl⟩
  | setStop => exact logged.congr rfl rfl rfl unchanged (fun _ => .inl rfl)
  | join exited => exact logged.congr rfl rfl rfl unchanged (fun _ => .inl rfl)
  | others shared => exact logged.congr rfl rfl rfl unchanged (fun _ => .inl rfl)

end

/-- Workers exit on an empty queue that nothing enters any more. -/
structure Draining (context : Context) (state : Async) : Prop where
  exits : ∀ worker, state.workers worker = .exited → state.stop = true ∧ state.queue = []
  beyond : ∀ worker, context.options.numWorkers.toNat ≤ worker → state.workers worker = .waiting
  joined : state.joined = true → ∀ worker < context.options.numWorkers.toNat,
    state.workers worker = .exited

section

variable {context : Context} {files : Files} {frees : Async → Nat → Prop} {state after : Async}
  {event : AsyncEvent}

theorem Draining.initial : Draining context (initial context files) where
  exits := by simp [Async.initial]
  beyond := by simp [Async.initial]
  joined := by simp [Async.initial]

/-- What draining depends on. -/
theorem Draining.congr (draining : Draining context state) (workers : after.workers = state.workers)
    (stop : after.stop = state.stop) (queue : state.queue = [] → after.queue = [])
    (joined : after.joined = state.joined) : Draining context after where
  exits := by
    intro worker exited
    rw [stop]
    exact (draining.exits worker (workers ▸ exited)).imp_right queue
  beyond := workers ▸ draining.beyond
  joined := by
    rw [joined, workers]
    exact draining.joined

/-- A worker that has not exited moves on. -/
theorem Draining.move (draining : Draining context state) {worker : Nat} {place : Worker}
    (exists_worker : (worker : Int) < context.options.numWorkers)
    (running : state.workers worker ≠ .exited)
    (exit : place = .exited → state.stop = true ∧ state.queue = []) :
    Draining context (state.move worker place) where
  exits := by
    intro other exited
    rw [workers_move] at exited
    split at exited
    · exact exit exited
    · exact draining.exits other exited
  beyond := by
    intro other bound
    rw [workers_move, if_neg (by omega)]
    exact draining.beyond other bound
  joined := fun joined => absurd (draining.joined joined worker (by omega)) running

theorem Draining.moves (draining : Draining context state)
    (moves : Moves context state event after) : Draining context after := by
  cases moves with
  | nothing => exact draining
  | submit args running =>
      refine ⟨fun worker exited => ?_, draining.beyond, draining.joined⟩
      rw [(draining.exits worker exited).1] at running
      simp at running
  | exit exists_worker stands stopping empty =>
      exact draining.move exists_worker (by simp [stands]) fun _ => ⟨stopping, empty⟩
  | pop exists_worker stands front =>
      exact (draining.move exists_worker (by simp [stands]) (by simp)).congr rfl rfl
        (fun empty => by simp [show state.queue = [] from empty] at front) rfl
  | read exists_worker stands =>
      exact (draining.move exists_worker (by simp [stands]) (by simp)).congr rfl rfl id rfl
  | finish exists_worker stands =>
      exact draining.move exists_worker (by simp [stands]) (by simp)
  | store exists_worker stands =>
      exact (draining.move exists_worker (by simp [stands]) (by simp)).congr rfl rfl id rfl
  | notify exists_worker stands =>
      exact draining.move exists_worker (by simp [stands]) (by simp)
  | report done => exact draining.congr rfl rfl id rfl
  | free submitted reported => exact draining.congr rfl rfl id rfl
  | setStop =>
      exact ⟨fun worker exited => ⟨rfl, (draining.exits worker exited).2⟩, draining.beyond,
        draining.joined⟩
  | join exited => exact ⟨draining.exits, draining.beyond, fun _ => exited⟩
  | others shared => exact draining.congr rfl rfl id rfl

end

/-! ## Reachable states -/

/-- No worker is about to notify the waiters of the request. -/
def Notified (state : Async) (request : Nat) : Prop :=
  ∀ worker, state.workers worker ≠ .notifying request

section

variable {context : Context} {files : Files} {frees : Async → Nat → Prop} {state : Async}

theorem Reachable.placed (reached : Reachable context files frees state) : Placed state := by
  induction reached with
  | init => exact .initial
  | step reached happens freeing induction => exact induction.moves (moves_of_next happens)

theorem Reachable.logged (reached : Reachable context files frees state) :
    Logged context state := by
  induction reached with
  | init => exact .initial
  | step reached happens freeing induction =>
      exact induction.moves reached.placed (moves_of_next happens)

theorem Reachable.draining (reached : Reachable context files frees state) :
    Draining context state := by
  induction reached with
  | init => exact .initial
  | step reached happens freeing induction => exact induction.moves (moves_of_next happens)

end

/-! ## Requests that were freed -/

/-- A request is freed after it was reported complete, and after its last notification. -/
structure Kept (state : Async) : Prop where
  bound : ∀ request, (state.requests request).done = true → request < state.submitted
  notifying : ∀ worker request, state.workers worker = .notifying request →
    (state.requests request).done = true
  reported : ∀ request, (state.requests request).reported = true →
    (state.requests request).done = true
  freed : ∀ request, (state.requests request).freed = true →
    (state.requests request).done = true ∧ Notified state request

section

variable {context : Context} {files : Files} {state after : Async} {event : AsyncEvent}

theorem Kept.initial : Kept (initial context files) where
  bound := by simp [Async.initial]
  notifying := by simp [Async.initial]
  reported := by simp [Async.initial]
  freed := by simp [Async.initial]

/-- What it depends on. -/
theorem Kept.congr (kept : Kept state) (submitted : after.submitted = state.submitted)
    (requests : ∀ request, (after.requests request).done = (state.requests request).done ∧
      (after.requests request).reported = (state.requests request).reported ∧
      (after.requests request).freed = (state.requests request).freed)
    (workers : ∀ worker request, after.workers worker = .notifying request →
      state.workers worker = .notifying request) : Kept after where
  bound := by simpa only [submitted, requests] using kept.bound
  notifying := by
    intro worker request stands
    rw [(requests request).1]
    exact kept.notifying worker request (workers worker request stands)
  reported := by simpa only [requests] using kept.reported
  freed := by
    intro request freed
    rw [(requests request).2.2] at freed
    rw [(requests request).1]
    obtain ⟨done, notified⟩ := kept.freed request freed
    exact ⟨done, fun worker stands => notified worker (workers worker request stands)⟩

/-- A worker that goes elsewhere than to a notification. -/
theorem Kept.move (kept : Kept state) {worker : Nat} {place : Worker}
    (elsewhere : ∀ request, place ≠ .notifying request) : Kept (state.move worker place) := by
  refine kept.congr rfl (fun _ => ⟨rfl, rfl, rfl⟩) fun other request stands => ?_
  rw [workers_move] at stands
  split at stands
  · exact absurd stands (elsewhere request)
  · exact stands

theorem Kept.submit (kept : Kept state) (args : AsyncArgs) : Kept (state.memtierReadAsync args) where
  bound := by
    intro request done
    by_cases new : request = state.submitted
    · exact new ▸ Nat.lt_succ_self _
    · simp only [memtierReadAsync, Function.update_of_ne new] at done
      exact Nat.lt_succ_of_lt (kept.bound request done)
  notifying := by
    intro worker request stands
    have done := kept.notifying worker request stands
    simp only [memtierReadAsync, Function.update_of_ne (kept.bound request done).ne, done]
  reported := by
    intro request reported
    by_cases new : request = state.submitted
    · simp [memtierReadAsync, new] at reported
    · simp only [memtierReadAsync, Function.update_of_ne new] at reported ⊢
      exact kept.reported request reported
  freed := by
    intro request freed
    by_cases new : request = state.submitted
    · simp [memtierReadAsync, new] at freed
    · simp only [memtierReadAsync, Function.update_of_ne new] at freed ⊢
      exact kept.freed request freed

theorem Kept.store (kept : Kept state) (placed : Placed state) {worker request : Nat}
    {args : AsyncArgs} {value : ReadResult}
    (stands : state.workers worker = .storing request args value) :
    Kept { (state.modify request fun cell => { cell with result := value.rc, done := true }).move
      worker (.notifying request) with
        completed := { worker, request, args, value } :: state.completed } := by
  obtain ⟨bound, pending, -⟩ := placed.held worker request (by rw [stands]; rfl)
  constructor
  · intro other done
    by_cases same : other = request
    · exact same ▸ bound
    · simp only [requests_move, requests_modify, if_neg same] at done
      exact kept.bound other done
  · intro other notified stands'
    by_cases same : notified = request
    · simp [same]
    · simp only [workers_move] at stands'
      split at stands'
      · exact absurd (Worker.notifying.inj stands').symm same
      · simp only [requests_move, requests_modify, if_neg same]
        exact kept.notifying other notified stands'
  · intro other reported
    by_cases same : other = request
    · simp [same]
    · simp only [requests_move, requests_modify, if_neg same] at reported ⊢
      exact kept.reported other reported
  · intro other freed
    -- The request is only now complete, so it was not freed.
    have different : other ≠ request := by
      rintro rfl
      simp only [requests_move, requests_modify, if_true] at freed
      rw [(kept.freed other freed).1] at pending
      simp at pending
    simp only [requests_move, requests_modify, if_neg different] at freed ⊢
    obtain ⟨done, notified⟩ := kept.freed other freed
    refine ⟨done, fun taker stands' => ?_⟩
    simp only [workers_move] at stands'
    split at stands'
    · exact different (Worker.notifying.inj stands').symm
    · exact notified taker stands'

/-- A change that clients make to a request. -/
theorem Kept.modify (kept : Kept state) {request : Nat} {change : AsyncRequest → AsyncRequest}
    (same : ∀ cell, (change cell).done = cell.done)
    (reported : (change (state.requests request)).reported = true →
      (state.requests request).done = true)
    (freed : (change (state.requests request)).freed = true →
      (state.requests request).done = true ∧ Notified state request) :
    Kept (state.modify request change) where
  bound := by
    intro other done
    rw [done_modify (same _)] at done
    exact kept.bound other done
  notifying := by
    intro worker other stands
    rw [done_modify (same _)]
    exact kept.notifying worker other stands
  reported := by
    intro other told
    rw [done_modify (same _)]
    rw [requests_modify] at told
    split at told
    · rename_i here
      rw [here]
      exact reported told
    · exact kept.reported other told
  freed := by
    intro other gone
    rw [done_modify (same _)]
    rw [requests_modify] at gone
    split at gone
    · rename_i here
      rw [here]
      exact freed gone
    · exact kept.freed other gone

theorem Kept.moves (kept : Kept state) (placed : Placed state)
    (moves : Moves context state event after)
    (freeing : ∀ request, event = .free request → Notified state request) : Kept after := by
  have unchanged : ∀ request, (state.requests request).done = (state.requests request).done ∧
      (state.requests request).reported = (state.requests request).reported ∧
      (state.requests request).freed = (state.requests request).freed :=
    fun _ => ⟨rfl, rfl, rfl⟩
  cases moves with
  | nothing => exact kept
  | submit args running => exact kept.submit args
  | exit exists_worker stands stopping empty => exact kept.move (by simp)
  | pop exists_worker stands front =>
      exact (kept.move (by simp)).congr rfl unchanged fun _ _ => id
  | read exists_worker stands => exact (kept.move (by simp)).congr rfl unchanged fun _ _ => id
  | finish exists_worker stands => exact kept.move (by simp)
  | store exists_worker stands => exact kept.store placed stands
  | notify exists_worker stands => exact kept.move (by simp)
  | report done => exact kept.modify (fun _ => rfl) (fun _ => done) (kept.freed _)
  | free submitted reported =>
      exact kept.modify (fun _ => rfl) (kept.reported _)
        fun _ => ⟨kept.reported _ reported, freeing _ rfl⟩
  | setStop => exact kept.congr rfl unchanged fun _ _ => id
  | join exited => exact kept.congr rfl unchanged fun _ _ => id
  | others shared => exact kept.congr rfl unchanged fun _ _ => id

theorem Reachable.kept (reached : Reachable context files Notified state) : Kept state := by
  induction reached with
  | init => exact .initial
  | step reached happens freeing induction =>
      exact induction.moves reached.placed (moves_of_next happens) freeing

/-- No step of a worker touches a request that was freed. -/
def Untouched (state : Async) : Prop :=
  ∀ worker request, state.touches worker = some request → (state.requests request).freed = false

theorem Kept.untouched (kept : Kept state) (placed : Placed state) : Untouched state := by
  intro worker request touched
  by_contra freed
  obtain ⟨done, notified⟩ := kept.freed request (by simpa using freed)
  have pending : (state.requests request).done = false := by
    rw [touches] at touched
    split at touched
    · exact (placed.queued request (List.mem_of_head? touched)).2.1
    · rename_i stands
      obtain rfl := Option.some.inj touched
      exact (placed.held worker _ (by rw [stands]; rfl)).2.1
    · rename_i stands
      obtain rfl := Option.some.inj touched
      exact (placed.held worker _ (by rw [stands]; rfl)).2.1
    · rename_i stands
      obtain rfl := Option.some.inj touched
      exact absurd stands (notified worker)
    · simp at touched
  rw [done] at pending
  simp at pending

end

/-- Under every schedule, as long as clients free a request only when no worker is about to notify
its waiters, no step of a worker touches a request that was freed.  And whenever a client may free
a request, the next steps of the workers stay clear of freed requests if and only if no worker is
about to notify its waiters. -/
theorem freed_requests_untouched {context : Context} {files : Files} {state : Async}
    (reached : Reachable context files Notified state) :
    Untouched state ∧
      ∀ request after, state.next context (.free request) = some after →
        (Untouched after ↔ Notified state request) := by
  have kept := reached.kept
  have placed := reached.placed
  refine ⟨kept.untouched placed, fun request after happens => ?_⟩
  constructor
  · intro untouched worker stands
    have freed : (after.requests request).freed = true := by
      simp only [next] at happens
      split at happens
      · rw [← Option.some.inj happens]
        simp
      · simp at happens
    have touched : after.touches worker = some request := by
      simp only [next] at happens
      split at happens
      · rw [← Option.some.inj happens, touches]
        simp [modify, stands]
      · simp at happens
    rw [untouched worker request touched] at freed
    simp at freed
  · intro notified
    have moves := moves_of_next happens
    refine (kept.moves placed moves ?_).untouched (placed.moves moves)
    rintro _ ⟨⟩
    exact notified

/-- A context with one worker. -/
def oneWorker : Context := Context.small fun options => { options with numWorkers := 1 }

/-- A read of two bytes is submitted, and the worker runs it and stores the result. -/
def storedRead : List AsyncEvent :=
  .submit (some "table") 0 2 (some 0) .cpu :: List.replicate 10 (.work 0 (.take 4))

/-- The request is freed after the worker has notified its waiters. -/
theorem freed_requests_untouched_notified :
    ∃ state, Reachable oneWorker (Files.single [1, 2, 3, 4]) Notified state ∧
      (state.requests 0).freed = true ∧ Untouched state := by
  obtain ⟨state, found, facts⟩ := (Option.any_eq_true _ _).mp (show
    (run? oneWorker (storedRead ++ [.work 0 (.take 4), .test 0])
      (initial oneWorker (Files.single [1, 2, 3, 4]))).any
        (fun state => state.touches 0 = none ∧
          (state.next oneWorker (.free 0)).any (fun after => (after.requests 0).freed))
      from by decide +kernel)
  obtain ⟨idle, allowed⟩ := of_decide_eq_true facts
  obtain ⟨after, happens, freed⟩ := (Option.any_eq_true _ _).mp allowed
  have reached : Reachable oneWorker (Files.single [1, 2, 3, 4]) Notified state :=
    .continue .init (by simp [storedRead]) found
  have notified : Notified state 0 := by
    intro worker stands
    rcases Nat.eq_zero_or_pos worker with rfl | positive
    · simp [touches, stands] at idle
    · rw [reached.draining.beyond worker positive] at stands
      simp at stands
  have freeing : ∀ request, AsyncEvent.free 0 = .free request → Notified state request := by
    rintro request ⟨⟩
    exact notified
  have later := Reachable.step reached happens freeing
  exact ⟨after, later, freed, (freed_requests_untouched later).1⟩

/-- The client tests the request after its result was stored and frees it at once; the next step of
the worker notifies the waiters of a request that is gone. -/
theorem freed_request_touched :
    ¬ ∀ state, Reachable oneWorker (Files.single [1, 2, 3, 4]) (fun _ _ => True) state →
      Untouched state := by
  intro untouched
  obtain ⟨state, found, facts⟩ := (Option.any_eq_true _ _).mp (show
    (run? oneWorker (storedRead ++ [.test 0, .free 0])
      (initial oneWorker (Files.single [1, 2, 3, 4]))).any
        (fun state => state.touches 0 = some 0 ∧ (state.requests 0).freed = true)
      from by decide +kernel)
  obtain ⟨touched, freed⟩ := of_decide_eq_true facts
  have reached : Reachable oneWorker (Files.single [1, 2, 3, 4]) (fun _ _ => True) state :=
    .continue .init (fun _ _ _ => trivial) found
  rw [untouched state reached 0 0 touched] at freed
  simp at freed

end MemTier.Async
