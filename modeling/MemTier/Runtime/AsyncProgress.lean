import MemTier.Runtime.AsyncCompletion

/-!
# Progress of asynchronous requests

Under a schedule that gives every worker its turns, a worker that has taken a request comes back to
the queue, and every request in the queue moves towards its front.  So every request is executed,
and once `memtier_finalize` has set its flag the workers run out of requests and exit.
-/

namespace MemTier

open Containers Resumption

/-- A worker is between two requests, or through. -/
def Worker.Idle (worker : Worker) : Prop := worker = .waiting ∨ worker = .exited

/-- A worker moves on with the request it has taken. -/
inductive Worker.Proceeds : Worker → Worker → Prop
  | read {request : Nat} {args : AsyncArgs} {rest later : Run ReadResult}
      (resumes : rest.Resumes later) : Proceeds (.reading request args rest) (.reading request args later)
  | finish {request : Nat} {args : AsyncArgs} {value : ReadResult} :
      Proceeds (.reading request args (.ret value)) (.storing request args value)
  | store {request : Nat} {args : AsyncArgs} {value : ReadResult} :
      Proceeds (.storing request args value) (.notifying request)
  | notify {request : Nat} : Proceeds (.notifying request) .waiting

theorem Worker.acc_waiting : Acc (fun later earlier => Proceeds earlier later) Worker.waiting := by
  refine ⟨_, fun later proceeds => ?_⟩
  cases proceeds

theorem Worker.acc_notifying (request : Nat) :
    Acc (fun later earlier => Proceeds earlier later) (notifying request) := by
  refine ⟨_, fun later proceeds => ?_⟩
  cases proceeds with
  | notify => exact acc_waiting

theorem Worker.acc_storing (request : Nat) (args : AsyncArgs) (value : ReadResult) :
    Acc (fun later earlier => Proceeds earlier later) (storing request args value) := by
  refine ⟨_, fun later proceeds => ?_⟩
  cases proceeds with
  | store => exact acc_notifying request

theorem Worker.acc_reading (request : Nat) (args : AsyncArgs) (rest : Run ReadResult) :
    Acc (fun later earlier => Proceeds earlier later) (reading request args rest) := by
  induction rest using Prog.resumes_wellFounded.induction with
  | _ rest induction =>
    refine ⟨_, fun later proceeds => ?_⟩
    cases proceeds with
    | read resumes => exact induction _ resumes
    | finish => exact acc_storing request args _

/-- A worker comes to the end of a request. -/
theorem Worker.proceeds_wellFounded :
    WellFounded fun later earlier => Worker.Proceeds earlier later := by
  refine ⟨fun worker => ?_⟩
  cases worker with
  | waiting => exact acc_waiting
  | reading request args rest => exact acc_reading request args rest
  | storing request args value => exact acc_storing request args value
  | notifying request => exact acc_notifying request
  | exited =>
      refine ⟨_, fun later proceeds => ?_⟩
      cases proceeds

namespace Async

/-! ## Single steps -/

section

variable {context : Context} {state after : Async} {event : AsyncEvent}

/-- A step moves a worker on, or it is idle, or it is not its step. -/
theorem Moves.proceeds (moves : Moves context state event after) (worker : Nat) :
    (state.workers worker).Idle ∨ after.workers worker = state.workers worker ∨
      (state.workers worker).Proceeds (after.workers worker) := by
  -- Only the worker that steps is moved.
  have moved : ∀ (stepping : Nat) (place : Worker), ((state.workers stepping).Idle ∨
      place = state.workers stepping ∨ (state.workers stepping).Proceeds place) →
      (state.workers worker).Idle ∨
        (state.move stepping place).workers worker = state.workers worker ∨
        (state.workers worker).Proceeds ((state.move stepping place).workers worker) := by
    intro stepping place proceeds
    rw [workers_move]
    split
    · rename_i here
      rw [here]
      exact proceeds
    · exact .inr (.inl rfl)
  cases moves with
  | nothing => exact .inr (.inl rfl)
  | submit args running => exact .inr (.inl rfl)
  | exit exists_worker stands stopping empty => exact moved _ _ (.inl (.inl stands))
  | pop exists_worker stands front => exact moved _ _ (.inl (.inl stands))
  | @read stepping request args rest choice exists_worker stands =>
      refine moved _ _ (.inr ?_)
      rw [stands]
      rcases Prog.advance_resumes (serve context.setup) choice state.shared rest with same | resumes
      · exact .inl (by rw [same])
      · exact .inr (.read resumes)
  | finish exists_worker stands => exact moved _ _ (.inr (.inr (stands ▸ .finish)))
  | store exists_worker stands => exact moved _ _ (.inr (.inr (stands ▸ .store)))
  | notify exists_worker stands => exact moved _ _ (.inr (.inr (stands ▸ .notify)))
  | report done => exact .inr (.inl rfl)
  | free submitted reported => exact .inr (.inl rfl)
  | setStop => exact .inr (.inl rfl)
  | join exited => exact .inr (.inl rfl)
  | others shared => exact .inr (.inl rfl)

/-- The steps of others leave a worker where it is. -/
theorem Moves.elsewhere (moves : Moves context state event after) {worker : Nat}
    (other : ∀ choice, event ≠ .work worker choice) :
    after.workers worker = state.workers worker := by
  have moved : ∀ (stepping : Nat) (choice : Choice) (place : Worker),
      event = .work stepping choice →
      (state.move stepping place).workers worker = state.workers worker := by
    rintro stepping choice place rfl
    rw [workers_move, if_neg]
    rintro rfl
    exact other choice rfl
  cases moves with
  | exit exists_worker stands stopping empty => exact moved _ _ _ rfl
  | pop exists_worker stands front => exact moved _ _ _ rfl
  | read exists_worker stands => exact moved _ _ _ rfl
  | finish exists_worker stands => exact moved _ _ _ rfl
  | store exists_worker stands => exact moved _ _ _ rfl
  | notify exists_worker stands => exact moved _ _ _ rfl
  | _ => rfl

/-- A worker that has exited does not come back. -/
theorem Moves.exited (moves : Moves context state event after) {worker : Nat}
    (exited : state.workers worker = .exited) : after.workers worker = .exited := by
  have moved : ∀ (stepping : Nat) (place : Worker), state.workers stepping ≠ .exited →
      (state.move stepping place).workers worker = .exited := by
    intro stepping place running
    rw [workers_move, if_neg, exited]
    rintro rfl
    exact running exited
  cases moves with
  | exit exists_worker stands stopping empty => exact moved _ _ (by simp [stands])
  | pop exists_worker stands front => exact moved _ _ (by simp [stands])
  | read exists_worker stands => exact moved _ _ (by simp [stands])
  | finish exists_worker stands => exact moved _ _ (by simp [stands])
  | store exists_worker stands => exact moved _ _ (by simp [stands])
  | notify exists_worker stands => exact moved _ _ (by simp [stands])
  | _ => exact exited

/-- The flag stays set. -/
theorem Moves.stop (moves : Moves context state event after) (stopping : state.stop = true) :
    after.stop = true := by
  cases moves with
  | setStop => rfl
  | _ => exact stopping

/-- Requests enter the queue at the back while the context is in use, and leave it at the front. -/
theorem Moves.queue (moves : Moves context state event after) :
    after.queue = state.queue ∨
      (after.queue = state.queue ++ [state.submitted] ∧ state.stop = false) ∨
      ∃ request, state.queue = request :: after.queue := by
  cases moves with
  | submit args running => exact .inr (.inl ⟨rfl, running⟩)
  | pop exists_worker stands front => exact .inr (.inr ⟨_, front⟩)
  | _ => exact .inl rfl

/-- A turn of a worker moves it on unless it is idle. -/
theorem step_proceeds {worker : Nat} {choice : Choice} (completes : choice.Completes) :
    (state.workers worker).Idle ∨
      (state.workers worker).Proceeds ((state.step context worker choice).workers worker) := by
  cases stands : state.workers worker with
  | waiting => exact .inl (.inl rfl)
  | exited => exact .inl (.inr rfl)
  | reading request args rest =>
      cases rest with
      | ret value =>
          simp only [step, stands, workers_move, if_true]
          exact .inr .finish
      | call op next =>
          simp only [step, stands, workers_move, if_true]
          obtain ⟨reply, resumed⟩ := Prog.advance_completes (serve_completes context.setup)
            completes state.shared next
          exact .inr (.read ⟨op, next, reply, rfl, resumed⟩)
  | storing request args value =>
      simp only [step, stands, workers_move, if_true]
      exact .inr .store
  | notifying request =>
      simp only [step, stands, workers_move, if_true]
      exact .inr .notify

theorem step_of_next {worker : Nat} {choice : Choice}
    (happens : state.next context (.work worker choice) = some after) :
    after = state.step context worker choice := by
  simp only [next] at happens
  split at happens
  · exact (Option.some.inj happens).symm
  · simp at happens

end

/-! ## Infinite runs -/

/-- An infinite run, in which clients free requests that no worker is about to notify. -/
structure Runs (context : Context) (states : Nat → Async) (events : Nat → AsyncEvent) : Prop where
  next : ∀ time, (states time).next context (events time) = some (states (time + 1))
  freeing : ∀ time request, events time = .free request → Notified (states time) request

/-- Every worker gets to take completing steps again and again. -/
def Fair (context : Context) (events : Nat → AsyncEvent) : Prop :=
  ∀ worker : Nat, (worker : Int) < context.options.numWorkers → ∀ time, ∃ later, time ≤ later ∧
    ∃ choice : Choice, events later = .work worker choice ∧ choice.Completes

section

variable {context : Context} {files : Files} {states : Nat → Async} {events : Nat → AsyncEvent}

theorem Runs.moves (runs : Runs context states events) (time : Nat) :
    Moves context (states time) (events time) (states (time + 1)) :=
  moves_of_next (runs.next time)

theorem Runs.reachable (runs : Runs context states events)
    (starts : Reachable context files Notified (states 0)) (time : Nat) :
    Reachable context files Notified (states time) := by
  induction time with
  | zero => exact starts
  | succ time induction => exact .step induction (runs.next time) (runs.freeing time)

/-- A worker becomes idle. -/
theorem Runs.idle (runs : Runs context states events) (fair : Fair context events) {worker : Nat}
    (exists_worker : (worker : Int) < context.options.numWorkers) (time : Nat) :
    ∃ later, time ≤ later ∧ ((states later).workers worker).Idle := by
  refine @eventually_final _ _ _ (fun time => (states time).workers worker)
    Worker.proceeds_wellFounded (fun time => (runs.moves time).proceeds worker) (fun time => ?_) time
  obtain ⟨later, time_le, choice, event, completes⟩ := fair worker exists_worker time
  have after := step_of_next (event ▸ runs.next later)
  exact ⟨later, time_le, after ▸ step_proceeds completes⟩

/-- A worker gets a turn while it is idle. -/
theorem Runs.turn (runs : Runs context states events) (fair : Fair context events) {worker : Nat}
    (exists_worker : (worker : Int) < context.options.numWorkers) (time : Nat) :
    ∃ later, time ≤ later ∧ ((states later).workers worker).Idle ∧
      ∃ choice, events later = .work worker choice := by
  obtain ⟨start, time_le, idle⟩ := runs.idle fair exists_worker time
  obtain ⟨turn, start_le, choice, event, -⟩ := fair worker exists_worker start
  obtain ⟨wait, rfl⟩ := Nat.exists_eq_add_of_le start_le
  clear start_le
  -- Up to its next turn the worker stays where it is.
  induction wait generalizing start with
  | zero => exact ⟨start, time_le, idle, choice, event⟩
  | succ wait induction =>
      by_cases now : ∃ choice, events start = .work worker choice
      · exact ⟨start, time_le, idle, now⟩
      · have same := (runs.moves start).elsewhere fun choice here => now ⟨choice, here⟩
        refine induction (start + 1) (by omega) (same ▸ idle) ?_
        rwa [show start + 1 + wait = start + (wait + 1) by omega]

end

/-! ## What stays -/

section

variable {context : Context} {state after : Async} {event : AsyncEvent}

/-- A request keeps its arguments, and its result once it is complete. -/
structure Settled (state later : Async) : Prop where
  submitted : state.submitted ≤ later.submitted
  popped : state.popped ⊆ later.popped
  completed : state.completed ⊆ later.completed
  args : ∀ request < state.submitted,
    (later.requests request).args = (state.requests request).args
  done : ∀ request < state.submitted, (state.requests request).done = true →
    (later.requests request).done = true ∧
      (later.requests request).result = (state.requests request).result

theorem Settled.refl (state : Async) : Settled state state :=
  ⟨le_rfl, List.Subset.refl _, List.Subset.refl _, fun _ _ => rfl, fun _ _ done => ⟨done, rfl⟩⟩

theorem Settled.trans {middle later : Async} (first : Settled state middle)
    (second : Settled middle later) : Settled state later where
  submitted := first.submitted.trans second.submitted
  popped := List.Subset.trans first.popped second.popped
  completed := List.Subset.trans first.completed second.completed
  args := by
    intro request bound
    rw [second.args request (by have := first.submitted; omega), first.args request bound]
  done := by
    intro request bound done
    obtain ⟨done', same⟩ := first.done request bound done
    obtain ⟨done'', same'⟩ := second.done request (by have := first.submitted; omega) done'
    exact ⟨done'', same'.trans same⟩

/-- A change of requests by which none that is complete gets another result. -/
theorem Settled.of_requests (submitted : after.submitted = state.submitted)
    (popped : state.popped ⊆ after.popped) (completed : state.completed ⊆ after.completed)
    (requests : ∀ request, (after.requests request).args = (state.requests request).args ∧
      ((state.requests request).done = true → (after.requests request).done = true ∧
        (after.requests request).result = (state.requests request).result)) :
    Settled state after :=
  ⟨submitted.ge, popped, completed, fun request _ => (requests request).1,
    fun request _ => (requests request).2⟩

theorem Settled.of_modify {request : Nat} {change : AsyncRequest → AsyncRequest}
    (args : ∀ cell, (change cell).args = cell.args)
    (done : (state.requests request).done = true →
      (change (state.requests request)).done = true ∧
        (change (state.requests request)).result = (state.requests request).result) :
    Settled state (state.modify request change) := by
  refine .of_requests rfl (List.Subset.refl _) (List.Subset.refl _) fun other => ?_
  rw [requests_modify]
  split
  · rename_i here
    rw [here]
    exact ⟨args _, done⟩
  · exact ⟨rfl, fun done => ⟨done, rfl⟩⟩

theorem Moves.settled (moves : Moves context state event after) (placed : Placed state) :
    Settled state after := by
  cases moves with
  | submit args running =>
      refine ⟨Nat.le_succ _, List.Subset.refl _, List.Subset.refl _, fun request bound => ?_,
        fun request bound done => ?_⟩
      · simp only [memtierReadAsync, Function.update_of_ne bound.ne]
      · simpa only [memtierReadAsync, Function.update_of_ne bound.ne] using ⟨done, trivial⟩
  | pop exists_worker stands front =>
      exact .of_requests rfl (List.subset_cons_self _ _) (List.Subset.refl _)
        fun _ => ⟨rfl, fun done => ⟨done, rfl⟩⟩
  | @store worker request args value choice exists_worker stands =>
      have settled : Settled state
          (state.modify request fun cell => { cell with result := value.rc, done := true }) := by
        refine .of_modify (fun _ => rfl) fun done => ?_
        rw [(placed.held worker request (by rw [stands]; rfl)).2.1] at done
        simp at done
      exact ⟨settled.submitted, settled.popped, List.subset_cons_self _ _, settled.args,
        settled.done⟩
  | report done => exact .of_modify (fun _ => rfl) fun done => ⟨done, rfl⟩
  | free submitted reported => exact .of_modify (fun _ => rfl) fun done => ⟨done, rfl⟩
  | _ =>
      exact .of_requests rfl (List.Subset.refl _) (List.Subset.refl _)
        fun _ => ⟨rfl, fun done => ⟨done, rfl⟩⟩

/-- How far a request is from the front of the queue; zero when it is not in it. -/
def position (state : Async) (request : Nat) : Nat :=
  if request ∈ state.queue then state.queue.idxOf request + 1 else 0

theorem position_eq_zero {request : Nat} : state.position request = 0 ↔ request ∉ state.queue := by
  rw [position]
  split <;> simp_all

/-- A request comes closer to the front when the front is taken. -/
theorem position_pop {front request : Nat} (distinct : state.queue.Nodup)
    (taken : state.queue = front :: after.queue) (member : request ∈ state.queue) :
    after.position request < state.position request := by
  rw [position, position, if_pos member]
  rw [taken, List.nodup_cons] at distinct
  split
  · rename_i remains
    have different : front ≠ request := by
      rintro rfl
      exact distinct.1 remains
    rw [taken, List.idxOf_cons_ne _ different]
    omega
  · exact Nat.succ_pos _

/-- No request is put back. -/
theorem Moves.position (moves : Moves context state event after) (placed : Placed state)
    {request : Nat} (bound : request < state.submitted) :
    after.position request = state.position request ∨
      after.position request < state.position request := by
  rcases moves.queue with same | ⟨appended, -⟩ | ⟨front, taken⟩
  · exact .inl (by rw [Async.position, Async.position, same])
  · refine .inl ?_
    by_cases member : request ∈ state.queue
    · rw [Async.position, Async.position, appended, if_pos member,
        if_pos (List.mem_append_left _ member), List.idxOf_append_of_mem member]
    · have absent : request ∉ after.queue := by
        rw [appended]
        simp only [List.mem_append, List.mem_singleton, not_or]
        exact ⟨member, bound.ne⟩
      rw [position_eq_zero.mpr member, position_eq_zero.mpr absent]
  · by_cases member : request ∈ state.queue
    · exact .inr (position_pop placed.distinct taken member)
    · have absent : request ∉ after.queue := fun remains => by simp [taken, remains] at member
      rw [position_eq_zero.mpr member, position_eq_zero.mpr absent]
      exact .inl rfl

/-- An idle worker that has not exited takes the front of the queue. -/
theorem step_front {worker front : Nat} {queue : List Nat} {choice : Choice}
    (stands : state.workers worker = .waiting) (taken : state.queue = front :: queue) :
    (state.step context worker choice).queue = queue := by
  simp only [step, stands, taken]

end

/-! ## Every request is executed -/

section

variable {context : Context} {files : Files} {states : Nat → Async} {events : Nat → AsyncEvent}

theorem Runs.settled (runs : Runs context states events)
    (starts : Reachable context files Notified (states 0)) (time more : Nat) :
    Settled (states time) (states (time + more)) := by
  induction more with
  | zero => exact .refl _
  | succ more induction =>
      exact induction.trans ((runs.moves _).settled (runs.reachable starts _).placed)

/-- A request leaves the queue. -/
theorem Runs.dequeued (runs : Runs context states events) (fair : Fair context events)
    (starts : Reachable context files Notified (states 0)) {request : Nat}
    (bound : request < (states 0).submitted) :
    ∃ time, request ∉ (states time).queue := by
  have known : ∀ time, request < (states time).submitted := by
    intro time
    have grown := (runs.settled starts 0 time).submitted
    rw [Nat.zero_add] at grown
    omega
  have reached := runs.reachable starts
  obtain ⟨time, -, front⟩ := @eventually_final Nat (fun earlier later => later < earlier)
    (fun position => position = 0) (fun time => (states time).position request)
    Nat.lt_wfRel.wf
    (fun time => .inr ((runs.moves time).position (reached time).placed (known time)))
    (fun time => by
      -- The first worker takes the front of the queue at its next turn.
      obtain ⟨later, time_le, idle, choice, event⟩ :=
        runs.turn fair context.initialised.numWorkers time
      refine ⟨later, time_le, ?_⟩
      by_cases member : request ∈ (states later).queue
      · refine .inr ?_
        have stands : (states later).workers 0 = .waiting := by
          refine idle.resolve_right fun exited => ?_
          rw [((reached later).draining.exits 0 exited).2] at member
          simp at member
        obtain ⟨front, queue, taken⟩ := List.exists_cons_of_ne_nil (List.ne_nil_of_mem member)
        have after := step_of_next (event ▸ runs.next later)
        have left : (states later).queue = front :: (states (later + 1)).queue := by
          rw [after, taken, step_front stands taken]
        exact position_pop (reached later).placed.distinct left member
      · exact .inl (position_eq_zero.mpr member)) 0
  exact ⟨time, position_eq_zero.mp front⟩

/-- A request that a worker has taken is completed. -/
theorem Runs.held_done (runs : Runs context states events) (fair : Fair context events)
    (starts : Reachable context files Notified (states 0)) {worker request : Nat}
    (holds : ((states 0).workers worker).holds = some request) :
    ∃ time, ((states time).requests request).done = true := by
  obtain ⟨bound, -, popped⟩ := starts.placed.held worker request holds
  have exists_worker : (worker : Int) < context.options.numWorkers := by
    by_contra beyond
    rw [starts.draining.beyond worker (by omega)] at holds
    simp [Worker.holds] at holds
  obtain ⟨time, -, idle⟩ := runs.idle fair exists_worker 0
  refine ⟨time, ?_⟩
  by_contra pending
  have settled := runs.settled starts 0 time
  rw [Nat.zero_add] at settled
  have placed := (runs.reachable starts time).placed
  have taken := settled.popped popped
  rcases placed.pending request (by have := settled.submitted; omega) (by simpa using pending) with
    queued | ⟨holder, held⟩
  · exact (placed.queued request queued).2.2 worker taken
  · rw [placed.sole (placed.held holder request held).2.2 taken] at held
    rcases idle with waiting | exited
    · simp [waiting, Worker.holds] at held
    · simp [exited, Worker.holds] at held

/-- The rest of a run is a run. -/
theorem Runs.drop (runs : Runs context states events) (time : Nat) :
    Runs context (fun later => states (time + later)) (fun later => events (time + later)) :=
  ⟨fun later => runs.next (time + later), fun later => runs.freeing (time + later)⟩

theorem Fair.drop (fair : Fair context events) (time : Nat) :
    Fair context (fun later => events (time + later)) := by
  intro worker exists_worker start
  obtain ⟨later, time_le, turn⟩ := fair worker exists_worker (time + start)
  obtain ⟨wait, rfl⟩ := Nat.exists_eq_add_of_le time_le
  exact ⟨start + wait, Nat.le_add_right _ _, by simpa only [Nat.add_assoc] using turn⟩

/-- Every request is completed. -/
theorem Runs.eventually_done (runs : Runs context states events) (fair : Fair context events)
    (starts : Reachable context files Notified (states 0)) {request : Nat}
    (bound : request < (states 0).submitted) :
    ∃ time, ((states time).requests request).done = true := by
  obtain ⟨time, absent⟩ := runs.dequeued fair starts bound
  have reached := runs.reachable starts time
  have known : request < (states time).submitted := by
    have grown := (runs.settled starts 0 time).submitted
    rw [Nat.zero_add] at grown
    omega
  by_cases done : ((states time).requests request).done = true
  · exact ⟨time, done⟩
  · rcases reached.placed.pending request known (by simpa using done) with queued | ⟨worker, holds⟩
    · exact absurd queued absent
    · obtain ⟨later, done⟩ := (runs.drop time).held_done (fair.drop time) reached holds
      exact ⟨time + later, done⟩

/-! ## The workers exit -/

theorem Runs.stop (runs : Runs context states events) (stopping : (states 0).stop = true)
    (time : Nat) : (states time).stop = true := by
  induction time with
  | zero => exact stopping
  | succ time induction => exact (runs.moves time).stop induction

theorem Runs.exited (runs : Runs context states events) {worker time : Nat}
    (exited : (states time).workers worker = .exited) (more : Nat) :
    (states (time + more)).workers worker = .exited := by
  induction more with
  | zero => exact exited
  | succ more induction => exact (runs.moves _).exited induction

/-- A worker runs out of requests. -/
theorem Runs.eventually_exited (runs : Runs context states events) (fair : Fair context events)
    (stopping : (states 0).stop = true) {worker : Nat}
    (exists_worker : (worker : Int) < context.options.numWorkers) :
    ∃ time, (states time).workers worker = .exited := by
  by_contra never
  have running : ∀ time, (states time).workers worker ≠ .exited := by simpa using never
  obtain ⟨-, -, impossible⟩ := @eventually_final Nat (fun earlier later => later < earlier)
    (fun _ => False) (fun time => (states time).queue.length) Nat.lt_wfRel.wf
    (fun time => by
      rcases (runs.moves time).queue with same | ⟨-, submitting⟩ | ⟨front, taken⟩
      · exact .inr (.inl (congrArg List.length same))
      · rw [runs.stop stopping time] at submitting
        simp at submitting
      · exact .inr (.inr (by simp [taken])))
    (fun time => by
      obtain ⟨later, time_le, idle, choice, event⟩ := runs.turn fair exists_worker time
      have stands := idle.resolve_right (running later)
      have after := step_of_next (event ▸ runs.next later)
      refine ⟨later, time_le, .inr ?_⟩
      cases taken : (states later).queue with
      | nil =>
          refine absurd ?_ (running (later + 1))
          rw [after]
          simp [step, stands, taken, runs.stop stopping later]
      | cons front queue =>
          rw [after, step_front stands taken]
          exact Nat.lt_succ_self _) 0
  exact impossible

/-- Once the flag is set, all workers exit. -/
theorem Runs.eventually_all_exited (runs : Runs context states events) (fair : Fair context events)
    (stopping : (states 0).stop = true) :
    ∃ time, ∀ worker < context.options.numWorkers.toNat, (states time).workers worker = .exited := by
  have some_of_them : ∀ count ≤ context.options.numWorkers.toNat,
      ∃ time, ∀ worker < count, (states time).workers worker = .exited := by
    intro count bound
    induction count with
    | zero => exact ⟨0, fun worker impossible => absurd impossible (Nat.not_lt_zero worker)⟩
    | succ count induction =>
        obtain ⟨first, before⟩ := induction (by omega)
        obtain ⟨second, last⟩ := runs.eventually_exited fair stopping
          (show (count : Int) < context.options.numWorkers by omega)
        refine ⟨first + second, fun worker smaller => ?_⟩
        rcases Nat.lt_succ_iff_lt_or_eq.mp smaller with smaller | rfl
        · exact runs.exited (before worker smaller) second
        · rw [Nat.add_comm]
          exact runs.exited last first
  exact some_of_them _ le_rfl

end

/-! ## Executed once -/

/-- What clients see of the requests, and what the workers have done to them. -/
structure Accounted (context : Context) (state : Async) : Prop where
  /-- No request is taken out of the queue twice. -/
  taken_once : (state.popped.map Prod.snd).Nodup
  /-- No request is executed twice. -/
  executed_once : (state.completed.map Execution.request).Nodup
  /-- Up to the end of its execution, a request is not complete. -/
  pending : ∀ request < state.submitted,
    (∀ execution ∈ state.completed, execution.request ≠ request) →
      state.memtierRequestStatus request = .internal ∧ state.memtierTest request = false ∧
        state.memtierWait request = none
  /-- From then on its result is what `do_read_impl` returned for its arguments, to the one worker
  that took it. -/
  complete : ∀ execution ∈ state.completed,
    execution.request < state.submitted ∧
      execution.args = (state.requests execution.request).args ∧
      (doReadImpl context execution.args.read).Reaches (.ret execution.value) ∧
      (∀ worker, (worker, execution.request) ∈ state.popped ↔ worker = execution.worker) ∧
      state.memtierRequestStatus execution.request = execution.value.rc ∧
      state.memtierTest execution.request = true ∧
      state.memtierWait execution.request = some execution.value.rc
  /-- Workers exit on an empty queue. -/
  exits : ∀ worker, state.workers worker = .exited → state.queue = []
  /-- When the workers have been joined, every request has been executed. -/
  drained : state.joined = true → ∀ request < state.submitted,
    state.memtierTest request = true ∧
      ∃ execution ∈ state.completed, execution.request = request

section

variable {context : Context} {files : Files} {state : Async}

/-- After the workers have been joined nothing is pending. -/
theorem Reachable.done_of_joined (reached : Reachable context files Notified state)
    (joined : state.joined = true) {request : Nat} (bound : request < state.submitted) :
    (state.requests request).done = true := by
  by_contra pending
  have draining := reached.draining
  have exited : ∀ worker, (state.workers worker).holds = none := by
    intro worker
    rcases Nat.lt_or_ge worker context.options.numWorkers.toNat with inside | beyond
    · rw [draining.joined joined worker inside]
      rfl
    · rw [draining.beyond worker beyond]
      rfl
  have first : state.workers 0 = .exited :=
    draining.joined joined 0 (by have := context.initialised.numWorkers; omega)
  rcases reached.placed.pending request bound (by simpa using pending) with queued | ⟨worker, holds⟩
  · rw [(draining.exits 0 first).2] at queued
    simp at queued
  · simp [exited worker] at holds

theorem Reachable.accounted (reached : Reachable context files Notified state) :
    Accounted context state := by
  have placed := reached.placed
  have logged := reached.logged
  constructor
  · exact placed.once
  · exact logged.once
  · intro request bound unexecuted
    have pending : (state.requests request).done = false := by
      by_contra done
      obtain ⟨execution, member, here⟩ := logged.all request bound (by simpa using done)
      exact unexecuted execution member here
    refine ⟨logged.fresh request pending, pending, ?_⟩
    rw [memtierWait, pending]
    rfl
  · intro execution member
    obtain ⟨bound, done, result, args, popped, returned⟩ := logged.entries execution member
    refine ⟨bound, args.symm, returned, fun worker => ⟨fun taken => placed.sole taken popped, ?_⟩,
      result, done, ?_⟩
    · rintro rfl
      exact popped
    · rw [memtierWait, done, result]
      rfl
  · exact fun worker exited => (reached.draining.exits worker exited).2
  · intro joined request bound
    have done := reached.done_of_joined joined bound
    exact ⟨done, logged.all request bound done⟩

end

/-- Every request is taken out of the queue once and executed by the worker that took it; until
then it is not complete, and from then on its result is what `do_read_impl` returned for the
arguments of its submission.  Workers exit on an empty queue, so that nothing is left when they have
been joined.  Under every fair schedule each request is executed, and once the flag is set the
workers exit. -/
theorem requests_executed_once {context : Context} {files : Files} {state : Async}
    (reached : Reachable context files Notified state) :
    Accounted context state ∧
      (∀ path offset size dst target after,
        state.next context (.submit (some path) offset size (some dst) target) = some after →
          after.submitted = state.submitted + 1 ∧
            (after.requests state.submitted).args = { path, offset, size, dst, target }) ∧
      ∀ states events, Runs context states events → states 0 = state →
        (∀ time, Settled state (states time)) ∧
          (Fair context events →
            (∀ request < state.submitted, ∃ time, ∃ execution ∈ (states time).completed,
              execution.request = request) ∧
            (state.stop = true → ∃ time, ∀ worker < context.options.numWorkers.toNat,
              (states time).workers worker = .exited)) := by
  refine ⟨reached.accounted, ?_, ?_⟩
  · intro path offset size dst target after happens
    simp only [next] at happens
    split at happens
    · simp at happens
    · rw [← Option.some.inj happens]
      simp [memtierReadAsync]
  · rintro states events runs rfl
    refine ⟨fun time => ?_, fun fair => ⟨fun request bound => ?_, fun stopping => ?_⟩⟩
    · have settled := runs.settled reached 0 time
      rwa [Nat.zero_add] at settled
    · obtain ⟨time, done⟩ := runs.eventually_done fair reached bound
      have grown := (runs.settled reached 0 time).submitted
      rw [Nat.zero_add] at grown
      exact ⟨time, (runs.reachable reached time).logged.all request (by omega) done⟩
    · exact runs.eventually_all_exited fair stopping

/-- A read is submitted and executed, and the worker is joined. -/
theorem requests_executed_once_joined :
    ∃ state, Reachable oneWorker (Files.single [1, 2, 3, 4]) Notified state ∧
      state.joined = true ∧ state.memtierTest 0 = true ∧
      state.memtierRequestStatus 0 = .ok := by
  obtain ⟨state, found, facts⟩ := (Option.any_eq_true _ _).mp (show
    (run? oneWorker (storedRead ++ [.work 0 (.take 4), .setStop, .work 0 (.take 4), .join])
      (initial oneWorker (Files.single [1, 2, 3, 4]))).any
        (fun state => state.joined ∧ 0 < state.submitted ∧ state.memtierRequestStatus 0 = .ok)
      from by decide +kernel)
  obtain ⟨joined, submitted, status⟩ := of_decide_eq_true facts
  have reached : Reachable oneWorker (Files.single [1, 2, 3, 4]) Notified state :=
    .continue .init (by simp [storedRead]) found
  have accounted := (requests_executed_once reached).1
  exact ⟨state, reached, joined, (accounted.drained joined 0 submitted).1, status⟩

end Async

end MemTier
