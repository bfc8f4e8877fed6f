import MemTier.Runtime.System

/-!
# Asynchronous requests

`memtier_read_async` puts a request into a queue, worker threads take requests out and run
`do_read_impl` on them, and clients wait for completion, ask for it, and free what they were told
is complete.  `memtier_finalize` sets a flag and joins the workers.  The mutex of the queue and the
one of each request make the steps below atomic; what the other threads of the process do to the
shared state is arbitrary.
-/

namespace MemTier

open Containers Resumption

/-- What `memtier_read_async` stores into a request. -/
structure AsyncArgs where
  path : String
  offset : UInt64
  size : UInt64
  dst : Nat
  target : Target
  deriving DecidableEq, Repr

/-- The arguments with which a worker calls `do_read_impl`. -/
def AsyncArgs.read (args : AsyncArgs) : ReadArgs where
  path := some args.path
  offset := args.offset
  size := args.size
  dstNull := false
  target := args.target

/-- A request.  The last two fields are for reference: whether a client was told that it is
complete, and whether its memory was given back. -/
structure AsyncRequest where
  args : AsyncArgs
  result : Err := .internal
  done : Bool := false
  reported : Bool := false
  freed : Bool := false
  deriving DecidableEq, Repr

/-- Where a worker thread stands. -/
inductive Worker where
  /-- At the queue. -/
  | waiting
  /-- Inside `do_read_impl`. -/
  | reading (request : Nat) (args : AsyncArgs) (rest : Run ReadResult)
  /-- About to store the result. -/
  | storing (request : Nat) (args : AsyncArgs) (value : ReadResult)
  /-- About to call `notify_all` on the condition variable of the request. -/
  | notifying (request : Nat)
  /-- Returned from its loop. -/
  | exited

/-- The request a worker has taken and not completed. -/
def Worker.holds : Worker → Option Nat
  | reading request _ _ | storing request _ _ => some request
  | waiting | notifying _ | exited => none

/-- An execution of `do_read_impl` whose result was stored. -/
structure Execution where
  worker : Nat
  request : Nat
  args : AsyncArgs
  value : ReadResult
  deriving DecidableEq, Repr

/-- A context with its requests.  Requests are numbered in the order of submission; the two logs
are for reference. -/
structure Async where
  shared : Shared
  submitted : Nat
  requests : Nat → AsyncRequest
  queue : List Nat
  stop : Bool
  joined : Bool
  workers : Nat → Worker
  popped : List (Nat × Nat)
  completed : List Execution

/-- What can happen next. -/
inductive AsyncEvent where
  /-- `memtier_read_async`. -/
  | submit (path : Option String) (offset size : UInt64) (dst : Option Nat) (target : Target)
  /-- The next step of a worker. -/
  | work (worker : Nat) (choice : Choice)
  /-- `memtier_wait` returns. -/
  | wait (request : Nat)
  /-- `memtier_test` returns. -/
  | test (request : Nat)
  /-- `memtier_request_status` returns. -/
  | status (request : Nat)
  /-- `memtier_request_free`. -/
  | free (request : Nat)
  /-- `memtier_finalize` sets the flag. -/
  | setStop
  /-- `memtier_finalize` has joined all workers. -/
  | join
  /-- Other threads of the process change what is shared. -/
  | others (shared : Shared)

namespace Async

/-- A context right after `memtier_init`. -/
def initial (context : Context) (files : Files) : Async where
  shared := context.initial files
  submitted := 0
  requests := fun _ =>
    { args := { path := "", offset := 0, size := 0, dst := 0, target := .cpu } }
  queue := []
  stop := false
  joined := false
  workers := fun _ => .waiting
  popped := []
  completed := []

/-! ## Clients -/

/-- `memtier_read_async`, for the arguments it accepts. -/
def memtierReadAsync (state : Async) (args : AsyncArgs) : Async :=
  { state with
    submitted := state.submitted + 1
    requests := Function.update state.requests state.submitted { args }
    queue := state.queue ++ [state.submitted] }

/-- `memtier_wait` returns the result once the request is done. -/
def memtierWait (state : Async) (request : Nat) : Option Err :=
  if (state.requests request).done then some (state.requests request).result else none

/-- `memtier_test`. -/
def memtierTest (state : Async) (request : Nat) : Bool := (state.requests request).done

/-- `memtier_request_status`. -/
def memtierRequestStatus (state : Async) (request : Nat) : Err := (state.requests request).result

/-- Change one request. -/
def modify (state : Async) (request : Nat) (change : AsyncRequest → AsyncRequest) : Async :=
  { state with
    requests := Function.update state.requests request (change (state.requests request)) }

/-! ## Workers -/

/-- Move a worker. -/
def move (state : Async) (worker : Nat) (place : Worker) : Async :=
  { state with workers := Function.update state.workers worker place }

/-- The next step of a worker. -/
def step (context : Context) (state : Async) (worker : Nat) (choice : Choice) : Async :=
  match state.workers worker with
  | .waiting =>
      match state.queue with
      | [] => if state.stop then state.move worker .exited else state
      | request :: queue =>
          let args := (state.requests request).args
          { state.move worker (.reading request args (doReadImpl context args.read)) with
            queue
            popped := (worker, request) :: state.popped }
  | .reading request args (.ret value) => state.move worker (.storing request args value)
  | .reading request args rest =>
      let (shared, rest) := Prog.advance (serve context.setup) choice (state.shared, rest)
      { state.move worker (.reading request args rest) with shared }
  | .storing request args value =>
      { (state.modify request fun cell => { cell with result := value.rc, done := true }).move worker
          (.notifying request) with
        completed := { worker, request, args, value } :: state.completed }
  | .notifying _ => state.move worker .waiting
  | .exited => state

/-- The request that the next step of a worker reads or writes. -/
def touches (state : Async) (worker : Nat) : Option Nat :=
  match state.workers worker with
  | .waiting => state.queue.head?
  | .reading request _ _ | .storing request _ _ | .notifying request => some request
  | .exited => none

/-! ## Runs -/

/-- The effect of an event; `none` if it cannot happen.  Clients name requests they have submitted,
submit before they finalize, and free a request once, after they were told that it is complete. -/
def next (context : Context) (state : Async) : AsyncEvent → Option Async
  | .submit path offset size dst target =>
      if state.stop then none
      else
        match path, dst with
        | some path, some dst => some (state.memtierReadAsync { path, offset, size, dst, target })
        | _, _ => some state
  | .work worker choice =>
      if (worker : Int) < context.options.numWorkers then some (state.step context worker choice)
      else none
  | .wait request =>
      if request < state.submitted ∧ (state.requests request).freed = false then
        (state.memtierWait request).map fun _ =>
          state.modify request fun cell => { cell with reported := true }
      else none
  | .test request =>
      if request < state.submitted ∧ (state.requests request).freed = false then
        if state.memtierTest request then
          some (state.modify request fun cell => { cell with reported := true })
        else some state
      else none
  | .status request =>
      if request < state.submitted ∧ (state.requests request).freed = false then some state else none
  | .free request =>
      if request < state.submitted ∧ (state.requests request).freed = false ∧
          (state.requests request).reported = true then
        some (state.modify request fun cell => { cell with freed := true })
      else none
  | .setStop => some { state with stop := true }
  | .join =>
      if state.stop = true ∧ ∀ worker < context.options.numWorkers.toNat,
          (match state.workers worker with | .exited => true | _ => false) = true then
        some { state with joined := true }
      else none
  | .others shared => some { state with shared }

/-- The states of a context in use, for clients whose calls of `memtier_request_free` meet a
condition. -/
inductive Reachable (context : Context) (files : Files) (frees : Async → Nat → Prop) :
    Async → Prop
  | init : Reachable context files frees (initial context files)
  | step {state after : Async} {event : AsyncEvent}
      (reached : Reachable context files frees state)
      (happens : state.next context event = some after)
      (freeing : ∀ request, event = .free request → frees state request) :
      Reachable context files frees after

/-- What can happen, with the condition under which it does. -/
inductive Moves (context : Context) (state : Async) : AsyncEvent → Async → Prop
  | nothing (event : AsyncEvent) : Moves context state event state
  | submit (args : AsyncArgs) {event : AsyncEvent} (running : state.stop = false) :
      Moves context state event (state.memtierReadAsync args)
  | exit {worker : Nat} {choice : Choice} (exists_worker : (worker : Int) < context.options.numWorkers)
      (stands : state.workers worker = .waiting) (stopping : state.stop = true)
      (empty : state.queue = []) :
      Moves context state (.work worker choice) (state.move worker .exited)
  | pop {worker request : Nat} {queue : List Nat} {choice : Choice}
      (exists_worker : (worker : Int) < context.options.numWorkers)
      (stands : state.workers worker = .waiting) (front : state.queue = request :: queue) :
      Moves context state (.work worker choice)
        { state.move worker (.reading request (state.requests request).args
            (doReadImpl context (state.requests request).args.read)) with
          queue
          popped := (worker, request) :: state.popped }
  | read {worker request : Nat} {args : AsyncArgs} {rest : Run ReadResult} {choice : Choice}
      (exists_worker : (worker : Int) < context.options.numWorkers)
      (stands : state.workers worker = .reading request args rest) :
      Moves context state (.work worker choice)
        { state.move worker (.reading request args
            (Prog.advance (serve context.setup) choice (state.shared, rest)).2) with
          shared := (Prog.advance (serve context.setup) choice (state.shared, rest)).1 }
  | finish {worker request : Nat} {args : AsyncArgs} {value : ReadResult} {choice : Choice}
      (exists_worker : (worker : Int) < context.options.numWorkers)
      (stands : state.workers worker = .reading request args (.ret value)) :
      Moves context state (.work worker choice) (state.move worker (.storing request args value))
  | store {worker request : Nat} {args : AsyncArgs} {value : ReadResult} {choice : Choice}
      (exists_worker : (worker : Int) < context.options.numWorkers)
      (stands : state.workers worker = .storing request args value) :
      Moves context state (.work worker choice)
        { (state.modify request fun cell => { cell with result := value.rc, done := true }).move
            worker (.notifying request) with
          completed := { worker, request, args, value } :: state.completed }
  | notify {worker request : Nat} {choice : Choice}
      (exists_worker : (worker : Int) < context.options.numWorkers)
      (stands : state.workers worker = .notifying request) :
      Moves context state (.work worker choice) (state.move worker .waiting)
  | report {request : Nat} {event : AsyncEvent} (done : (state.requests request).done = true)
      (quiet : ∀ freed, event ≠ .free freed) :
      Moves context state event (state.modify request fun cell => { cell with reported := true })
  | free {request : Nat} (submitted : request < state.submitted)
      (reported : (state.requests request).reported = true) :
      Moves context state (.free request)
        (state.modify request fun cell => { cell with freed := true })
  | setStop : Moves context state .setStop { state with stop := true }
  | join (exited : ∀ worker < context.options.numWorkers.toNat, state.workers worker = .exited) :
      Moves context state .join { state with joined := true }
  | others (shared : Shared) : Moves context state (.others shared) { state with shared }

theorem moves_of_step {context : Context} {state : Async} {worker : Nat} (choice : Choice)
    (exists_worker : (worker : Int) < context.options.numWorkers) :
    Moves context state (.work worker choice) (state.step context worker choice) := by
  rw [step]
  split
  · rename_i stands
    split
    · rename_i empty
      split
      · rename_i stopping
        exact .exit exists_worker stands stopping empty
      · exact .nothing _
    · rename_i request queue front
      exact .pop exists_worker stands front
  · rename_i request args value stands
    exact .finish exists_worker stands
  · rename_i request args rest _ stands
    exact .read exists_worker stands
  · rename_i request args value stands
    exact .store exists_worker stands
  · rename_i request stands
    exact .notify exists_worker stands
  · exact .nothing _

theorem moves_of_next {context : Context} {state after : Async} {event : AsyncEvent}
    (happens : state.next context event = some after) : Moves context state event after := by
  cases event with
  | submit path offset size dst target =>
      simp only [next] at happens
      split at happens
      · simp at happens
      · rename_i running
        split at happens
        · exact Option.some.inj happens ▸ .submit _ (by simpa using running)
        · exact Option.some.inj happens ▸ .nothing _
  | work worker choice =>
      simp only [next] at happens
      split at happens
      · rename_i exists_worker
        exact Option.some.inj happens ▸ moves_of_step choice exists_worker
      · simp at happens
  | wait request =>
      simp only [next] at happens
      split at happens
      · obtain ⟨value, returned, rfl⟩ := Option.map_eq_some_iff.mp happens
        rw [memtierWait] at returned
        split at returned
        · rename_i done
          exact .report done (by simp)
        · simp at returned
      · simp at happens
  | test request =>
      simp only [next] at happens
      split at happens
      · split at happens
        · rename_i done
          exact Option.some.inj happens ▸ .report done (by simp)
        · exact Option.some.inj happens ▸ .nothing _
      · simp at happens
  | status request =>
      simp only [next] at happens
      split at happens
      · exact Option.some.inj happens ▸ .nothing _
      · simp at happens
  | free request =>
      simp only [next] at happens
      split at happens
      · rename_i allowed
        exact Option.some.inj happens ▸ .free allowed.1 allowed.2.2
      · simp at happens
  | setStop => exact Option.some.inj happens ▸ .setStop
  | join =>
      simp only [next] at happens
      split at happens
      · rename_i joinable
        refine Option.some.inj happens ▸ .join fun worker bound => ?_
        have exited := joinable.2 worker bound
        split at exited
        · assumption
        · simp at exited
      · simp at happens
  | others shared => exact Option.some.inj happens ▸ .others shared

/-- Events one after another. -/
def run? (context : Context) : List AsyncEvent → Async → Option Async
  | [], state => some state
  | event :: events, state => (state.next context event).bind (run? context events)

theorem Reachable.continue {context : Context} {files : Files} {frees : Async → Nat → Prop}
    {events : List AsyncEvent} {state after : Async} (reached : Reachable context files frees state)
    (freeing : ∀ state request, .free request ∈ events → frees state request)
    (found : run? context events state = some after) : Reachable context files frees after := by
  induction events generalizing state with
  | nil => exact Option.some.inj found ▸ reached
  | cons event events induction =>
      obtain ⟨middle, happens, rest⟩ := Option.bind_eq_some_iff.mp found
      refine induction (.step reached happens ?_)
        (fun state request member => freeing state request (List.mem_cons_of_mem _ member)) rest
      rintro request rfl
      exact freeing state request List.mem_cons_self

end Async

end MemTier
