import MemTier.Runtime.VectoredDelivery

/-!
# Concurrent use of a context

Any number of client threads call the interface while worker threads serve the queue of
asynchronous reads and other processes append to files.  Steps of all of them interleave freely.
A call keeps to the discipline of its context as long as everyone does, so what was proved of
programs holds of every interleaving.
-/

namespace MemTier

open Containers Resumption

/-- A call of the interface. -/
inductive ApiCall where
  | read (args : ReadArgs)
  | prefetch (args : PrefetchArgs)
  | readv (args : ReadvArgs)
  deriving DecidableEq, Repr

/-- What a call returns. -/
inductive ApiResult where
  | read (result : ReadResult)
  | prefetch (rc : Err)
  | readv (result : ReadvResult)
  deriving DecidableEq, Repr

/-- The body of a call. -/
def ApiCall.program (context : Context) (sorter : Sorter) : ApiCall → Run ApiResult
  | .read args => do return .read (← memtierRead context args)
  | .prefetch args => do return .prefetch (← memtierPrefetch context args)
  | .readv args => do return .readv (← memtierReadv context sorter args)

/-- A call names files among those used only. -/
def ApiCall.Uses (used : Set String) : ApiCall → Prop
  | .read args => ∀ path, args.path = some path → path ∈ used
  | .prefetch args => ∀ path, args.path = some path → path ∈ used
  | .readv args => ∀ range ∈ args.ranges, ∀ path, range.path = some path → path ∈ used

/-- A thread inside a call. -/
structure Thread where
  call : ApiCall
  /-- Whether this is a worker serving an asynchronous read. -/
  worker : Bool
  /-- What was shared when the call began. -/
  began : Shared
  rest : Run ApiResult

/-- A context in use. -/
structure System where
  shared : Shared
  threads : List Thread
  queue : List ReadArgs

/-- What can happen next. -/
inductive Event where
  /-- A client calls the interface. -/
  | invoke (call : ApiCall)
  /-- `memtier_read_async` enters a request into the queue. -/
  | submit (args : ReadArgs)
  /-- An idle worker takes the front of the queue. -/
  | dequeue
  /-- A thread issues its next operation. -/
  | step (index : Nat) (choice : Choice)
  /-- Another process appends to a file. -/
  | append (inode : Nat) (bytes : Bytes)

namespace System

/-- A context right after `memtier_init`. -/
def initial (context : Context) (files : Files) : System where
  shared := context.initial files
  threads := []
  queue := []

/-- Enter a call. -/
def enter (context : Context) (sorter : Sorter) (system : System) (call : ApiCall)
    (worker : Bool) : System :=
  { system with
    threads := system.threads ++
      [{ call, worker, began := system.shared, rest := call.program context sorter }] }

/-- Whether a worker is inside a request. -/
def isBusy (thread : Thread) : Bool := thread.worker && thread.rest.value?.isNone

/-- The effect of an event; `none` if it cannot happen. -/
def next (context : Context) (sorter : Sorter) (system : System) : Event → Option System
  | .invoke call => some (system.enter context sorter call false)
  | .submit args =>
      if args.path.isSome && !args.dstNull then some { system with queue := system.queue ++ [args] }
      else some system
  | .dequeue =>
      match system.queue with
      | [] => none
      | args :: queue =>
          if (system.threads.countP isBusy : Int) < context.options.numWorkers then
            some ({ system with queue }.enter context sorter (.read args) true)
          else none
  | .step index choice =>
      match system.threads[index]? with
      | none => none
      | some thread =>
          let (shared, rest) :=
            Prog.advance (serve context.setup) choice (system.shared, thread.rest)
          some { system with shared, threads := system.threads.set index { thread with rest } }
  | .append inode bytes =>
      match system.shared.files inode with
      | none => none
      | some content =>
          if (content ++ bytes).length < 2 ^ 63 then
            let files := Function.update system.shared.files inode (some (content ++ bytes))
            some { system with shared := { system.shared with files } }
          else none

end System

/-- What each event does, with the condition under which it can happen. -/
inductive System.Transition (context : Context) (sorter : Sorter) (system : System) :
    Event → System → Prop
  | invoke (call : ApiCall) :
      Transition context sorter system (.invoke call) (system.enter context sorter call false)
  | reject (args : ReadArgs) : Transition context sorter system (.submit args) system
  | submit (args : ReadArgs) :
      Transition context sorter system (.submit args) { system with queue := system.queue ++ [args] }
  | dequeue {args : ReadArgs} {queue : List ReadArgs} (front : system.queue = args :: queue) :
      Transition context sorter system .dequeue
        ({ system with queue }.enter context sorter (.read args) true)
  | step {index : Nat} {thread : Thread} (choice : Choice)
      (present : system.threads[index]? = some thread) :
      Transition context sorter system (.step index choice)
        { system with
          shared := (Prog.advance (serve context.setup) choice (system.shared, thread.rest)).1
          threads := system.threads.set index
            { thread with
              rest := (Prog.advance (serve context.setup) choice
                (system.shared, thread.rest)).2 } }
  | append {inode : Nat} {content : Bytes} (bytes : Bytes)
      (present : system.shared.files inode = some content)
      (short : (content ++ bytes).length < 2 ^ 63) :
      Transition context sorter system (.append inode bytes)
        { system with
          shared := { system.shared with
            files := Function.update system.shared.files inode (some (content ++ bytes)) } }

theorem System.transition_of_next {context : Context} {sorter : Sorter} {system after : System}
    {event : Event} (happens : system.next context sorter event = some after) :
    Transition context sorter system event after := by
  cases event with
  | invoke call => exact Option.some.inj happens ▸ .invoke call
  | submit args =>
      simp only [System.next] at happens
      split at happens
      · exact Option.some.inj happens ▸ .submit args
      · exact Option.some.inj happens ▸ .reject args
  | dequeue =>
      simp only [System.next] at happens
      split at happens
      · simp at happens
      · rename_i args queue front
        split at happens
        · exact Option.some.inj happens ▸ .dequeue front
        · simp at happens
  | step index choice =>
      simp only [System.next] at happens
      split at happens
      · simp at happens
      · rename_i thread present
        exact Option.some.inj happens ▸ .step choice present
  | append inode bytes =>
      simp only [System.next] at happens
      split at happens
      · simp at happens
      · rename_i content present
        split at happens
        · rename_i short
          exact Option.some.inj happens ▸ .append bytes present short
        · simp at happens

/-- Calls name used files only, system calls do not fail on their own account, and files change
only if `appends` says so. -/
def Event.Admissible (used : Set String) (appends : Bool) : Event → Prop
  | .invoke call => call.Uses used
  | .submit args => (ApiCall.read args).Uses used
  | .dequeue => True
  | .step _ choice => choice.Reliable
  | .append _ _ => appends = true

/-- States a context can reach from `memtier_init`. -/
inductive System.Reachable (context : Context) (sorter : Sorter) (used : Set String)
    (appends : Bool) (files : Files) : System → Prop
  | init : Reachable context sorter used appends files (initial context files)
  | next {system after : System} {event : Event} :
      Reachable context sorter used appends files system → event.Admissible used appends →
        system.next context sorter event = some after →
          Reachable context sorter used appends files after

/-- The state after a sequence of events, if all of them can happen. -/
def System.run (context : Context) (sorter : Sorter) (system : System) (events : List Event) :
    Option System :=
  events.foldlM (System.next context sorter) system

theorem System.Reachable.run {context : Context} {sorter : Sorter} {used : Set String}
    {appends : Bool} {files : Files} {system after : System} {events : List Event}
    (reachable : Reachable context sorter used appends files system)
    (admissible : ∀ event ∈ events, event.Admissible used appends)
    (happens : system.run context sorter events = some after) :
    Reachable context sorter used appends files after := by
  induction events generalizing system with
  | nil => exact Option.some.inj happens ▸ reachable
  | cons event rest induction =>
      rw [List.forall_mem_cons] at admissible
      rw [System.run, List.foldlM_cons] at happens
      obtain ⟨middle, first, later⟩ := Option.bind_eq_some_iff.mp happens
      exact induction (.next reachable admissible.1 first) admissible.2 later

/-! ## Every call keeps to the discipline -/

/-- How files may change under a system with or without appends. -/
def Interference.ofAppends : Bool → Interference
  | true => .appending
  | false => .frozen

/-- The promise of a call about its result. -/
def ApiCall.Outcome (context : Context) (sorter : Sorter) (began : Shared) :
    ApiCall → ApiResult → Shared → Prop
  | .read args, .read result, now =>
      ∀ path, args.path = some path → args.dstNull = false → args.size ≠ 0 → args.target = .cpu →
        LoopOutcome context args.target args.offset.toNat args.size.toNat 0 []
          (began.content context.setup.naming path) (now.content context.setup.naming path) result
  | .prefetch _, .prefetch _, _ => True
  | .readv args, .readv result, now =>
      ∀ items, args.ranges ≠ [] → args.ranges.mapM Range.item? = some items →
        ¬ context.GdsStubReads → (∀ item ∈ items, item.Straight) →
          ReadvOutcome context.setup.naming args.target (sorter.sort items) began now result
  | _, _, _ => False

section

variable {context : Context} {sorter : Sorter} {used : Set String}

theorem keeps_program {interference : Interference} {shared : Shared} {call : ApiCall}
    (valid : SharedValid context used shared)
    (injective : context.setup.naming.InjectiveOn used) (uses : call.Uses used) :
    context.Keeps used interference (call.Outcome context sorter shared)
      (call.program context sorter) shared := by
  cases call with
  | read args => exact Prog.Holds.map (keeps_doReadImpl valid injective uses)
  | prefetch args => exact Prog.Holds.map (keeps_memtierPrefetch valid uses)
  | readv args => exact Prog.Holds.map (keeps_memtierReadv valid injective uses)

/-- The invariant of a context in use. -/
structure System.Sound (context : Context) (sorter : Sorter) (used : Set String)
    (interference : Interference) (system : System) : Prop where
  valid : SharedValid context used system.shared
  threads : ∀ thread ∈ system.threads,
    context.Keeps used interference (thread.call.Outcome context sorter thread.began)
      thread.rest system.shared
  queue : ∀ args ∈ system.queue, (ApiCall.read args).Uses used

theorem System.Sound.initial {interference : Interference} {files : Files}
    (small : ∀ inode content, files inode = some content → content.length < 2 ^ 63) :
    (System.initial context files).Sound context sorter used interference where
  valid := ⟨rfl, small, by
    intro key node found
    simp [System.initial, Context.initial, CacheDirectory.new] at found⟩
  threads := nofun
  queue := nofun

theorem System.Sound.enter {interference : Interference} {system : System} {call : ApiCall}
    {worker : Bool} (sound : system.Sound context sorter used interference)
    (injective : context.setup.naming.InjectiveOn used) (uses : call.Uses used) :
    (system.enter context sorter call worker).Sound context sorter used interference where
  valid := sound.valid
  threads := by
    intro thread member
    rcases List.mem_append.mp member with old | new
    · exact sound.threads thread old
    · rw [List.mem_singleton] at new
      subst new
      exact keeps_program sound.valid injective uses
  queue := sound.queue

/-- A step of one thread is interference within the rely for all others. -/
theorem System.Sound.step {interference : Interference} {system : System} {index : Nat}
    {choice : Choice} {thread : Thread} (sound : system.Sound context sorter used interference)
    (reliable : choice.Reliable) (present : system.threads[index]? = some thread) :
    let moved := Prog.advance (serve context.setup) choice (system.shared, thread.rest)
    System.Sound context sorter used interference
      { system with
        shared := moved.1, threads := system.threads.set index { thread with rest := moved.2 } } := by
  intro moved
  obtain ⟨valid, files, kept⟩ :=
    (sound.threads thread (List.mem_of_getElem? present)).advance sound.valid (fun _ => rfl)
      reliable
  refine ⟨valid, ?_, sound.queue⟩
  intro other member
  rcases List.mem_or_eq_of_mem_set member with old | rfl
  · refine (sound.threads other old).stable ?_
    change interference.allows system.shared.files moved.1.files
    rw [show moved.1.files = system.shared.files from files]
    exact interference.refl _
  · exact kept

/-- Files grow under an append. -/
theorem Files.grows_update {files : Files} {inode : Nat} {content : Bytes}
    (present : files inode = some content) (bytes : Bytes) :
    files.Grows (Function.update files inode (some (content ++ bytes))) := by
  intro other
  by_cases same : other = inode
  · subst same
    rw [Function.update_self, present]
    refine ⟨?_, nofun⟩
    rintro _ ⟨⟩
    exact ⟨_, rfl, List.prefix_append _ _⟩
  · rw [Function.update_of_ne same]
    exact ⟨fun other present => ⟨other, present, List.prefix_rfl⟩, id⟩

theorem System.Sound.append {system : System} {inode : Nat} {content bytes : Bytes}
    (sound : system.Sound context sorter used .appending)
    (present : system.shared.files inode = some content)
    (short : (content ++ bytes).length < 2 ^ 63) :
    System.Sound context sorter used .appending
      { system with
        shared := { system.shared with
          files := Function.update system.shared.files inode (some (content ++ bytes)) } } := by
  have growth := Files.grows_update present bytes
  refine ⟨⟨sound.valid.chunkSize, ?_, ?_⟩, ?_, sound.queue⟩
  · intro other found lookup
    by_cases same : other = inode
    · subst same
      simp only [Function.update_self, Option.some.injEq] at lookup
      exact lookup ▸ short
    · simp only [Function.update_of_ne same] at lookup
      exact sound.valid.small other found lookup
  · exact fun key node found => (sound.valid.entries key node found).grow growth
  · exact fun thread member => (sound.threads thread member).stable growth

theorem System.Sound.next {appends : Bool} {system after : System} {event : Event}
    (sound : system.Sound context sorter used (.ofAppends appends))
    (injective : context.setup.naming.InjectiveOn used)
    (admissible : event.Admissible used appends)
    (happens : system.next context sorter event = some after) :
    after.Sound context sorter used (.ofAppends appends) := by
  cases System.transition_of_next happens with
  | invoke call => exact sound.enter injective admissible
  | reject args => exact sound
  | submit args =>
      refine ⟨sound.valid, sound.threads, fun other member => ?_⟩
      rcases List.mem_append.mp member with old | new
      · exact sound.queue other old
      · exact List.mem_singleton.mp new ▸ admissible
  | dequeue front =>
      have uses := sound.queue
      rw [front, List.forall_mem_cons] at uses
      exact System.Sound.enter ⟨sound.valid, sound.threads, uses.2⟩ injective uses.1
  | step choice present => exact sound.step admissible present
  | append bytes present short =>
      obtain rfl : appends = true := admissible
      exact sound.append present short

/-- Every reachable state is sound. -/
theorem System.Reachable.sound {appends : Bool} {files : Files} {system : System}
    (reachable : Reachable context sorter used appends files system)
    (injective : context.setup.naming.InjectiveOn used)
    (small : ∀ inode content, files inode = some content → content.length < 2 ^ 63) :
    system.Sound context sorter used (.ofAppends appends) := by
  induction reachable with
  | init => exact System.Sound.initial small
  | next _ admissible happens induction => exact induction.next injective admissible happens

/-- Without appends files stay as they were. -/
theorem System.Reachable.files_eq {files : Files} {system : System}
    (reachable : Reachable context sorter used false files system) :
    system.shared.files = files := by
  induction reachable with
  | init => rfl
  | next _ admissible happens induction =>
      rw [← induction]
      cases System.transition_of_next happens with
      | step choice present => exact advance_files _ _ _ _
      | append bytes present short => exact absurd admissible nofun
      | _ => rfl

/-! ## Progress -/

/-- An infinite run. -/
structure System.Runs (context : Context) (sorter : Sorter) (states : Nat → System)
    (events : Nat → Event) : Prop where
  next : ∀ time, (states time).next context sorter (events time) = some (states (time + 1))

/-- A thread that gets to issue completing operations again and again. -/
def System.FairTo (index : Nat) (events : Nat → Event) : Prop :=
  ∀ time, ∃ later, time ≤ later ∧
    ∃ choice : Choice, events later = .step index choice ∧ choice.Completes

/-- A thread keeps its place, and its program stays or resumes. -/
theorem System.next_thread {system after : System} {event : Event} {index : Nat}
    {thread : Thread} (happens : system.next context sorter event = some after)
    (present : system.threads[index]? = some thread) :
    ∃ later, after.threads[index]? = some later ∧ later.call = thread.call ∧
      later.began = thread.began ∧ (later.rest = thread.rest ∨ thread.rest.Resumes later.rest) ∧
        ∀ choice, event = .step index choice →
          later.rest = (Prog.advance (serve context.setup) choice (system.shared, thread.rest)).2 := by
  have bound := (List.getElem?_eq_some_iff.mp present).1
  cases System.transition_of_next happens with
  | invoke call =>
      refine ⟨thread, ?_, rfl, rfl, .inl rfl, nofun⟩
      rw [System.enter, List.getElem?_append_left bound, present]
  | dequeue front =>
      refine ⟨thread, ?_, rfl, rfl, .inl rfl, nofun⟩
      rw [System.enter, List.getElem?_append_left bound, present]
  | @step moved stepping choice found =>
      by_cases same : moved = index
      · subst same
        obtain rfl := Option.some.inj (found.symm.trans present)
        refine ⟨_, List.getElem?_set_self bound, rfl, rfl,
          Prog.advance_resumes (serve context.setup) choice _ _, ?_⟩
        rintro _ ⟨⟩
        rfl
      · refine ⟨thread, ?_, rfl, rfl, .inl rfl, ?_⟩
        · rw [List.getElem?_set_ne same, present]
        · rintro _ ⟨⟩
          exact absurd rfl same
  | reject args => exact ⟨thread, present, rfl, rfl, .inl rfl, nofun⟩
  | submit args => exact ⟨thread, present, rfl, rfl, .inl rfl, nofun⟩
  | append bytes found short => exact ⟨thread, present, rfl, rfl, .inl rfl, nofun⟩

/-- A thread that is scheduled fairly returns, whatever the others do. -/
theorem System.Runs.returns {states : Nat → System} {events : Nat → Event}
    (runs : System.Runs context sorter states events) {index : Nat} {thread : Thread}
    (fair : System.FairTo index events) (present : (states 0).threads[index]? = some thread) :
    ∃ time later value, (states time).threads[index]? = some later ∧
      later.call = thread.call ∧ later.began = thread.began ∧ later.rest = .ret value := by
  have stays : ∀ time, ∃ later, (states time).threads[index]? = some later ∧
      later.call = thread.call ∧ later.began = thread.began := by
    intro time
    induction time with
    | zero => exact ⟨thread, present, rfl, rfl⟩
    | succ time induction =>
        obtain ⟨earlier, found, call, began⟩ := induction
        obtain ⟨later, found', call', began', -⟩ := System.next_thread (runs.next time) found
        exact ⟨later, found', call'.trans call, began'.trans began⟩
  choose later found call began using stays
  have moves : ∀ time, (later (time + 1)).rest = (later time).rest ∨
      (later time).rest.Resumes (later (time + 1)).rest := by
    intro time
    obtain ⟨following, found', -, -, moved, -⟩ := System.next_thread (runs.next time) (found time)
    obtain rfl := Option.some.inj (found'.symm.trans (found (time + 1)))
    exact moved
  have turns : ∀ time, ∃ turn, time ≤ turn ∧ ∀ op next, (later turn).rest = .call op next →
      ∃ reply, (later (turn + 1)).rest = next reply := by
    intro time
    obtain ⟨turn, time_le, choice, event, completes⟩ := fair time
    refine ⟨turn, time_le, fun op next standing => ?_⟩
    obtain ⟨following, found', -, -, -, advanced⟩ :=
      System.next_thread (runs.next turn) (found turn)
    obtain rfl := Option.some.inj (found'.symm.trans (found (turn + 1)))
    rw [advanced choice event, standing]
    exact Prog.advance_completes (serve_completes context.setup) completes _ next
  obtain ⟨time, -, value, returned⟩ :=
    @Prog.eventually_ret _ _ _ (fun time => (later time).rest) moves turns 0
  exact ⟨time, later time, value, found time, call time, began time, returned⟩

end

/-! ## A small context -/

/-- A context with chunks of four bytes and room for two of them. -/
def Context.small (change : Options → Options) : Context :=
  memtierInit
    (some (change { Options.defaults with chunkSize := 4, dramCacheSize := 8 }))
    { naming := { fileIdFromPath := fun _ => 1, inode := fun _ => 0 }, gds := .stub, cuda := false }

/-- One file with a given content. -/
def Files.single (content : Bytes) : Files := fun inode =>
  if inode = 0 then some content else none

theorem Files.single_small {content : Bytes} (small : content.length < 2 ^ 63) :
    ∀ inode found, Files.single content inode = some found → found.length < 2 ^ 63 := by
  intro inode found lookup
  rw [Files.single] at lookup
  split at lookup
  · exact Option.some.inj lookup ▸ small
  · simp at lookup

end MemTier
