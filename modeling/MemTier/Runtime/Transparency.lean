import MemTier.Runtime.System

/-!
# Cache transparency

In every interleaving of reads, prefetches, vectored reads and file appends, a read that succeeds
has delivered the bytes of its range, and a read whose range was inside the file when it began
succeeds.
-/

namespace MemTier

open Containers Resumption

/-- `memtier_gds_read` never reports success. -/
def Context.GdsNeverSucceeds (context : Context) : Prop :=
  context.options.enableGds = false ∨
    (context.setup.gds = .stub ∧ context.options.gdsStubSuccess = false)

theorem Context.GdsNeverSucceeds.honest {context : Context} (never : context.GdsNeverSucceeds) :
    ¬ context.GdsStubReads := by
  rintro ⟨-, enabled, succeeds⟩
  rcases never with disabled | ⟨-, fails⟩
  · exact absurd (disabled.symm.trans enabled) nofun
  · exact absurd (fails.symm.trans succeeds) nofun

section

variable {context : Context} {sorter : Sorter} {used : Set String}

/-- What a returned call promised holds. -/
theorem System.Sound.outcome {interference : Interference} {system : System} {thread : Thread}
    {index : Nat} {value : ApiResult} (sound : system.Sound context sorter used interference)
    (present : system.threads[index]? = some thread) (returned : thread.rest = .ret value) :
    thread.call.Outcome context sorter thread.began value system.shared := by
  have kept := sound.threads thread (List.mem_of_getElem? present)
  rw [returned] at kept
  exact kept system.shared (interference.refl _) sound.valid

theorem System.Runs.reachable {appends : Bool} {files : Files} {states : Nat → System}
    {events : Nat → Event} (runs : System.Runs context sorter states events)
    (admissible : ∀ time, (events time).Admissible used appends)
    (start : System.Reachable context sorter used appends files (states 0)) (time : Nat) :
    System.Reachable context sorter used appends files (states time) := by
  induction time with
  | zero => exact start
  | succ time induction => exact .next induction (admissible time) (runs.next time)

end

/-- Cache transparency.  Of a read to the host, in any reachable state: if it returned success,
its range lies inside the file and exactly the bytes of the range were delivered; if it returned
anything else, that is an I/O error and its range was not inside the file when it began; and it
does return if it is scheduled fairly. -/
theorem reads_transparent (context : Context) (sorter : Sorter) (used : Set String) (files : Files)
    (injective : context.setup.naming.InjectiveOn used) (never : context.GdsNeverSucceeds)
    (small : ∀ inode content, files inode = some content → content.length < 2 ^ 63)
    (system : System) (reachable : System.Reachable context sorter used true files system)
    (index : Nat) (thread : Thread) (present : system.threads[index]? = some thread)
    (args : ReadArgs) (call : thread.call = .read args) (path : String)
    (named : args.path = some path) (usable : args.dstNull = false) (nonempty : args.size ≠ 0)
    (host : args.target = .cpu) :
    (∀ result, thread.rest = .ret (.read result) → result.rc = .ok →
      ∃ content, system.shared.content context.setup.naming path = some content ∧
        args.offset.toNat + args.size.toNat ≤ content.length ∧
          result.out = slice content args.offset.toNat args.size.toNat) ∧
    (∀ result, thread.rest = .ret (.read result) → result.rc ≠ .ok →
      result.rc = .io ∧ ∀ content,
        thread.began.content context.setup.naming path = some content →
          content.length < args.offset.toNat + args.size.toNat) ∧
    ∀ states events, states 0 = system → System.Runs context sorter states events →
      (∀ time, (events time).Admissible used true) → System.FairTo index events →
        ∃ time later result, (states time).threads[index]? = some later ∧
          later.call = .read args ∧ later.began = thread.began ∧
            later.rest = .ret (.read result) := by
  have sound := reachable.sound injective small
  have positive : 0 < args.size.toNat :=
    Nat.pos_of_ne_zero fun empty => nonempty (UInt64.toNat_inj.mp empty)
  have transparent : ∀ result, thread.rest = .ret (.read result) →
      Transparent args.target args.offset.toNat args.size.toNat
        (thread.began.content context.setup.naming path)
        (system.shared.content context.setup.naming path) result := by
    intro result returned
    have outcome := sound.outcome present returned
    rw [call] at outcome
    exact (outcome path named usable nonempty host).transparent never.honest positive
      args.offset.toNat_lt
  refine ⟨fun result returned => (transparent result returned).served,
    fun result returned failed => (transparent result returned).failed failed host, ?_⟩
  rintro states events rfl runs admissible fair
  obtain ⟨time, later, value, found, call', began, returned⟩ := runs.returns fair present
  have outcome := ((runs.reachable admissible reachable time).sound injective small).outcome
    found returned
  rw [call', call] at outcome
  cases value with
  | read result => exact ⟨time, later, result, found, call'.trans call, began, returned⟩
  | prefetch rc => exact absurd outcome id
  | readv result => exact absurd outcome id

/-- A read across two chunks, while a prefetch runs and the file grows. -/
theorem reads_transparent_across_chunks :
    let context := Context.small id
    let args : ReadArgs :=
      { path := some "a", offset := 1, size := 5, dstNull := false, target := .cpu }
    ∃ system thread result,
      System.Reachable context .insertion {"a"} true (Files.single [1, 2, 3, 4, 5, 6]) system ∧
        system.threads[0]? = some thread ∧ thread.call = .read args ∧
        thread.rest = .ret (.read result) ∧ result.rc = .ok ∧
        ∃ content, system.shared.content context.setup.naming "a" = some content ∧
          1 + 5 ≤ content.length ∧ result.out = slice content 1 5 := by
  intro context args
  let events : List Event :=
    .invoke (.read args) ::
      .invoke (.prefetch { path := some "a", offset := 0, size := 8, options := none }) ::
        List.flatten
          [List.replicate 5 (.step 0 (.take 3)), List.replicate 4 (.step 1 (.take 4)),
            [.append 0 [7, 8]], List.replicate 12 (.step 0 (.take 2))]
  have evaluated : ((System.initial context (Files.single [1, 2, 3, 4, 5, 6])).run context
      .insertion events).bind (fun system => system.threads[0]?.map fun thread =>
        (thread.call, thread.rest.value?)) =
      some (.read args, some (.read { rc := .ok, out := [2, 3, 4, 5, 6] })) := by
    decide +kernel
  obtain ⟨system, happens, observed⟩ := Option.bind_eq_some_iff.mp evaluated
  obtain ⟨thread, present, same⟩ := Option.map_eq_some_iff.mp observed
  obtain ⟨call, returned⟩ := Prod.mk.inj same
  have rest := Prog.value?_eq_some.mp returned
  have admissible : ∀ event ∈ events, event.Admissible {"a"} true := by
    simp [events, Event.Admissible, ApiCall.Uses, args, Choice.Reliable]
  have reachable : System.Reachable context .insertion {"a"} true
      (Files.single [1, 2, 3, 4, 5, 6]) system :=
    System.Reachable.init.run admissible happens
  refine ⟨system, thread, { rc := .ok, out := [2, 3, 4, 5, 6] }, reachable, present, call, rest,
    rfl, ?_⟩
  exact (reads_transparent context .insertion {"a"} _ (fun _ _ _ _ _ => rfl) (.inl rfl)
    (Files.single_small (by norm_num)) system reachable 0 thread present args call "a" rfl rfl
    (by decide) rfl).1 _ rest rfl

end MemTier
