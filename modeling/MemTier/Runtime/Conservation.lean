import MemTier.Runtime.Bookkeeping

/-!
# Conservation of the statistics

Counters are updated in two critical sections for each piece, on several paths and with errors in
between.  Beside the books of all threads they add up in every interleaving: what was selected was
recorded, failed, or is in flight.
-/

namespace MemTier

open Containers Resumption

/-- The statistics agree with the books. -/
structure Balanced (stats : Stats) (ledger : Ledger) : Prop where
  selected : stats.selectedGds + stats.selectedPosix + stats.selectedCache =
    stats.dramHits + stats.dramMisses + stats.gdsReads + stats.gdsFallbacks +
      ledger.failed + ledger.inFlight
  posixReads : stats.posixReads = stats.dramMisses + stats.gdsFallbacks + ledger.loads
  hits : stats.dramHits + ledger.hitsInFlight ≤ stats.selectedCache
  gds : stats.gdsReads + stats.gdsFallbacks + ledger.gdsInFlight ≤ stats.selectedGds
  bytes : stats.prefetchBytes ≤ stats.ssdBytesRead
  total : stats.totalRequests = ledger.completed

/-- A change of the statistics that goes with a change of the books of one thread. -/
def Posts (update : Stats → Stats) (before after : Ledger) : Prop :=
  ∀ stats others, Balanced stats (before + others) → Balanced (update stats) (after + others)

/-- What an operation does to the statistics. -/
def Op.effect : Op → Stats → Stats
  | .updateStats update, stats => update stats
  | _, stats => stats

/-- An operation goes with a change of the books. -/
def Op.Posts (op : Op) : Ledger → Ledger → Prop := MemTier.Posts op.effect

theorem posts_refl (ledger : Ledger) : Posts id ledger ledger :=
  fun _ _ balanced => balanced

theorem Posts.trans {update : Stats → Stats} {before middle after : Ledger}
    (first : Posts update before middle) (second : Posts id middle after) :
    Posts update before after :=
  fun stats others balanced => second _ others (first stats others balanced)

theorem Op.posts_of_inert {op : Op} (inert : op.Inert) {before after : Ledger}
    (posts : MemTier.Posts id before after) : op.Posts before after := by
  cases op with
  | lookup key => exact absurd inert id
  | insert key data validSize => exact absurd inert id
  | updateStats update => exact absurd inert id
  | _ => exact posts

/-! ## The critical sections -/

/-- Agreement with the books of one thread and those of the others. -/
theorem balanced_add {stats : Stats} {ledger others : Ledger} :
    Balanced stats (ledger + others) ↔
      stats.selectedGds + stats.selectedPosix + stats.selectedCache =
          stats.dramHits + stats.dramMisses + stats.gdsReads + stats.gdsFallbacks +
            (ledger.failed + others.failed) + (ledger.hitsInFlight + others.hitsInFlight +
              (ledger.gdsInFlight + others.gdsInFlight) +
              (ledger.posixInFlight + others.posixInFlight)) ∧
        stats.posixReads = stats.dramMisses + stats.gdsFallbacks + (ledger.loads + others.loads) ∧
        stats.dramHits + (ledger.hitsInFlight + others.hitsInFlight) ≤ stats.selectedCache ∧
        stats.gdsReads + stats.gdsFallbacks + (ledger.gdsInFlight + others.gdsInFlight) ≤
          stats.selectedGds ∧
        stats.prefetchBytes ≤ stats.ssdBytesRead ∧
        stats.totalRequests = ledger.completed + others.completed :=
  ⟨fun ⟨selected, posixReads, hits, gds, bytes, total⟩ =>
      ⟨selected, posixReads, hits, gds, bytes, total⟩,
    fun ⟨selected, posixReads, hits, gds, bytes, total⟩ =>
      ⟨selected, posixReads, hits, gds, bytes, total⟩⟩

section

variable (ledger : Ledger)

/-- `on_selected` puts the piece in flight. -/
theorem posts_onSelected (path : Path) : Posts (onSelected path) ledger (ledger.enter path) := by
  intro stats others
  rw [balanced_add, balanced_add]
  cases path <;> simp only [onSelected, Ledger.enter] <;> omega

/-- A piece that is given up ends its call. -/
theorem posts_failed (path : Path) {rc : Err} (error : rc ≠ .ok) :
    Posts id (ledger.enter path) (ledger.returned rc) := by
  intro stats others
  rw [balanced_add, balanced_add, Ledger.returned, if_neg error]
  cases path <;> simp only [Ledger.enter, id] <;> omega

theorem posts_hit (need : Nat) :
    Posts (fun stats => { stats with
      dramHits := stats.dramHits + 1
      dramBytesServed := stats.dramBytesServed + need }) (ledger.enter .dramHit) ledger := by
  intro stats others
  rw [balanced_add, balanced_add]
  simp only [Ledger.enter]
  omega

theorem posts_gds {path : Path} (gds : path = .gdsRead ∨ path = .gdsStubFallback) :
    Posts (fun stats => { stats with gdsReads := stats.gdsReads + 1 }) (ledger.enter path)
      ledger := by
  intro stats others
  rw [balanced_add, balanced_add]
  rcases gds with rfl | rfl <;> simp only [Ledger.enter] <;> omega

theorem posts_fallback {path : Path} (gds : path = .gdsRead ∨ path = .gdsStubFallback)
    (bytes : Nat) :
    Posts (fun stats => { stats with
      gdsFallbacks := stats.gdsFallbacks + 1
      posixReads := stats.posixReads + 1
      ssdBytesRead := stats.ssdBytesRead + bytes }) (ledger.enter path) ledger := by
  intro stats others
  rw [balanced_add, balanced_add]
  rcases gds with rfl | rfl <;> simp only [Ledger.enter] <;> omega

theorem posts_miss {path : Path} (posix : path = .posixRead ∨ path = .posixReadThenCache)
    (bytes : Nat) :
    Posts (fun stats => { stats with
      dramMisses := stats.dramMisses + 1
      posixReads := stats.posixReads + 1
      ssdBytesRead := stats.ssdBytesRead + bytes }) (ledger.enter path) ledger := by
  intro stats others
  rw [balanced_add, balanced_add]
  rcases posix with rfl | rfl <;> simp only [Ledger.enter] <;> omega

theorem posts_total :
    Posts (fun stats => { stats with totalRequests := stats.totalRequests + 1 }) ledger
      (ledger.returned .ok) := by
  intro stats others
  rw [balanced_add, balanced_add, Ledger.returned, if_pos rfl]
  dsimp only
  omega

theorem posts_load (bytes : Nat) :
    Posts (fun stats => { stats with
      prefetchBytes := stats.prefetchBytes + bytes
      posixReads := stats.posixReads + 1
      ssdBytesRead := stats.ssdBytesRead + bytes }) ledger ledger.loaded := by
  intro stats others
  rw [balanced_add, balanced_add, Ledger.loaded]
  dsimp only
  omega

end

/-! ## Programs keep their books -/

/-- A program may be entered after a change of the statistics. -/
abbrev Continues {α : Type} (update : Stats → Stats) (before : Ledger)
    (program : NotedProg Reply Ledger α) : Prop :=
  program.Enters Op.Posts (Posts update) before

section

variable {α : Type} {context : Context} {sorter : Sorter} {ledger : Ledger}

theorem continues_ret {update : Stats → Stats} {before : Ledger} {result : α × Ledger}
    (posts : Posts update before result.2) : Continues update before (.ret result) :=
  ⟨posts, trivial⟩

/-- The books may be brought up to date before going on. -/
theorem Continues.after {update : Stats → Stats} {before : Ledger}
    {program : NotedProg Reply Ledger α} (posts : Posts update before ledger)
    (continues : Continues id ledger program) : Continues update before program :=
  continues.mono fun _ => posts.trans

/-- A program that changes nothing shared. -/
theorem continues_lift {β : Type} {program : Run β} {rest : β × Ledger → NotedProg Reply Ledger α}
    (inert : program.Confined (fun _ _ => True) Op.Inert)
    (continues : ∀ value, Continues id ledger (rest (value, ledger))) :
    Continues id ledger ((program.annotate ledger).bind rest) :=
  Prog.enters_annotate inert (posts_refl ledger)
    (fun _ inert _ posts => Op.posts_of_inert inert posts) continues

/-- The same at the start of a longer program. -/
theorem continues_inert {β γ : Type} {program : Run β} {continuation : β → Run γ}
    {rest : γ × Ledger → NotedProg Reply Ledger α}
    (inert : program.Confined (fun _ _ => True) Op.Inert)
    (continues : ∀ value, Continues id ledger (((continuation value).annotate ledger).bind rest)) :
    Continues id ledger (((program >>= continuation).annotate ledger).bind rest) := by
  rw [Prog.annotate_bind_bind]
  exact continues_lift inert continues

/-- An operation that is not recorded. -/
theorem continues_perform {op : Op} {rest : Reply op × Ledger → NotedProg Reply Ledger α}
    (unrecorded : op.effect = id) (continues : ∀ reply, Continues id ledger (rest (reply, ledger))) :
    Continues id ledger (((Prog.perform op).annotate ledger).bind rest) := by
  refine Prog.enters_perform (posts_refl ledger) fun reply => ?_
  rw [Op.Posts, unrecorded]
  exact continues reply

/-- A critical section. -/
theorem continues_updateStats {update : Stats → Stats}
    {rest : Unit × Ledger → NotedProg Reply Ledger α}
    (continues : Continues update ledger (rest ((), ledger))) :
    Continues id ledger (((Run.updateStats update).annotate ledger).bind rest) :=
  Prog.enters_perform (posts_refl ledger) fun _ => continues

/-- A critical section at the end of a piece. -/
theorem continues_record {β : Type} {update : Stats → Stats} {before : Ledger} {value : β}
    {rest : β × Ledger → NotedProg Reply Ledger α} (posts : Posts update before ledger)
    (continues : Continues id ledger (rest (value, before))) :
    Continues id before
      (((Run.updateStats update >>= fun _ => .ret value).annotate before).bind rest) := by
  rw [Prog.annotate_bind_bind]
  exact continues_updateStats (.after posts continues)

theorem inert_copyTarget {target : Target} {bytes : Bytes} :
    (copyTarget context target bytes).Confined (fun _ _ => True) Op.Inert :=
  confined_copyTarget fun _ => id

theorem inert_posixPreadFull {path : String} {offset size : Nat} :
    (posixPreadFull path offset size).Confined (fun _ _ => True) Op.Inert :=
  confined_posixPreadFull fun _ => id

/-! ### Pieces -/

/-- What follows a piece: it goes on after the piece was recorded, and after it failed. -/
structure Concludes (ledger : Ledger) (path : Path)
    (rest : Except Err Bytes × Ledger → NotedProg Reply Ledger α) : Prop where
  failed : ∀ rc, rc ≠ .ok → Continues id (ledger.enter path) (rest (.error rc, ledger.enter path))
  served : ∀ bytes, Continues id ledger (rest (.ok bytes, ledger.enter path))

/-- A piece that is copied out and recorded. -/
theorem continues_handOver {target : Target} {bytes : Bytes} {selected : Path}
    {update : Stats → Stats} {rest : Except Err Bytes × Ledger → NotedProg Reply Ledger α}
    (concludes : Concludes ledger selected rest)
    (posts : Posts update (ledger.enter selected) ledger) :
    Continues id (ledger.enter selected)
      (((copyTarget context target bytes >>= fun rc =>
        if rc ≠ .ok then Prog.ret (.error rc)
        else Run.updateStats update >>= fun _ => Prog.ret (.ok bytes)).annotate
          (ledger.enter selected)).bind rest) := by
  refine continues_inert inert_copyTarget fun rc => ?_
  split
  · rename_i error
    exact concludes.failed rc error
  · exact continues_record posts (concludes.served _)

theorem continues_serveHit {target : Target} {piece : Piece} {entry : CacheEntry}
    {rest : Except Err Bytes × Ledger → NotedProg Reply Ledger α}
    (concludes : Concludes ledger .dramHit rest) :
    Continues id (ledger.enter .dramHit)
      (((serveHit context target piece entry).annotate (ledger.enter .dramHit)).bind rest) :=
  continues_handOver concludes (posts_hit ledger piece.need)

theorem continues_serveGds {target : Target} {piece : Piece} {path : String} {selected : Path}
    {rest : Except Err Bytes × Ledger → NotedProg Reply Ledger α}
    (concludes : Concludes ledger selected rest)
    (gds : selected = .gdsRead ∨ selected = .gdsStubFallback) :
    Continues id (ledger.enter selected)
      (((serveGds context path target piece).annotate (ledger.enter selected)).bind rest) := by
  refine continues_inert (confined_gdsRead fun _ => id) fun attempt => ?_
  split
  · exact continues_handOver concludes (posts_gds ledger gds)
  · refine continues_inert inert_posixPreadFull fun full => ?_
    split
    · rename_i error
      exact concludes.failed full.rc error
    · split
      · exact concludes.failed .io (by simp)
      · exact continues_handOver concludes (posts_fallback ledger gds _)

theorem continues_servePosix {target : Target} {piece : Piece} {path : String} {key : CacheKey}
    {caching : Bool} {selected : Path}
    {rest : Except Err Bytes × Ledger → NotedProg Reply Ledger α}
    (concludes : Concludes ledger selected rest)
    (posix : selected = .posixRead ∨ selected = .posixReadThenCache) :
    Continues id (ledger.enter selected)
      (((servePosix context path target piece key caching).annotate
        (ledger.enter selected)).bind rest) := by
  simp only [servePosix]
  generalize (if caching = true then piece.inChunk else 0) = srcOff
  refine continues_inert inert_posixPreadFull fun full => ?_
  split
  · rename_i error
    exact concludes.failed full.rc error
  · split
    · exact concludes.failed .io (by simp)
    · refine continues_inert inert_copyTarget fun rc => ?_
      split
      · rename_i error
        exact concludes.failed rc error
      · split
        · rw [Run.insert, Prog.annotate_bind_bind]
          refine continues_perform rfl fun _ => ?_
          exact continues_record (posts_miss ledger posix _) (concludes.served _)
        · exact continues_record (posts_miss ledger posix _) (concludes.served _)

/-- A piece: on success the books are as before, on failure it is still entered. -/
theorem continues_readPiece {target : Target} {piece : Piece} {path : String}
    {rest : Except Err Bytes × Ledger → NotedProg Reply Ledger α}
    (failed : ∀ selected rc, rc ≠ .ok →
      Continues id (ledger.enter selected) (rest (.error rc, ledger)))
    (served : ∀ bytes, Continues id ledger (rest (.ok bytes, ledger))) :
    Continues id ledger ((Audited.readPiece context path target piece ledger).bind rest) := by
  simp only [Audited.readPiece, Ghostly.bind_apply, Ghostly.lift_apply, Ghostly.note_apply,
    Ghostly.pure_apply, Prog.bind_bind]
  refine continues_perform rfl fun found => ?_
  dsimp only
  generalize selected_eq : selectPath _ piece.curOff piece.need context.options = selected
  refine continues_updateStats (.after (posts_onSelected ledger selected) ?_)
  -- Whatever is selected, the books are closed as soon as the piece is served or has failed.
  have concludes : Concludes ledger selected fun result =>
      rest (result.1, Ledger.leave selected result.2) := by
    constructor
    · intro rc error
      rw [Ledger.leave_enter]
      exact failed selected rc error
    · intro bytes
      rw [Ledger.leave_enter]
      exact served bytes
  cases selected with
  | dramHit => exact continues_serveHit concludes
  | gdsRead => exact continues_serveGds concludes (.inl rfl)
  | gdsStubFallback => exact continues_serveGds concludes (.inr rfl)
  | posixRead => exact continues_servePosix concludes (.inl rfl)
  | posixReadThenCache => exact continues_servePosix concludes (.inr rfl)

/-! ### Calls -/

theorem continues_readLoop {target : Target} {path : String} {offset size copied : Nat}
    {out : Bytes} {rest : ReadResult × Ledger → NotedProg Reply Ledger α}
    (continues : ∀ result, Continues id (ledger.returned result.rc) (rest (result, ledger))) :
    Continues id ledger
      ((Audited.readLoop context path target offset size copied out ledger).bind rest) := by
  induction remaining : size - copied using Nat.strong_induction_on
    generalizing copied out with
  | h remaining induction =>
      rw [Audited.readLoop]
      split
      · rename_i more
        have positive := @pieceAt_need_pos context.options.chunkSize offset size copied
          context.chunkSize_pos more
        rw [Ghostly.bind_apply, Prog.bind_bind]
        refine continues_readPiece (fun selected rc error => ?_) fun bytes => ?_
        · exact .after (posts_failed ledger selected error) (continues { rc, out })
        · exact induction _ (by omega) rfl
      · rw [Ghostly.bind_apply, Prog.bind_bind]
        exact continues_updateStats (.after (posts_total ledger) (continues { rc := .ok, out }))

theorem continues_doReadImpl {args : ReadArgs}
    {rest : ReadResult × Ledger → NotedProg Reply Ledger α}
    (continues : ∀ result after, Continues id after (rest (result, after))) :
    Continues id ledger ((Audited.doReadImpl context args ledger).bind rest) := by
  rw [Audited.doReadImpl]
  cases args.path with
  | none => exact continues _ ledger
  | some path =>
      dsimp only
      split_ifs
      · exact continues _ ledger
      · exact continues _ ledger
      · rw [Ghostly.bind_apply, Prog.bind_bind]
        exact continues_readLoop fun result => continues result _

theorem continues_prefetchLoop {path : String} {offset size done : Nat}
    {rest : Err × Ledger → NotedProg Reply Ledger α}
    (continues : ∀ rc after, Continues id after (rest (rc, after))) :
    Continues id ledger
      ((Audited.prefetchLoop context path offset size done ledger).bind rest) := by
  induction remaining : size - done using Nat.strong_induction_on
    generalizing done ledger with
  | h remaining induction =>
      rw [Audited.prefetchLoop]
      split
      · rename_i more
        have positive := @pieceAt_need_pos context.options.chunkSize offset size done
          context.chunkSize_pos more
        simp only [Ghostly.bind_apply, Ghostly.lift_apply, Prog.bind_bind]
        refine continues_perform rfl fun resident => ?_
        cases resident with
        | true => exact induction _ (by omega) rfl
        | false =>
            simp only [Bool.false_eq_true, if_false, Ghostly.bind_apply, Ghostly.lift_apply,
              Prog.bind_bind]
            refine continues_lift inert_posixPreadFull fun full => ?_
            split
            · exact continues full.rc ledger
            · simp only [Ghostly.bind_apply, Ghostly.lift_apply, Ghostly.note_apply, Prog.bind_bind]
              refine continues_perform rfl fun _ => ?_
              refine continues_updateStats (.after (posts_load ledger _) ?_)
              exact induction _ (by omega) rfl
      · rw [Ghostly.bind_apply, Prog.bind_bind]
        refine continues_updateStats (.after ?_ (continues .ok ledger))
        exact fun _ _ balanced => ⟨balanced.1, balanced.2, balanced.3, balanced.4, balanced.5,
          balanced.6⟩

theorem continues_memtierPrefetch {args : PrefetchArgs}
    {rest : Err × Ledger → NotedProg Reply Ledger α}
    (continues : ∀ rc after, Continues id after (rest (rc, after))) :
    Continues id ledger ((Audited.memtierPrefetch context args ledger).bind rest) := by
  rw [Audited.memtierPrefetch]
  cases args.path with
  | none => exact continues _ ledger
  | some path =>
      dsimp only
      split_ifs
      · exact continues _ ledger
      · exact continues _ ledger
      · exact continues _ ledger
      · exact continues_prefetchLoop continues

theorem inert_copyItems {target : Target} {base : UInt64} {tmp : Bytes} {items : List Item} :
    (copyItems context target base tmp items).Confined (fun _ _ => True) Op.Inert := by
  induction items with
  | nil => trivial
  | cons item rest induction =>
      refine inert_copyTarget.bind fun rc => ?_
      split
      · trivial
      · exact induction.bind fun _ => trivial

theorem continues_readvLoop {target : Target} {formed : List Group}
    {rest : ReadvResult × Ledger → NotedProg Reply Ledger α}
    (continues : ∀ result after, Continues id after (rest (result, after))) :
    Continues id ledger ((Audited.readvLoop context target formed ledger).bind rest) := by
  induction formed generalizing ledger rest with
  | nil => exact continues _ ledger
  | cons group groups induction =>
      rw [Audited.readvLoop, Ghostly.bind_apply, Prog.bind_bind]
      refine continues_doReadImpl fun result after => ?_
      split
      · exact continues _ after
      · rw [Ghostly.bind_apply, Prog.bind_bind]
        refine continues_lift inert_copyItems fun copied => ?_
        split
        · exact continues _ after
        · rw [Ghostly.bind_apply, Prog.bind_bind]
          exact induction fun later after => continues _ after

theorem continues_memtierReadv {args : ReadvArgs}
    {rest : ReadvResult × Ledger → NotedProg Reply Ledger α}
    (continues : ∀ result after, Continues id after (rest (result, after))) :
    Continues id ledger ((Audited.memtierReadv context sorter args ledger).bind rest) := by
  rw [Audited.memtierReadv]
  split
  · exact continues _ ledger
  · cases args.ranges.mapM Range.item? with
    | none => exact continues _ ledger
    | some items =>
        dsimp only
        rw [Ghostly.bind_apply, Prog.bind_bind]
        refine continues_readvLoop fun result after => ?_
        split
        · exact continues _ after
        · rw [Ghostly.bind_apply, Prog.bind_bind]
          refine continues_updateStats (.after ?_ (continues _ after))
          exact fun _ _ balanced => ⟨balanced.1, balanced.2, balanced.3, balanced.4, balanced.5,
            balanced.6⟩

/-- Every call keeps its books. -/
theorem continues_program (call : ApiCall) :
    Continues id ledger (Audited.program context sorter call ledger) := by
  have ends : ∀ (result : ApiResult) (after : Ledger),
      Continues id after (Prog.ret (result, after) : NotedProg Reply Ledger ApiResult) :=
    fun _ after => continues_ret (posts_refl after)
  cases call with
  | read args => exact continues_doReadImpl fun result after => ends _ after
  | prefetch args => exact continues_memtierPrefetch fun rc after => ends _ after
  | readv args => exact continues_memtierReadv fun result after => ends _ after

end

/-! ## All threads together -/

/-- A context in use with the books of its threads, in the order of the threads. -/
structure Audit where
  system : System
  books : List (NotedProg Reply Ledger ApiResult)

namespace Audit

/-- The books of all threads together. -/
def ledger (audit : Audit) : Ledger := (audit.books.map Prog.ghost).sum

/-- A context right after `memtier_init`. -/
def initial (context : Context) (files : Files) : Audit where
  system := System.initial context files
  books := []

/-- The books after an event. -/
def post (context : Context) (sorter : Sorter) (audit : Audit) :
    Event → List (NotedProg Reply Ledger ApiResult)
  | .invoke call => audit.books ++ [Audited.program context sorter call 0]
  | .dequeue =>
      match audit.system.queue with
      | [] => audit.books
      | args :: _ => audit.books ++ [Audited.program context sorter (.read args) 0]
  | .step index choice =>
      match audit.books[index]? with
      | none => audit.books
      | some program =>
          audit.books.set index
            (Prog.advance ((serve context.setup).noted Ledger) choice
              (audit.system.shared, program)).2
  | .submit _ | .append _ _ => audit.books

/-- The effect of an event; `none` if it cannot happen. -/
def next (context : Context) (sorter : Sorter) (audit : Audit) (event : Event) : Option Audit :=
  (audit.system.next context sorter event).map fun system =>
    { system, books := audit.post context sorter event }

/-- States reached from `memtier_init` on, with the books of what happened. -/
inductive Reached (context : Context) (sorter : Sorter) (files : Files) : Audit → Prop
  | init : Reached context sorter files (initial context files)
  | next {audit after : Audit} {event : Event} (reached : Reached context sorter files audit)
      (happens : audit.next context sorter event = some after) :
      Reached context sorter files after

section

variable {context : Context} {sorter : Sorter} {files : Files} {audit : Audit}

/-- Every state of a context in use has its books. -/
theorem exists_reached {system : System}
    (reached : System.Reached context sorter (fun _ => True) files system) :
    ∃ books, Reached context sorter files { system, books } := by
  induction reached with
  | init => exact ⟨[], .init⟩
  | next _ _ happens induction =>
      obtain ⟨books, reached⟩ := induction
      exact ⟨_, .next reached (Option.map_eq_some_iff.mpr ⟨_, happens, rfl⟩)⟩

theorem Reached.run {after : Audit} {events : List Event}
    (reached : Reached context sorter files audit)
    (happens : events.foldlM (Audit.next context sorter) audit = some after) :
    Reached context sorter files after := by
  induction events generalizing audit with
  | nil => exact Option.some.inj happens ▸ reached
  | cons event rest induction =>
      rw [List.foldlM_cons] at happens
      obtain ⟨middle, first, later⟩ := Option.bind_eq_some_iff.mp happens
      exact induction (.next reached first) later

/-- The invariant: books are those of the threads, kept by each, and agree with the statistics. -/
structure Sound (audit : Audit) : Prop where
  threads : audit.books.map Prog.erase = audit.system.threads.map Thread.rest
  kept : ∀ program ∈ audit.books, program.Accounts Op.Posts
  balanced : Balanced audit.system.shared.stats audit.ledger

theorem Sound.initial : (initial context files).Sound where
  threads := rfl
  kept := by simp [Audit.initial]
  balanced := ⟨rfl, rfl, le_rfl, le_rfl, le_rfl, rfl⟩

/-- A call is entered. -/
theorem Sound.enter (sound : audit.Sound) (system : System) (call : ApiCall) (worker : Bool)
    (threads : system.threads = audit.system.threads) (shared : system.shared = audit.system.shared) :
    Sound
      { system := system.enter context sorter call worker
        books := audit.books ++ [Audited.program context sorter call 0] } where
  threads := by
    simp only [List.map_append, List.map_cons, List.map_nil, System.enter, threads, sound.threads,
      Audited.erases_program call 0]
  kept := by
    intro program member
    rcases List.mem_append.mp member with old | new
    · exact sound.kept program old
    · rw [List.mem_singleton.mp new]
      exact (continues_program call).2
  balanced := by
    have entered := (@continues_program context sorter 0 call).1 audit.system.shared.stats
      audit.ledger (by rw [zero_add]; exact sound.balanced)
    rw [ledger, List.map_append, List.sum_append, List.map_singleton, List.sum_singleton, add_comm]
    change Balanced system.shared.stats _
    rw [shared]
    exact entered

theorem serve_stats {setup : Setup} {shared after : Shared} {op : Op} {choice : Choice}
    {reply : Reply op} (execution : serve setup shared op choice = some (reply, after)) :
    after.stats = op.effect shared.stats := by
  cases op with
  | lookup key =>
      simp only [serve, Option.some.injEq, Prod.mk.injEq] at execution
      rw [← execution.2]
      rfl
  | insert key data validSize =>
      simp only [serve, Option.some.injEq, Prod.mk.injEq] at execution
      rw [← execution.2]
      rfl
  | updateStats update =>
      simp only [serve, Option.some.injEq, Prod.mk.injEq] at execution
      rw [← execution.2]
      rfl
  | _ =>
      rw [serve_inert execution trivial]
      rfl

/-- A step of one thread, beside the books of the others. -/
theorem balanced_advance {program : NotedProg Reply Ledger ApiResult} {shared : Shared}
    {choice : Choice} {others : Ledger} (kept : program.Accounts Op.Posts)
    (balanced : Balanced shared.stats (program.ghost + others)) :
    let moved := Prog.advance ((serve context.setup).noted Ledger) choice (shared, program)
    Balanced moved.1.stats (moved.2.ghost + others) := by
  intro moved
  rcases (kept.advance choice shared).2 with same | ⟨op, reply, after, execution, here, posts⟩
  · rw [show moved = (shared, program) from same]
    exact balanced
  · rw [show moved.1 = after from here, serve_stats execution]
    exact posts shared.stats others balanced

theorem Sound.step (sound : audit.Sound) {index : Nat} {thread : Thread} (choice : Choice)
    (present : audit.system.threads[index]? = some thread) :
    let moved := Prog.advance (serve context.setup) choice (audit.system.shared, thread.rest)
    Sound
      { system := { audit.system with
          shared := moved.1
          threads := audit.system.threads.set index { thread with rest := moved.2 } }
        books := audit.post context sorter (.step index choice) } := by
  have mapped : (audit.books.map Prog.erase)[index]? = some thread.rest := by
    rw [sound.threads, List.getElem?_map, present, Option.map_some]
  rw [List.getElem?_map] at mapped
  obtain ⟨program, found, erased⟩ := Option.map_eq_some_iff.mp mapped
  obtain ⟨bound, here⟩ := List.getElem?_eq_some_iff.mp found
  have kept := sound.kept program (List.mem_of_getElem? found)
  simp only [post, found, ← erased, Prog.erase_advance]
  generalize moved_eq : Prog.advance ((serve context.setup).noted Ledger) choice
    (audit.system.shared, program) = moved
  refine ⟨?_, ?_, ?_⟩
  · simp only [List.map_set, sound.threads]
  · intro other member
    rcases List.mem_or_eq_of_mem_set member with old | rfl
    · exact sound.kept other old
    · rw [← moved_eq]
      exact (kept.advance choice _).1
  · obtain ⟨front, back, split, -, after⟩ :=
      @List.exists_of_set _ index moved.2 audit.books bound
    -- The books of the other threads are those before and after it.
    have balanced := sound.balanced
    rw [ledger, split, here, List.map_append, List.map_cons, List.sum_append, List.sum_cons,
      add_left_comm] at balanced
    rw [ledger, after, List.map_append, List.map_cons, List.sum_append, List.sum_cons,
      add_left_comm, ← moved_eq]
    exact balanced_advance kept balanced

theorem Sound.next {event : Event} {after : Audit} (sound : audit.Sound)
    (happens : audit.next context sorter event = some after) : after.Sound := by
  obtain ⟨system, moved, rfl⟩ := Option.map_eq_some_iff.mp happens
  cases System.transition_of_next moved with
  | invoke call => exact sound.enter _ call false rfl rfl
  | reject args => exact ⟨sound.threads, sound.kept, sound.balanced⟩
  | submit args => exact ⟨sound.threads, sound.kept, sound.balanced⟩
  | @dequeue args queue front =>
      simp only [post, front]
      exact sound.enter _ (.read args) true rfl rfl
  | step choice present => exact sound.step choice present
  | append bytes present short => exact ⟨sound.threads, sound.kept, sound.balanced⟩

theorem Reached.sound (reached : Reached context sorter files audit) : audit.Sound := by
  induction reached with
  | init => exact .initial
  | next reached happens induction => exact induction.next happens

end

end Audit

/-- The statistics are conserved in every interleaving: what was selected was recorded, or its call
of `do_read_impl` failed, or it is in flight; positioned reads are misses, fallbacks and loads of
prefetches; no more is recorded for a path than was selected; and completed requests are counted.
The books behind these numbers accompany the threads and change nothing. -/
theorem stats_conserved {context : Context} {sorter : Sorter} {files : Files} {audit : Audit}
    (reached : Audit.Reached context sorter files audit) :
    let stats := audit.system.shared.stats
    audit.books.map Prog.erase = audit.system.threads.map Thread.rest ∧
      stats.selectedGds + stats.selectedPosix + stats.selectedCache =
        stats.dramHits + stats.dramMisses + stats.gdsReads + stats.gdsFallbacks +
          (audit.ledger.failed + audit.ledger.inFlight) ∧
      stats.posixReads = stats.dramMisses + stats.gdsFallbacks + audit.ledger.loads ∧
      stats.dramHits ≤ stats.selectedCache ∧
      stats.gdsReads + stats.gdsFallbacks ≤ stats.selectedGds ∧
      stats.prefetchBytes ≤ stats.ssdBytesRead ∧
      stats.totalRequests = audit.ledger.completed := by
  intro stats
  obtain ⟨threads, -, selected, posixReads, hits, gds, bytes, total⟩ := reached.sound
  refine ⟨threads, ?_, posixReads, ?_, ?_, bytes, total⟩
  · rw [← Nat.add_assoc]
    exact selected
  · exact (Nat.le_add_right _ _).trans hits
  · exact (Nat.le_add_right _ _).trans gds

/-- One read has failed after its piece was selected, the next one stands between the two critical
sections of its piece. -/
theorem stats_conserved_failed_read :
    ∃ audit, Audit.Reached (Context.small id) .insertion (Files.single [1, 2, 3, 4]) audit ∧
      audit.ledger.failed = 1 ∧ audit.ledger.inFlight = 1 ∧
      audit.system.shared.stats.selectedCache = 2 ∧
      audit.system.shared.stats.dramHits + audit.system.shared.stats.dramMisses = 0 := by
  let read : ApiCall :=
    .read { path := some "table", offset := 0, size := 1, dstNull := false, target := .cpu }
  let events : List Event :=
    .invoke read :: List.replicate 2 (.step 0 (.take 4)) ++ [.step 0 .fail] ++
      .invoke read :: List.replicate 2 (.step 1 (.take 4))
  obtain ⟨audit, happens, facts⟩ := (Option.any_eq_true _ _).mp (show
    (events.foldlM (Audit.next (Context.small id) .insertion)
      (Audit.initial (Context.small id) (Files.single [1, 2, 3, 4]))).any
        (fun audit => audit.ledger.failed = 1 ∧ audit.ledger.inFlight = 1 ∧
          audit.system.shared.stats.selectedPosix = 0 ∧ audit.system.shared.stats.selectedGds = 0 ∧
          audit.system.shared.stats.gdsReads = 0 ∧ audit.system.shared.stats.gdsFallbacks = 0 ∧
          audit.system.shared.stats.selectedCache = 2)
      from by decide +kernel)
  obtain ⟨failed, inFlight, posix, gds, gdsReads, gdsFallbacks, selected⟩ := of_decide_eq_true facts
  have reached : Audit.Reached (Context.small id) .insertion (Files.single [1, 2, 3, 4]) audit :=
    .run .init happens
  have conserved := (stats_conserved reached).2.1
  exact ⟨audit, reached, failed, inFlight, selected, by omega⟩

end MemTier
