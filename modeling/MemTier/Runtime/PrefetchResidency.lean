import MemTier.Runtime.ExactLru

/-!
# What a prefetch leaves behind

A prefetch skips the chunks that are resident and brings in the others one by one.  It does not
refresh what it skips, so that a chunk of its own range may be the oldest one when a later chunk
needs room.  If every chunk of the range is resident afterwards, reads inside the range are served
from DRAM only.
-/

namespace MemTier

open Containers Resumption

/-! ## The chunks of a range -/

section

variable {context : Context} {offset size copied : Nat}

theorem pieceAt_chunkId {chunkSize : Nat} (small : offset + size ≤ 2 ^ 64) (more : copied < size) :
    (pieceAt chunkSize offset size copied).chunkId = (offset + copied) / chunkSize := by
  simp only [pieceAt]
  rw [Nat.mod_eq_of_lt (by omega)]

/-- A piece ends with its chunk at the latest, and if there is another one, with its chunk. -/
theorem pieceAt_stop {chunkSize : Nat} (positive : 0 < chunkSize) (small : offset + size ≤ 2 ^ 64)
    (more : copied < size) :
    let stop := copied + (pieceAt chunkSize offset size copied).need
    offset + stop ≤ ((offset + copied) / chunkSize + 1) * chunkSize ∧
      (stop < size → offset + stop = ((offset + copied) / chunkSize + 1) * chunkSize) := by
  have exact_offset : (offset + copied) % 2 ^ 64 = offset + copied :=
    Nat.mod_eq_of_lt (by omega)
  have split := Nat.div_add_mod' (offset + copied) chunkSize
  have inside := Nat.mod_lt (offset + copied) positive
  simp only [pieceAt, exact_offset]
  rw [Nat.add_mul, Nat.one_mul]
  omega

/-- Chunks come in increasing order. -/
theorem Context.le_chunkId (small : offset + size ≤ 2 ^ 64) :
    ∀ piece ∈ context.pieces offset size copied,
      (offset + copied) / context.options.chunkSize ≤ piece.chunkId := by
  induction remaining : size - copied using Nat.strong_induction_on generalizing copied with
  | h remaining induction =>
      by_cases more : copied < size
      · have nonempty := @pieceAt_need_pos context.options.chunkSize offset size copied
          context.chunkSize_pos more
        rw [Context.pieces_of_more more, List.forall_mem_cons]
        refine ⟨(pieceAt_chunkId small more).ge, fun piece member => ?_⟩
        refine (Nat.div_le_div_right ?_).trans (induction _ (by omega) rfl piece member)
        omega
      · rw [Context.pieces_of_done (Nat.not_lt.mp more)]
        simp

theorem Context.chunkKeys_nodup (small : offset + size ≤ 2 ^ 64) (path : String) :
    (context.chunkKeys path offset size copied).Nodup := by
  induction remaining : size - copied using Nat.strong_induction_on generalizing copied with
  | h remaining induction =>
      rw [Context.chunkKeys]
      by_cases more : copied < size
      · have nonempty := @pieceAt_need_pos context.options.chunkSize offset size copied
          context.chunkSize_pos more
        rw [Context.pieces_of_more more, List.map_cons, List.nodup_cons]
        refine ⟨fun member => ?_, induction _ (by omega) rfl⟩
        obtain ⟨piece, later, same⟩ := List.mem_map.mp member
        have here : piece.chunkId = _ := (CacheKey.mk.inj same).2
        have further := Context.le_chunkId small piece later
        rcases Nat.lt_or_ge (copied + (pieceAt context.options.chunkSize offset size copied).need)
          size with again | through
        · rw [(pieceAt_stop context.chunkSize_pos small more).2 again,
            Nat.mul_div_cancel _ context.chunkSize_pos, here, pieceAt_chunkId small more] at further
          omega
        · rw [Context.pieces_of_done through] at later
          simp at later
      · rw [Context.pieces_of_done (Nat.not_lt.mp more)]
        exact List.nodup_nil

/-- Every position of a range lies in one of its chunks. -/
theorem Context.mem_chunkKeys (small : offset + size ≤ 2 ^ 64) (path : String) {position : Nat}
    (start_le : offset + copied ≤ position) (lt_stop : position < offset + size) :
    (⟨context.setup.naming.fileIdFromPath path, position / context.options.chunkSize⟩ : CacheKey) ∈
      context.chunkKeys path offset size copied := by
  induction remaining : size - copied using Nat.strong_induction_on generalizing copied with
  | h remaining induction =>
      have more : copied < size := by omega
      have nonempty := @pieceAt_need_pos context.options.chunkSize offset size copied
        context.chunkSize_pos more
      rw [Context.chunkKeys, Context.pieces_of_more more, List.map_cons, List.mem_cons]
      rcases Nat.lt_or_ge position
        (offset + (copied + (pieceAt context.options.chunkSize offset size copied).need)) with
        inside | beyond
      · refine .inl ?_
        rw [pieceAt_chunkId small more]
        have stop := (pieceAt_stop context.chunkSize_pos small more).1
        rw [Nat.div_eq_of_lt_le ((Nat.div_mul_le_self _ _).trans start_le) (inside.trans_le stop)]
      · exact .inr (induction _ (by omega) beyond rfl)

end

/-! ## Reads of resident chunks -/

/-- Between two states of the statistics, pieces were served from DRAM only. -/
structure OnlyHits (before after : Stats) : Prop where
  ssdBytesRead : after.ssdBytesRead = before.ssdBytesRead
  posixReads : after.posixReads = before.posixReads
  dramMisses : after.dramMisses = before.dramMisses
  gdsReads : after.gdsReads = before.gdsReads
  gdsFallbacks : after.gdsFallbacks = before.gdsFallbacks
  selectedGds : after.selectedGds = before.selectedGds
  selectedPosix : after.selectedPosix = before.selectedPosix

/-- The chunks named are resident, and so far pieces were served from DRAM only. -/
structure Warm (context : Context) (used : Set String) (files : Files) (keys : List CacheKey)
    (base : Stats) (shared : Shared) : Prop where
  valid : SoloValid context used files shared
  resident : ∀ key ∈ keys, key ∈ shared.cache.table
  hits : OnlyHits base shared.stats

/-- The discipline of a thread that reads resident chunks; copies to the device may fail. -/
def warm (context : Context) (used : Set String) (files : Files) (keys : List CacheKey)
    (base : Stats) : Discipline Shared Choice Op where
  inv := Warm context used files keys base
  rely before after := after = before
  guarantee _ _ := True
  legal _ := True
  permits _ _ := True
  rely_refl _ := rfl
  rely_trans left right := right.trans left

section

variable {context : Context} {used : Set String} {files : Files} {keys : List CacheKey}
  {base : Stats} {shared : Shared} {α β : Type}

theorem warm_ret {post : α → Shared → Prop} {value : α} (established : post value shared) :
    Prog.Holds (serve context.setup) (warm context used files keys base) post (.ret value)
      shared := by
  intro now (here : now = shared) _
  exact here ▸ established

theorem warm_bind {middle : β → Shared → Prop} {post : α → Shared → Prop} {program : Run β}
    {continuation : β → Run α} (state : Warm context used files keys base shared)
    (holds : Prog.Holds (serve context.setup) (warm context used files keys base) middle program
      shared)
    (rest : ∀ value now, Warm context used files keys base now → middle value now →
      Prog.Holds (serve context.setup) (warm context used files keys base) post
        (continuation value) now) :
    Prog.Holds (serve context.setup) (warm context used files keys base) post
      (program >>= continuation) shared :=
  Prog.Holds.bind state (holds.mono rest)

/-- An operation that changes nothing shared. -/
theorem warm_inert {post : α → Shared → Prop} {op : Op} {next : Reply op → Run α}
    (inert : op.Inert)
    (rest : ∀ reply, Prog.Holds (serve context.setup) (warm context used files keys base) post
      (next reply) shared) :
    Prog.Holds (serve context.setup) (warm context used files keys base) post
      (Prog.perform op >>= next) shared := by
  intro now (here : now = shared) state
  subst here
  refine ⟨trivial, fun choice reply after _ execution => ?_⟩
  rw [serve_inert execution inert]
  exact ⟨state, trivial, rest reply⟩

/-- A critical section that counts nothing but hits. -/
theorem warm_updateStats {post : α → Shared → Prop} {update : Stats → Stats}
    {next : Unit → Run α} (state : Warm context used files keys base shared)
    (hits : OnlyHits shared.stats (update shared.stats))
    (rest : Warm context used files keys base { shared with stats := update shared.stats } →
      Prog.Holds (serve context.setup) (warm context used files keys base) post (next ())
        { shared with stats := update shared.stats }) :
    Prog.Holds (serve context.setup) (warm context used files keys base) post
      (Run.updateStats update >>= next) shared := by
  intro now (here : now = shared) _
  subst here
  refine ⟨trivial, fun choice reply after _ execution => ?_⟩
  simp only [serve, Option.some.injEq, Prod.mk.injEq] at execution
  rw [← execution.2]
  have state' : Warm context used files keys base { now with stats := update now.stats } :=
    ⟨state.valid.congr rfl rfl, state.resident,
      ⟨hits.1.trans state.hits.1, hits.2.trans state.hits.2, hits.3.trans state.hits.3,
        hits.4.trans state.hits.4, hits.5.trans state.hits.5, hits.6.trans state.hits.6,
        hits.7.trans state.hits.7⟩⟩
  exact ⟨state', trivial, rest state'⟩

/-- A lookup keeps what is resident. -/
theorem mem_lookup_table {cache : CacheDirectory} {key other : CacheKey}
    (member : other ∈ cache.table) : other ∈ (cache.lookup key).2.table := by
  cases present : cache.table.lookup key with
  | none =>
      rw [CacheDirectory.lookup_of_none present]
      exact member
  | some node =>
      rw [CacheDirectory.lookup_of_some present]
      exact (AList.mem_insert _).mpr (.inr member)

/-- A resident chunk is found, and is as long as its file allows. -/
theorem warm_lookup {post : α → Shared → Prop} {path : String} {chunkId : Nat} {content : Bytes}
    {next : Option CacheEntry → Run α} (state : Warm context used files keys base shared)
    (injective : context.setup.naming.InjectiveOn used) (path_used : path ∈ used)
    (present : files (context.setup.naming.inode path) = some content)
    (wanted : ⟨context.setup.naming.fileIdFromPath path, chunkId⟩ ∈ keys)
    (rest : ∀ entry after, Warm context used files keys base after → after.stats = shared.stats →
      entry.validSize = chunkLength context.options.chunkSize chunkId content →
        Prog.Holds (serve context.setup) (warm context used files keys base) post
          (next (some entry)) after) :
    Prog.Holds (serve context.setup) (warm context used files keys base) post
      (Run.lookup ⟨context.setup.naming.fileIdFromPath path, chunkId⟩ >>= next) shared := by
  intro now (here : now = shared) _
  subst here
  refine ⟨trivial, fun choice found after _ execution => ?_⟩
  simp only [serve, Option.some.injEq, Prod.mk.injEq] at execution
  rw [← execution.1, ← execution.2]
  have valid := (state.valid.lookup ⟨context.setup.naming.fileIdFromPath path, chunkId⟩).1
  have resident : ∀ key ∈ keys, key ∈
      (now.cache.lookup ⟨context.setup.naming.fileIdFromPath path, chunkId⟩).2.table :=
    fun key member => mem_lookup_table (state.resident key member)
  obtain ⟨node, kept⟩ := Option.isSome_iff_exists.mp (AList.lookup_isSome.mpr (resident _ wanted))
  rw [CacheDirectory.lookup_reflects kept]
  obtain ⟨other, other_used, same_id, content', present', length⟩ := valid.entries _ node kept
  rw [injective other other_used path path_used same_id, present] at present'
  obtain rfl := Option.some.inj present'
  exact ⟨⟨valid, resident, state.hits⟩, trivial, rest node.entry _ ⟨valid, resident, state.hits⟩ rfl
    length⟩

theorem warm_copyTarget {target : Target} {bytes : Bytes} :
    Prog.Holds (serve context.setup) (warm context used files keys base)
      (fun rc now => now = shared ∧ (target = .cpu → rc = .ok))
      (copyTarget context target bytes) shared := by
  cases target with
  | cpu => exact warm_ret ⟨rfl, fun _ => rfl⟩
  | gpu =>
      refine warm_inert trivial fun copied => ?_
      cases copied with
      | false => exact warm_ret ⟨rfl, by simp⟩
      | true =>
          cases context.options.asyncMode with
          | true => exact warm_ret ⟨rfl, by simp⟩
          | false =>
              refine warm_inert trivial fun synchronised => ?_
              cases synchronised with
              | false => exact warm_ret ⟨rfl, by simp⟩
              | true => exact warm_ret ⟨rfl, by simp⟩

/-- A piece of a resident chunk is a hit. -/
theorem warm_readPiece {target : Target} {piece : Piece} {path : String} {content : Bytes}
    (state : Warm context used files keys base shared) (use : SoloUse context used files)
    (path_used : path ∈ used) (present : files (context.setup.naming.inode path) = some content)
    (fits : piece.Fits context.options.chunkSize)
    (inside : piece.curOff + piece.need ≤ content.length)
    (wanted : ⟨context.setup.naming.fileIdFromPath path, piece.chunkId⟩ ∈ keys) :
    Prog.Holds (serve context.setup) (warm context used files keys base)
      (fun outcome now => (∀ rc, outcome = .error rc → target ≠ .cpu ∧ rc ≠ .ok) ∧
        ∀ bytes, outcome = .ok bytes → now.stats.dramHits = shared.stats.dramHits + 1)
      (readPiece context path target piece) shared := by
  refine warm_lookup state use.injective path_used present wanted
    fun entry found state' same length => ?_
  have covered : piece.inChunk + piece.need ≤ entry.validSize := by
    have position := fits.position
    have within := fits.inside
    rw [length, chunkLength]
    omega
  have hit : selectPath ((some entry).isSome && decide (piece.inChunk + piece.need ≤
      ((some entry).getD default).validSize)) piece.curOff piece.need context.options = .dramHit := by
    simpa [covered] using selectPath_hit use.cached
  dsimp only
  rw [hit]
  refine warm_updateStats state' ⟨rfl, rfl, rfl, rfl, rfl, rfl, rfl⟩ fun selected => ?_
  refine warm_bind selected warm_copyTarget ?_
  rintro rc _ copied ⟨rfl, always⟩
  split
  · rename_i error
    refine warm_ret ⟨?_, by simp⟩
    rintro _ ⟨⟩
    exact ⟨fun cpu => error (always cpu), error⟩
  · refine warm_updateStats copied ⟨rfl, rfl, rfl, rfl, rfl, rfl, rfl⟩ fun _ => ?_
    refine warm_ret ⟨by simp, fun _ _ => ?_⟩
    simp [onSelected, same]

theorem warm_readLoop {target : Target} {path : String} {content : Bytes} {offset size copied : Nat}
    {out : Bytes} (state : Warm context used files keys base shared)
    (use : SoloUse context used files) (path_used : path ∈ used)
    (present : files (context.setup.naming.inode path) = some content)
    (inside : offset + size ≤ content.length)
    (wanted : ∀ position, offset ≤ position → position < offset + size →
      ⟨context.setup.naming.fileIdFromPath path, position / context.options.chunkSize⟩ ∈ keys) :
    Prog.Holds (serve context.setup) (warm context used files keys base)
      (fun result now => (target = .cpu → result.rc = .ok) ∧ (result.rc = .ok →
        now.stats.dramHits =
          shared.stats.dramHits + (context.pieces offset size copied).length))
      (readLoop context path target offset size copied out) shared := by
  have small := use.small _ _ present
  induction remaining : size - copied using Nat.strong_induction_on
    generalizing copied out shared with
  | h remaining induction =>
      rw [readLoop]
      split
      · rename_i more
        have fits := @pieceAt_fits context.options.chunkSize offset size copied
          context.chunkSize_pos more
        have nonempty := fits.nonempty
        have chunkId := @pieceAt_chunkId offset size copied context.options.chunkSize (by omega) more
        rw [Context.pieces_of_more more]
        have within := @Context.pieces_within context offset size copied
        rw [Context.pieces_of_more more, List.forall_mem_cons] at within
        refine warm_bind state (warm_readPiece state use path_used present fits
          (within.1.trans inside) ?_) ?_
        · rw [chunkId]
          exact wanted _ (by omega) (by omega)
        · intro outcome now state' served
          cases outcome with
          | error rc =>
              obtain ⟨device, error⟩ := served.1 rc rfl
              exact warm_ret ⟨fun cpu => absurd cpu device, fun ok => absurd ok error⟩
          | ok bytes =>
              refine (induction _ (by omega) state' rfl).mono fun result later _ outcome => ?_
              refine ⟨outcome.1, fun ok => ?_⟩
              rw [outcome.2 ok, served.2 bytes rfl, List.length_cons]
              omega
      · rename_i done
        rw [Context.pieces_of_done (Nat.not_lt.mp done)]
        exact warm_updateStats state ⟨rfl, rfl, rfl, rfl, rfl, rfl, rfl⟩
          fun _ => warm_ret ⟨fun _ => rfl, fun _ => rfl⟩

theorem warm_doReadImpl {args : ReadArgs} {path : String} {content : Bytes}
    (state : Warm context used files keys base shared) (use : SoloUse context used files)
    (path_used : path ∈ used) (present : files (context.setup.naming.inode path) = some content)
    (named : args.path = some path) (destination : args.dstNull = false)
    (nonempty : args.size ≠ 0)
    (inside : args.offset.toNat + args.size.toNat ≤ content.length)
    (wanted : ∀ position, args.offset.toNat ≤ position →
      position < args.offset.toNat + args.size.toNat →
        ⟨context.setup.naming.fileIdFromPath path, position / context.options.chunkSize⟩ ∈ keys) :
    Prog.Holds (serve context.setup) (warm context used files keys base)
      (fun result now => (args.target = .cpu → result.rc = .ok) ∧ (result.rc = .ok →
        now.stats.dramHits = shared.stats.dramHits +
          (context.pieces args.offset.toNat args.size.toNat 0).length))
      (doReadImpl context args) shared := by
  rw [doReadImpl, named]
  dsimp only
  rw [if_neg (by simp [destination, nonempty])]
  split
  · rename_i unsupported
    refine warm_ret ⟨fun cpu => ?_, by simp⟩
    simp [cpu] at unsupported
  · exact warm_readLoop state use path_used present inside wanted

end

/-! ## After a prefetch -/

/-- A read inside a range. -/
structure ReadArgs.Inside (args : ReadArgs) (path : String) (offset size : Nat) : Prop where
  named : args.path = some path
  destination : args.dstNull = false
  nonempty : args.size ≠ 0
  start : offset ≤ args.offset.toNat
  stop : args.offset.toNat + args.size.toNat ≤ offset + size

/-- What a prefetch is for: the chunks of the range are resident, and a read inside the range
that comes next is served from DRAM piece by piece.  Copies to the device may fail. -/
structure Prefetched (context : Context) (path : String) (offset size : Nat) (shared : Shared) :
    Prop where
  resident : ∀ key ∈ context.chunkKeys path offset size 0, key ∈ shared.cache.table
  returns : ∀ args : ReadArgs, args.Inside path offset size →
    ∀ stream, Prog.Fair Choice.Completes stream →
      ∃ result after, Prog.Returns (serve context.setup) stream shared (memtierRead context args)
        result after
  served : ∀ args : ReadArgs, args.Inside path offset size →
    ∀ stream result after,
      Prog.Returns (serve context.setup) stream shared (memtierRead context args) result after →
        OnlyHits shared.stats after.stats ∧ (args.target = .cpu → result.rc = .ok) ∧
          (result.rc = .ok → after.stats.dramHits = shared.stats.dramHits +
            (context.pieces args.offset.toNat args.size.toNat 0).length)

section

variable {context : Context} {used : Set String} {files : Files} {shared : Shared}

/-- Reads of a resident range are served from DRAM. -/
theorem SoloValid.prefetched {path : String} {content : Bytes} {offset size : Nat}
    (valid : SoloValid context used files shared) (use : SoloUse context used files)
    (path_used : path ∈ used) (present : files (context.setup.naming.inode path) = some content)
    (inside : offset + size ≤ content.length)
    (resident : ∀ key ∈ context.chunkKeys path offset size 0, key ∈ shared.cache.table) :
    Prefetched context path offset size shared where
  resident := resident
  returns args _ stream fair := Prog.returns_of_fair (serve_completes context.setup) fair _ _
  served := by
    intro args within stream result after returned
    have small := use.small _ _ present
    have start := within.start
    have stop := within.stop
    have state : Warm context used files (context.chunkKeys path offset size 0) shared.stats
        shared := ⟨valid, resident, ⟨rfl, rfl, rfl, rfl, rfl, rfl, rfl⟩⟩
    have holds := warm_doReadImpl state use path_used present within.named within.destination
      within.nonempty (stop.trans inside) fun position start_le lt_stop =>
        Context.mem_chunkKeys (by omega) path (by omega) (by omega)
    obtain ⟨state', outcome⟩ := holds.returns state (fun _ => trivial) (fun _ => trivial) returned
    exact ⟨state'.hits, outcome⟩

/-- What the recency list is after a successful prefetch. -/
theorem SoloValid.prefetch_recency {args : PrefetchArgs} {path : String} {content : Bytes}
    {stream : Nat → Choice} {after : Shared} (valid : SoloValid context used files shared)
    (use : SoloUse context used files) (path_used : path ∈ used)
    (present : files (context.setup.naming.inode path) = some content)
    (named : args.path = some path)
    (inside : args.offset.toNat + args.size.toNat ≤ content.length)
    (prefetched : Prog.Returns (serve context.setup) stream shared (memtierPrefetch context args)
      .ok after) :
    SoloValid context used files after ∧ after.cache.recency =
      Recency.fill context.capacity
        (context.chunkKeys path args.offset.toNat args.size.toNat 0) shared.cache.recency := by
  have holds : context.Alone used files
      (fun rc now => rc = .ok → now.cache.recency = Recency.fill context.capacity
        (context.chunkKeys path args.offset.toNat args.size.toNat 0) shared.cache.recency)
      (memtierPrefetch context args) shared := by
    rw [memtierPrefetch, named]
    dsimp only
    split_ifs
    · exact alone_ret (by simp)
    · exact alone_ret (by simp)
    · exact alone_ret (by simp)
    · exact (alone_prefetchLoop valid use path_used).mono fun _ _ _ filled ok =>
        filled ok content present inside
  obtain ⟨valid', filled⟩ := holds.returns valid (fun _ => trivial) (fun _ => trivial) prefetched
  exact ⟨valid', filled rfl⟩

end

/-- When a prefetch keeps its range.  After a prefetch of a range that fits into the cache, the
range is resident and is read from DRAM if and only if no chunk of it that was passed is evicted
for a later one; which chunks are evicted follows from the recency list before the prefetch. -/
theorem prefetch_resident_iff (context : Context) (sorter : Sorter) (used : Set String)
    (files : Files) (injective : context.setup.naming.InjectiveOn used)
    (small : ∀ inode content, files inode = some content → content.length < 2 ^ 63)
    (roomy : context.options.chunkSize + context.options.dramCacheSize < 2 ^ 64)
    (cached : context.options.bypassCache = false) (session : Session)
    (reachable : Session.Reachable context sorter used files session)
    (_idle : session.running = none) (path : String) (path_used : path ∈ used) (content : Bytes)
    (present : files (context.setup.naming.inode path) = some content) (args : PrefetchArgs)
    (named : args.path = some path) (nonempty : args.size ≠ 0)
    (inside : args.offset.toNat + args.size.toNat ≤ content.length)
    (fits : (context.chunkKeys path args.offset.toNat args.size.toNat 0).length ≤ context.capacity)
    (stream : Nat → Choice) (after : Shared)
    (prefetched : Prog.Returns (serve context.setup) stream session.shared
      (memtierPrefetch context args) .ok after) :
    Prefetched context path args.offset.toNat args.size.toNat after ↔
      Recency.Spares context.capacity []
        (context.chunkKeys path args.offset.toNat args.size.toNat 0)
        session.shared.cache.recency := by
  have use : SoloUse context used files := ⟨injective, small, roomy, cached⟩
  have valid := (reachable.orderly use).valid
  have length := small _ _ present
  have positive : 0 < context.capacity := by
    have first := @Context.mem_chunkKeys context args.offset.toNat args.size.toNat 0 (by omega) path
      args.offset.toNat (by omega) (by
        have := UInt64.toNat_inj.not.mpr nonempty
        simp only [UInt64.toNat_zero] at this
        omega)
    exact (List.length_pos_of_mem first).trans_le fits
  obtain ⟨valid', filled⟩ := valid.prefetch_recency use path_used present named inside prefetched
  rw [← Recency.subset_fill_iff positive valid.accurate.distinct
    (Context.chunkKeys_nodup (by omega) path), ← filled]
  constructor
  · intro goal key member
    exact (valid'.accurate.keys key).mpr (goal.resident key member)
  · intro kept
    exact valid'.prefetched use path_used present inside fun key member =>
      (valid'.accurate.keys key).mp (kept member)

/-- A read of the chunk at an offset, in chunks of four. -/
def fourBytes (offset : UInt64) : ApiCall :=
  .read { path := some "a", offset, size := 4, dstNull := false, target := .cpu }

/-- A prefetch of the second and the third chunk of four. -/
def eightBytes : PrefetchArgs := { path := some "a", offset := 4, size := 8, options := none }

/-- The session after the chunks at two offsets were read, and the outcome of a prefetch of the
second and the third chunk. -/
theorem eightBytes_prefetched (first second : UInt64) (recency : List CacheKey)
    (evicted : Bool)
    (evaluated : ((Session.initial (Context.small id)
      (Files.single [1, 2, 3, 4, 5, 6, 7, 8, 9, 10, 11, 12])).run (Context.small id) .insertion
        ([first, second].flatMap fun offset =>
          .invoke (fourBytes offset) :: List.replicate 8 (.step (.take 4)))).any (fun session =>
            let outcome := Prog.runFor (serve (Context.small id).setup) (fun _ => .take 4) 8
              (session.shared, memtierPrefetch (Context.small id) eightBytes)
            session.running.isNone && decide (session.shared.cache.recency = recency) &&
              decide (outcome.2.value? = some .ok) &&
              outcome.1.cache.contains ⟨1, 1⟩ == !evicted) = true) :
    ∃ session after, Session.Reachable (Context.small id) .insertion {"a"}
        (Files.single [1, 2, 3, 4, 5, 6, 7, 8, 9, 10, 11, 12]) session ∧
      session.running = none ∧ session.shared.cache.recency = recency ∧
      Prog.Returns (serve (Context.small id).setup) (fun _ => .take 4) session.shared
        (memtierPrefetch (Context.small id) eightBytes) .ok after ∧
      after.cache.contains ⟨1, 1⟩ = !evicted := by
  obtain ⟨session, happens, checked⟩ := (Option.any_eq_true _ _).mp evaluated
  simp only [Bool.and_eq_true, Option.isNone_iff_eq_none, decide_eq_true_eq, beq_iff_eq] at checked
  obtain ⟨⟨⟨idle, order⟩, returned⟩, contained⟩ := checked
  refine ⟨session, _, Session.Reachable.run .init ?_ happens, idle, order,
    Prog.Returns.of_value? returned, contained⟩
  simp [fourBytes, SessionEvent.Admissible, ApiCall.Uses, or_imp, forall_and]

/-- The first chunk is evicted for the third one, and the second one stays. -/
theorem prefetch_resident_iff_spared :
    ∃ session after, Session.Reachable (Context.small id) .insertion {"a"}
        (Files.single [1, 2, 3, 4, 5, 6, 7, 8, 9, 10, 11, 12]) session ∧
      session.shared.cache.recency = [⟨1, 1⟩, ⟨1, 0⟩] ∧
      Prog.Returns (serve (Context.small id).setup) (fun _ => .take 4) session.shared
        (memtierPrefetch (Context.small id) eightBytes) .ok after ∧
      Prefetched (Context.small id) "a" 4 8 after := by
  obtain ⟨session, after, reachable, idle, recency, returned, -⟩ :=
    eightBytes_prefetched 0 4 [⟨1, 1⟩, ⟨1, 0⟩] false (by decide +kernel)
  have spared := prefetch_resident_iff (Context.small id) .insertion {"a"} _
    (fun _ _ _ _ _ => rfl) (Files.single_small (by norm_num)) (by decide) rfl session reachable
    idle "a" rfl _ rfl eightBytes rfl (by decide) (by decide) (by decide +kernel) _ after returned
  rw [recency] at spared
  exact ⟨session, after, reachable, recency, returned, spared.mpr (by decide +kernel)⟩

/-- The second chunk was read before the first one.  The prefetch passes it, brings in the third one
in its place and succeeds. -/
theorem prefetch_evicts_own_chunk :
    ¬ ∀ (context : Context) (sorter : Sorter) (used : Set String) (files : Files),
      context.setup.naming.InjectiveOn used →
      (∀ inode content, files inode = some content → content.length < 2 ^ 63) →
      context.options.chunkSize + context.options.dramCacheSize < 2 ^ 64 →
      context.options.bypassCache = false →
      ∀ session, Session.Reachable context sorter used files session → session.running = none →
      ∀ path ∈ used, ∀ content, files (context.setup.naming.inode path) = some content →
      ∀ args : PrefetchArgs, args.path = some path → args.size ≠ 0 →
        args.offset.toNat + args.size.toNat ≤ content.length →
        (context.chunkKeys path args.offset.toNat args.size.toNat 0).length ≤ context.capacity →
      ∀ stream after,
        Prog.Returns (serve context.setup) stream session.shared (memtierPrefetch context args)
          .ok after →
        Prefetched context path args.offset.toNat args.size.toNat after := by
  intro kept
  obtain ⟨session, after, reachable, idle, -, returned, contained⟩ :=
    eightBytes_prefetched 4 0 [⟨1, 0⟩, ⟨1, 1⟩] true (by decide +kernel)
  have goal := kept (Context.small id) .insertion {"a"} _ (fun _ _ _ _ _ => rfl)
    (Files.single_small (by norm_num)) (by decide) rfl session reachable idle "a" rfl _ rfl
    eightBytes rfl (by decide) (by decide) (by decide +kernel) _ after returned
  have member := goal.resident ⟨1, 1⟩ (by decide +kernel)
  rw [CacheDirectory.contains, AList.lookup_isSome.mpr member] at contained
  simp at contained

end MemTier
