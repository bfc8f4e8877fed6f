import MemTier.Resumption.Evaluation
import MemTier.Runtime.Interleavings

/-!
# Switching the cache off

A context whose options disable the DRAM cache, or bypass it, should leave the cache directory
alone.  Path selection looks at these options last, after the option that forces positioned reads;
a forced read is admitted like any other.
-/

namespace MemTier

open Containers Resumption

/-- The DRAM cache is not to be used. -/
def Options.CacheDisabled (options : Options) : Prop :=
  options.enableDramCache = false ∨ options.bypassCache = true

/-- Positioned reads are forced, what they read is admitted, and a chunk fits. -/
def Options.AdmitsForced (options : Options) : Prop :=
  options.forcePosix = true ∧ options.cacheAdmit = true ∧ options.chunkSize ≤ options.dramCacheSize

/-- Without a candidate, a disabled cache is only filled by forced reads. -/
theorem forcePosix_of_selectPath {offset size : Nat} {options : Options}
    (disabled : options.CacheDisabled)
    (selected : selectPath false offset size options = .posixReadThenCache) :
    options.forcePosix = true := by
  by_contra free
  simp only [selectPath, Bool.false_and, Bool.false_eq_true, if_false, if_neg free] at selected
  split_ifs at selected with _ _ _ enabled
  rcases disabled with off | bypassed
  · simp [off] at enabled
  · simp [bypassed] at enabled

/-- Whether the entry that a lookup finds covers a piece. -/
def CacheDirectory.isCandidate (cache : CacheDirectory) (key : CacheKey) (piece : Piece) : Bool :=
  let found := (cache.lookup key).1
  found.isSome && decide (piece.inChunk + piece.need ≤ (found.getD default).validSize)

/-- Nothing is cached and nothing is served from the cache. -/
structure CacheUnused (context : Context) (shared : Shared) : Prop where
  empty : ∀ key, key ∉ shared.cache.table
  unlisted : shared.cache.recency = []
  usedBytes : shared.cache.usedBytes = 0
  unserved : shared.stats.dramHits = 0
  unselected : ∀ key piece, selectPath (shared.cache.isCandidate key piece) piece.curOff piece.need
    context.options ≠ .dramHit

/-! ## Reads that leave the cache alone -/

/-- The cache is as the constructor left it. -/
structure Pristine (context : Context) (shared : Shared) : Prop where
  cache : shared.cache =
    CacheDirectory.new context.options.chunkSize context.options.dramCacheSize
  hits : shared.stats.dramHits = 0

/-- Nothing is found. -/
def findsNothing : (op : Op) → Reply op → Prop
  | .lookup _, found => found = none
  | _, _ => True

/-- Operations that leave an empty cache empty. -/
def Context.Spares (context : Context) : Op → Prop
  | .insert _ _ _ => context.options.dramCacheSize < context.options.chunkSize
  | .updateStats update => ∀ stats, (update stats).dramHits = stats.dramHits
  | _ => True

/-- A program that leaves an empty cache empty. -/
abbrev Context.SparesCache (context : Context) {α : Type} (program : Run α) : Prop :=
  program.Confined findsNothing context.Spares

section

variable {context : Context} {sorter : Sorter}

theorem keeps_pristine :
    Prog.Keeps (serve context.setup) (Pristine context) findsNothing context.Spares := by
  refine ⟨fun shared op choice reply after pristine allowed execution => ?_⟩
  cases op with
  | lookup key =>
      simp only [serve, Option.some.injEq, Prod.mk.injEq] at execution
      have missed : shared.cache.lookup key = (none, shared.cache) :=
        CacheDirectory.lookup_of_none (by simp [pristine.cache, CacheDirectory.new])
      rw [missed] at execution
      rw [← execution.2]
      exact ⟨execution.1.symm, pristine⟩
  | insert key data validSize =>
      simp only [serve, Option.some.injEq, Prod.mk.injEq] at execution
      have refused : shared.cache.insert key (some fun index => data.getD index 0) validSize =
          (false, shared.cache) := by
        rw [CacheDirectory.insert, if_neg]
        rintro ⟨-, -, fits, -⟩
        rw [pristine.cache] at fits
        exact Nat.not_le.mpr allowed fits
      rw [refused] at execution
      rw [← execution.2]
      exact ⟨trivial, pristine⟩
  | updateStats update =>
      simp only [serve, Option.some.injEq, Prod.mk.injEq] at execution
      rw [← execution.2]
      exact ⟨trivial, pristine.cache, (allowed shared.stats).trans pristine.hits⟩
  | _ =>
      rw [serve_inert execution trivial]
      exact ⟨trivial, pristine⟩

theorem Pristine.unused {shared : Shared} (pristine : Pristine context shared) :
    CacheUnused context shared where
  empty := by simp [pristine.cache, CacheDirectory.new]
  unlisted := by
    rw [pristine.cache]
    rfl
  usedBytes := by rw [pristine.cache, CacheDirectory.new]
  unserved := pristine.hits
  unselected := by
    intro key piece selected
    have found := hit_of_selectPath selected
    have missed : shared.cache.lookup key = (none, shared.cache) :=
      CacheDirectory.lookup_of_none (by simp [pristine.cache, CacheDirectory.new])
    simp [CacheDirectory.isCandidate, missed] at found

/-- Operations that change nothing shared leave the cache empty. -/
theorem Context.spares_inert (op : Op) (inert : op.Inert) : context.Spares op := by
  cases op with
  | insert key data validSize => exact absurd inert id
  | updateStats update => exact absurd inert id
  | _ => trivial

theorem Context.spares_misses : ComprisesMisses context.Spares :=
  ⟨context.spares_inert, fun _ counts stats => (counts stats).1⟩

/-- A piece finds nothing, and nothing of it is kept. -/
theorem spares_readPiece {path : String} {target : Target} {piece : Piece}
    (disabled : context.options.CacheDisabled) (refused : ¬ context.options.AdmitsForced) :
    context.SparesCache (readPiece context path target piece) := by
  refine Prog.confined_perform_bind trivial fun found nothing => ?_
  obtain rfl : found = none := nothing
  simp only [Option.isSome_none, Bool.false_and]
  have misses := context.spares_misses
  apply Prog.confined_perform_bind (misses.counted _ (countsMiss_onSelected _))
  intro _ _
  cases selected : selectPath false piece.curOff piece.need context.options with
  | dramHit => exact absurd (hit_of_selectPath selected) Bool.false_ne_true
  | gdsRead => exact confined_serveGds misses
  | gdsStubFallback => exact confined_serveGds misses
  | posixRead => exact confined_servePosix misses (by simp)
  | posixReadThenCache =>
      apply confined_servePosix misses
      intro _ admitting _ _
      by_contra fits
      exact refused ⟨forcePosix_of_selectPath disabled selected, admitting, Nat.not_lt.mp fits⟩

theorem spares_memtierReadv {args : ReadvArgs} (disabled : context.options.CacheDisabled)
    (refused : ¬ context.options.AdmitsForced) :
    context.SparesCache (memtierReadv context sorter args) := by
  rw [memtierReadv]
  split
  · trivial
  · split
    · trivial
    · apply (confined_readvLoop context.spares_misses
        fun _ _ _ => spares_readPiece disabled refused).bind
      intro result
      split
      · trivial
      · exact Prog.confined_perform_bind (fun _ => rfl) fun _ _ => trivial

end

/-- Calls that read. -/
def ApiCall.Reads : ApiCall → Prop
  | .prefetch _ => False
  | _ => True

/-! ## A forced read -/

/-- One thread, without failures on its own account. -/
def Context.environment (context : Context) : Environment Shared Choice Reply where
  serve := serve context.setup
  background before after := after = before
  permits _ _ := True
  background_refl _ := rfl

section

variable {context : Context} {sorter : Sorter}

/-- A chunk at the start of a file is read in one call. -/
theorem evaluates_posixPreadFull_chunk {path : String} {shared : Shared} {content : Bytes}
    (present : shared.content context.setup.naming path = some content)
    (length : content.length = context.options.chunkSize) :
    (posixPreadFull path 0 context.options.chunkSize).Evaluates context.environment shared
      { rc := .ok, data := content } shared := by
  have positive := context.chunkSize_pos
  have opened : (context.environment).Serves shared (.openFile path) true shared :=
    ⟨shared, .take 1, rfl, by simp [Context.environment, serve, present], trivial⟩
  have delivered : (context.environment).Serves shared
      (.pread path context.options.chunkSize 0) (.data content) shared := by
    refine ⟨shared, .take context.options.chunkSize, rfl, ?_, trivial⟩
    simp [Context.environment, serve, present, MemTier.pread, slice, ← length]
  refine ⟨true, shared, opened, ?_⟩
  change (preadLoop path 0 context.options.chunkSize []).Evaluates context.environment shared _ shared
  rw [preadLoop, dif_pos (by simpa using positive)]
  refine ⟨.data content, shared, by simpa using delivered, ?_⟩
  change (if _ : content.length = 0 then _ else _ : Run FullRead).Evaluates _ _ _ _
  rw [dif_neg (by omega), List.nil_append, preadLoop, dif_neg (by omega)]
  exact ⟨rfl, rfl⟩

/-- Every file is one chunk long. -/
def Context.wholeChunk (context : Context) : Files :=
  fun _ => some (List.replicate context.options.chunkSize 0)

/-- A positioned read that is admitted. -/
theorem evaluates_servePosix_admitted {path : String} {key : CacheKey} {shared : Shared}
    {content : Bytes} (forced : context.options.AdmitsForced)
    (present : shared.content context.setup.naming path = some content)
    (length : content.length = context.options.chunkSize)
    (pristine : Pristine context shared) :
    ∃ bytes after, (servePosix context path .cpu ⟨0, 0, 0, 1⟩ key true).Evaluates
      context.environment shared (.ok bytes) after ∧ key ∈ after.cache.table := by
  have positive := context.chunkSize_pos
  have admitted : shared.cache.Admits content.length := by
    have nonzero := context.initialised.dramCacheSize
    rw [pristine.cache, length]
    exact ⟨positive.ne', le_rfl, forced.2.2, nonzero⟩
  let stored := (shared.cache.insert key
    (some fun index => (zeroFill context.options.chunkSize content).getD index 0) content.length).2
  have resident : key ∈ stored.table := by
    simp only [stored, CacheDirectory.insert_of_admits admitted, CacheDirectory.store,
      AList.mem_insert, true_or]
  let recorded : Stats := { shared.stats with
    dramMisses := shared.stats.dramMisses + 1
    posixReads := shared.stats.posixReads + 1
    ssdBytesRead := shared.stats.ssdBytesRead + content.length }
  refine ⟨slice (zeroFill context.options.chunkSize content) 0 1,
    { shared with cache := stored, stats := recorded }, ?_, resident⟩
  simp only [servePosix, if_true, Nat.zero_mul, Nat.zero_add]
  refine Prog.evaluates_bind.mpr
    ⟨_, shared, evaluates_posixPreadFull_chunk present length, ?_⟩
  rw [if_neg (by simp), if_neg (by simp only; omega)]
  refine Prog.evaluates_bind.mpr ⟨.ok, shared, ⟨rfl, rfl⟩, ?_⟩
  rw [if_neg (by simp), if_pos (by simp [forced.2.1])]
  refine ⟨_, { shared with cache := stored }, ⟨shared, .take 1, rfl, rfl, trivial⟩, ?_⟩
  exact ⟨(), _, ⟨_, .take 1, rfl, rfl, trivial⟩, rfl, rfl⟩

/-- A read of one byte. -/
def oneByte : ReadArgs where
  path := some "table"
  offset := 0
  size := 1
  dstNull := false
  target := .cpu

/-- A forced read leaves a chunk in a cache that is not to be used. -/
theorem evaluates_forced_read (forced : context.options.AdmitsForced) :
    ∃ value after, (memtierRead context oneByte).Evaluates context.environment
      (context.initial context.wholeChunk) value after ∧ ∃ key, key ∈ after.cache.table := by
  have positive := context.chunkSize_pos
  have unfolded : memtierRead context oneByte = readLoop context "table" .cpu 0 1 0 [] := by
    simp [memtierRead, doReadImpl, oneByte]
  have piece : pieceAt context.options.chunkSize 0 1 0 = ⟨0, 0, 0, 1⟩ := by
    simp only [pieceAt, Nat.add_zero, Nat.zero_mod, Nat.zero_div, Nat.sub_zero, Piece.mk.injEq,
      true_and]
    omega
  let counted : Shared := { context.initial context.wholeChunk with
    stats := onSelected .posixReadThenCache (context.initial context.wholeChunk).stats }
  let key : CacheKey := ⟨context.setup.naming.fileIdFromPath "table", 0⟩
  obtain ⟨bytes, after, served, resident⟩ := @evaluates_servePosix_admitted context "table" key
    counted _ forced rfl List.length_replicate ⟨rfl, rfl⟩
  have whole : (readPiece context "table" .cpu ⟨0, 0, 0, 1⟩).Evaluates context.environment
      (context.initial context.wholeChunk) (.ok bytes) after := by
    have selected : selectPath false 0 1 context.options = .posixReadThenCache := by
      simp [selectPath, forced.1]
    refine Prog.evaluates_bind.mpr ⟨none, context.initial context.wholeChunk,
      Prog.evaluates_perform.mpr ⟨_, .take 1, rfl, rfl, trivial⟩, ?_⟩
    simp only [Option.isSome_none, Bool.false_and, selected]
    exact ⟨(), counted, ⟨_, .take 1, rfl, rfl, trivial⟩, served⟩
  let recorded : Stats := { after.stats with totalRequests := after.stats.totalRequests + 1 }
  refine ⟨{ rc := .ok, out := [] ++ bytes }, { after with stats := recorded }, ?_, key, resident⟩
  rw [unfolded, readLoop, dif_pos Nat.one_pos, piece]
  refine Prog.evaluates_bind.mpr ⟨.ok bytes, after, whole, ?_⟩
  change (readLoop context "table" .cpu 0 1 1 _).Evaluates _ _ _ _
  rw [readLoop, dif_neg (lt_irrefl 1)]
  exact ⟨(), _, ⟨_, .take 1, rfl, rfl, trivial⟩, rfl, rfl⟩

end

/-- In every interleaving of reads, vectored reads and asynchronous reads of a context whose cache
is disabled, nothing is ever cached or served from the cache, if and only if it is not the case that
positioned reads are forced, what they read is admitted, and a chunk fits into the cache. -/
theorem disabled_cache_unused_iff {context : Context} {sorter : Sorter}
    (disabled : context.options.CacheDisabled) :
    (∀ files system, System.Reached context sorter ApiCall.Reads files system →
        CacheUnused context system.shared) ↔
      ¬ context.options.AdmitsForced := by
  constructor
  · intro unused forced
    obtain ⟨value, after, evaluation, key, resident⟩ := evaluates_forced_read forced
    have program : ((ApiCall.read oneByte).program context sorter).Evaluates context.environment
        (context.initial context.wholeChunk) (.read value) after :=
      Prog.evaluates_bind.mpr ⟨value, after, evaluation, rfl, rfl⟩
    obtain ⟨stream, steps, finished⟩ := program.returns (.take 1) fun _ _ same => same
    have entered : System.Reached context sorter ApiCall.Reads context.wholeChunk
        ((System.initial context context.wholeChunk).enter context sorter (.read oneByte) false) :=
      @System.Reached.next _ _ _ _ _ _ (.invoke (.read oneByte)) .init
        (by rintro _ ⟨⟩; trivial) rfl
    have reached : CacheUnused context (Prog.runFor (serve context.setup) stream steps
        (context.initial context.wholeChunk, (ApiCall.read oneByte).program context sorter)).1 :=
      unused _ _ (entered.runFor stream steps)
    rw [show Prog.runFor (serve context.setup) _ _ _ = _ from finished] at reached
    exact reached.empty key resident
  · intro refused files system reached
    have programs : ∀ call : ApiCall, call.Reads → context.SparesCache (call.program context sorter) := by
      intro call reads
      cases call with
      | read args =>
          exact (confined_doReadImpl context.spares_misses
            fun _ _ _ => spares_readPiece disabled refused).bind fun _ => trivial
      | prefetch args => exact absurd reads id
      | readv args => exact (spares_memtierReadv disabled refused).bind fun _ => trivial
    have pristine := (reached.confined keeps_pristine ⟨rfl, rfl⟩
      (fun _ _ pristine => ⟨pristine.cache, pristine.hits⟩) programs fun _ => trivial).1
    exact pristine.unused

/-- Positioned reads are forced, and what they read is not admitted. -/
theorem disabled_cache_unused_refused :
    let context := Context.small fun options =>
      { options with enableDramCache := false, forcePosix := true, cacheAdmit := false }
    context.options.CacheDisabled ∧
      ∀ files system, System.Reached context .insertion ApiCall.Reads files system →
        CacheUnused context system.shared := by
  intro context
  have disabled : context.options.CacheDisabled := .inl rfl
  exact ⟨disabled, (disabled_cache_unused_iff disabled).mpr (by rintro ⟨-, ⟨⟩, -⟩)⟩

/-- With the cache disabled and positioned reads forced, a read of one byte leaves its chunk in the
cache, and a second one is served from there. -/
theorem disabled_cache_used :
    ¬ ∀ (context : Context) (sorter : Sorter) (files : Files) (system : System),
      context.options.CacheDisabled →
        System.Reached context sorter ApiCall.Reads files system →
          CacheUnused context system.shared := by
  intro unused
  let context := Context.small fun options =>
    { options with enableDramCache := false, forcePosix := true }
  let events : List Event :=
    .invoke (.read oneByte) :: List.replicate 7 (.step 0 (.take 4)) ++
      .invoke (.read oneByte) :: List.replicate 3 (.step 1 (.take 4))
  have evaluated : ((System.initial context (Files.single [1, 2, 3, 4])).run context .insertion
      events).any (fun system => system.shared.stats.dramHits = 1) = true := by
    decide +kernel
  obtain ⟨system, happens, served⟩ := (Option.any_eq_true _ _).mp evaluated
  have reached : System.Reached context .insertion ApiCall.Reads (Files.single [1, 2, 3, 4])
      system := by
    refine System.Reached.run .init (fun call member => ?_) happens
    obtain rfl : call = .read oneByte := by simpa [events] using member
    trivial
  have zero := (unused context .insertion _ system (.inl rfl) reached).unserved
  rw [of_decide_eq_true served] at zero
  exact absurd zero one_ne_zero

end MemTier
