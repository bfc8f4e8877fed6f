import MemTier.Containers.Residency
import MemTier.Runtime.CacheAccounting
import MemTier.Runtime.System

/-!
# Sequential use: an exact LRU cache

When one thread at a time uses a context over immutable files, no insert ever meets a resident key:
a chunk is read whole or up to the end of its file, so a resident chunk that is too short for a
request is too short when it is read again.  The cache then follows the reference
least-recently-used cache operation by operation.
-/

namespace MemTier

open Containers Resumption

/-! ## The reference cache -/

/-- What an operation does to the reference cache. -/
def lruStep (chunkSize capacity : Nat) : Op → List CacheKey → List CacheKey
  | .lookup key, keys => Recency.use key keys
  | .insert key _ validSize, keys =>
      if validSize = 0 ∨ chunkSize < validSize then keys else Recency.enter capacity key keys
  | _, keys => keys

/-- How many chunks fit. -/
def Context.capacity (context : Context) : Nat :=
  context.options.dramCacheSize / context.options.chunkSize

/-! ## The discipline of a single thread -/

/-- Number of bytes of a chunk that its file has. -/
def chunkLength (chunkSize chunkId : Nat) (content : Bytes) : Nat :=
  min chunkSize (content.length - chunkId * chunkSize)

/-- The invariant of sequential use: entries are as long as their file allows. -/
structure SoloValid (context : Context) (used : Set String) (files : Files) (shared : Shared) :
    Prop where
  files_eq : shared.files = files
  chunkSize : shared.cache.chunkSize = context.options.chunkSize
  cacheSizeBytes : shared.cache.cacheSizeBytes = context.options.dramCacheSize
  accurate : shared.cache.Accurate
  entries : ∀ key node, shared.cache.table.lookup key = some node →
    ∃ path ∈ used, context.setup.naming.fileIdFromPath path = key.fileId ∧
      ∃ content, files (context.setup.naming.inode path) = some content ∧
        node.entry.validSize = chunkLength context.options.chunkSize key.chunkId content

/-- What sequential use assumes of options and files. -/
structure SoloUse (context : Context) (used : Set String) (files : Files) : Prop where
  injective : context.setup.naming.InjectiveOn used
  small : ∀ inode content, files inode = some content → content.length < 2 ^ 63
  roomy : context.options.chunkSize + context.options.dramCacheSize < 2 ^ 64
  cached : context.options.bypassCache = false

/-- Only keys that are not resident may be inserted. -/
def insertsFresh : Op → Shared → Prop
  | .insert key _ _, shared => key ∉ shared.cache.table
  | _, _ => True

/-- The discipline of a thread that is alone; calls may fail. -/
def solo (context : Context) (used : Set String) (files : Files) :
    Discipline Shared Choice Op where
  inv := SoloValid context used files
  rely before after := after = before
  guarantee _ _ := True
  legal _ := True
  permits := insertsFresh
  rely_refl _ := rfl
  rely_trans left right := right.trans left

/-- A program keeps to the discipline of a single thread. -/
abbrev Context.Alone (context : Context) (used : Set String) (files : Files) {α : Type}
    (post : α → Shared → Prop) (program : Run α) (shared : Shared) : Prop :=
  Prog.Holds (serve context.setup) (solo context used files) post program shared

/-- Operations that leave the cache alone. -/
def Op.Quiet : Op → Prop
  | .lookup _ | .insert _ _ _ => False
  | _ => True

theorem serve_quiet {setup : Setup} {shared after : Shared} {op : Op} {choice : Choice}
    {reply : Reply op} (execution : serve setup shared op choice = some (reply, after))
    (quiet : op.Quiet) : after.cache = shared.cache := by
  cases op with
  | lookup key => exact absurd quiet id
  | insert key data validSize => exact absurd quiet id
  | updateStats update =>
      simp only [serve, Option.some.injEq, Prod.mk.injEq] at execution
      rw [← execution.2]
  | _ => rw [serve_inert execution trivial]

section

variable {context : Context} {used : Set String} {files : Files} {shared : Shared}

theorem SoloValid.congr {after : Shared} (valid : SoloValid context used files shared)
    (sameFiles : after.files = shared.files) (sameCache : after.cache = shared.cache) :
    SoloValid context used files after where
  files_eq := sameFiles.trans valid.files_eq
  chunkSize := by rw [sameCache, valid.chunkSize]
  cacheSizeBytes := by rw [sameCache, valid.cacheSizeBytes]
  accurate := sameCache ▸ valid.accurate
  entries := by
    rw [sameCache]
    exact valid.entries

/-- A lookup refreshes its key if that is resident. -/
theorem SoloValid.lookup (valid : SoloValid context used files shared) (key : CacheKey) :
    SoloValid context used files { shared with cache := (shared.cache.lookup key).2 } ∧
      (shared.cache.lookup key).2.recency = Recency.use key shared.cache.recency := by
  cases present : shared.cache.table.lookup key with
  | none =>
      have unlisted : key ∉ shared.cache.recency := by
        rw [valid.accurate.keys]
        exact AList.lookup_eq_none.mp present
      rw [CacheDirectory.lookup_of_none present, Recency.use, if_neg unlisted]
      exact ⟨valid, rfl⟩
  | some node =>
      have listed : key ∈ shared.cache.recency := by
        rw [valid.accurate.keys]
        exact CacheDirectory.mem_of_lookup present
      rw [CacheDirectory.lookup_of_some present, Recency.use, if_pos listed]
      obtain ⟨accurate, order⟩ := valid.accurate.touch present
      refine ⟨⟨valid.files_eq, valid.chunkSize, valid.cacheSizeBytes, accurate, ?_⟩, order⟩
      intro other found lookup
      by_cases same : other = key
      · subst same
        simp only [CacheDirectory.touch, AList.lookup_insert, Option.some.injEq] at lookup
        subst lookup
        exact valid.entries other node present
      · simp only [CacheDirectory.touch, AList.lookup_insert_ne same] at lookup
        exact valid.entries other found lookup

/-- An insert of a key that is not resident admits it into the reference cache. -/
theorem SoloValid.insert_order (valid : SoloValid context used files shared)
    (roomy : context.options.chunkSize + context.options.dramCacheSize < 2 ^ 64)
    {key : CacheKey} (absent : key ∉ shared.cache.table) (data : Nat → UInt8) (validSize : Nat) :
    (shared.cache.insert key (some data) validSize).2.Accurate ∧
      (shared.cache.insert key (some data) validSize).2.recency =
        lruStep context.options.chunkSize context.capacity (.insert key [] validSize)
          shared.cache.recency := by
  have sizes := And.intro valid.chunkSize valid.cacheSizeBytes
  have bounded := valid.accurate.bounded
  by_cases admitted : shared.cache.Admits validSize
  · have fresh : shared.cache.Fresh (.insert key (some data) validSize) :=
      fun _ _ => ⟨by omega, .inl absent⟩
    obtain ⟨accurate, order, -⟩ := valid.accurate.insert_fresh (by omega) admitted fresh
    rw [CacheDirectory.insert_of_admits admitted, lruStep, if_neg (by omega)]
    refine ⟨accurate, order.trans ?_⟩
    rw [CacheDirectory.capacity, sizes.1, sizes.2, Context.capacity]
  · have refused : shared.cache.insert key (some data) validSize = (false, shared.cache) := by
      rw [CacheDirectory.insert, if_neg admitted]
    rw [refused, lruStep]
    refine ⟨valid.accurate, ?_⟩
    split
    · rfl
    · rename_i wellFormed
      rw [not_or] at wellFormed
      have tooLarge : context.capacity = 0 := by
        rw [Context.capacity, Nat.div_eq_zero_iff]
        by_contra large
        exact admitted ⟨wellFormed.1, by omega, by omega, by omega⟩
      rw [Recency.enter, if_pos tooLarge]

/-- The new entry is as long as its file allows. -/
theorem SoloValid.insert (valid : SoloValid context used files shared)
    (roomy : context.options.chunkSize + context.options.dramCacheSize < 2 ^ 64)
    {key : CacheKey} (absent : key ∉ shared.cache.table) (data : Nat → UInt8) (validSize : Nat)
    {path : String} {content : Bytes} (path_used : path ∈ used)
    (named : context.setup.naming.fileIdFromPath path = key.fileId)
    (present : files (context.setup.naming.inode path) = some content)
    (length : validSize = chunkLength context.options.chunkSize key.chunkId content) :
    SoloValid context used files
      { shared with cache := (shared.cache.insert key (some data) validSize).2 } := by
  obtain ⟨accurate, -⟩ := valid.insert_order roomy absent data validSize
  cases accepted : (shared.cache.insert key (some data) validSize).1 with
  | false =>
      rw [CacheDirectory.insert_of_refused accepted]
      exact valid
  | true =>
      obtain ⟨bytes, given, admitted, inserted⟩ := CacheDirectory.insert_of_accepted accepted
      have sizes := CacheDirectory.makeRoom_sizes shared.cache
      refine ⟨valid.files_eq, ?_, ?_, accurate, ?_⟩
      · rw [inserted]
        exact sizes.1.trans valid.chunkSize
      · rw [inserted]
        exact sizes.2.trans valid.cacheSizeBytes
      · intro other found lookup
        rw [inserted] at lookup
        by_cases same : other = key
        · subst same
          simp only [CacheDirectory.store, AList.lookup_insert, Option.some.injEq] at lookup
          subst lookup
          exact ⟨path, path_used, named, content, present, length⟩
        · simp only [CacheDirectory.store, AList.lookup_insert_ne same] at lookup
          exact valid.entries other found (CacheDirectory.makeRoom_lookup lookup)

/-- Every permitted operation acts on the recency list as on the reference cache. -/
theorem SoloValid.serve_recency (valid : SoloValid context used files shared)
    (roomy : context.options.chunkSize + context.options.dramCacheSize < 2 ^ 64)
    {op : Op} {choice : Choice} {reply : Reply op} {after : Shared}
    (permitted : insertsFresh op shared)
    (execution : serve context.setup shared op choice = some (reply, after)) :
    after.cache.recency =
      lruStep context.options.chunkSize context.capacity op shared.cache.recency := by
  cases op with
  | lookup key =>
      simp only [serve, Option.some.injEq, Prod.mk.injEq] at execution
      rw [← execution.2]
      exact (valid.lookup key).2
  | insert key data validSize =>
      simp only [serve, Option.some.injEq, Prod.mk.injEq] at execution
      rw [← execution.2]
      exact (valid.insert_order roomy permitted _ validSize).2
  | _ => exact congrArg _ (serve_quiet execution trivial)

/-! ## Rules -/

theorem alone_ret {α : Type} {post : α → Shared → Prop} {value : α} (established : post value shared) :
    context.Alone used files post (Prog.ret value) shared := by
  intro now (here : now = shared) _
  exact here ▸ established

theorem alone_bind {α β : Type} {middle : β → Shared → Prop} {post : α → Shared → Prop}
    {program : Run β} {continuation : β → Run α} (valid : SoloValid context used files shared)
    (holds : context.Alone used files middle program shared)
    (rest : ∀ value now, SoloValid context used files now → middle value now →
      context.Alone used files post (continuation value) now) :
    context.Alone used files post (program >>= continuation) shared :=
  Prog.Holds.bind valid (holds.mono rest)

/-- An operation that leaves the cache alone. -/
theorem alone_quiet {α : Type} {post : α → Shared → Prop} {op : Op} {next : Reply op → Run α}
    (valid : SoloValid context used files shared) (quiet : op.Quiet)
    (rest : ∀ choice reply after, SoloValid context used files after →
      after.cache = shared.cache →
        serve context.setup shared op choice = some (reply, after) →
          context.Alone used files post (next reply) after) :
    context.Alone used files post (Prog.perform op >>= next) shared := by
  intro now (here : now = shared) _
  subst here
  have permitted : insertsFresh op now := by
    cases op with
    | insert key data validSize => exact absurd quiet id
    | _ => trivial
  refine ⟨permitted, fun choice reply after _ execution => ?_⟩
  have same := serve_quiet execution quiet
  have valid' := valid.congr (serve_files execution) same
  exact ⟨valid', trivial, rest choice reply after valid' same execution⟩

theorem alone_updateStats {α : Type} {post : α → Shared → Prop} {update : Stats → Stats}
    {next : Unit → Run α} (valid : SoloValid context used files shared)
    (rest : ∀ after, SoloValid context used files after → after.cache = shared.cache →
      context.Alone used files post (next ()) after) :
    context.Alone used files post (Run.updateStats update >>= next) shared :=
  alone_quiet valid trivial fun _ _ after valid' same _ => rest after valid' same

theorem alone_lookup {α : Type} {post : α → Shared → Prop} {key : CacheKey}
    {next : Option CacheEntry → Run α} (valid : SoloValid context used files shared)
    (rest : ∀ found after, SoloValid context used files after →
      (∀ node, after.cache.table.lookup key = some node → found = some node.entry) →
        context.Alone used files post (next found) after) :
    context.Alone used files post (Run.lookup key >>= next) shared := by
  intro now (here : now = shared) _
  subst here
  refine ⟨trivial, fun choice found looked _ execution => ?_⟩
  simp only [serve, Option.some.injEq, Prod.mk.injEq] at execution
  have valid' := (valid.lookup key).1
  rw [← execution.2]
  refine ⟨valid', trivial, rest found _ valid' fun node present => ?_⟩
  rw [← execution.1]
  exact CacheDirectory.lookup_reflects present

theorem alone_insert {α : Type} {post : α → Shared → Prop} {key : CacheKey} {data : Bytes}
    {validSize : Nat} {next : Bool → Run α} (valid : SoloValid context used files shared)
    (roomy : context.options.chunkSize + context.options.dramCacheSize < 2 ^ 64)
    (absent : key ∉ shared.cache.table) {path : String} {content : Bytes}
    (path_used : path ∈ used) (named : context.setup.naming.fileIdFromPath path = key.fileId)
    (present : files (context.setup.naming.inode path) = some content)
    (length : validSize = chunkLength context.options.chunkSize key.chunkId content)
    (rest : ∀ inserted after, SoloValid context used files after →
      after.cache.recency = lruStep context.options.chunkSize context.capacity
        (.insert key data validSize) shared.cache.recency →
          context.Alone used files post (next inserted) after) :
    context.Alone used files post (Run.insert key data validSize >>= next) shared := by
  intro now (here : now = shared) _
  subst here
  refine ⟨absent, fun choice reply after _ execution => ?_⟩
  have order := valid.serve_recency roomy
    (show insertsFresh (.insert key data validSize) now from absent) execution
  simp only [serve, Option.some.injEq, Prod.mk.injEq] at execution
  rw [← execution.2] at order ⊢
  have valid' := valid.insert roomy absent (fun index => data.getD index 0) validSize path_used
    named present length
  exact ⟨valid', trivial, rest reply _ valid' order⟩

/-! ## Positioned reads -/

theorem alone_preadLoop {path : String} {offset size : Nat} {data content : Bytes}
    (valid : SoloValid context used files shared)
    (present : files (context.setup.naming.inode path) = some content)
    (small : content.length < 2 ^ 63) (bounded : offset < 2 ^ 64)
    (fits : data.length ≤ size) (read : data <+: content.drop offset)
    (begun : 0 < data.length → offset < 2 ^ 63) :
    context.Alone used files
      (fun full now => now.cache = shared.cache ∧
        (full.rc = .ok → full.data = slice content offset size))
      (preadLoop path offset size data) shared := by
  induction remaining : size - data.length using Nat.strong_induction_on
    generalizing data shared with
  | h remaining induction =>
      have inside := read.length_le
      rw [List.length_drop] at inside
      have exact_offset : (offset + data.length) % 2 ^ 64 = offset + data.length := by
        rcases Nat.eq_zero_or_pos data.length with none | some
        · rw [none, Nat.add_zero, Nat.mod_eq_of_lt bounded]
        · have := begun some
          exact Nat.mod_eq_of_lt (by omega)
      rw [preadLoop]
      split
      · rename_i more
        rw [exact_offset]
        refine alone_quiet valid trivial fun choice reply after valid' same execution => ?_
        have found : shared.content context.setup.naming path = some content := by
          rw [Shared.content, valid.files_eq, present]
        simp only [serve, found, Option.map_eq_some_iff, Prod.mk.injEq] at execution
        obtain ⟨outcome, read_once, rfl, rfl⟩ := execution
        cases outcome with
        | error => exact alone_ret ⟨rfl, by simp⟩
        | data bytes =>
            obtain ⟨range, exhausted, offset_small⟩ := pread_data read_once
            dsimp only
            split
            · rename_i empty
              refine alone_ret ⟨rfl, fun _ => ?_⟩
              have whole := slice_append content offset data.length (size - data.length)
              rw [exhausted (List.length_eq_zero_iff.mp empty), List.append_nil,
                ← eq_slice_of_front read, Nat.add_sub_cancel' fits] at whole
              exact whole
            · rename_i nonempty
              have step := range.length_le
              rw [length_slice] at step
              refine induction (size - (data ++ bytes).length) ?_ valid' ?_
                (append_prefix_drop read range) (fun _ => by omega) rfl
              · rw [List.length_append]
                omega
              · rw [List.length_append]
                omega
      · rename_i complete
        refine alone_ret ⟨rfl, fun _ => ?_⟩
        rw [show size = data.length by omega]
        exact eq_slice_of_front read

/-- A positioned read that succeeds delivers the whole range as far as the file goes. -/
theorem alone_posixPreadFull {path : String} {offset size : Nat}
    (valid : SoloValid context used files shared)
    (small : ∀ inode content, files inode = some content → content.length < 2 ^ 63)
    (bounded : offset < 2 ^ 64) :
    context.Alone used files
      (fun full now => now.cache = shared.cache ∧ (full.rc = .ok →
        ∃ content, files (context.setup.naming.inode path) = some content ∧
          full.data = slice content offset size))
      (posixPreadFull path offset size) shared := by
  refine alone_quiet valid trivial fun choice opened after valid' same execution => ?_
  simp only [serve, Option.some.injEq, Prod.mk.injEq] at execution
  obtain ⟨reply, rfl⟩ := execution
  cases opened with
  | false => exact alone_ret ⟨rfl, by simp⟩
  | true =>
      rw [Bool.and_eq_true, Shared.content, valid.files_eq] at reply
      obtain ⟨content, present⟩ := Option.isSome_iff_exists.mp reply.1
      rw [if_pos rfl]
      refine (alone_preadLoop valid present (small _ _ present) bounded (Nat.zero_le _)
        List.nil_prefix (by simp)).mono ?_
      exact fun full now _ outcome => ⟨outcome.1, fun ok => ⟨content, present, outcome.2 ok⟩⟩

/-! ## Pieces and requests -/

theorem alone_copyTarget {target : Target} {bytes : Bytes}
    (valid : SoloValid context used files shared) :
    context.Alone used files (fun _ now => now.cache = shared.cache)
      (copyTarget context target bytes) shared := by
  cases target with
  | cpu => exact alone_ret rfl
  | gpu =>
      refine alone_quiet valid trivial fun _ copied after valid' same _ => ?_
      cases copied with
      | false => exact alone_ret same
      | true =>
          cases context.options.asyncMode with
          | true => exact alone_ret same
          | false =>
              refine alone_quiet valid' trivial fun _ synchronised after' _ same' _ => ?_
              cases synchronised with
              | false => exact alone_ret (same'.trans same)
              | true => exact alone_ret (same'.trans same)

theorem alone_gdsRead {path : String} {offset size : Nat}
    (valid : SoloValid context used files shared)
    (small : ∀ inode content, files inode = some content → content.length < 2 ^ 63)
    (bounded : offset < 2 ^ 64) :
    context.Alone used files (fun _ now => now.cache = shared.cache)
      (gdsRead context path offset size) shared := by
  rw [gdsRead]
  split
  · exact alone_ret rfl
  · split
    · split
      · exact alone_ret rfl
      · exact (alone_posixPreadFull valid small bounded).mono fun _ _ _ outcome => outcome.1
    · split
      · exact alone_ret rfl
      · refine alone_quiet valid trivial fun _ reply after _ same _ => ?_
        cases reply with
        | none => exact alone_ret same
        | some bytes => exact alone_ret same

/-- Copying a delivered piece out and counting it. -/
theorem alone_handOver {target : Target} {bytes : Bytes} {update : Stats → Stats}
    (valid : SoloValid context used files shared) :
    context.Alone used files (fun _ _ => True)
      (do
        let rc ← copyTarget context target bytes
        if rc ≠ .ok then return .error rc
        Run.updateStats update
        return .ok bytes : Run (Except Err Bytes)) shared := by
  refine alone_bind valid (alone_copyTarget valid) fun rc now valid' _ => ?_
  split
  · exact alone_ret trivial
  · exact alone_updateStats valid' fun _ _ _ => alone_ret trivial

theorem alone_serveHit {target : Target} {piece : Piece} {entry : CacheEntry}
    (valid : SoloValid context used files shared) :
    context.Alone used files (fun _ _ => True) (serveHit context target piece entry) shared :=
  alone_handOver valid

theorem alone_serveGds {target : Target} {piece : Piece} {path : String}
    (valid : SoloValid context used files shared)
    (small : ∀ inode content, files inode = some content → content.length < 2 ^ 63)
    (bounded : piece.curOff < 2 ^ 64) :
    context.Alone used files (fun _ _ => True) (serveGds context path target piece) shared := by
  refine alone_bind valid (alone_gdsRead valid small bounded) fun attempt now valid' _ => ?_
  split
  · exact alone_handOver valid'
  · refine alone_bind valid' (alone_posixPreadFull valid' small bounded)
      fun full now' valid'' _ => ?_
    split
    · exact alone_ret trivial
    · split
      · exact alone_ret trivial
      · exact alone_handOver valid''

/-- A chunk is admitted only if it covers the request, and then no shorter one is resident. -/
theorem alone_servePosix {target : Target} {piece : Piece} {path : String} {key : CacheKey}
    {caching : Bool} (valid : SoloValid context used files shared)
    (use : SoloUse context used files) (path_used : path ∈ used)
    (fits : piece.Fits context.options.chunkSize)
    (named : key = ⟨context.setup.naming.fileIdFromPath path, piece.chunkId⟩)
    (short : ∀ node, shared.cache.table.lookup key = some node →
      node.entry.validSize < piece.inChunk + piece.need) :
    context.Alone used files (fun _ _ => True)
      (servePosix context path target piece key caching) shared := by
  have position := fits.position
  have bounded := fits.bounded
  simp only [servePosix]
  generalize readOff_eq :
    (if caching = true then piece.chunkId * context.options.chunkSize else piece.curOff) = readOff
  generalize readSize_eq :
    (if caching = true then context.options.chunkSize else piece.need) = readSize
  generalize srcOff_eq : (if caching = true then piece.inChunk else 0) = srcOff
  refine alone_bind valid (alone_posixPreadFull valid use.small ?_) ?_
  · rw [← readOff_eq]
    split <;> omega
  intro full now valid' outcome
  split
  · exact alone_ret trivial
  · rename_i succeeded
    obtain ⟨content, present, data⟩ := outcome.2 (not_not.mp succeeded)
    split
    · exact alone_ret trivial
    · rename_i enough
      refine alone_bind valid' (alone_copyTarget valid') fun rc copied valid'' same => ?_
      split
      · exact alone_ret trivial
      · split
        · rename_i admitted
          obtain rfl : caching = true := by
            rw [Bool.and_eq_true] at admitted
            exact admitted.1
          simp only [if_true] at readOff_eq readSize_eq srcOff_eq
          have length : full.data.length =
              chunkLength context.options.chunkSize key.chunkId content := by
            rw [data, length_slice, named, chunkLength, ← readOff_eq, ← readSize_eq]
          have absent : key ∉ copied.cache.table := by
            intro resident
            rw [same, outcome.1] at resident
            obtain ⟨node, found⟩ := Option.ne_none_iff_exists'.mp
              (mt AList.lookup_eq_none.mp (not_not_intro resident))
            obtain ⟨other, other_used, same_id, content', present', validSize⟩ :=
              valid.entries key node found
            rw [named] at same_id
            rw [use.injective other other_used path path_used same_id, present] at present'
            obtain rfl := Option.some.inj present'
            have := short node found
            omega
          refine alone_insert valid'' use.roomy absent path_used (by rw [named]) present length ?_
          exact fun _ _ valid₃ _ => alone_updateStats valid₃ fun _ _ _ => alone_ret trivial
        · exact alone_updateStats valid'' fun _ _ _ => alone_ret trivial

theorem alone_readPiece {target : Target} {piece : Piece} {path : String}
    (valid : SoloValid context used files shared) (use : SoloUse context used files)
    (path_used : path ∈ used) (fits : piece.Fits context.options.chunkSize) :
    context.Alone used files (fun _ _ => True) (readPiece context path target piece) shared := by
  refine alone_lookup valid fun found looked valid' reflects => ?_
  dsimp only
  generalize hit_eq :
    (found.isSome && decide (piece.inChunk + piece.need ≤ (found.getD default).validSize)) = hit
  refine alone_updateStats valid' fun counted valid'' same => ?_
  -- A resident entry that is not a hit is too short for the piece.
  have short : selectPath hit piece.curOff piece.need context.options ≠ .dramHit →
      ∀ node, counted.cache.table.lookup
          ⟨context.setup.naming.fileIdFromPath path, piece.chunkId⟩ = some node →
        node.entry.validSize < piece.inChunk + piece.need := by
    intro missed node present
    rw [same] at present
    by_contra covered
    refine missed ?_
    rw [reflects node present] at hit_eq
    rw [← hit_eq]
    simpa [Nat.not_lt.mp covered] using selectPath_hit use.cached
  cases selected : selectPath hit piece.curOff piece.need context.options with
  | dramHit => exact alone_serveHit valid''
  | gdsRead => exact alone_serveGds valid'' use.small fits.bounded
  | gdsStubFallback => exact alone_serveGds valid'' use.small fits.bounded
  | posixRead =>
      exact alone_servePosix valid'' use path_used fits rfl
        (short (by rw [selected]; nofun))
  | posixReadThenCache =>
      exact alone_servePosix valid'' use path_used fits rfl
        (short (by rw [selected]; nofun))

theorem alone_readLoop {target : Target} {path : String} {offset size copied : Nat} {out : Bytes}
    (valid : SoloValid context used files shared) (use : SoloUse context used files)
    (path_used : path ∈ used) :
    context.Alone used files (fun _ _ => True)
      (readLoop context path target offset size copied out) shared := by
  induction remaining : size - copied using Nat.strong_induction_on
    generalizing copied out shared with
  | h remaining induction =>
      rw [readLoop]
      split
      · rename_i more
        have fits := @pieceAt_fits context.options.chunkSize offset size copied
          context.chunkSize_pos more
        have nonempty := fits.nonempty
        refine alone_bind valid (alone_readPiece valid use path_used fits) ?_
        intro outcome now valid' _
        cases outcome with
        | error rc => exact alone_ret trivial
        | ok bytes => exact induction _ (by omega) valid' rfl
      · exact alone_updateStats valid fun _ _ _ => alone_ret trivial

theorem alone_doReadImpl {args : ReadArgs} (valid : SoloValid context used files shared)
    (use : SoloUse context used files)
    (paths_used : ∀ path, args.path = some path → path ∈ used) :
    context.Alone used files (fun _ _ => True) (doReadImpl context args) shared := by
  rw [doReadImpl]
  cases named : args.path with
  | none => exact alone_ret trivial
  | some path =>
      dsimp only
      split_ifs
      · exact alone_ret trivial
      · exact alone_ret trivial
      · exact alone_readLoop valid use (paths_used path named)

/-- The chunks of a range from `done` on. -/
def Context.chunkKeys (context : Context) (path : String) (offset size done : Nat) :
    List CacheKey :=
  (context.pieces offset size done).map fun piece =>
    ⟨context.setup.naming.fileIdFromPath path, piece.chunkId⟩

/-- A prefetch that succeeds on a range inside the file brings in the chunks that are missing. -/
theorem alone_prefetchLoop {path : String} {offset size done : Nat}
    (valid : SoloValid context used files shared) (use : SoloUse context used files)
    (path_used : path ∈ used) :
    context.Alone used files
      (fun rc now => rc = .ok → ∀ content, files (context.setup.naming.inode path) = some content →
        offset + size ≤ content.length →
          now.cache.recency = Recency.fill context.capacity
            (context.chunkKeys path offset size done) shared.cache.recency)
      (prefetchLoop context path offset size done) shared := by
  induction remaining : size - done using Nat.strong_induction_on
    generalizing done shared with
  | h remaining induction =>
      rw [prefetchLoop]
      split
      · rename_i more
        have fits := @pieceAt_fits context.options.chunkSize offset size done
          context.chunkSize_pos more
        have nonempty := fits.nonempty
        have position := fits.position
        have bounded := fits.bounded
        rw [Context.chunkKeys, Context.pieces_of_more more, List.map_cons, Recency.fill]
        refine alone_quiet valid trivial fun _ resident now valid' same execution => ?_
        simp only [serve, Option.some.injEq, Prod.mk.injEq, CacheDirectory.contains] at execution
        cases resident with
        | true =>
            rw [if_pos ((valid.accurate.keys _).mpr (AList.lookup_isSome.mp execution.1)), ← same]
            exact induction _ (by omega) valid' rfl
        | false =>
            have absent : _ ∉ shared.cache.table :=
              AList.lookup_eq_none.mp (Option.not_isSome_iff_eq_none.mp (by rw [execution.1]; simp))
            rw [if_neg (mt (valid.accurate.keys _).mp absent), ← same]
            refine alone_bind valid' (alone_posixPreadFull valid' use.small (by omega)) ?_
            intro full now' valid'' outcome
            split
            · rename_i failed
              exact alone_ret fun succeeded => absurd succeeded failed
            · rename_i succeeded
              obtain ⟨content, present, data⟩ := outcome.2 (not_not.mp succeeded)
              have length : full.data.length = chunkLength context.options.chunkSize
                  (pieceAt context.options.chunkSize offset size done).chunkId content := by
                rw [data, length_slice, chunkLength]
              refine alone_insert valid'' use.roomy ?_ path_used rfl present length ?_
              · rw [outcome.1, same]
                exact absent
              · intro _ after valid₃ order
                refine alone_updateStats valid₃ fun counted valid₄ same' => ?_
                refine (induction _ (by omega) valid₄ rfl).mono fun rc later _ filled ok content'
                  present' inside => ?_
                rw [filled ok content' present' inside, same', order, lruStep, outcome.1, if_neg]
                · rfl
                · obtain rfl := Option.some.inj (present.symm.trans present')
                  have small := use.small _ _ present
                  have positive := context.chunkSize_pos
                  have within : (pieceAt context.options.chunkSize offset size done).curOff <
                      content.length := by
                    simp only [pieceAt]
                    rw [Nat.mod_eq_of_lt (by omega)]
                    omega
                  rw [length, chunkLength]
                  omega
      · rw [Context.chunkKeys, Context.pieces_of_done (Nat.not_lt.mp ‹_›)]
        exact alone_updateStats valid fun _ _ same => alone_ret fun _ _ _ _ => by rw [same]; rfl

theorem alone_memtierPrefetch {args : PrefetchArgs} (valid : SoloValid context used files shared)
    (use : SoloUse context used files)
    (paths_used : ∀ path, args.path = some path → path ∈ used) :
    context.Alone used files (fun _ _ => True) (memtierPrefetch context args) shared := by
  rw [memtierPrefetch]
  cases named : args.path with
  | none => exact alone_ret trivial
  | some path =>
      dsimp only
      split_ifs
      · exact alone_ret trivial
      · exact alone_ret trivial
      · exact alone_ret trivial
      · exact (alone_prefetchLoop valid use (paths_used path named)).mono fun _ _ _ _ => trivial

theorem alone_copyItems {target : Target} {base : UInt64} {tmp : Bytes} {items : List Item}
    (valid : SoloValid context used files shared) :
    context.Alone used files (fun _ _ => True) (copyItems context target base tmp items)
      shared := by
  induction items generalizing shared with
  | nil => exact alone_ret trivial
  | cons item rest induction =>
      refine alone_bind valid (alone_copyTarget valid) fun rc now valid' _ => ?_
      split
      · exact alone_ret trivial
      · exact alone_bind valid' (induction valid') fun _ _ _ _ => alone_ret trivial

theorem alone_readvLoop {target : Target} {formed : List Group}
    (valid : SoloValid context used files shared) (use : SoloUse context used files)
    (paths_used : ∀ group ∈ formed, group.path ∈ used) :
    context.Alone used files (fun _ _ => True) (readvLoop context target formed) shared := by
  induction formed generalizing shared with
  | nil => exact alone_ret trivial
  | cons group rest induction =>
      rw [List.forall_mem_cons] at paths_used
      refine alone_bind valid (alone_doReadImpl valid use ?_) fun result now valid' _ => ?_
      · rintro path ⟨⟩
        exact paths_used.1
      dsimp only
      split
      · exact alone_ret trivial
      · refine alone_bind valid' (alone_copyItems valid') fun copied now' valid'' _ => ?_
        split
        · exact alone_ret trivial
        · exact alone_bind valid'' (induction valid'' paths_used.2)
            fun _ _ _ _ => alone_ret trivial

theorem alone_memtierReadv {sorter : Sorter} {args : ReadvArgs}
    (valid : SoloValid context used files shared) (use : SoloUse context used files)
    (paths_used : ∀ range ∈ args.ranges, ∀ path, range.path = some path → path ∈ used) :
    context.Alone used files (fun _ _ => True) (memtierReadv context sorter args) shared := by
  rw [memtierReadv]
  split
  · exact alone_ret trivial
  · split
    · exact alone_ret trivial
    · rename_i items checked
      refine alone_bind valid (alone_readvLoop valid use ?_) fun result now valid' _ => ?_
      · exact group_path_mem checked paths_used
      · split
        · exact alone_ret trivial
        · exact alone_updateStats valid' fun _ _ _ => alone_ret trivial

theorem alone_program {sorter : Sorter} {call : ApiCall}
    (valid : SoloValid context used files shared) (use : SoloUse context used files)
    (uses : call.Uses used) :
    context.Alone used files (fun _ _ => True) (call.program context sorter) shared := by
  cases call with
  | read args => exact Prog.Holds.map (alone_doReadImpl valid use uses)
  | prefetch args => exact Prog.Holds.map (alone_memtierPrefetch valid use uses)
  | readv args => exact Prog.Holds.map (alone_memtierReadv valid use uses)

end

/-! ## Sequential runs -/

/-- A context used by one thread, beside the reference cache. -/
structure Session where
  shared : Shared
  /-- The call in progress. -/
  running : Option (Run ApiResult)
  reference : List CacheKey

/-- What a single thread can do next. -/
inductive SessionEvent where
  /-- Enter the next call. -/
  | invoke (call : ApiCall)
  /-- Issue the next operation of the call, or return from it. -/
  | step (choice : Choice)

/-- Calls name used files only; system calls may fail. -/
def SessionEvent.Admissible (used : Set String) : SessionEvent → Prop
  | .invoke call => call.Uses used
  | .step _ => True

namespace Session

/-- A context right after `memtier_init`; the reference cache is empty. -/
def initial (context : Context) (files : Files) : Session where
  shared := context.initial files
  running := none
  reference := []

/-- The effect of an event; `none` if it cannot happen. -/
def next (context : Context) (sorter : Sorter) (session : Session) :
    SessionEvent → Option Session
  | .invoke call =>
      match session.running with
      | none => some { session with running := some (call.program context sorter) }
      | some _ => none
  | .step choice =>
      match session.running with
      | none => none
      | some (.ret _) => some { session with running := none }
      | some (.call op continuation) =>
          match serve context.setup session.shared op choice with
          | none => some session
          | some (reply, after) =>
              some
                { shared := after
                  running := some (continuation reply)
                  reference :=
                    lruStep context.options.chunkSize context.capacity op session.reference }

/-- States of sequential use from `memtier_init` on. -/
inductive Reachable (context : Context) (sorter : Sorter) (used : Set String) (files : Files) :
    Session → Prop
  | init : Reachable context sorter used files (initial context files)
  | next {session after : Session} {event : SessionEvent} :
      Reachable context sorter used files session → event.Admissible used →
        session.next context sorter event = some after →
          Reachable context sorter used files after

/-- The state after a sequence of events, if all of them can happen. -/
def run (context : Context) (sorter : Sorter) (session : Session) (events : List SessionEvent) :
    Option Session :=
  events.foldlM (next context sorter) session

theorem Reachable.run {context : Context} {sorter : Sorter} {used : Set String} {files : Files}
    {session after : Session} {events : List SessionEvent}
    (reachable : Reachable context sorter used files session)
    (admissible : ∀ event ∈ events, event.Admissible used)
    (happens : session.run context sorter events = some after) :
    Reachable context sorter used files after := by
  induction events generalizing session with
  | nil => exact Option.some.inj happens ▸ reachable
  | cons event rest induction =>
      rw [List.forall_mem_cons] at admissible
      rw [Session.run, List.foldlM_cons] at happens
      obtain ⟨middle, first, later⟩ := Option.bind_eq_some_iff.mp happens
      exact induction (.next reachable admissible.1 first) admissible.2 later

/-- The invariant of sequential use. -/
structure Orderly (context : Context) (used : Set String) (files : Files) (session : Session) :
    Prop where
  valid : SoloValid context used files session.shared
  running : ∀ program, session.running = some program →
    context.Alone used files (fun _ _ => True) program session.shared
  reference : session.shared.cache.recency = session.reference

theorem orderly_initial (context : Context) (used : Set String) (files : Files) :
    (initial context files).Orderly context used files where
  valid :=
    { files_eq := rfl
      chunkSize := rfl
      cacheSizeBytes := rfl
      accurate := CacheDirectory.accurate_new _ _
      entries := by
        intro key node found
        simp [initial, Context.initial, CacheDirectory.new] at found }
  running := nofun
  reference := rfl

section

variable {context : Context} {sorter : Sorter} {used : Set String} {files : Files}
  {session after : Session}

theorem Orderly.invoke {call : ApiCall} (orderly : session.Orderly context used files)
    (use : SoloUse context used files) (uses : call.Uses used)
    (happens : session.next context sorter (.invoke call) = some after) :
    after.Orderly context used files := by
  simp only [next] at happens
  split at happens
  · obtain rfl := Option.some.inj happens
    refine ⟨orderly.valid, ?_, orderly.reference⟩
    rintro _ ⟨⟩
    exact alone_program orderly.valid use uses
  · simp at happens

theorem Orderly.step {choice : Choice} (orderly : session.Orderly context used files)
    (use : SoloUse context used files)
    (happens : session.next context sorter (.step choice) = some after) :
    after.Orderly context used files := by
  simp only [next] at happens
  split at happens
  · simp at happens
  · obtain rfl := Option.some.inj happens
    exact ⟨orderly.valid, nofun, orderly.reference⟩
  · rename_i op continuation standing
    split at happens
    · exact Option.some.inj happens ▸ orderly
    · rename_i reply shared execution
      obtain rfl := Option.some.inj happens
      obtain ⟨permitted, progress⟩ := orderly.running _ standing session.shared rfl orderly.valid
      obtain ⟨valid, -, rest⟩ := progress choice reply shared trivial execution
      refine ⟨valid, ?_, ?_⟩
      · rintro _ ⟨⟩
        exact rest
      · rw [orderly.valid.serve_recency use.roomy permitted execution, orderly.reference]

theorem Reachable.orderly (reachable : Reachable context sorter used files session)
    (use : SoloUse context used files) : session.Orderly context used files := by
  induction reachable with
  | init => exact orderly_initial context used files
  | @next session after event _ admissible happens induction =>
      cases event with
      | invoke call => exact induction.invoke use admissible happens
      | step choice => exact induction.step use happens

end

end Session

/-- The DRAM tier is exact LRU in sequential use.  In every state of every sequential run over
immutable files, the recency list is that of the reference cache and lists exactly the resident
keys, and an insert that is about to be issued is of a key that is not resident. -/
theorem cache_exact_lru (context : Context) (sorter : Sorter) (used : Set String) (files : Files)
    (injective : context.setup.naming.InjectiveOn used)
    (small : ∀ inode content, files inode = some content → content.length < 2 ^ 63)
    (roomy : context.options.chunkSize + context.options.dramCacheSize < 2 ^ 64)
    (cached : context.options.bypassCache = false) (session : Session)
    (reachable : Session.Reachable context sorter used files session) :
    session.shared.cache.recency = session.reference ∧ session.reference.Nodup ∧
      (∀ key, key ∈ session.shared.cache.table ↔ key ∈ session.reference) ∧
      ∀ key data validSize continuation,
        session.running = some (.call (.insert key data validSize) continuation) →
          key ∉ session.shared.cache.table := by
  have orderly := reachable.orderly ⟨injective, small, roomy, cached⟩
  have accurate := orderly.valid.accurate
  refine ⟨orderly.reference, orderly.reference ▸ accurate.distinct, fun key => ?_, ?_⟩
  · rw [← orderly.reference, accurate.keys]
  · intro key data validSize continuation standing
    exact (orderly.running _ standing session.shared rfl orderly.valid).1

/-- Three chunks are read through a cache of two, the first of them again in between. -/
theorem cache_exact_lru_eviction :
    let context := Context.small id
    ∃ session, Session.Reachable context .insertion {"a"}
        (Files.single [1, 2, 3, 4, 5, 6, 7, 8, 9, 10, 11, 12]) session ∧
      session.reference = [⟨1, 2⟩, ⟨1, 0⟩] ∧ session.shared.cache.recency = session.reference := by
  intro context
  let read (offset : UInt64) : ApiCall :=
    .read { path := some "a", offset, size := 4, dstNull := false, target := .cpu }
  let events : List SessionEvent :=
    [(0, 8), (4, 8), (0, 5), (8, 6)].flatMap fun (offset, steps) =>
      .invoke (read offset) :: List.replicate steps (.step (.take 4))
  have evaluated : ((Session.initial context
      (Files.single [1, 2, 3, 4, 5, 6, 7, 8, 9, 10, 11, 12])).run context .insertion events).map
        Session.reference = some [⟨1, 2⟩, ⟨1, 0⟩] := by
    decide +kernel
  obtain ⟨session, happens, reference⟩ := Option.map_eq_some_iff.mp evaluated
  have reachable : Session.Reachable context .insertion {"a"}
      (Files.single [1, 2, 3, 4, 5, 6, 7, 8, 9, 10, 11, 12]) session := by
    refine Session.Reachable.run .init ?_ happens
    simp [events, read, SessionEvent.Admissible, ApiCall.Uses, or_imp, forall_and]
  refine ⟨session, reachable, reference, ?_⟩
  exact (cache_exact_lru context .insertion {"a"} _ (fun _ _ _ _ _ => rfl)
    (Files.single_small (by norm_num)) (by decide) rfl session reachable).1

end MemTier
