import MemTier.Runtime.Readv

/-!
# What threads of a context may rely on

Files only grow, and every cached entry holds bytes of its file.  Under this discipline the
positioned reads of a thread deliver true bytes, and a short result means that the file ended
there when the read began.
-/

namespace MemTier

open Containers Resumption

/-- Every file of the first state is a prefix of the same file in the second. -/
def Files.Grows (before after : Files) : Prop :=
  ∀ inode,
    (∀ content, before inode = some content →
      ∃ grown, after inode = some grown ∧ content <+: grown) ∧
    (before inode = none → after inode = none)

theorem Files.Grows.refl (files : Files) : files.Grows files := fun _ =>
  ⟨fun content present => ⟨content, present, List.prefix_rfl⟩, id⟩

theorem Files.Grows.trans {first second third : Files} (left : first.Grows second)
    (right : second.Grows third) : first.Grows third := by
  intro inode
  constructor
  · intro content present
    obtain ⟨grown, present', growth⟩ := (left inode).1 content present
    obtain ⟨final, present'', growth'⟩ := (right inode).1 grown present'
    exact ⟨final, present'', growth.trans growth'⟩
  · exact fun absent => (right inode).2 ((left inode).2 absent)

/-- How files may change between two steps of a thread. -/
structure Interference where
  allows : Files → Files → Prop
  refl : ∀ files, allows files files
  trans : ∀ {first second third}, allows first second → allows second third → allows first third
  grows : ∀ {before after}, allows before after → before.Grows after

/-- Files are append-only. -/
def Interference.appending : Interference where
  allows := Files.Grows
  refl := Files.Grows.refl
  trans := Files.Grows.trans
  grows := id

/-- Files are immutable. -/
def Interference.frozen : Interference where
  allows before after := after = before
  refl _ := rfl
  trans left right := right.trans left
  grows := by
    rintro before after rfl
    exact Files.Grows.refl _

/-- The valid part of an entry is the beginning of its chunk in the content. -/
def CacheEntry.HoldsBytes (chunkSize : Nat) (key : CacheKey) (content : Bytes)
    (entry : CacheEntry) : Prop :=
  key.chunkId * chunkSize + entry.validSize ≤ content.length ∧
    entry.data.take entry.validSize = slice content (key.chunkId * chunkSize) entry.validSize

theorem CacheEntry.HoldsBytes.grow {chunkSize : Nat} {key : CacheKey} {content grown : Bytes}
    {entry : CacheEntry} (holds : entry.HoldsBytes chunkSize key content)
    (growth : content <+: grown) : entry.HoldsBytes chunkSize key grown :=
  ⟨holds.1.trans growth.length_le, by rw [holds.2, slice_of_grown growth holds.1]⟩

/-- An entry holds bytes of a used file with the identifier of its key. -/
def EntryValid (context : Context) (used : Set String) (files : Files) (key : CacheKey)
    (entry : CacheEntry) : Prop :=
  ∃ path ∈ used, context.setup.naming.fileIdFromPath path = key.fileId ∧
    ∃ content, files (context.setup.naming.inode path) = some content ∧
      entry.HoldsBytes context.options.chunkSize key content

theorem EntryValid.grow {context : Context} {used : Set String} {before after : Files}
    {key : CacheKey} {entry : CacheEntry} (valid : EntryValid context used before key entry)
    (growth : before.Grows after) : EntryValid context used after key entry := by
  obtain ⟨path, path_used, named, content, present, holds⟩ := valid
  obtain ⟨grown, present', longer⟩ := (growth _).1 content present
  exact ⟨path, path_used, named, grown, present', holds.grow longer⟩

/-- The invariant of the shared state: sizes are those of the context, files can be addressed by
`off_t`, and every cached entry is valid. -/
structure SharedValid (context : Context) (used : Set String) (shared : Shared) : Prop where
  chunkSize : shared.cache.chunkSize = context.options.chunkSize
  small : ∀ inode content, shared.files inode = some content → content.length < 2 ^ 63
  entries : ∀ key node, shared.cache.table.lookup key = some node →
    EntryValid context used shared.files key node.entry

/-- The discipline the threads of a context keep. -/
def sharing (context : Context) (used : Set String) (interference : Interference) :
    Discipline Shared Choice Op where
  inv := SharedValid context used
  rely before after := interference.allows before.files after.files
  guarantee before after := after.files = before.files
  legal := Choice.Reliable
  permits _ _ := True
  rely_refl _ := interference.refl _
  rely_trans := interference.trans

/-! ## Cache operations keep entries valid -/

theorem CacheDirectory.makeRoom_lookup {directory : CacheDirectory} {key : CacheKey} {node : Node}
    (present : directory.makeRoom.table.lookup key = some node) :
    directory.table.lookup key = some node := by
  induction directory using makeRoom_induction with
  | stop directory fits => rwa [makeRoom_of_fits fits] at present
  | round directory evict induction =>
      rw [makeRoom_of_mustEvict evict] at present
      have kept := induction present
      obtain ⟨victim, -, ⟨-, popped⟩ | ⟨found, -, evicted⟩⟩ := evictBack_cases evict.2
      · rwa [popped] at kept
      · rw [evicted] at kept
        have other : key ≠ victim := by
          rintro rfl
          simp at kept
        rwa [AList.lookup_erase_ne other] at kept

theorem SharedValid.lookup {context : Context} {used : Set String} {shared : Shared}
    (valid : SharedValid context used shared) (key : CacheKey) :
    SharedValid context used { shared with cache := (shared.cache.lookup key).2 } ∧
      ∀ entry, (shared.cache.lookup key).1 = some entry →
        EntryValid context used shared.files key entry := by
  cases present : shared.cache.table.lookup key with
  | none =>
      rw [CacheDirectory.lookup_of_none present]
      exact ⟨valid, fun _ found => absurd found nofun⟩
  | some node =>
      rw [CacheDirectory.lookup_of_some present]
      have here := valid.entries key node present
      refine ⟨⟨valid.chunkSize, valid.small, ?_⟩, ?_⟩
      · intro other found lookup
        by_cases same : other = key
        · subst same
          simp only [CacheDirectory.touch, AList.lookup_insert, Option.some.injEq] at lookup
          subst lookup
          exact here
        · simp only [CacheDirectory.touch, AList.lookup_insert_ne same] at lookup
          exact valid.entries other found lookup
      · intro entry found
        simp only [Option.some.injEq] at found
        subst found
        exact here

/-- Inserting a chunk that was read from the file keeps the invariant. -/
theorem SharedValid.insert {context : Context} {used : Set String} {shared : Shared}
    (valid : SharedValid context used shared) {key : CacheKey} {path : String} {content data : Bytes}
    (path_used : path ∈ used) (named : context.setup.naming.fileIdFromPath path = key.fileId)
    (present : shared.content context.setup.naming path = some content)
    (read : data <+: content.drop (key.chunkId * context.options.chunkSize))
    (fits : data.length ≤ context.options.chunkSize) :
    SharedValid context used
      { shared with
        cache := (shared.cache.insert key
          (some fun index => (zeroFill context.options.chunkSize data).getD index 0)
          data.length).2 } := by
  cases accepted : (shared.cache.insert key
      (some fun index => (zeroFill context.options.chunkSize data).getD index 0) data.length).1 with
  | false =>
      rw [CacheDirectory.insert_of_refused accepted]
      exact valid
  | true =>
      obtain ⟨bytes, given, admitted, inserted⟩ := CacheDirectory.insert_of_accepted accepted
      rw [inserted]
      have sizes := CacheDirectory.makeRoom_sizes shared.cache
      refine ⟨sizes.1.trans valid.chunkSize, valid.small, ?_⟩
      intro other found lookup
      by_cases same : other = key
      · subst same
        simp only [CacheDirectory.store, AList.lookup_insert, Option.some.injEq] at lookup
        subst lookup
        have length := read.length_le
        rw [List.length_drop] at length
        have nonempty := admitted.1
        refine ⟨path, path_used, named, content, present, by dsimp only; omega, ?_⟩
        have bytes_eq : (List.range shared.cache.makeRoom.chunkSize).map bytes =
            zeroFill context.options.chunkSize data := by
          rw [← Option.some.inj given, sizes.1, valid.chunkSize]
          exact map_getD_range (length_zeroFill fits)
        dsimp only
        rw [bytes_eq, take_zeroFill]
        exact eq_slice_of_front read
      · simp only [CacheDirectory.store, AList.lookup_insert_ne same] at lookup
        exact valid.entries other found (CacheDirectory.makeRoom_lookup lookup)

/-! ## Rules for the operations -/

/-- A program keeps to the discipline of a context. -/
abbrev Context.Keeps (context : Context) (used : Set String) (interference : Interference)
    {α : Type} (post : α → Shared → Prop) (program : Run α) (shared : Shared) : Prop :=
  Prog.Holds (serve context.setup) (sharing context used interference) post program shared

section

variable {context : Context} {used : Set String} {interference : Interference} {α : Type}
  {post : α → Shared → Prop} {shared : Shared}

/-- A state the other threads may have reached, with the invariant. -/
structure Follows (context : Context) (used : Set String) (interference : Interference)
    (before after : Shared) : Prop where
  allowed : interference.allows before.files after.files
  valid : SharedValid context used after

theorem Follows.refl (valid : SharedValid context used shared) :
    Follows context used interference shared shared :=
  ⟨interference.refl _, valid⟩

theorem Follows.trans {first second third : Shared}
    (left : Follows context used interference first second)
    (right : Follows context used interference second third) :
    Follows context used interference first third :=
  ⟨interference.trans left.allowed right.allowed, right.valid⟩

/-- Contents only grow. -/
theorem Follows.content {before after : Shared}
    (follows : Follows context used interference before after) {path : String} {content : Bytes}
    (present : before.content context.setup.naming path = some content) :
    ∃ grown, after.content context.setup.naming path = some grown ∧ content <+: grown :=
  (interference.grows follows.allowed _).1 content present

/-- A content that is there now was there before, possibly shorter. -/
theorem Follows.content_before {before after : Shared}
    (follows : Follows context used interference before after) {path : String} {grown : Bytes}
    (present : after.content context.setup.naming path = some grown) :
    ∃ content, before.content context.setup.naming path = some content ∧ content <+: grown := by
  cases earlier : before.content context.setup.naming path with
  | none =>
      have missing := (interference.grows follows.allowed _).2 earlier
      exact absurd (missing.symm.trans present) nofun
  | some content =>
      obtain ⟨later, present', growth⟩ := follows.content earlier
      obtain rfl := Option.some.inj (present'.symm.trans present)
      exact ⟨content, rfl, growth⟩

theorem keeps_ret {value : α}
    (established : ∀ later, Follows context used interference shared later → post value later) :
    context.Keeps used interference post (Prog.ret value) shared :=
  fun later allowed valid => established later ⟨allowed, valid⟩

/-- Own steps do not change files, so a whole run stays within what may happen to them. -/
theorem keeps_mono {stronger : α → Shared → Prop} {program : Run α}
    (holds : context.Keeps used interference stronger program shared)
    (weaken : ∀ value now, Follows context used interference shared now → stronger value now →
      post value now) :
    context.Keeps used interference post program shared := by
  have own : ∀ before after : Shared, after.files = before.files →
      interference.allows before.files after.files := by
    intro before after same
    rw [same]
    exact interference.refl _
  refine (Prog.Holds.track own holds (interference.refl shared.files)).mono ?_
  exact fun value now kept established => weaken value now ⟨established.2, kept⟩ established.1

theorem keeps_bind {β : Type} {middle : β → Shared → Prop} {program : Run β}
    {continuation : β → Run α} (valid : SharedValid context used shared)
    (holds : context.Keeps used interference middle program shared)
    (rest : ∀ value now, Follows context used interference shared now → middle value now →
      context.Keeps used interference post (continuation value) now) :
    context.Keeps used interference post (program >>= continuation) shared :=
  Prog.Holds.bind valid (keeps_mono holds rest)

/-- One operation: it keeps the invariant, and the rest starts where it leaves the state. -/
theorem keeps_call {op : Op} {next : Reply op → Run α}
    (step : ∀ now, Follows context used interference shared now →
      ∀ choice reply after, choice.Reliable →
        serve context.setup now op choice = some (reply, after) →
          SharedValid context used after ∧
            (Follows context used interference shared after →
              context.Keeps used interference post (next reply) after)) :
    context.Keeps used interference post (Prog.call op next) shared := by
  intro now allowed valid
  refine ⟨trivial, fun choice reply after reliable execution => ?_⟩
  have files := serve_files execution
  obtain ⟨kept, rest⟩ := step now ⟨allowed, valid⟩ choice reply after reliable execution
  exact ⟨kept, files, rest ⟨files ▸ allowed, kept⟩⟩

theorem keeps_updateStats {update : Stats → Stats} {next : Unit → Run α}
    (rest : ∀ after, Follows context used interference shared after →
      context.Keeps used interference post (next ()) after) :
    context.Keeps used interference post (Run.updateStats update >>= next) shared := by
  refine keeps_call fun now follows choice reply after reliable execution => ?_
  simp only [serve, Option.some.injEq, Prod.mk.injEq] at execution
  rw [← execution.2]
  exact ⟨⟨follows.valid.chunkSize, follows.valid.small, follows.valid.entries⟩, rest _⟩

theorem keeps_contains {key : CacheKey} {next : Bool → Run α}
    (rest : ∀ resident after, Follows context used interference shared after →
      context.Keeps used interference post (next resident) after) :
    context.Keeps used interference post (Run.contains key >>= next) shared := by
  refine keeps_call fun now follows choice reply after reliable execution => ?_
  simp only [serve, Option.some.injEq, Prod.mk.injEq] at execution
  rw [← execution.2]
  exact ⟨follows.valid, rest reply _⟩

/-- A lookup finds valid entries only. -/
theorem keeps_lookup {key : CacheKey} {next : Option CacheEntry → Run α}
    (rest : ∀ found after, Follows context used interference shared after →
      (∀ entry, found = some entry → EntryValid context used after.files key entry) →
        context.Keeps used interference post (next found) after) :
    context.Keeps used interference post (Run.lookup key >>= next) shared := by
  refine keeps_call fun now follows choice reply after reliable execution => ?_
  simp only [serve, Option.some.injEq, Prod.mk.injEq] at execution
  obtain ⟨valid, sound⟩ := follows.valid.lookup key
  rw [← execution.2]
  refine ⟨valid, fun follows' => rest reply _ follows' fun entry found => ?_⟩
  exact sound entry (execution.1.trans found)

/-- What may be inserted: the beginning of a chunk of a used file. -/
theorem keeps_insert {key : CacheKey} {data : Bytes} {next : Bool → Run α} {path : String}
    {content : Bytes} (path_used : path ∈ used)
    (named : context.setup.naming.fileIdFromPath path = key.fileId)
    (present : shared.content context.setup.naming path = some content)
    (read : data <+: content.drop (key.chunkId * context.options.chunkSize))
    (fits : data.length ≤ context.options.chunkSize)
    (rest : ∀ inserted after, Follows context used interference shared after →
      context.Keeps used interference post (next inserted) after) :
    context.Keeps used interference post
      (Run.insert key (zeroFill context.options.chunkSize data) data.length >>= next) shared := by
  refine keeps_call fun now follows choice reply after reliable execution => ?_
  simp only [serve, Option.some.injEq, Prod.mk.injEq] at execution
  obtain ⟨grown, present', growth⟩ := follows.content present
  rw [← execution.2]
  exact ⟨follows.valid.insert path_used named present' (read.trans (growth.drop _)) fits,
    rest reply _⟩

/-- Opening a file succeeds exactly when it is there. -/
theorem keeps_openFile {path : String} {next : Bool → Run α}
    (rest : ∀ opened after, Follows context used interference shared after →
      (opened = true ↔ (after.content context.setup.naming path).isSome) →
        context.Keeps used interference post (next opened) after) :
    context.Keeps used interference post (Run.openFile path >>= next) shared := by
  refine keeps_call fun now follows choice reply after reliable execution => ?_
  simp only [serve, Option.some.injEq, Prod.mk.injEq] at execution
  have usable : (choice != Choice.fail) = true := bne_iff_ne.mpr reliable
  rw [← execution.2]
  refine ⟨follows.valid, fun follows' => rest reply _ follows' ?_⟩
  rw [← execution.1, usable, Bool.and_true]

/-- A positioned read delivers a prefix of the range, or the offset is negative. -/
theorem keeps_pread {path : String} {count offset : Nat} {next : PreadReply → Run α}
    (opened : (shared.content context.setup.naming path).isSome)
    (rest : ∀ reply after content, Follows context used interference shared after →
      after.content context.setup.naming path = some content → content.length < 2 ^ 63 →
        (reply = .error → 2 ^ 63 ≤ offset) →
          (∀ bytes, reply = .data bytes → bytes <+: slice content offset count ∧
            (bytes = [] → slice content offset count = []) ∧ offset < 2 ^ 63) →
              context.Keeps used interference post (next reply) after) :
    context.Keeps used interference post (Run.pread path count offset >>= next) shared := by
  refine keeps_call fun now follows choice reply after reliable execution => ?_
  obtain ⟨content, present⟩ := Option.isSome_iff_exists.mp opened
  obtain ⟨grown, present', -⟩ := follows.content present
  simp only [serve, present', Option.map_eq_some_iff, Prod.mk.injEq] at execution
  obtain ⟨outcome, read, rfl, rfl⟩ := execution
  refine ⟨follows.valid, fun follows' => ?_⟩
  refine rest outcome now grown follows' present' (follows.valid.small _ _ present') ?_ ?_
  · rintro rfl
    exact pread_error reliable read
  · rintro bytes rfl
    exact pread_data read

/-- A cuFile read that succeeds delivers the whole range. -/
theorem keeps_cuFileRead {path : String} {size offset : Nat} {next : Option Bytes → Run α}
    (rest : ∀ reply after, Follows context used interference shared after →
      (∀ bytes, reply = some bytes → ∃ content,
        after.content context.setup.naming path = some content ∧
          offset + size ≤ content.length ∧ bytes = slice content offset size) →
            context.Keeps used interference post (next reply) after) :
    context.Keeps used interference post (Run.cuFileRead path size offset >>= next) shared := by
  refine keeps_call fun now follows choice reply after reliable execution => ?_
  have unchanged : after = now ∧ ∀ bytes, reply = some bytes → ∃ content,
      now.content context.setup.naming path = some content ∧
        offset + size ≤ content.length ∧ bytes = slice content offset size := by
    simp only [serve] at execution
    split at execution
    · rename_i content present
      split at execution
      · rename_i inside
        simp only [Option.some.injEq, Prod.mk.injEq] at execution
        obtain ⟨rfl, rfl⟩ := execution
        refine ⟨rfl, ?_⟩
        rintro bytes ⟨⟩
        exact ⟨content, present, inside, rfl⟩
      · simp only [Option.some.injEq, Prod.mk.injEq] at execution
        obtain ⟨rfl, rfl⟩ := execution
        exact ⟨rfl, by simp⟩
    · simp only [Option.some.injEq, Prod.mk.injEq] at execution
      obtain ⟨rfl, rfl⟩ := execution
      exact ⟨rfl, by simp⟩
  obtain ⟨rfl, delivered⟩ := unchanged
  exact ⟨follows.valid, fun follows' => rest reply _ follows' delivered⟩

/-- CUDA calls leave the shared state alone. -/
theorem keeps_cudaCopyToGpu {bytes : Bytes} {next : Bool → Run α}
    (rest : ∀ succeeded after, Follows context used interference shared after →
      context.Keeps used interference post (next succeeded) after) :
    context.Keeps used interference post (Run.cudaCopyToGpu bytes >>= next) shared := by
  refine keeps_call fun now follows choice reply after reliable execution => ?_
  simp only [serve, Option.some.injEq, Prod.mk.injEq] at execution
  rw [← execution.2]
  exact ⟨follows.valid, rest reply _⟩

theorem keeps_cudaSynchronize {next : Bool → Run α}
    (rest : ∀ succeeded after, Follows context used interference shared after →
      context.Keeps used interference post (next succeeded) after) :
    context.Keeps used interference post (Run.cudaSynchronize >>= next) shared := by
  refine keeps_call fun now follows choice reply after reliable execution => ?_
  simp only [serve, Option.some.injEq, Prod.mk.injEq] at execution
  rw [← execution.2]
  exact ⟨follows.valid, rest reply _⟩

end

end MemTier
