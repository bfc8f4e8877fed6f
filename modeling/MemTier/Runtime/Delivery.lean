import MemTier.Runtime.Sharing

/-!
# What reads deliver

Postconditions of the read programs under the discipline of their context.  Each relates the
content of the file when the program began to its content at any later time: what is delivered are
bytes of the later content, and a failure is blamed on the earlier one.
-/

namespace MemTier

open Containers Resumption

/-! ## Positioned reads -/

/-- Outcome of reading `[offset, offset + size)` of a file. -/
structure FullRead.Delivers (offset size : Nat) (start now : Option Bytes) (full : FullRead) :
    Prop where
  code : full.rc = .ok ∨ full.rc = .io
  fits : full.data.length ≤ size
  true_bytes : full.rc = .ok →
    offset < 2 ^ 63 ∧ ∃ content, now = some content ∧ full.data <+: content.drop offset
  short : full.rc = .ok → full.data.length < size →
    ∀ first, start = some first → first.length ≤ offset + full.data.length
  failed : full.rc = .io → ∀ first, start = some first → 2 ^ 63 ≤ offset

section

variable {context : Context} {used : Set String} {interference : Interference}
  {start shared : Shared}

theorem keeps_preadLoop {path : String} {offset size : Nat} {data content : Bytes}
    (follows : Follows context used interference start shared)
    (positive : 0 < size) (bounded : offset < 2 ^ 64)
    (present : shared.content context.setup.naming path = some content)
    (fits : data.length ≤ size) (read : data <+: content.drop offset)
    (begun : 0 < data.length → offset < 2 ^ 63) :
    context.Keeps used interference
      (fun full now => full.Delivers offset size (start.content context.setup.naming path)
        (now.content context.setup.naming path))
      (preadLoop path offset size data) shared := by
  induction remaining : size - data.length using Nat.strong_induction_on
    generalizing data content shared with
  | h remaining induction =>
      rw [preadLoop]
      split
      · rename_i more
        refine keeps_pread (by simp [present]) ?_
        intro reply now grown follows' present' small negative delivered
        obtain ⟨earlier, present'', growth⟩ := follows'.content_before present'
        obtain rfl := Option.some.inj (present.symm.trans present'')
        have read' := read.trans (growth.drop offset)
        have inside : data.length ≤ grown.length - offset := by
          simpa using read'.length_le
        -- Once a byte was delivered, the offset is far from wrapping around.
        have exact_offset : (offset + data.length) % 2 ^ 64 = offset + data.length := by
          rcases Nat.eq_zero_or_pos data.length with none | some
          · rw [none, Nat.add_zero, Nat.mod_eq_of_lt bounded]
          · have := begun some
            exact Nat.mod_eq_of_lt (by omega)
        rw [exact_offset] at negative delivered
        cases reply with
        | error =>
            refine keeps_ret fun later follows'' => ?_
            refine ⟨.inr rfl, fits, nofun, nofun, fun _ first _ => ?_⟩
            have := negative rfl
            rcases Nat.eq_zero_or_pos data.length with none | some
            · omega
            · have := begun some
              omega
        | data bytes =>
            obtain ⟨range, exhausted, offset_small⟩ := delivered bytes rfl
            dsimp only
            split
            · rename_i empty
              refine keeps_ret fun later follows'' => ?_
              obtain ⟨final, present''', growth'⟩ := follows''.content present'
              refine ⟨.inl rfl, fits, fun _ => ⟨by omega, final, present''',
                read'.trans (growth'.drop offset)⟩, fun _ _ first known => ?_, nofun⟩
              obtain ⟨content', present₁, growth₁⟩ :=
                (follows.trans follows').content known
              obtain rfl := Option.some.inj (present₁.symm.trans present')
              have past := congrArg List.length (exhausted (List.length_eq_zero_iff.mp empty))
              rw [length_slice, List.length_nil] at past
              have := growth₁.length_le
              dsimp only
              omega
            · rename_i nonempty
              have step := range.length_le
              rw [length_slice] at step
              refine induction (size - (data ++ bytes).length) ?_ (follows.trans follows')
                present' ?_ (append_prefix_drop read' range) (fun _ => by omega) rfl
              · rw [List.length_append]
                omega
              · rw [List.length_append]
                omega
      · rename_i complete
        refine keeps_ret fun later follows' => ?_
        obtain ⟨grown, present', growth⟩ := follows'.content present
        refine ⟨.inl rfl, fits, fun _ => ⟨begun (by omega), grown, present',
          read.trans (growth.drop offset)⟩, fun _ short => absurd short complete, nofun⟩

theorem keeps_posixPreadFull {path : String} {offset size : Nat}
    (follows : Follows context used interference start shared)
    (positive : 0 < size) (bounded : offset < 2 ^ 64) :
    context.Keeps used interference
      (fun full now => full.Delivers offset size (start.content context.setup.naming path)
        (now.content context.setup.naming path))
      (posixPreadFull path offset size) shared := by
  refine keeps_openFile fun opened now follows' available => ?_
  cases opened with
  | true =>
      obtain ⟨content, present⟩ := Option.isSome_iff_exists.mp (available.mp rfl)
      rw [if_pos rfl]
      exact keeps_preadLoop (follows.trans follows') positive bounded present (Nat.zero_le _)
        (List.nil_prefix) (by simp)
  | false =>
      refine keeps_ret fun later follows'' => ?_
      refine ⟨.inr rfl, Nat.zero_le _, nofun, nofun, fun _ first known => ?_⟩
      obtain ⟨grown, present, -⟩ := (follows.trans follows').content known
      simp [present] at available

end

/-! ## GDS reads -/

/-- The stub backend is asked to report success, and then reads with `posix_pread_full`. -/
def Context.GdsStubReads (context : Context) : Prop :=
  context.setup.gds = .stub ∧ context.options.enableGds = true ∧
    context.options.gdsStubSuccess = true

instance (context : Context) : Decidable context.GdsStubReads :=
  inferInstanceAs (Decidable (_ ∧ _ ∧ _))

/-- Outcome of `memtier_gds_read`. -/
structure GdsOutcome (context : Context) (offset size : Nat) (start now : Option Bytes)
    (full : FullRead) : Prop where
  served : full.rc = .ok →
    (context.GdsStubReads ∧ full.Delivers offset size start now) ∨
      ∃ content, now = some content ∧ offset + size ≤ content.length ∧
        full.data = slice content offset size
  refused : full.rc ≠ .ok → context.GdsStubReads →
    ∀ first, start = some first → 2 ^ 63 ≤ offset

/-- A piece that the cache does not hold is served by the stub backend, whatever it delivers. -/
def Context.GdsStubServes (context : Context) (offset size : Nat) : Prop :=
  context.GdsStubReads ∧
    (selectPath false offset size context.options = .gdsRead ∨
      selectPath false offset size context.options = .gdsStubFallback)

instance (context : Context) (offset size : Nat) : Decidable (context.GdsStubServes offset size) :=
  inferInstanceAs (Decidable (_ ∧ _))

/-- Outcome of serving one piece.  The stub backend may deliver a piece that runs past the end. -/
def PieceOutcome (context : Context) (target : Target) (piece : Piece)
    (start now : Option Bytes) : Except Err Bytes → Prop
  | .ok bytes =>
      bytes.length = piece.need ∧ ∃ content, now = some content ∧
        ((piece.curOff + piece.need ≤ content.length ∧
            bytes = slice content piece.curOff piece.need) ∨
          (context.GdsStubServes piece.curOff piece.need ∧ piece.curOff < 2 ^ 63 ∧
            ∀ first, start = some first → first.length < piece.curOff + piece.need))
  | .error rc =>
      rc ≠ .ok ∧ (target = .cpu → rc = .io ∧ ∀ first, start = some first →
        first.length < piece.curOff + piece.need ∧
          (context.GdsStubServes piece.curOff piece.need → 2 ^ 63 ≤ piece.curOff))

section

variable {context : Context} {used : Set String} {interference : Interference}
  {start shared : Shared}

theorem keeps_gdsRead {path : String} {offset size : Nat}
    (follows : Follows context used interference start shared)
    (positive : 0 < size) (bounded : offset < 2 ^ 64) :
    context.Keeps used interference
      (fun full now => GdsOutcome context offset size (start.content context.setup.naming path)
        (now.content context.setup.naming path) full)
      (gdsRead context path offset size) shared := by
  rw [gdsRead]
  split
  · rename_i disabled
    refine keeps_ret fun later _ => ⟨nofun, fun _ stub => ?_⟩
    simp [stub.2.1] at disabled
  · rename_i enabled
    split
    · rename_i linked
      split
      · rename_i failing
        refine keeps_ret fun later _ => ⟨nofun, fun _ stub => ?_⟩
        simp [stub.2.2] at failing
      · rename_i succeeding
        have stub : context.GdsStubReads :=
          ⟨linked, by simpa using enabled, by simpa using succeeding⟩
        refine (keeps_posixPreadFull follows positive bounded).mono ?_
        intro full now _ delivers
        exact ⟨fun _ => .inl ⟨stub, delivers⟩,
          fun failed _ => delivers.failed (delivers.code.resolve_left failed)⟩
    · rename_i linked
      have other : ¬ context.GdsStubReads := fun stub => absurd (linked.symm.trans stub.1) nofun
      split
      · exact keeps_ret fun later _ => ⟨nofun, fun _ stub => absurd stub other⟩
      · refine keeps_cuFileRead fun reply now follows' delivered => ?_
        cases reply with
        | none => exact keeps_ret fun later _ => ⟨nofun, fun _ stub => absurd stub other⟩
        | some bytes =>
            refine keeps_ret fun later follows'' => ⟨fun _ => .inr ?_, fun failed => ?_⟩
            · obtain ⟨content, present, inside, rfl⟩ := delivered bytes rfl
              obtain ⟨grown, present', growth⟩ := follows''.content present
              exact ⟨grown, present', inside.trans growth.length_le,
                (slice_of_grown growth inside).symm⟩
            · exact absurd rfl failed

/-! ## Serving a piece -/

/-- Copying to the host always succeeds. -/
theorem keeps_copyTarget {α : Type} {post : α → Shared → Prop} {target : Target} {bytes : Bytes}
    {next : Err → Run α} (valid : SharedValid context used shared)
    (rest : ∀ rc now, Follows context used interference shared now → (target = .cpu → rc = .ok) →
      context.Keeps used interference post (next rc) now) :
    context.Keeps used interference post (copyTarget context target bytes >>= next) shared := by
  cases target with
  | cpu => exact rest .ok shared (Follows.refl valid) fun _ => rfl
  | gpu =>
      refine keeps_cudaCopyToGpu fun copied now follows => ?_
      cases copied with
      | false => exact rest .cuda now follows nofun
      | true =>
          cases context.options.asyncMode with
          | true => exact rest .ok now follows nofun
          | false =>
              refine keeps_cudaSynchronize fun synchronised now' follows' => ?_
              cases synchronised with
              | false => exact rest .cuda now' (follows.trans follows') nofun
              | true => exact rest .ok now' (follows.trans follows') nofun

/-- Bytes of the present content stay the outcome of a piece. -/
theorem PieceOutcome.of_inside {target : Target} {piece : Piece} {path : String}
    {content bytes : Bytes} {now later : Shared}
    (follows : Follows context used interference now later)
    (present : now.content context.setup.naming path = some content)
    (inside : piece.curOff + piece.need ≤ content.length)
    (delivered : bytes = slice content piece.curOff piece.need) :
    PieceOutcome context target piece (start.content context.setup.naming path)
      (later.content context.setup.naming path) (.ok bytes) := by
  obtain ⟨grown, present', growth⟩ := follows.content present
  refine ⟨by rw [delivered, length_slice_of_le inside], grown, present', .inl ?_⟩
  exact ⟨inside.trans growth.length_le, by rw [slice_of_grown growth inside, delivered]⟩

/-- Counting a delivered piece. -/
theorem keeps_counted {target : Target} {piece : Piece} {path : String} {bytes : Bytes}
    {update : Stats → Stats}
    (outcome : ∀ later, Follows context used interference shared later →
      PieceOutcome context target piece (start.content context.setup.naming path)
        (later.content context.setup.naming path) (.ok bytes)) :
    context.Keeps used interference
      (fun outcome now => PieceOutcome context target piece
        (start.content context.setup.naming path) (now.content context.setup.naming path) outcome)
      (Run.updateStats update >>= fun _ => Prog.ret (.ok bytes)) shared :=
  keeps_updateStats fun _ counted => keeps_ret fun later final =>
    outcome later (counted.trans final)

/-- Copying a delivered piece out and counting it. -/
theorem keeps_handOver {target : Target} {piece : Piece} {path : String} {bytes : Bytes}
    {update : Stats → Stats} (valid : SharedValid context used shared)
    (outcome : ∀ later, Follows context used interference shared later →
      PieceOutcome context target piece (start.content context.setup.naming path)
        (later.content context.setup.naming path) (.ok bytes)) :
    context.Keeps used interference
      (fun outcome now => PieceOutcome context target piece
        (start.content context.setup.naming path) (now.content context.setup.naming path) outcome)
      (copyTarget context target bytes >>= fun rc =>
        if rc ≠ .ok then Prog.ret (.error rc)
        else Run.updateStats update >>= fun _ => Prog.ret (.ok bytes)) shared := by
  refine keeps_copyTarget valid fun rc copied follows onHost => ?_
  split
  · rename_i failed
    exact keeps_ret fun later _ => ⟨failed, fun host => absurd (onHost host) failed⟩
  · exact keeps_counted fun later final => outcome later (follows.trans final)

theorem keeps_serveHit {target : Target} {piece : Piece} {path : String} {content : Bytes}
    {entry : CacheEntry} (valid : SharedValid context used shared)
    (present : shared.content context.setup.naming path = some content)
    (inside : piece.curOff + piece.need ≤ content.length)
    (held : slice entry.data piece.inChunk piece.need = slice content piece.curOff piece.need) :
    context.Keeps used interference
      (fun outcome now => PieceOutcome context target piece
        (start.content context.setup.naming path) (now.content context.setup.naming path) outcome)
      (serveHit context target piece entry) shared :=
  keeps_handOver valid fun _ final => PieceOutcome.of_inside final present inside held

/-- What a positioned read delivered lies inside the file. -/
theorem FullRead.Delivers.inside {offset size : Nat} {first now : Option Bytes} {full : FullRead}
    (delivers : full.Delivers offset size first now) (positive : 0 < full.data.length)
    (succeeded : full.rc = .ok) :
    ∃ content, now = some content ∧ offset + full.data.length ≤ content.length ∧
      full.data = slice content offset full.data.length := by
  obtain ⟨-, content, present, read⟩ := delivers.true_bytes succeeded
  have inside := read.length_le
  rw [List.length_drop] at inside
  exact ⟨content, present, by omega, eq_slice_of_front read⟩

/-- A positioned read that fails or falls short was asked for bytes past the end. -/
theorem FullRead.Delivers.past_end {offset size wanted : Nat} {start now : Option Bytes}
    {full : FullRead} (delivers : full.Delivers offset size start now)
    (incomplete : full.rc = .ok → full.data.length < wanted) (wanted_le : wanted ≤ size)
    (positive : 0 < wanted) {first : Bytes} (known : start = some first)
    (small : first.length < 2 ^ 63) : first.length < offset + wanted := by
  rcases delivers.code with ok | io
  · have := delivers.short ok ((incomplete ok).trans_le wanted_le) first known
    have := incomplete ok
    omega
  · have := delivers.failed io first known
    omega

theorem keeps_serveGds {target : Target} {piece : Piece} {path : String}
    (follows : Follows context used interference start shared)
    (startValid : SharedValid context used start)
    (fits : piece.Fits context.options.chunkSize)
    (selected : selectPath false piece.curOff piece.need context.options = .gdsRead ∨
      selectPath false piece.curOff piece.need context.options = .gdsStubFallback) :
    context.Keeps used interference
      (fun outcome now => PieceOutcome context target piece
        (start.content context.setup.naming path) (now.content context.setup.naming path) outcome)
      (serveGds context path target piece) shared := by
  have nonempty := fits.nonempty
  refine keeps_bind follows.valid (keeps_gdsRead follows fits.nonempty fits.bounded) ?_
  intro attempt now attempted outcome
  dsimp only
  split
  · rename_i succeeded
    refine keeps_handOver attempted.valid fun later final => ?_
    rcases outcome.served succeeded with ⟨stub, delivers⟩ | ⟨content, present, inside, data⟩
    · rcases delivers.fits.lt_or_eq with short | complete
      · -- The buffer behind the delivered bytes keeps its zeros.
        obtain ⟨small, content, present, -⟩ := delivers.true_bytes succeeded
        obtain ⟨grown, present', -⟩ := final.content present
        refine ⟨length_zeroFill delivers.fits, grown, present', .inr ⟨⟨stub, selected⟩, small, ?_⟩⟩
        intro first known
        have := delivers.short succeeded short first known
        omega
      · obtain ⟨content, present, inside, data⟩ := delivers.inside (by omega) succeeded
        rw [complete] at inside data
        rw [zeroFill_of_length complete]
        exact PieceOutcome.of_inside final present inside data
    · rw [zeroFill_of_length (by rw [data, length_slice_of_le inside])]
      exact PieceOutcome.of_inside final present inside data
  · rename_i refused
    have negative : context.GdsStubServes piece.curOff piece.need → ∀ first,
        start.content context.setup.naming path = some first → 2 ^ 63 ≤ piece.curOff :=
      fun serves => outcome.refused refused serves.1
    refine keeps_bind attempted.valid
      (keeps_posixPreadFull (follows.trans attempted) fits.nonempty fits.bounded) ?_
    intro full now' completed delivers
    split
    · rename_i failed
      refine keeps_ret fun later _ =>
        ⟨failed, fun _ => ⟨delivers.code.resolve_left failed, fun first known => ?_⟩⟩
      exact ⟨delivers.past_end (fun ok => absurd ok failed) le_rfl nonempty known
        (startValid.small _ _ known), fun serves => negative serves first known⟩
    · rename_i succeeded
      have succeeded := not_not.mp succeeded
      split
      · rename_i short
        refine keeps_ret fun later _ => ⟨nofun, fun _ => ⟨rfl, fun first known => ?_⟩⟩
        exact ⟨delivers.past_end (fun _ => short) le_rfl nonempty known
          (startValid.small _ _ known), fun serves => negative serves first known⟩
      · rename_i enough
        have complete : full.data.length = piece.need :=
          le_antisymm delivers.fits (Nat.le_of_not_lt enough)
        obtain ⟨content, present, inside, data⟩ := delivers.inside (by omega) succeeded
        rw [complete] at inside data
        exact keeps_handOver completed.valid fun later final =>
          PieceOutcome.of_inside final present inside data

/-- The chunk of a piece, when it is read as a whole, is what may be cached for its key. -/
theorem keeps_servePosix {target : Target} {piece : Piece} {path : String} {key : CacheKey}
    {caching : Bool} (follows : Follows context used interference start shared)
    (startValid : SharedValid context used start) (path_used : path ∈ used)
    (named : key = ⟨context.setup.naming.fileIdFromPath path, piece.chunkId⟩)
    (fits : piece.Fits context.options.chunkSize)
    (selected : ¬ context.GdsStubServes piece.curOff piece.need) :
    context.Keeps used interference
      (fun outcome now => PieceOutcome context target piece
        (start.content context.setup.naming path) (now.content context.setup.naming path) outcome)
      (servePosix context path target piece key caching) shared := by
  have nonempty := fits.nonempty
  have inside := fits.inside
  have position := fits.position
  have bounded := fits.bounded
  simp only [servePosix]
  generalize readOff_eq :
    (if caching = true then piece.chunkId * context.options.chunkSize else piece.curOff) = readOff
  generalize readSize_eq :
    (if caching = true then context.options.chunkSize else piece.need) = readSize
  generalize srcOff_eq : (if caching = true then piece.inChunk else 0) = srcOff
  have readOff_add : readOff + srcOff = piece.curOff := by
    rw [← readOff_eq, ← srcOff_eq]
    split <;> omega
  have readSize_le : srcOff + piece.need ≤ readSize := by
    rw [← readSize_eq, ← srcOff_eq]
    split <;> omega
  refine keeps_bind follows.valid
    (keeps_posixPreadFull follows (by omega) (by omega)) ?_
  intro full now completed delivers
  split
  · rename_i failed
    refine keeps_ret fun later _ =>
      ⟨failed, fun _ => ⟨delivers.code.resolve_left failed, fun first known => ?_⟩⟩
    have past := delivers.past_end (fun ok => absurd ok failed) readSize_le (by omega) known
      (startValid.small _ _ known)
    exact ⟨by omega, fun serves => absurd serves selected⟩
  · rename_i succeeded
    have succeeded := not_not.mp succeeded
    split
    · rename_i short
      refine keeps_ret fun later _ => ⟨nofun, fun _ => ⟨rfl, fun first known => ?_⟩⟩
      have past := delivers.past_end (fun _ => short) readSize_le (by omega) known
        (startValid.small _ _ known)
      exact ⟨by omega, fun serves => absurd serves selected⟩
    · rename_i enough
      obtain ⟨content, present, reach, data⟩ := delivers.inside (by omega) succeeded
      have bytes : slice (zeroFill readSize full.data) srcOff piece.need =
          slice content piece.curOff piece.need := by
        rw [slice_zeroFill (by omega), data, slice_slice (by omega), readOff_add]
      refine keeps_copyTarget completed.valid fun rc copied copying onHost => ?_
      split
      · rename_i failed
        exact keeps_ret fun later _ => ⟨failed, fun host => absurd (onHost host) failed⟩
      · obtain ⟨grown, present', growth⟩ := copying.content present
        split
        · rename_i admitted
          obtain rfl : caching = true := by
            simp only [Bool.and_eq_true] at admitted
            exact admitted.1
          obtain ⟨-, content', present'', read⟩ := delivers.true_bytes succeeded
          obtain rfl := Option.some.inj (present.symm.trans present'')
          simp only [if_true] at readOff_eq readSize_eq
          rw [← readOff_eq] at read
          rw [← readSize_eq] at bytes ⊢
          refine keeps_insert path_used (by rw [named]) present' ?_ ?_ fun _ after inserting => ?_
          · rw [named]
            exact read.trans (growth.drop _)
          · rw [readSize_eq]
            exact delivers.fits
          · exact keeps_counted fun later final => PieceOutcome.of_inside
              ((copying.trans inserting).trans final) present (by omega) bytes
        · exact keeps_counted fun later final =>
            PieceOutcome.of_inside (copying.trans final) present (by omega) bytes

theorem keeps_readPiece {target : Target} {piece : Piece} {path : String}
    (follows : Follows context used interference start shared)
    (startValid : SharedValid context used start)
    (injective : context.setup.naming.InjectiveOn used) (path_used : path ∈ used)
    (fits : piece.Fits context.options.chunkSize) :
    context.Keeps used interference
      (fun outcome now => PieceOutcome context target piece
        (start.content context.setup.naming path) (now.content context.setup.naming path) outcome)
      (readPiece context path target piece) shared := by
  refine keeps_lookup fun found now looked sound => ?_
  dsimp only
  generalize hit_eq :
    (found.isSome && decide (piece.inChunk + piece.need ≤ (found.getD default).validSize)) = hit
  refine keeps_updateStats fun counted follows' => ?_
  have reached := (follows.trans looked).trans follows'
  have missed := @selectPath_eq_miss hit piece.curOff piece.need context.options
  cases selected : selectPath hit piece.curOff piece.need context.options with
  | dramHit =>
      rw [hit_of_selectPath selected, Bool.and_eq_true, decide_eq_true_iff] at hit_eq
      obtain ⟨entry, rfl⟩ := Option.isSome_iff_exists.mp hit_eq.1
      have covered : piece.inChunk + piece.need ≤ entry.validSize := hit_eq.2
      obtain ⟨other, other_used, named, content, present, reach, held⟩ := sound entry rfl
      rw [← injective path path_used other other_used named.symm] at present
      obtain ⟨grown, present', growth⟩ := follows'.content present
      have position := fits.position
      have inside : piece.curOff + piece.need ≤ content.length := by
        dsimp only at reach
        omega
      refine keeps_serveHit reached.valid present' (inside.trans growth.length_le) ?_
      calc
        slice entry.data piece.inChunk piece.need
            = slice (slice entry.data 0 entry.validSize) piece.inChunk piece.need := by
          rw [slice_slice covered, Nat.zero_add]
        _ = slice content (piece.chunkId * context.options.chunkSize + piece.inChunk)
              piece.need := by
          change slice (entry.data.take entry.validSize) _ _ = _
          rw [held, slice_slice covered]
        _ = slice grown piece.curOff piece.need := by
          rw [position, slice_of_grown growth inside]
  | gdsRead =>
      rw [selected] at missed
      exact keeps_serveGds reached startValid fits (.inl (missed nofun).symm)
  | gdsStubFallback =>
      rw [selected] at missed
      exact keeps_serveGds reached startValid fits (.inr (missed nofun).symm)
  | posixRead =>
      rw [selected] at missed
      refine keeps_servePosix reached startValid path_used rfl fits fun serves => ?_
      rcases serves.2 with gds | gds <;> exact absurd ((missed nofun).trans gds) nofun
  | posixReadThenCache =>
      rw [selected] at missed
      refine keeps_servePosix reached startValid path_used rfl fits fun serves => ?_
      rcases serves.2 with gds | gds <;> exact absurd ((missed nofun).trans gds) nofun

end

/-! ## Requests -/

/-- A piece past the end that the stub backend serves all the same. -/
def Context.Overruns (context : Context) (start : Option Bytes) (piece : Piece) : Prop :=
  context.GdsStubServes piece.curOff piece.need ∧ piece.curOff < 2 ^ 63 ∧
    ∀ first, start = some first → first.length < piece.curOff + piece.need

/-- The pieces of a request from `copied` on. -/
def Context.pieces (context : Context) (offset size copied : Nat) : List Piece :=
  MemTier.pieces context.options.chunkSize context.chunkSize_pos offset size copied

/-- Outcome of the piece loop from `copied` on, when `out` was delivered before. -/
structure LoopOutcome (context : Context) (target : Target) (offset size copied : Nat)
    (out : Bytes) (start now : Option Bytes) (result : ReadResult) : Prop where
  served : result.rc = .ok → ∃ content rest, now = some content ∧ result.out = out ++ rest ∧
    (∀ piece ∈ context.pieces offset size copied,
      piece.curOff + piece.need ≤ content.length ∨ context.Overruns start piece) ∧
    ((∀ piece ∈ context.pieces offset size copied, ¬ context.Overruns start piece) →
      offset + copied < 2 ^ 64 →
        (copied < size → offset + size ≤ content.length) ∧
          rest = slice content (offset + copied) (size - copied))
  failed : result.rc ≠ .ok → target = .cpu → result.rc = .io ∧ ∀ first, start = some first →
    ∃ piece ∈ context.pieces offset size copied,
      first.length < piece.curOff + piece.need ∧
        (context.GdsStubServes piece.curOff piece.need → 2 ^ 63 ≤ piece.curOff)

/-- Outcome of a read that is served honestly: true bytes, or the range ran past the end. -/
structure Transparent (target : Target) (offset size : Nat) (start now : Option Bytes)
    (result : ReadResult) : Prop where
  served : result.rc = .ok → ∃ content, now = some content ∧ offset + size ≤ content.length ∧
    result.out = slice content offset size
  failed : result.rc ≠ .ok → target = .cpu →
    result.rc = .io ∧ ∀ first, start = some first → first.length < offset + size

section

variable {context : Context} {used : Set String} {interference : Interference}
  {start shared : Shared}

theorem Context.pieces_of_more {offset size copied : Nat} (more : copied < size) :
    context.pieces offset size copied =
      pieceAt context.options.chunkSize offset size copied ::
        context.pieces offset size
          (copied + (pieceAt context.options.chunkSize offset size copied).need) := by
  rw [Context.pieces, MemTier.pieces, dif_pos more]
  rfl

theorem Context.pieces_of_done {offset size copied : Nat} (done : size ≤ copied) :
    context.pieces offset size copied = [] := by
  rw [Context.pieces, MemTier.pieces, dif_neg (Nat.not_lt.mpr done)]

/-- No piece reaches past the end of its request. -/
theorem Context.pieces_within {offset size copied : Nat} :
    ∀ piece ∈ context.pieces offset size copied, piece.curOff + piece.need ≤ offset + size := by
  induction remaining : size - copied using Nat.strong_induction_on generalizing copied with
  | h remaining induction =>
      by_cases more : copied < size
      · have nonempty := @pieceAt_need_pos context.options.chunkSize offset size copied
          context.chunkSize_pos more
        rw [Context.pieces_of_more more, List.forall_mem_cons]
        refine ⟨?_, induction _ (by omega) rfl⟩
        have start_le := Nat.mod_le (offset + copied) (2 ^ 64)
        have need_le := Nat.min_le_right (context.options.chunkSize -
          (offset + copied) % 2 ^ 64 % context.options.chunkSize) (size - copied)
        simp only [pieceAt]
        omega
      · rw [Context.pieces_of_done (Nat.not_lt.mp more)]
        simp

/-- Without the stub backend a read is served honestly. -/
theorem LoopOutcome.transparent {target : Target} {offset size : Nat} {first now : Option Bytes}
    {result : ReadResult} (outcome : LoopOutcome context target offset size 0 [] first now result)
    (honest : ¬ context.GdsStubReads) (positive : 0 < size) (bounded : offset < 2 ^ 64) :
    Transparent target offset size first now result := by
  constructor
  · intro succeeded
    obtain ⟨content, rest, present, delivered, -, exactly⟩ := outcome.served succeeded
    obtain ⟨inside, data⟩ := exactly (fun piece _ overrun => honest overrun.1.1) bounded
    exact ⟨content, present, inside positive, delivered.trans data⟩
  · intro failed host
    obtain ⟨io, blamed⟩ := outcome.failed failed host
    refine ⟨io, fun earlier known => ?_⟩
    obtain ⟨piece, member, past, -⟩ := blamed earlier known
    exact past.trans_le (Context.pieces_within piece member)

/-- A round of the loop that delivers its piece. -/
theorem LoopOutcome.round {target : Target} {offset size copied : Nat} {out bytes : Bytes}
    {first middle now : Option Bytes} {result : ReadResult} (more : copied < size)
    (growth : ∀ content, middle = some content →
      ∃ grown, now = some grown ∧ content <+: grown ∧ grown.length < 2 ^ 63)
    (piece : PieceOutcome context target (pieceAt context.options.chunkSize offset size copied)
      first middle (.ok bytes))
    (later : LoopOutcome context target offset size
      (copied + (pieceAt context.options.chunkSize offset size copied).need) (out ++ bytes)
      first now result) :
    LoopOutcome context target offset size copied out first now result := by
  obtain ⟨-, content, present, delivered⟩ := piece
  obtain ⟨grown, present', longer, small⟩ := growth content present
  have longer_length := longer.length_le
  have need_le : (pieceAt context.options.chunkSize offset size copied).need ≤ size - copied :=
    Nat.min_le_right _ _
  constructor
  · intro succeeded
    obtain ⟨content', rest, present'', appended, covered, exactly⟩ := later.served succeeded
    obtain rfl := Option.some.inj (present'.symm.trans present'')
    refine ⟨grown, bytes ++ rest, present', by rw [appended, List.append_assoc], ?_, ?_⟩
    · rw [Context.pieces_of_more more, List.forall_mem_cons]
      refine ⟨?_, covered⟩
      rcases delivered with ⟨inside, -⟩ | overrun
      · exact .inl (by omega)
      · exact .inr overrun
    · rw [Context.pieces_of_more more, List.forall_mem_cons]
      rintro ⟨within, others⟩ straight
      have curOff : (pieceAt context.options.chunkSize offset size copied).curOff =
          offset + copied := Nat.mod_eq_of_lt straight
      obtain ⟨inside, data⟩ := delivered.resolve_right within
      rw [curOff] at inside data
      obtain ⟨reach, tail⟩ := exactly others (by omega)
      refine ⟨fun _ => ?_, ?_⟩
      · by_cases again : copied + (pieceAt context.options.chunkSize offset size copied).need < size
        · exact reach again
        · omega
      · rw [tail, data, ← slice_of_grown longer inside, ← Nat.add_assoc, slice_append]
        congr 1
        omega
  · intro failed host
    obtain ⟨io, blamed⟩ := later.failed failed host
    refine ⟨io, fun earlier known => ?_⟩
    obtain ⟨piece, member, missing⟩ := blamed earlier known
    exact ⟨piece, by rw [Context.pieces_of_more more]; exact List.mem_cons_of_mem _ member, missing⟩

theorem keeps_readLoop {target : Target} {path : String} {offset size copied : Nat} {out : Bytes}
    (follows : Follows context used interference start shared)
    (startValid : SharedValid context used start)
    (injective : context.setup.naming.InjectiveOn used) (path_used : path ∈ used)
    (opened : size ≤ copied → (shared.content context.setup.naming path).isSome) :
    context.Keeps used interference
      (fun result now => LoopOutcome context target offset size copied out
        (start.content context.setup.naming path) (now.content context.setup.naming path) result)
      (readLoop context path target offset size copied out) shared := by
  induction remaining : size - copied using Nat.strong_induction_on
    generalizing copied out shared with
  | h remaining induction =>
      rw [readLoop]
      split
      · rename_i more
        have fits := @pieceAt_fits context.options.chunkSize offset size copied
          context.chunkSize_pos more
        have nonempty := fits.nonempty
        refine keeps_bind follows.valid
          (keeps_readPiece follows startValid injective path_used fits) ?_
        intro outcome now completed delivered
        cases outcome with
        | error rc =>
            obtain ⟨failed, onHost⟩ := delivered
            refine keeps_ret fun later _ => ⟨fun succeeded => absurd succeeded failed, fun _ host => ?_⟩
            obtain ⟨io, blamed⟩ := onHost host
            refine ⟨io, fun first known => ⟨_, ?_, blamed first known⟩⟩
            rw [Context.pieces_of_more more]
            exact List.mem_cons_self
        | ok bytes =>
            have available : (now.content context.setup.naming path).isSome := by
              obtain ⟨-, content, present, -⟩ := delivered
              simp [present]
            refine keeps_mono (induction _ (by omega) (follows.trans completed)
              (fun _ => available) rfl) fun result later final outcome => ?_
            refine outcome.round more (fun content present => ?_) delivered
            obtain ⟨grown, present', growth⟩ := final.content present
            exact ⟨grown, present', growth, final.valid.small _ _ present'⟩
      · rename_i done
        obtain ⟨content, present⟩ := Option.isSome_iff_exists.mp (opened (Nat.not_lt.mp done))
        refine keeps_updateStats fun counted follows' => keeps_ret fun later final => ?_
        obtain ⟨grown, present', -⟩ := (follows'.trans final).content present
        refine ⟨fun _ => ⟨grown, [], present', (List.append_nil out).symm, ?_, ?_⟩,
          fun failed => absurd rfl failed⟩
        · rw [Context.pieces_of_done (Nat.not_lt.mp done)]
          exact nofun
        · intro _ _
          refine ⟨fun more => absurd more done, ?_⟩
          rw [Nat.sub_eq_zero_of_le (Nat.not_lt.mp done)]
          rfl

/-- Every read keeps to the discipline, and if its arguments are usable its outcome is that of the
piece loop. -/
theorem keeps_doReadImpl {args : ReadArgs} (valid : SharedValid context used shared)
    (injective : context.setup.naming.InjectiveOn used)
    (paths_used : ∀ path, args.path = some path → path ∈ used) :
    context.Keeps used interference
      (fun result now => ∀ path, args.path = some path → args.dstNull = false → args.size ≠ 0 →
        args.target = .cpu →
          LoopOutcome context args.target args.offset.toNat args.size.toNat 0 []
            (shared.content context.setup.naming path) (now.content context.setup.naming path)
            result)
      (doReadImpl context args) shared := by
  rw [doReadImpl]
  cases named : args.path with
  | none => exact keeps_ret fun later _ => nofun
  | some path =>
      dsimp only
      split
      · rename_i unusable
        refine keeps_ret fun later _ _ _ usable nonempty => ?_
        simp [usable, nonempty] at unusable
      · rename_i usable
        split
        · rename_i unsupported
          refine keeps_ret fun later _ _ _ _ _ host => ?_
          simp [host] at unsupported
        · refine keeps_mono (keeps_readLoop (Follows.refl valid) valid injective
            (paths_used path named) fun empty => ?_) ?_
          · rw [not_or] at usable
            exact absurd (UInt64.toNat_inj.mp (Nat.le_zero.mp empty)) usable.2
          · rintro result later - outcome other ⟨⟩ - - -
            exact outcome

/-! ## Prefetches -/

theorem keeps_prefetchLoop {path : String} {offset size done : Nat}
    (valid : SharedValid context used shared) (path_used : path ∈ used) :
    context.Keeps used interference (fun _ _ => True)
      (prefetchLoop context path offset size done) shared := by
  induction remaining : size - done using Nat.strong_induction_on
    generalizing done shared with
  | h remaining induction =>
      rw [prefetchLoop]
      split
      · rename_i more
        have fits := @pieceAt_fits context.options.chunkSize offset size done
          context.chunkSize_pos more
        have nonempty := fits.nonempty
        have position := fits.position
        have bounded := fits.bounded
        refine keeps_contains fun resident now follows => ?_
        cases resident with
        | true =>
            rw [if_pos rfl]
            exact induction _ (by omega) follows.valid rfl
        | false =>
            refine keeps_bind follows.valid (keeps_posixPreadFull (Follows.refl follows.valid)
              context.chunkSize_pos (by omega)) ?_
            intro full now' completed delivers
            split
            · exact keeps_ret fun _ _ => trivial
            · rename_i succeeded
              have succeeded := not_not.mp succeeded
              obtain ⟨-, content, present, read⟩ := delivers.true_bytes succeeded
              refine keeps_insert path_used rfl present read delivers.fits ?_
              intro _ after inserting
              refine keeps_updateStats fun counted counting => ?_
              exact induction _ (by omega) counting.valid rfl
      · exact keeps_updateStats fun counted _ => keeps_ret fun _ _ => trivial

theorem keeps_memtierPrefetch {args : PrefetchArgs} (valid : SharedValid context used shared)
    (paths_used : ∀ path, args.path = some path → path ∈ used) :
    context.Keeps used interference (fun _ _ => True) (memtierPrefetch context args) shared := by
  rw [memtierPrefetch]
  cases named : args.path with
  | none => exact keeps_ret fun _ _ => trivial
  | some path =>
      dsimp only
      split_ifs
      · exact keeps_ret fun _ _ => trivial
      · exact keeps_ret fun _ _ => trivial
      · exact keeps_ret fun _ _ => trivial
      · exact keeps_prefetchLoop valid (paths_used path named)

end

end MemTier
