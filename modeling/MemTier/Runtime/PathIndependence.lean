import MemTier.Runtime.Transparency

/-!
# Path independence of reads

Which path serves a piece is a matter of options, hints and cache contents.  Over immutable files
the outcome of a read depends on none of them, with one exception: the stub backend reports success
for a piece that runs past the end of the file, and the number of bytes it read is not looked at.
-/

namespace MemTier

open Containers Resumption

/-- Every piece of a request lies inside the file or is served by the stub backend. -/
def Context.Serves (context : Context) (content : Bytes) (offset size : Nat) : Prop :=
  ∀ piece ∈ context.pieces offset size 0, piece.curOff + piece.need ≤ content.length ∨
    (context.GdsStubServes piece.curOff piece.need ∧ piece.curOff < 2 ^ 63)

instance (context : Context) (content : Bytes) (offset size : Nat) :
    Decidable (context.Serves content offset size) :=
  inferInstanceAs (Decidable (∀ piece ∈ context.pieces offset size 0, _))

/-- A request past the end of the file of which every piece is served all the same. -/
def Context.ServesOverrun (context : Context) (content : Option Bytes) (offset size : Nat) : Prop :=
  ∃ bytes ∈ content, bytes.length < offset + size ∧ context.Serves bytes offset size

/-- Outcome of a read to the host, when files do not change. -/
structure ReadSettled (context : Context) (content : Option Bytes) (offset size : Nat)
    (result : ReadResult) : Prop where
  code : result.rc = .ok ∨ result.rc = .io
  served : result.rc = .ok ↔ ∃ bytes ∈ content, context.Serves bytes offset size
  inside : ∀ bytes ∈ content, offset + size ≤ bytes.length →
    result.rc = .ok ∧ result.out = slice bytes offset size

theorem LoopOutcome.settled {context : Context} {offset size : Nat} {content : Option Bytes}
    {result : ReadResult}
    (outcome : LoopOutcome context .cpu offset size 0 [] content content result)
    (bounded : offset < 2 ^ 64) : ReadSettled context content offset size result := by
  have code : result.rc = .ok ∨ result.rc = .io := by
    by_cases ok : result.rc = .ok
    · exact .inl ok
    · exact .inr (outcome.failed ok rfl).1
  have served : result.rc = .ok ↔ ∃ bytes ∈ content, context.Serves bytes offset size := by
    constructor
    · intro ok
      obtain ⟨bytes, rest, present, -, covered, -⟩ := outcome.served ok
      refine ⟨bytes, present, fun piece member => ?_⟩
      exact (covered piece member).imp_right fun overrun => ⟨overrun.1, overrun.2.1⟩
    · rintro ⟨bytes, present, serves⟩
      by_contra failed
      obtain ⟨piece, member, past, negative⟩ := (outcome.failed failed rfl).2 bytes present
      rcases serves piece member with within | ⟨stub, positive⟩
      · omega
      · exact absurd (negative stub) (Nat.not_le.mpr positive)
  refine ⟨code, served, fun bytes present inside => ?_⟩
  have within : ∀ piece ∈ context.pieces offset size 0,
      piece.curOff + piece.need ≤ bytes.length :=
    fun piece member => (Context.pieces_within piece member).trans inside
  have ok := served.mpr ⟨bytes, present, fun piece member => .inl (within piece member)⟩
  obtain ⟨found, rest, present', delivered, -, exactly⟩ := outcome.served ok
  obtain rfl := Option.some.inj (Option.mem_def.mp present ▸ present')
  refine ⟨ok, delivered.trans ?_⟩
  refine (exactly (fun piece member overrun => ?_) bounded).2
  exact absurd (overrun.2.2 bytes present) (Nat.not_lt.mpr (within piece member))

/-- A read of immutable files, from any reachable state. -/
theorem System.Reachable.read_settles {context : Context} {sorter : Sorter} {used : Set String}
    {files : Files} {system : System}
    (reachable : System.Reachable context sorter used false files system)
    (injective : context.setup.naming.InjectiveOn used)
    (small : ∀ inode content, files inode = some content → content.length < 2 ^ 63)
    {path : String} (path_used : path ∈ used) (offset : UInt64) {size : UInt64}
    (nonempty : size ≠ 0) {stream : Nat → Choice} (reliable : ∀ time, (stream time).Reliable)
    (fair : Prog.Fair Choice.Completes stream) :
    ∃ result after,
      Prog.Returns (serve context.setup) stream system.shared
        (memtierRead context
          { path := some path, offset, size, dstNull := false, target := .cpu }) result after ∧
      ReadSettled context (files (context.setup.naming.inode path)) offset.toNat size.toNat
        result := by
  have sound := reachable.sound injective small
  obtain ⟨result, after, returned⟩ := Prog.returns_of_fair (serve_completes context.setup) fair
    system.shared (memtierRead context
      { path := some path, offset, size, dstNull := false, target := .cpu })
  have kept : context.Keeps used .frozen _ (memtierRead context
      { path := some path, offset, size, dstNull := false, target := .cpu }) system.shared :=
    keeps_mono (keeps_doReadImpl sound.valid injective ?_)
      fun value now follows outcome => And.intro follows.allowed outcome
  · obtain ⟨-, frozen, outcome⟩ := kept.returns sound.valid (fun _ => rfl) reliable returned
    have loop := outcome path rfl rfl nonempty rfl
    simp only [Shared.content] at loop
    rw [show after.files = system.shared.files from frozen, reachable.files_eq] at loop
    exact ⟨result, after, returned, loop.settled offset.toNat_lt⟩
  · rintro _ ⟨⟩
    exact path_used

/-- Two reads of one range agree: the same code, on success the same bytes, and an I/O error if the
range runs past the end of the file. -/
def ReadsAgree (content : Option Bytes) (offset size : Nat) (left right : ReadResult) : Prop :=
  left.rc = right.rc ∧ (left.rc = .ok → left.out = right.out) ∧
    ∀ bytes ∈ content, bytes.length < offset + size → left.rc = .io ∧ right.rc = .io

theorem readsAgree_iff {first second : Context} {content : Option Bytes} {offset size : Nat}
    {left right : ReadResult} (leftSettled : ReadSettled first content offset size left)
    (rightSettled : ReadSettled second content offset size right) :
    ReadsAgree content offset size left right ↔
      ¬ first.ServesOverrun content offset size ∧ ¬ second.ServesOverrun content offset size := by
  constructor
  · rintro ⟨-, -, past⟩
    constructor
    · rintro ⟨bytes, present, short, serves⟩
      have ok := leftSettled.served.mpr ⟨bytes, present, serves⟩
      exact absurd (ok.symm.trans (past bytes present short).1) nofun
    · rintro ⟨bytes, present, short, serves⟩
      have ok := rightSettled.served.mpr ⟨bytes, present, serves⟩
      exact absurd (ok.symm.trans (past bytes present short).2) nofun
  · rintro ⟨leftHonest, rightHonest⟩
    cases content with
    | none =>
        have leftIo := leftSettled.code.resolve_left fun ok => by
          obtain ⟨_, absent, -⟩ := leftSettled.served.mp ok
          exact absurd absent nofun
        have rightIo := rightSettled.code.resolve_left fun ok => by
          obtain ⟨_, absent, -⟩ := rightSettled.served.mp ok
          exact absurd absent nofun
        refine ⟨leftIo.trans rightIo.symm, fun ok => ?_, nofun⟩
        exact absurd (ok.symm.trans leftIo) nofun
    | some bytes =>
        by_cases inside : offset + size ≤ bytes.length
        · obtain ⟨leftOk, leftOut⟩ := leftSettled.inside bytes rfl inside
          obtain ⟨rightOk, rightOut⟩ := rightSettled.inside bytes rfl inside
          refine ⟨leftOk.trans rightOk.symm, fun _ => leftOut.trans rightOut.symm, ?_⟩
          rintro _ ⟨⟩ past
          omega
        · have failsUnless : ∀ {context : Context} {result : ReadResult},
              ReadSettled context (some bytes) offset size result →
                ¬ context.ServesOverrun (some bytes) offset size → result.rc = .io := by
            intro context result settled honest
            refine settled.code.resolve_left fun ok => ?_
            obtain ⟨_, ⟨⟩, serves⟩ := settled.served.mp ok
            exact honest ⟨bytes, rfl, Nat.not_le.mp inside, serves⟩
          have leftIo := failsUnless leftSettled leftHonest
          have rightIo := failsUnless rightSettled rightHonest
          refine ⟨leftIo.trans rightIo.symm, fun ok => ?_, fun _ _ _ => ⟨leftIo, rightIo⟩⟩
          exact absurd (ok.symm.trans leftIo) nofun

/-- Path independence.  Reads of immutable files under two option values, from any states
reachable under them, agree unless one of the two serves a request past the end of the file. -/
theorem reads_agree_iff (first second : Context) (same : first.setup = second.setup)
    (firstSorter secondSorter : Sorter) (used : Set String) (files : Files)
    (injective : first.setup.naming.InjectiveOn used)
    (small : ∀ inode content, files inode = some content → content.length < 2 ^ 63)
    (firstSystem secondSystem : System)
    (firstReachable : System.Reachable first firstSorter used false files firstSystem)
    (secondReachable : System.Reachable second secondSorter used false files secondSystem)
    (path : String) (path_used : path ∈ used) (offset size : UInt64) (nonempty : size ≠ 0)
    (firstStream secondStream : Nat → Choice)
    (firstReliable : ∀ time, (firstStream time).Reliable)
    (secondReliable : ∀ time, (secondStream time).Reliable)
    (firstFair : Prog.Fair Choice.Completes firstStream)
    (secondFair : Prog.Fair Choice.Completes secondStream) :
    let args : ReadArgs := { path := some path, offset, size, dstNull := false, target := .cpu }
    let content := files (first.setup.naming.inode path)
    ∃ left afterLeft right afterRight,
      Prog.Returns (serve first.setup) firstStream firstSystem.shared (memtierRead first args)
        left afterLeft ∧
      Prog.Returns (serve second.setup) secondStream secondSystem.shared (memtierRead second args)
        right afterRight ∧
      (ReadsAgree content offset.toNat size.toNat left right ↔
        ¬ first.ServesOverrun content offset.toNat size.toNat ∧
          ¬ second.ServesOverrun content offset.toNat size.toNat) := by
  intro args content
  obtain ⟨left, afterLeft, leftReturned, leftSettled⟩ := firstReachable.read_settles injective small
    path_used offset nonempty firstReliable firstFair
  obtain ⟨right, afterRight, rightReturned, rightSettled⟩ := secondReachable.read_settles
    (same ▸ injective) small path_used offset nonempty secondReliable secondFair
  rw [← same] at rightSettled
  exact ⟨left, afterLeft, right, afterRight, leftReturned, rightReturned,
    readsAgree_iff leftSettled rightSettled⟩

/-- A context whose stub backend serves sequential reads. -/
def Context.smallGds : Context :=
  Context.small fun options => { options with enableGds := true, hints := hintSequential }

/-- A range inside the file is read alike through the stub backend and through the cache. -/
theorem reads_agree_iff_inside :
    let args : ReadArgs :=
      { path := some "a", offset := 1, size := 4, dstNull := false, target := .cpu }
    let shared (context : Context) := context.initial (Files.single [1, 2, 3, 4, 5, 6])
    ∃ left afterLeft right afterRight,
      Prog.Returns (serve Context.smallGds.setup) (fun _ => .take 2) (shared Context.smallGds)
        (memtierRead Context.smallGds args) left afterLeft ∧
      Prog.Returns (serve (Context.small id).setup) (fun _ => .take 2) (shared (Context.small id))
        (memtierRead (Context.small id) args) right afterRight ∧
      ReadsAgree (some [1, 2, 3, 4, 5, 6]) 1 4 left right := by
  intro args shared
  obtain ⟨left, afterLeft, right, afterRight, leftReturned, rightReturned, agree⟩ :=
    reads_agree_iff Context.smallGds (Context.small id) rfl .insertion .insertion {"a"}
      (Files.single [1, 2, 3, 4, 5, 6]) (fun _ _ _ _ _ => rfl) (Files.single_small (by norm_num))
      _ _ .init .init "a" rfl 1 4 (by decide) (fun _ => .take 2) (fun _ => .take 2)
      (fun _ => nofun) (fun _ => nofun) (fun time => ⟨time, le_rfl, nofun⟩)
      fun time => ⟨time, le_rfl, nofun⟩
  refine ⟨left, afterLeft, right, afterRight, leftReturned, rightReturned, agree.mpr ⟨?_, ?_⟩⟩
  all_goals
    rintro ⟨bytes, ⟨⟩, short, -⟩
    exact absurd short (by decide)

/-- Reading four bytes of a file of two: an I/O error through the cache, success and two zero bytes
through the stub backend. -/
theorem reads_disagree_past_end :
    let args : ReadArgs :=
      { path := some "a", offset := 0, size := 4, dstNull := false, target := .cpu }
    let shared (context : Context) := context.initial (Files.single [1, 2])
    ∃ left afterLeft right afterRight,
      Prog.Returns (serve Context.smallGds.setup) (fun _ => .take 2) (shared Context.smallGds)
        (memtierRead Context.smallGds args) left afterLeft ∧
      Prog.Returns (serve (Context.small id).setup) (fun _ => .take 2) (shared (Context.small id))
        (memtierRead (Context.small id) args) right afterRight ∧
      left = { rc := .ok, out := [1, 2, 0, 0] } ∧ right = { rc := .io, out := [] } ∧
      ¬ ReadsAgree (some [1, 2]) 0 4 left right := by
  intro args shared
  have left : (Prog.runFor (serve Context.smallGds.setup) (fun _ => .take 2) 7
      (shared Context.smallGds, memtierRead Context.smallGds args)).2.value? =
        some { rc := .ok, out := [1, 2, 0, 0] } := by
    decide +kernel
  have right : (Prog.runFor (serve (Context.small id).setup) (fun _ => .take 2) 7
      (shared (Context.small id), memtierRead (Context.small id) args)).2.value? =
        some { rc := .io, out := [] } := by
    decide +kernel
  refine ⟨_, _, _, _, Prog.Returns.of_value? left, Prog.Returns.of_value? right, rfl, rfl, ?_⟩
  rintro ⟨codes, -⟩
  exact absurd codes nofun

end MemTier
