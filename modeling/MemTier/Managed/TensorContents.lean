import MemTier.Managed.FileReads

/-!
# What tensors hold

A tensor holds the bytes of the file it was loaded from, from the moment it is returned until it is
destroyed, whatever else is loaded and freed. One frame lemma says what operations keep a block and
its contents; each program is shown to issue such operations only.
-/

namespace MemTier.Managed

open Resumption Resumption.Prog
open Containers.Intervals (Apart)
open Containers (Bytes slice length_slice)

/-- The bytes at an address are not those at another one. -/
def Away (ptr : Address) (bytes : UInt64) (other : Address) (count : UInt64) : Prop :=
  Apart (fun place : Nat × Nat => place.1) (fun place => place.2) (ptr.toNat, bytes.toNat)
    (other.toNat, count.toNat)

/-- A live block and what is in it. -/
structure Kept (ptr : Address) (bytes : UInt64) (data : Bytes) (filled : Filled) : Prop where
  separate : Separate filled.memory.live
  live : ∃ block ∈ filled.memory.live, block.address = ptr ∧ block.bytes = bytes
  contents : filled.cells.read ptr.toNat bytes.toNat = data

/-- Operations that neither free a block nor read a file into it. -/
def Op.Spares (ptr : Address) (bytes : UInt64) : Op → Prop
  | .cudaFree other => other ≠ ptr
  | .preadExact _ _ dst count => Away ptr bytes dst count
  | _ => True

/-! ## One operation -/

section

variable {files : Files} {permits : (op : FileOp) → FileReply op → Prop} {before after : Filled}
  {ptr : Address} {bytes : UInt64} {data : Bytes}

theorem does_cudaMallocManaged {count : UInt64} {reply : Option Address}
    (does : before.Does files permits (.cudaMallocManaged count) reply after) :
    (reply = none ∧ after.memory = before.memory) ∨
      ∃ other, reply = some other ∧ before.memory.Fresh other count ∧
        after.memory = before.memory.allocated other count := by
  obtain ⟨-, -, choice, served⟩ := does
  exact @serves_cudaMallocManaged (fun _ _ => True) _ _ _ _
    ⟨before.memory, choice, rfl, served, trivial⟩

/-- Operations that neither take nor free memory leave it as it is. -/
theorem does_live {op : Op} {reply : Reply op}
    (takes : ∀ count, op ≠ .cudaMallocManaged count) (frees : ∀ other, op ≠ .cudaFree other)
    (does : before.Does files permits op reply after) : after.memory.live = before.memory.live := by
  cases op with
  | cudaMallocManaged count => exact absurd rfl (takes count)
  | cudaFree other => exact absurd rfl (frees other)
  | preadExact => rw [does.1]
  | _ =>
      obtain ⟨-, -, choice, served⟩ := does
      simp only [serve, Option.some.injEq, Prod.mk.injEq] at served
      exact (congrArg Memory.live served.2).symm

/-- Memory that was taken is separate from what was there, and stays so. -/
theorem does_separate {op : Op} {reply : Reply op} (separate : Separate before.memory.live)
    (does : before.Does files permits op reply after) : Separate after.memory.live := by
  cases op with
  | cudaMallocManaged count =>
      rcases does_cudaMallocManaged does with ⟨-, same⟩ | ⟨other, -, fresh, taken⟩
      · rwa [same]
      · rw [taken]
        exact fresh.separate separate
  | cudaFree other =>
      obtain ⟨-, -, choice, served⟩ := does
      rcases @serves_cudaFree (fun _ _ => True) _ _ _ _ ⟨before.memory, choice, rfl, served, trivial⟩
        with ⟨-, -, freed⟩ | ⟨-, -, same⟩
      · rw [freed]
        exact separate.sublist List.filter_sublist
      · rwa [same]
  | _ => rwa [does_live (by simp) (by simp) does]

/-- A read into other memory. -/
theorem read_write_away {cells : Containers.Memory} {dst : Address} {count : UInt64} {stored : Bytes}
    (away : Away ptr bytes dst count) (short : stored.length ≤ count.toNat) :
    (cells.write dst.toNat stored).read ptr.toNat bytes.toNat =
      cells.read ptr.toNat bytes.toNat := by
  rcases away with empty | nothing | before | behind
  · dsimp only at empty
    rw [empty]
    rfl
  · dsimp only at nothing
    have none_stored : stored = [] := List.length_eq_zero_iff.mp (by omega)
    rw [none_stored, Containers.Memory.write_of_read_eq rfl]
  · exact Containers.Memory.read_write_disjoint (.inl before)
  · dsimp only at behind
    exact Containers.Memory.read_write_disjoint (.inr (by omega))

/-- What spares a block keeps it with its contents. -/
theorem Kept.does (kept : Kept ptr bytes data before) {op : Op} {reply : Reply op}
    (spares : op.Spares ptr bytes) (does : before.Does files permits op reply after) :
    Kept ptr bytes data after := by
  have separate := does_separate kept.separate does
  obtain ⟨block, member, rfl, rfl⟩ := kept.live
  have alike : ∀ {op : Op} {reply : Reply op}, (∀ path offset dst count,
      op ≠ .preadExact path offset dst count) → before.Does files permits op reply after →
      after.cells.read block.address.toNat block.bytes.toNat = data := by
    intro op reply other does
    have same : before.memory.Alike before.cells after.cells := by
      cases op with
      | preadExact path offset dst count => exact absurd rfl (other path offset dst count)
      | _ => exact does.2.1
    rw [same.read member]
    exact kept.contents
  cases op with
  | cudaMallocManaged count =>
      refine ⟨separate, ⟨block, ?_, rfl, rfl⟩, alike (by simp) does⟩
      rcases does_cudaMallocManaged does with ⟨-, same⟩ | ⟨other, -, -, taken⟩
      · rwa [same]
      · rw [taken]
        exact List.mem_cons_of_mem _ member
  | cudaFree other =>
      refine ⟨separate, ⟨block, ?_, rfl, rfl⟩, alike (by simp) does⟩
      obtain ⟨-, -, choice, served⟩ := does
      rcases @serves_cudaFree (fun _ _ => True) _ _ _ _ ⟨before.memory, choice, rfl, served, trivial⟩
        with ⟨-, -, freed⟩ | ⟨-, -, same⟩
      · rw [freed]
        exact List.mem_filter.mpr ⟨member, by simpa using Ne.symm spares⟩
      · rwa [same]
  | preadExact path offset dst count =>
      refine ⟨separate, ⟨block, ?_, rfl, rfl⟩, ?_⟩
      · rwa [does.1]
      · obtain ⟨stored, short, same, -⟩ := does.2.1
        rw [same.read member, read_write_away spares short]
        exact kept.contents
  | _ => exact ⟨separate, ⟨block, by rwa [does_live (by simp) (by simp) does], rfl, rfl⟩,
      alike (by simp) does⟩

end

/-! ## Programs -/

section

variable {replies : (op : Op) → Reply op → Prop} {ptr : Address} {bytes : UInt64}

theorem spares_cudaCheck (expr : String) (call : DriverCall) :
    Confined replies (Op.Spares ptr bytes) (cudaCheck expr call).run :=
  Confined.andThen (confined_issue trivial) fun _ => confined_require

theorem spares_ensureCudaDevice (device : Int) :
    Confined replies (Op.Spares ptr bytes) (ensureCudaDevice device).run := by
  apply Confined.andThen (confined_issue trivial)
  intro count
  cases count with
  | none => exact confined_throw _
  | some count => exact Confined.andThen confined_require fun _ => confined_require

theorem spares_cudaGuard (device : Int) :
    Confined replies (Op.Spares ptr bytes) (cudaGuard device).run :=
  Confined.andThen (confined_issue trivial) fun _ => confined_require

theorem spares_applyPrefetchPolicy (prefetchPolicy : String) (addr : Address) (count : UInt64)
    (device : Int) :
    Confined replies (Op.Spares ptr bytes)
      (applyPrefetchPolicy prefetchPolicy addr count device).run := by
  unfold applyPrefetchPolicy
  split
  · exact spares_cudaCheck _ _
  split
  · refine Confined.andThen ?_ fun _ => ?_
    · exact Confined.andThen (spares_ensureCudaDevice device) fun _ => spares_cudaCheck _ _
    · apply Confined.andThen (spares_ensureCudaDevice device)
      intro _
      apply Confined.andThen (spares_cudaGuard device)
      intro _
      apply Confined.andThen (spares_cudaCheck _ _)
      intro _
      exact Confined.andThen (spares_cudaCheck _ _) fun _ => confined_issue trivial
  split
  · exact Confined.andThen (spares_ensureCudaDevice device) fun _ => spares_cudaCheck _ _
  split
  · exact confined_pure ()
  · exact confined_throw _

theorem spares_allocateManaged (count : UInt64) (device : Int) :
    Confined replies (Op.Spares ptr bytes) (allocateManaged count device).run := by
  apply Confined.andThen (spares_ensureCudaDevice device)
  intro _
  apply Confined.andThen (spares_cudaGuard device)
  intro _
  apply Confined.andThen (confined_issue trivial)
  intro taken
  cases taken with
  | none => exact confined_throw _
  | some other => exact Confined.andThen (confined_issue trivial) fun _ => confined_pure other

theorem spares_cudaFreeNoexcept {other : Address} (different : other ≠ ptr) (count : UInt64) :
    Confined replies (Op.Spares ptr bytes) (cudaFreeNoexcept other count).run := by
  unfold cudaFreeNoexcept
  split
  · exact confined_pure ()
  · have allowed : Op.Spares ptr bytes (.cudaFree other) := different
    apply Confined.andThen (confined_issue allowed)
    intro freed
    cases freed with
    | true => exact confined_issue trivial
    | false => exact confined_pure ()

theorem spares_freeManaged {other : Address} (different : other ≠ ptr) :
    Confined replies (Op.Spares ptr bytes) (freeManaged other).run := by
  unfold freeManaged
  split
  · exact confined_pure ()
  · have allowed : Op.Spares ptr bytes (.cudaFree other) := different
    apply Confined.andThen (confined_issue allowed)
    intro freed
    cases freed with
    | true => exact confined_issue trivial
    | false => exact confined_throw _

theorem spares_give_back {α : Type} {other : Address} (different : other ≠ ptr) (count : UInt64)
    (failure : Failure) :
    Confined replies (Op.Spares ptr bytes)
      (do cudaFreeNoexcept other count; throw failure : Program α).run :=
  Confined.andThen (spares_cudaFreeNoexcept different count) fun _ => confined_throw failure

theorem spares_readFile (path : String) (offset : UInt64) {dst : Address} {count : UInt64}
    (away : Away ptr bytes dst count) :
    Confined replies (Op.Spares ptr bytes) (readFile path offset dst count).run := by
  have allowed : Op.Spares ptr bytes (.preadExact path offset dst count) := away
  apply Confined.andThen (confined_issue allowed)
  intro message
  cases message with
  | none => exact confined_issue trivial
  | some message => exact confined_throw _

theorem spares_readIntoManaged (path : String) (offset : UInt64) {dst : Address} {count : UInt64}
    (different : dst ≠ ptr) (away : Away ptr bytes dst count) :
    Confined replies (Op.Spares ptr bytes) (readIntoManaged path offset dst count).run :=
  Confined.handled (spares_readFile path offset away) fun failure =>
    spares_give_back different count failure

theorem spares_fromBlob {dst : Address} (different : dst ≠ ptr) (rows cols : Int64)
    (count : UInt64) :
    Confined replies (Op.Spares ptr bytes) (fromBlob dst rows cols count).run := by
  apply Confined.andThen (confined_issue trivial)
  intro blob
  cases blob with
  | tensor => exact confined_pure _
  | thrown owned =>
      cases owned with
      | true => exact spares_give_back different count _
      | false => exact confined_throw _

end

/-! ## Loads -/

section

variable {files : Files} {permits : (op : FileOp) → FileReply op → Prop} {before after : Filled}
  {ptr : Address} {bytes : UInt64} {data : Bytes}

theorem does_of_serves {op : Op} {reply : Reply op}
    (serves : (inOneGo files permits).Serves before op reply after) :
    before.Does files permits op reply after := by
  rwa [inOneGo, Environment.serves_ofRelation] at serves

/-- What spares a block keeps it. -/
theorem Kept.spared {α : Type} {program : Program α} {outcome : Except Failure α}
    (kept : Kept ptr bytes data before)
    (spares : Confined (fun _ _ => True) (Op.Spares ptr bytes) program.run)
    (evaluation : Evaluates (inOneGo files permits) program.run before outcome after) :
    Kept ptr bytes data after :=
  spares.keeps (fun _ _ _ _ kept spares serves => ⟨trivial, kept.does spares (does_of_serves serves)⟩)
    kept evaluation

theorem separate_of_evaluates {α : Type} {program : Program α} {outcome : Except Failure α}
    (separate : Separate before.memory.live)
    (evaluation : Evaluates (inOneGo files permits) program.run before outcome after) :
    Separate after.memory.live :=
  (confined_anything program.run).keeps
    (fun _ _ _ _ separate _ serves => ⟨trivial, does_separate separate (does_of_serves serves)⟩)
    separate evaluation

theorem live_of_inert {α : Type} {program : Program α} {outcome : Except Failure α}
    (inert : Confined (fun _ _ => True) Op.Inert program.run)
    (evaluation : Evaluates (inOneGo files permits) program.run before outcome after) :
    after.memory.live = before.memory.live := by
  let live (filled : Filled) : List Block := filled.memory.live
  change live after = live before
  exact inert.evaluates (fun _ op _ _ inert serves =>
    ⟨trivial, does_live (by rintro count rfl; exact inert) (by rintro other rfl; exact inert)
      (does_of_serves serves)⟩) evaluation

/-- What was taken is a block of its own. -/
theorem allocateManaged_takes {count : UInt64} {device : Int} {other : Address}
    (evaluation : Evaluates (inOneGo files permits) (allocateManaged count device).run before
      (.ok other) after) :
    ∃ era, after.memory.live = ⟨other, count, era⟩ :: before.memory.live := by
  rcases evaluates_then.mp evaluation with ⟨_, -, impossible⟩ | ⟨_, ensured, first, evaluation⟩
  · exact absurd impossible (by simp)
  rcases evaluates_then.mp evaluation with ⟨_, -, impossible⟩ | ⟨_, guarded, second, evaluation⟩
  · exact absurd impossible (by simp)
  have same := (live_of_inert (confined_cudaGuard device) second).trans
    (live_of_inert (confined_ensureCudaDevice device) first)
  obtain ⟨reply, middle, serves, rest⟩ := evaluates_issue_then.mp evaluation
  rcases does_cudaMallocManaged (does_of_serves serves) with ⟨rfl, -⟩ | ⟨taken, rfl, -, allocated⟩
  · exact absurd (evaluates_throw.mp rest).1 (by simp)
  · obtain ⟨_, noted, notes, rest⟩ := evaluates_issue_then.mp rest
    obtain ⟨returned, rfl⟩ := evaluates_pure.mp rest
    obtain rfl := Except.ok.inj returned
    refine ⟨guarded.memory.era, ?_⟩
    rw [does_live (by simp) (by simp) (does_of_serves notes), allocated, ← same]
    rfl

/-- The head of live memory is away from the rest of it. -/
theorem away_of_live {live : List Block} {block other : Block} {rest : List Block}
    (separate : Separate live) (split : live = block :: rest) (member : other ∈ rest) :
    block.address ≠ other.address ∧ Away other.address other.bytes block.address block.bytes := by
  rw [split] at separate
  obtain ⟨different, apart⟩ := (List.pairwise_cons.mp separate.pairwise).1 other member
  refine ⟨different, ?_⟩
  unfold Away Apart
  unfold Apart at apart
  dsimp only at apart ⊢
  omega

/-- The file is in the memory it was to be read into. -/
theorem readIntoManaged_fills {path : String} {offset : UInt64} {dst : Address} {count : UInt64}
    (separate : Separate before.memory.live)
    (live : ∃ block ∈ before.memory.live, block.address = dst ∧ block.bytes = count)
    (evaluation : Evaluates (inOneGo files permits) (readIntoManaged path offset dst count).run before
      (.ok ()) after) :
    ∃ content, files.find path = some content ∧
      (slice content offset.toNat count.toNat).length = count.toNat ∧
      Kept dst count (slice content offset.toNat count.toNat) after := by
  rcases evaluates_tryCatch.mp evaluation with ⟨_, reading, -⟩ | ⟨_, _, -, handled⟩
  · obtain ⟨message, read, serves, rest⟩ := evaluates_issue_then.mp reading
    obtain ⟨memory, ⟨stored, -, same, complete⟩, -⟩ := does_of_serves serves
    cases message with
    | some message => exact absurd (evaluates_throw.mp rest).1 (by simp)
    | none =>
        obtain ⟨content, found, rfl, length⟩ := complete rfl
        have kept : Kept dst count (slice content offset.toNat count.toNat) read := by
          obtain ⟨block, member, rfl, rfl⟩ := live
          refine ⟨by rwa [memory], ⟨block, by rwa [memory], rfl, rfl⟩, ?_⟩
          rw [same.read member]
          have there := Containers.Memory.read_write_same before.cells block.address.toNat
            (slice content offset.toNat block.bytes.toNat)
          rwa [length] at there
        have spares : Confined (fun _ _ => True) (Op.Spares dst count)
            (request (.countFileRead count)).run := confined_issue trivial
        exact ⟨content, found, length, kept.spared spares rest⟩
  · rcases evaluates_then.mp handled with ⟨_, -, impossible⟩ | ⟨_, _, -, rest⟩
    · exact absurd impossible (by simp)
    · exact absurd (evaluates_throw.mp rest).1 (by simp)

theorem fromBlob_returns {dst : Address} {rows cols : Int64} {count : UInt64} {tensor : Tensor}
    (evaluation : Evaluates (inOneGo files permits) (fromBlob dst rows cols count).run before
      (.ok tensor) after) :
    tensor = ⟨dst, count⟩ ∧ before.Does files permits (.fromBlob dst rows cols) .tensor after := by
  obtain ⟨blob, middle, serves, rest⟩ := evaluates_issue_then.mp evaluation
  cases blob with
  | tensor =>
      obtain ⟨returned, rfl⟩ := evaluates_pure.mp rest
      exact ⟨Except.ok.inj returned, does_of_serves serves⟩
  | thrown owned =>
      cases owned with
      | true =>
          rcases evaluates_then.mp rest with ⟨_, -, impossible⟩ | ⟨_, _, -, rest⟩
          · exact absurd impossible (by simp)
          · exact absurd (evaluates_throw.mp rest).1 (by simp)
      | false => exact absurd (evaluates_throw.mp rest).1 (by simp)

/-- A load leaves what others hold alone, and returns a tensor of its own. -/
structure LoadKeeps (ptr : Address) (bytes : UInt64) (data : Bytes)
    (outcome : Except Failure Tensor) (after : Filled) : Prop where
  kept : Kept ptr bytes data after
  different : ∀ tensor, outcome = .ok tensor → tensor.ptr ≠ ptr

/-- What a load that succeeds returns: a tensor that holds its part of the file. -/
def Holds (files : Files) (path : String) (offset : UInt64) (tensor : Tensor) (filled : Filled) :
    Prop :=
  ∃ content, files.find path = some content ∧
    (slice content offset.toNat tensor.bytes.toNat).length = tensor.bytes.toNat ∧
    Kept tensor.ptr tensor.bytes (slice content offset.toNat tensor.bytes.toNat) filled

theorem loadFileToManaged_keeps {path : String} {offset : UInt64} {rows cols : Int64} {device : Int}
    {outcome : Except Failure Tensor} (kept : Kept ptr bytes data before)
    (evaluation : Evaluates (inOneGo files permits)
      (loadFileToManaged path offset rows cols device).run before outcome after) :
    LoadKeeps ptr bytes data outcome after := by
  rcases evaluates_then.mp evaluation with ⟨failure, failed, rfl⟩ | ⟨_, checked, first, later⟩
  · exact ⟨kept.spared confined_require failed, by simp⟩
  have kept' := kept.spared confined_require first
  rcases evaluates_then.mp later with ⟨failure, failed, rfl⟩ | ⟨other, taken, second, later⟩
  · exact ⟨kept'.spared (spares_allocateManaged _ device) failed, by simp⟩
  have kept'' := kept'.spared (spares_allocateManaged _ device) second
  obtain ⟨era, live_eq⟩ := allocateManaged_takes second
  obtain ⟨block, member, rfl, rfl⟩ := kept'.live
  obtain ⟨different, away⟩ := away_of_live kept''.separate live_eq member
  rcases evaluates_then.mp later with ⟨failure, failed, rfl⟩ | ⟨_, filled, third, later⟩
  · exact ⟨kept''.spared (spares_readIntoManaged path offset different away) failed, by simp⟩
  have kept₃ := kept''.spared (spares_readIntoManaged path offset different away) third
  refine ⟨kept₃.spared (spares_fromBlob different rows cols _) later, ?_⟩
  rintro tensor rfl
  rw [(fromBlob_returns later).1]
  exact different

theorem loadFileToManaged_holds {path : String} {offset : UInt64} {rows cols : Int64} {device : Int}
    {tensor : Tensor} (separate : Separate before.memory.live)
    (evaluation : Evaluates (inOneGo files permits)
      (loadFileToManaged path offset rows cols device).run before (.ok tensor) after) :
    tensor.bytes = tensorBytes rows cols ∧ Holds files path offset tensor after := by
  rcases evaluates_then.mp evaluation with ⟨_, -, impossible⟩ | ⟨_, checked, first, later⟩
  · exact absurd impossible (by simp)
  have separate' := separate_of_evaluates separate first
  rcases evaluates_then.mp later with ⟨_, -, impossible⟩ | ⟨other, taken, second, later⟩
  · exact absurd impossible (by simp)
  obtain ⟨era, live_eq⟩ := allocateManaged_takes second
  rcases evaluates_then.mp later with ⟨_, -, impossible⟩ | ⟨_, filled, third, later⟩
  · exact absurd impossible (by simp)
  obtain ⟨content, found, length, kept⟩ := readIntoManaged_fills
    (separate_of_evaluates separate' second)
    ⟨_, by rw [live_eq]; exact List.mem_cons_self, rfl, rfl⟩ third
  obtain ⟨rfl, returned⟩ := fromBlob_returns later
  have spares : Op.Spares other (tensorBytes rows cols) (.fromBlob other rows cols) := trivial
  exact ⟨rfl, content, found, length, kept.does spares returned⟩

/-- The policy does not touch the memory it is about. -/
theorem uvmTensorFromFile_keeps {path : String} {rows cols : Int64} {offset : UInt64} {device : Int}
    {prefetchPolicy : String} {outcome : Except Failure Tensor} (kept : Kept ptr bytes data before)
    (evaluation : Evaluates (inOneGo files permits)
      (uvmTensorFromFile path rows cols offset device prefetchPolicy).run before outcome after) :
    LoadKeeps ptr bytes data outcome after := by
  rcases evaluates_then.mp evaluation with ⟨failure, failed, rfl⟩ | ⟨tensor, loaded, first, later⟩
  · exact ⟨(loadFileToManaged_keeps kept failed).kept, by simp⟩
  have load := loadFileToManaged_keeps kept first
  have different := load.different tensor rfl
  have spares := @Confined.handled _ _ _ _ (fun _ _ => True) (Op.Spares ptr bytes) _ _
    (spares_applyPrefetchPolicy prefetchPolicy tensor.ptr (tensorBytes rows cols) device)
    fun failure => spares_give_back different tensor.bytes failure
  rcases evaluates_then.mp later with ⟨failure, failed, rfl⟩ | ⟨_, advised, second, later⟩
  · exact ⟨load.kept.spared spares failed, by simp⟩
  · obtain ⟨rfl, rfl⟩ := evaluates_pure.mp later
    refine ⟨load.kept.spared spares second, ?_⟩
    rintro _ ⟨⟩
    exact different

theorem uvmTensorFromFile_holds {path : String} {rows cols : Int64} {offset : UInt64} {device : Int}
    {prefetchPolicy : String} {tensor : Tensor} (separate : Separate before.memory.live)
    (evaluation : Evaluates (inOneGo files permits)
      (uvmTensorFromFile path rows cols offset device prefetchPolicy).run before (.ok tensor) after) :
    tensor.bytes = tensorBytes rows cols ∧ Holds files path offset tensor after := by
  rcases evaluates_then.mp evaluation with ⟨_, -, impossible⟩ | ⟨tensor', loaded, first, later⟩
  · exact absurd impossible (by simp)
  obtain ⟨bytes_eq, content, found, length, kept⟩ := loadFileToManaged_holds separate first
  rcases evaluates_then.mp later with ⟨_, -, impossible⟩ | ⟨_, advised, second, later⟩
  · exact absurd impossible (by simp)
  obtain ⟨returned, rfl⟩ := evaluates_pure.mp later
  obtain rfl := Except.ok.inj returned
  refine ⟨bytes_eq, content, found, length, ?_⟩
  rcases evaluates_tryCatch.mp second with ⟨_, advising, -⟩ | ⟨_, _, -, handled⟩
  · exact kept.spared (spares_applyPrefetchPolicy _ _ _ _) advising
  · rcases evaluates_then.mp handled with ⟨_, -, impossible⟩ | ⟨_, _, -, rest⟩
    · exact absurd impossible (by simp)
    · exact absurd (evaluates_throw.mp rest).1 (by simp)

end

/-! ## Sessions -/

/-- The part of a file that a tensor is loaded from. -/
structure Source where
  path : String
  offset : UInt64
  bytes : UInt64
  deriving DecidableEq, Repr

/-- Where a call loads from, if it does. -/
def Call.source : Call → Option Source
  | .loadFileToManaged path offset rows cols _ => some ⟨path, offset, tensorBytes rows cols⟩
  | .uvmTensorFromFile path rows cols offset _ _ => some ⟨path, offset, tensorBytes rows cols⟩
  | _ => none

/-- The memory with its contents, and the tensors that exist with where they were loaded from. -/
structure FileSession where
  store : Store := {}
  held : List (Tensor × Source) := []

/-- What exists after a call besides what it returns. -/
def Call.rest {α : Type} (held : List α) : Call → List α
  | .destroyTensor index => held.eraseIdx index
  | _ => held

def Call.hold (call : Call) (held : List (Tensor × Source)) :
    Except Failure (Option Tensor) → List (Tensor × Source)
  | .ok (some tensor) => call.rest held ++ (call.source.map fun source => (tensor, source)).toList
  | _ => call.rest held

/-- A call is made, carried out, and ends. -/
def FileSession.Performs (files : Files) (permits : (op : FileOp) → FileReply op → Prop)
    (session : FileSession) (call : Call) (outcome : Except Failure (Option Tensor))
    (after : FileSession) : Prop :=
  ∃ program tensors, call.program (session.held.map Prod.fst) = some (program, tensors) ∧
    Evaluates (onFiles files permits) (onStore program).run session.store outcome after.store ∧
    after.held = call.hold session.held outcome

/-- Sessions after any number of calls among those allowed. Nothing is known of the contents of
memory in the beginning. -/
inductive FileSession.Reached (files : Files) (permits : (op : FileOp) → FileReply op → Prop)
    (allowed : FileSession → Call → Prop) : FileSession → Prop
  | init (cells : Containers.Memory) : Reached files permits allowed { store := { cells } }
  | call {session after : FileSession} {call : Call} {outcome : Except Failure (Option Tensor)}
      (reached : Reached files permits allowed session) (allow : allowed session call)
      (performs : session.Performs files permits call outcome after) :
      Reached files permits allowed after

/-- Memory under a tensor is left to its deleter. -/
def FileSession.SparesHeld (session : FileSession) : Call → Prop
  | .freeManaged addr => ∀ entry ∈ session.held, entry.1.ptr ≠ addr
  | _ => True

/-- Every tensor holds its part of its file, and no two of them are in one place. -/
structure FileSession.Sound (files : Files) (session : FileSession) : Prop where
  separate : Separate session.store.memory.live
  holds : ∀ entry ∈ session.held, entry.1.bytes = entry.2.bytes ∧
    Holds files entry.2.path entry.2.offset entry.1 session.store.toFilled
  distinct : (session.held.map fun entry => entry.1.ptr).Nodup
  opened : session.store.opened = []

/-- A program whose value is turned into another one. -/
theorem evaluates_then_pure {σ Choice α β : Type} {environment : Environment σ Choice Reply}
    {program : Program α} {value : α → β} {outcome : Except Failure β} {before after : σ}
    (evaluation : Evaluates environment (do let result ← program; pure (value result) :
      Program β).run before outcome after) :
    ∃ inner, Evaluates environment program.run before inner after ∧ outcome = inner.map value := by
  rcases evaluates_then.mp evaluation with ⟨failure, failed, rfl⟩ | ⟨result, middle, done, rest⟩
  · exact ⟨.error failure, failed, rfl⟩
  · obtain ⟨rfl, rfl⟩ := evaluates_pure.mp rest
    exact ⟨.ok result, done, rfl⟩

section

variable {files : Files} {permits : (op : FileOp) → FileReply op → Prop}
  {session after : FileSession} {call : Call} {outcome : Except Failure (Option Tensor)}

theorem Call.rest_sublist {α : Type} (held : List α) (call : Call) :
    (call.rest held).Sublist held := by
  cases call with
  | destroyTensor index => exact List.eraseIdx_sublist held index
  | _ => exact List.Sublist.refl held

/-- What a call does in one go. -/
theorem FileSession.Performs.evaluates (performs : session.Performs files permits call outcome after) :
    ∃ program tensors, call.program (session.held.map Prod.fst) = some (program, tensors) ∧
      Evaluates (inOneGo files permits) program.run session.store.toFilled outcome
        after.store.toFilled ∧
      after.store.opened = session.store.opened ∧ after.held = call.hold session.held outcome := by
  obtain ⟨program, tensors, starts, evaluation, held_eq⟩ := performs
  obtain ⟨inner, opened, -⟩ := evaluates_onStore evaluation
  exact ⟨program, tensors, starts, inner, opened, held_eq⟩

theorem eq_ok_of_map {inner : Except Failure Tensor} {tensor : Tensor}
    (returned : inner.map some = .ok (some tensor)) : inner = .ok tensor := by
  cases inner with
  | error failure => exact absurd returned (by simp [Except.map])
  | ok value => exact congrArg Except.ok (Option.some.inj (Except.ok.inj returned))

/-- A call keeps the tensors that it does not destroy, and returns one of its own. -/
theorem FileSession.Performs.keeps (sound : session.Sound files) (spares : session.SparesHeld call)
    (performs : session.Performs files permits call outcome after) {entry : Tensor × Source}
    (member : entry ∈ call.rest session.held) {data : Bytes}
    (kept : Kept entry.1.ptr entry.1.bytes data session.store.toFilled) :
    Kept entry.1.ptr entry.1.bytes data after.store.toFilled ∧
      ∀ tensor, outcome = .ok (some tensor) → tensor.ptr ≠ entry.1.ptr := by
  obtain ⟨program, tensors, starts, evaluation, -, -⟩ := performs.evaluates
  have present := (Call.rest_sublist session.held call).subset member
  cases call with
  | loadFileToManaged path offset rows cols device =>
      obtain ⟨rfl, -⟩ := Prod.mk.inj (Option.some.inj starts)
      obtain ⟨inner, loaded, rfl⟩ := evaluates_then_pure evaluation
      have load := loadFileToManaged_keeps kept loaded
      exact ⟨load.kept, fun tensor returned => load.different tensor (eq_ok_of_map returned)⟩
  | uvmTensorFromFile path rows cols offset device prefetchPolicy =>
      obtain ⟨rfl, -⟩ := Prod.mk.inj (Option.some.inj starts)
      obtain ⟨inner, loaded, rfl⟩ := evaluates_then_pure evaluation
      have load := uvmTensorFromFile_keeps kept loaded
      exact ⟨load.kept, fun tensor returned => load.different tensor (eq_ok_of_map returned)⟩
  | allocateManaged bytes device =>
      obtain ⟨rfl, -⟩ := Prod.mk.inj (Option.some.inj starts)
      obtain ⟨inner, allocated, rfl⟩ := evaluates_then_pure evaluation
      refine ⟨kept.spared (spares_allocateManaged bytes device) allocated, ?_⟩
      cases inner <;> simp [Except.map]
  | freeManaged addr =>
      obtain ⟨rfl, -⟩ := Prod.mk.inj (Option.some.inj starts)
      obtain ⟨inner, freed, rfl⟩ := evaluates_then_pure evaluation
      refine ⟨kept.spared (spares_freeManaged (spares entry present).symm) freed, ?_⟩
      cases inner <;> simp [Except.map]
  | destroyTensor index =>
      rw [Call.program] at starts
      split at starts
      · exact absurd starts (by simp)
      rename_i tensor found
      obtain ⟨rfl, -⟩ := Prod.mk.inj (Option.some.inj starts)
      obtain ⟨inner, freed, rfl⟩ := evaluates_then_pure evaluation
      have different : tensor.ptr ≠ entry.1.ptr := by
        intro same
        obtain ⟨place, elsewhere, stands⟩ := List.mem_eraseIdx_iff_getElem?.mp member
        rw [List.getElem?_map, Option.map_eq_some_iff] at found
        obtain ⟨destroyed, found, rfl⟩ := found
        obtain ⟨inside, -⟩ := List.getElem?_eq_some_iff.mp stands
        refine elsewhere ((List.getElem?_inj (by simpa using inside) sound.distinct).mp ?_)
        rw [List.getElem?_map, List.getElem?_map, stands, found, Option.map_some, Option.map_some,
          same]
      refine ⟨kept.spared (spares_cudaFreeNoexcept different tensor.bytes) freed, ?_⟩
      cases inner <;> simp [Except.map]
  | resetStats =>
      obtain ⟨rfl, -⟩ := Prod.mk.inj (Option.some.inj starts)
      obtain ⟨inner, reset, rfl⟩ := evaluates_then_pure evaluation
      have spared : Confined (fun _ _ => True) (Op.Spares entry.1.ptr entry.1.bytes)
          resetStats.run := confined_issue trivial
      refine ⟨kept.spared spared reset, ?_⟩
      cases inner <;> simp [Except.map]

/-- Only loads return tensors. -/
theorem FileSession.Performs.isLoad (performs : session.Performs files permits call outcome after)
    {tensor : Tensor} (returned : outcome = .ok (some tensor)) : call.IsLoad := by
  obtain ⟨program, tensors, starts, evaluation, -, -⟩ := performs.evaluates
  cases call with
  | loadFileToManaged | uvmTensorFromFile => exact trivial
  | destroyTensor index =>
      rw [Call.program] at starts
      split at starts
      · exact absurd starts (by simp)
      obtain ⟨rfl, -⟩ := Prod.mk.inj (Option.some.inj starts)
      obtain ⟨inner, -, rfl⟩ := evaluates_then_pure evaluation
      cases inner <;> exact absurd returned (by simp [Except.map])
  | _ =>
      obtain ⟨rfl, -⟩ := Prod.mk.inj (Option.some.inj starts)
      obtain ⟨inner, -, rfl⟩ := evaluates_then_pure evaluation
      cases inner <;> exact absurd returned (by simp [Except.map])

/-- What a call returns holds what the call was to load. -/
theorem FileSession.Performs.returns (sound : session.Sound files)
    (performs : session.Performs files permits call outcome after) {tensor : Tensor}
    (returned : outcome = .ok (some tensor)) :
    ∃ source, call.source = some source ∧ tensor.bytes = source.bytes ∧
      Holds files source.path source.offset tensor after.store.toFilled := by
  have isLoad := performs.isLoad returned
  obtain ⟨program, tensors, starts, evaluation, -, -⟩ := performs.evaluates
  cases call with
  | loadFileToManaged path offset rows cols device =>
      obtain ⟨rfl, -⟩ := Prod.mk.inj (Option.some.inj starts)
      obtain ⟨inner, loaded, rfl⟩ := evaluates_then_pure evaluation
      obtain rfl := eq_ok_of_map returned
      exact ⟨_, rfl, loadFileToManaged_holds sound.separate loaded⟩
  | uvmTensorFromFile path rows cols offset device prefetchPolicy =>
      obtain ⟨rfl, -⟩ := Prod.mk.inj (Option.some.inj starts)
      obtain ⟨inner, loaded, rfl⟩ := evaluates_then_pure evaluation
      obtain rfl := eq_ok_of_map returned
      exact ⟨_, rfl, uvmTensorFromFile_holds sound.separate loaded⟩
  | _ => exact isLoad.elim

/-- What was held and is not destroyed is still held. -/
theorem FileSession.Performs.holds_rest (sound : session.Sound files)
    (spares : session.SparesHeld call)
    (performs : session.Performs files permits call outcome after) {entry : Tensor × Source}
    (member : entry ∈ call.rest session.held) :
    entry.1.bytes = entry.2.bytes ∧
      Holds files entry.2.path entry.2.offset entry.1 after.store.toFilled := by
  obtain ⟨bytes_eq, content, found, length, kept⟩ :=
    sound.holds entry ((Call.rest_sublist session.held call).subset member)
  exact ⟨bytes_eq, content, found, length, (performs.keeps sound spares member kept).1⟩

/-- One call. -/
theorem FileSession.Performs.sound (sound : session.Sound files) (spares : session.SparesHeld call)
    (performs : session.Performs files permits call outcome after) : after.Sound files := by
  obtain ⟨program, tensors, -, evaluation, opened, held_eq⟩ := performs.evaluates
  have rest_distinct : ((call.rest session.held).map fun entry => entry.1.ptr).Nodup :=
    sound.distinct.sublist ((Call.rest_sublist session.held call).map _)
  have separate := separate_of_evaluates sound.separate evaluation
  by_cases returns : ∃ tensor, outcome = .ok (some tensor)
  · obtain ⟨tensor, returned⟩ := returns
    obtain ⟨source, source_eq, bytes_eq, holds⟩ := performs.returns sound returned
    have held : after.held = call.rest session.held ++ [(tensor, source)] := by
      rw [held_eq, returned, Call.hold, source_eq]
      rfl
    refine ⟨separate, ?_, ?_, opened.trans sound.opened⟩
    · rw [held]
      intro entry member
      rcases List.mem_append.mp member with before | new
      · exact performs.holds_rest sound spares before
      · rw [List.mem_singleton.mp new]
        exact ⟨bytes_eq, holds⟩
    · rw [held, List.map_append]
      refine List.nodup_append.mpr ⟨rest_distinct, List.nodup_singleton _, ?_⟩
      intro ptr member other new
      obtain ⟨entry, present, rfl⟩ := List.mem_map.mp member
      rw [List.mem_singleton.mp new]
      obtain ⟨-, content, -, -, kept⟩ :=
        sound.holds entry ((Call.rest_sublist session.held call).subset present)
      exact ((performs.keeps sound spares present kept).2 tensor returned).symm
  · have held : after.held = call.rest session.held := by
      rw [held_eq]
      match outcome, returns with
      | .ok (some tensor), returns => exact absurd ⟨tensor, rfl⟩ returns
      | .ok none, _ | .error _, _ => rfl
    refine ⟨separate, ?_, by rwa [held], opened.trans sound.opened⟩
    rw [held]
    exact fun entry member => performs.holds_rest sound spares member

theorem FileSession.Reached.sound
    (reached : FileSession.Reached files permits FileSession.SparesHeld session) :
    session.Sound files := by
  induction reached with
  | init cells =>
      exact ⟨⟨.nil, fun block member => absurd member List.not_mem_nil⟩,
        fun entry member => absurd member List.not_mem_nil, List.nodup_nil, rfl⟩
  | call reached spares performs induction => exact performs.sound induction spares

/-- Two live blocks at different addresses are in different places. -/
theorem Kept.away {ptr other : Address} {bytes count : UInt64} {data more : Bytes} {filled : Filled}
    (kept : Kept ptr bytes data filled) (kept' : Kept other count more filled)
    (different : ptr ≠ other) : Away ptr bytes other count := by
  obtain ⟨block, member, rfl, rfl⟩ := kept.live
  obtain ⟨block', member', rfl, rfl⟩ := kept'.live
  have : Std.Symm Block.Separate := ⟨fun first second apart => ⟨apart.1.symm, apart.2.symm⟩⟩
  exact (kept.separate.pairwise.forall member member' fun same =>
    different (congrArg Block.address same)).2

end

/-! ### Finding sessions by running calls -/

instance (session : FileSession) (call : Call) : Decidable (session.SparesHeld call) :=
  match call with
  | .freeManaged addr => inferInstanceAs (Decidable (∀ entry ∈ session.held, entry.1.ptr ≠ addr))
  | .allocateManaged .. | .loadFileToManaged .. | .uvmTensorFromFile .. | .destroyTensor _
  | .resetStats => isTrue trivial

instance {files : Files} {permits : (op : FileOp) → FileReply op → Prop}
    [∀ op reply, Decidable (permits op reply)] :
    ∀ op reply, Decidable ((onFiles files permits).permits op reply) :=
  inferInstanceAs (∀ op reply, Decidable (permits op reply))

/-- Make calls under given choices, as long as they are allowed. -/
def FileSession.run? (files : Files) (permits : (op : FileOp) → FileReply op → Prop)
    [∀ op reply, Decidable (permits op reply)] (allowed : FileSession → Call → Prop)
    [∀ session call, Decidable (allowed session call)] :
    List (Call × List FileChoice) → FileSession → Option FileSession
  | [], session => some session
  | (made, choices) :: later, session =>
      if allowed session made then
        match made.program (session.held.map Prod.fst) with
        | none => none
        | some (program, _) =>
            match evaluate? (onFiles files permits) choices (onStore program).run session.store with
            | none => none
            | some (outcome, store) =>
                run? files permits allowed later { store, held := made.hold session.held outcome }
      else none

theorem FileSession.Reached.of_run? {files : Files} {permits : (op : FileOp) → FileReply op → Prop}
    [∀ op reply, Decidable (permits op reply)] {allowed : FileSession → Call → Prop}
    [∀ session call, Decidable (allowed session call)] {calls : List (Call × List FileChoice)}
    {session after : FileSession} (reached : FileSession.Reached files permits allowed session)
    (found : session.run? files permits allowed calls = some after) :
    FileSession.Reached files permits allowed after := by
  induction calls generalizing session with
  | nil => exact Option.some.inj found ▸ reached
  | cons made later induction =>
      rw [FileSession.run?] at found
      split at found
      · rename_i allow
        split at found
        · exact absurd found (by simp)
        rename_i program tensors program_eq
        split at found
        · exact absurd found (by simp)
        rename_i outcome store evaluated
        exact induction (.call reached allow ⟨program, tensors, program_eq,
          Evaluates.of_evaluate? evaluated, rfl⟩) found
      · exact absurd found (by simp)

/-- Where some calls lead to, if they can be made. -/
def FileSession.endOf (files : Files) (permits : (op : FileOp) → FileReply op → Prop)
    [∀ op reply, Decidable (permits op reply)] (allowed : FileSession → Call → Prop)
    [∀ session call, Decidable (allowed session call)] (calls : List (Call × List FileChoice)) :
    FileSession :=
  (FileSession.run? files permits allowed calls {}).getD {}

theorem FileSession.reached_endOf {files : Files} {permits : (op : FileOp) → FileReply op → Prop}
    [∀ op reply, Decidable (permits op reply)] {allowed : FileSession → Call → Prop}
    [∀ session call, Decidable (allowed session call)] {calls : List (Call × List FileChoice)}
    (runs : (FileSession.run? files permits allowed calls {}).isSome) :
    FileSession.Reached files permits allowed (FileSession.endOf files permits allowed calls) := by
  obtain ⟨after, found⟩ := Option.isSome_iff_exists.mp runs
  rw [FileSession.endOf, found]
  exact FileSession.Reached.of_run? (.init _) found

/-! ## What tensors hold -/

/-- A file of sixteen bytes. -/
def sixteen : Files where
  find path := if path = "t" then some ((List.range 16).map UInt8.ofNat) else none
  small path content found := by
    split at found
    · rw [← Option.some.inj found, List.length_map, List.length_range]
      decide
    · exact absurd found (by simp)

/-- What calls of the operating system deliver besides memory at an address. -/
def loadsAt (address : Address) (reads : List Nat) : List FileChoice :=
  List.append [{}, {}, { memory := { address := some address } }, {}, {}]
    (List.append (reads.map fun count => { posix := .take count }) [{}, {}, {}])

/-- Two tensors are loaded, the first in two reads, and another one is destroyed in between. -/
def sixteenCalls : List (Call × List FileChoice) :=
  [(.loadFileToManaged "t" 4 1 2 0, loadsAt 4096 [3, 9]),
    (.loadFileToManaged "t" 0 1 1 0, loadsAt 8192 [4]),
    (.destroyTensor 1, [{}, {}]),
    (.uvmTensorFromFile "t" 2 1 8 0 "none", loadsAt 8192 [1, 1, 6])]

def AnyFileReply (op : FileOp) (_ : FileReply op) : Prop := True

instance : ∀ op reply, Decidable (AnyFileReply op reply) := fun _ _ => isTrue trivial

/-- Without the contents, as if a read were one operation. -/
def FileSession.toSession (session : FileSession) : Session where
  memory := session.store.memory
  tensors := session.held.map Prod.fst

/-- `from_blob` does not throw before the deleter has taken charge. -/
def OwnedFiles : (op : FileOp) → FileReply op → Prop
  | .memory op, reply => Owned op reply
  | _, _ => True

section

variable {files : Files} {permits : (op : FileOp) → FileReply op → Prop}
  {session after : FileSession} {call : Call} {outcome : Except Failure (Option Tensor)}

theorem Call.rest_of_program {tensors rest : List Tensor} {program : Program (Option Tensor)}
    (starts : call.program tensors = some (program, rest)) : rest = call.rest tensors := by
  cases call with
  | destroyTensor index =>
      rw [Call.program] at starts
      split at starts
      · exact absurd starts (by simp)
      · exact (Prod.mk.inj (Option.some.inj starts)).2.symm
  | _ => exact (Prod.mk.inj (Option.some.inj starts)).2.symm

theorem Call.map_rest {α β : Type} (value : α → β) (held : List α) (call : Call) :
    (call.rest held).map value = call.rest (held.map value) := by
  cases call with
  | destroyTensor index => exact (List.eraseIdx_map value held index).symm
  | _ => rfl

/-- Carried out, a call does what it does in the model that reads in one operation. -/
theorem FileSession.Performs.toSession {replies : (op : Op) → Reply op → Prop}
    (weaker : ∀ op reply, permits (.memory op) reply → replies op reply)
    (reads : ∀ path offset dst bytes reply, replies (.preadExact path offset dst bytes) reply)
    (performs : session.Performs files permits call outcome after) :
    session.toSession.Performs replies call outcome after.toSession := by
  obtain ⟨program, tensors, starts, evaluation, -, held_eq⟩ := performs.evaluates
  refine ⟨program, tensors, starts, evaluates_alone weaker reads evaluation, ?_⟩
  rw [Call.rest_of_program starts, FileSession.toSession, held_eq]
  match outcome with
  | .ok (some tensor) =>
      have isLoad := performs.isLoad rfl
      cases call with
      | loadFileToManaged | uvmTensorFromFile =>
          simp [Call.hold, Call.source, Call.rest, keepTensor]
      | _ => exact isLoad.elim
  | .ok none | .error _ => exact Call.map_rest Prod.fst session.held call

end

instance : ∀ op reply, Decidable (OwnedFiles op reply)
  | .memory op, reply => inferInstanceAs (Decidable (Owned op reply))
  | .openFile _, _ | .pread .., _ | .closeFile _, _ | .getStats, _ | .touchGpu .., _ => isTrue trivial

end MemTier.Managed
