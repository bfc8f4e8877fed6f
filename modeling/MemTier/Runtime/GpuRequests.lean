import MemTier.Resumption.Yields
import MemTier.Runtime.DisabledCache
import MemTier.Runtime.VectoredDelivery

/-!
# Requests for the device in a build without CUDA

Single reads turn such a request down before they do anything.  Vectored reads read into host
memory first and find out when they copy.
-/

namespace MemTier

open Containers Resumption

/-! ## Tensors -/

/-- The fields of `memtier_tensor_desc_t` that are looked at. -/
structure TensorDesc where
  path : Option String
  dataOffset : UInt64
  nbytes : UInt64
  shape : Option (List Int)
  ndim : Int
  deriving DecidableEq, Repr

/-- `memtier_load_tensor`; a tensor goes to the device unless the options say otherwise.  The hints
it works out are dropped. -/
def memtierLoadTensor (context : Context) (desc : TensorDesc) (dstNull : Bool)
    (target : Option Target) : Run ReadResult :=
  if desc.path = none ∨ desc.nbytes = 0 ∨ dstNull then return { rc := .invalid, out := [] }
  else if desc.ndim < 0 then return { rc := .invalid, out := [] }
  else if 0 < desc.ndim ∧ desc.shape = none then return { rc := .invalid, out := [] }
  else
    memtierRead context
      { path := desc.path, offset := desc.dataOffset, size := desc.nbytes, dstNull,
        target := target.getD .gpu }

/-! ## Calls -/

/-- The calls that take a target. -/
inductive LoadCall where
  | read (args : ReadArgs)
  | readv (args : ReadvArgs)
  | loadTensor (desc : TensorDesc) (dstNull : Bool) (target : Option Target)
  | loadChunks (chunks : List ChunkDesc) (target : Option Target)

namespace LoadCall

/-- The body of a call, with its return code. -/
def program (context : Context) (sorter : Sorter) : LoadCall → Run Err
  | read args => do return (← memtierRead context args).rc
  | readv args => do return (← memtierReadv context sorter args).rc
  | loadTensor desc dstNull target => do return (← memtierLoadTensor context desc dstNull target).rc
  | loadChunks chunks target => do return (← memtierLoadChunks context sorter chunks target).rc

/-- Valid arguments, and the device as the target. -/
def ForGpu : LoadCall → Prop
  | read args => args.path ≠ none ∧ args.dstNull = false ∧ args.size ≠ 0 ∧ args.target = .gpu
  | readv args =>
      args.ranges ≠ [] ∧ (∀ range ∈ args.ranges, range.item? ≠ none) ∧ args.target = .gpu
  | loadTensor desc dstNull target =>
      desc.path ≠ none ∧ dstNull = false ∧ desc.nbytes ≠ 0 ∧ 0 ≤ desc.ndim ∧
        (0 < desc.ndim → desc.shape ≠ none) ∧ target.getD .gpu = .gpu
  | loadChunks chunks target =>
      chunks ≠ [] ∧ (∀ chunk ∈ chunks, chunk.range.item? ≠ none) ∧ target = some .gpu

/-- Calls that read one range. -/
def Single : LoadCall → Prop
  | read _ | loadTensor _ _ _ => True
  | readv _ | loadChunks _ _ => False

end LoadCall

/-- The call is turned down and leaves no trace. -/
def Refused (before : Shared) (rc : Err) (after : Shared) : Prop :=
  rc = .unsupported ∧ after.cache = before.cache ∧ after.stats = before.stats

/-! ## Single reads -/

section

variable {context : Context}

theorem doReadImpl_gpu (noCuda : context.setup.cuda = false) {args : ReadArgs}
    (valid : (LoadCall.read args).ForGpu) :
    doReadImpl context args = return { rc := .unsupported, out := [] } := by
  obtain ⟨path, dst, size, target⟩ := valid
  obtain ⟨name, named⟩ := Option.ne_none_iff_exists'.mp path
  simp [doReadImpl, named, dst, size, target, noCuda]

theorem memtierLoadTensor_gpu (noCuda : context.setup.cuda = false) {desc : TensorDesc}
    {dstNull : Bool} {target : Option Target}
    (valid : (LoadCall.loadTensor desc dstNull target).ForGpu) :
    memtierLoadTensor context desc dstNull target = return { rc := .unsupported, out := [] } := by
  obtain ⟨path, dst, nbytes, ndim, shape, device⟩ := valid
  rw [memtierLoadTensor, if_neg (by simp [path, dst, nbytes]), if_neg (by omega),
    if_neg (fun missing => shape missing.1 missing.2), memtierRead,
    doReadImpl_gpu noCuda ⟨path, dst, nbytes, device⟩]

end

/-! ## Vectored reads -/

/-- The replies in a build without CUDA. -/
def WithoutCuda : (op : Op) → Reply op → Prop
  | .cudaCopyToGpu _, copied => copied = false
  | .cudaSynchronize, finished => finished = false
  | _, _ => True

/-- An outcome that does not say that the target is not supported. -/
def Supported {α : Type} (outcome : Except Err α) : Prop := outcome ≠ .error .unsupported

section

variable {context : Context} {path : String} {target : Target} {piece : Piece}

theorem yields_preadLoop {offset size : Nat} {data : Bytes} :
    (preadLoop path offset size data).Yields WithoutCuda fun full => full.rc ≠ .unsupported := by
  induction remaining : size - data.length using Nat.strong_induction_on generalizing data with
  | _ remaining induction =>
    rw [preadLoop]
    split
    · apply Prog.yields_perform_bind
      intro reply _
      cases reply with
      | error => simp
      | data bytes =>
          dsimp only
          split
          · simp
          · apply induction _ _ rfl
            rw [List.length_append]
            omega
    · simp

theorem yields_posixPreadFull {offset size : Nat} :
    (posixPreadFull path offset size).Yields WithoutCuda fun full => full.rc ≠ .unsupported := by
  apply Prog.yields_perform_bind
  intro opened _
  split
  · exact yields_preadLoop
  · simp

/-- Failed copies are reported as errors of the device. -/
theorem yields_copyTarget {bytes : Bytes} :
    (copyTarget context target bytes).Yields WithoutCuda fun rc => rc ≠ .unsupported := by
  cases target with
  | cpu => simp [copyTarget]
  | gpu =>
      apply Prog.yields_perform_bind
      rintro _ ⟨⟩
      simp

/-- Nothing is ever copied to the device. -/
theorem yields_copyTarget_gpu {bytes : Bytes} :
    (copyTarget context .gpu bytes).Yields WithoutCuda fun rc => rc = .cuda := by
  apply Prog.yields_perform_bind
  rintro _ ⟨⟩
  rfl

theorem supported_ok {α : Type} {value : α} : Supported (.ok value : Except Err α) := by
  simp [Supported]

theorem Supported.of_rc {rc : Err} (supported : rc ≠ .unsupported) :
    Supported (.error rc : Except Err Bytes) := by
  rintro ⟨⟩
  exact supported rfl

/-- A piece is counted once it was delivered. -/
theorem yields_counted {update : Stats → Stats} {bytes : Bytes} :
    (do
      Run.updateStats update
      return .ok bytes : Run (Except Err Bytes)).Yields WithoutCuda Supported :=
  Prog.yields_perform_bind fun _ _ => supported_ok

/-- A piece is delivered before anything else is done about it. -/
theorem yields_delivered {bytes : Bytes} {rest : Run (Except Err Bytes)}
    (supported : rest.Yields WithoutCuda Supported) :
    (do
      let rc ← copyTarget context target bytes
      if rc ≠ .ok then return .error rc
      rest : Run (Except Err Bytes)).Yields WithoutCuda Supported := by
  apply yields_copyTarget.bind
  intro rc copied
  split
  · exact .of_rc copied
  · exact supported

theorem yields_serveHit {entry : CacheEntry} :
    (serveHit context target piece entry).Yields WithoutCuda Supported :=
  yields_delivered yields_counted

/-- What the backend reports is never passed on. -/
theorem yields_serveGds :
    (serveGds context path target piece).Yields WithoutCuda Supported := by
  apply (Prog.yields_trivial _).bind
  intro attempt _
  split
  · exact yields_delivered yields_counted
  · apply yields_posixPreadFull.bind
    intro full read
    split
    · exact .of_rc read
    · split
      · exact .of_rc (by simp)
      · exact yields_delivered yields_counted

theorem yields_servePosix {key : CacheKey} {caching : Bool} :
    (servePosix context path target piece key caching).Yields WithoutCuda Supported := by
  simp only [servePosix]
  apply yields_posixPreadFull.bind
  intro full read
  split
  · exact .of_rc read
  · generalize (if caching = true then piece.inChunk else 0) = srcOff
    split
    · exact .of_rc (by simp)
    · apply yields_delivered
      split
      · apply Prog.yields_perform_bind
        intro _ _
        exact yields_counted
      · exact yields_counted

theorem yields_readPiece :
    (readPiece context path target piece).Yields WithoutCuda Supported := by
  apply Prog.yields_perform_bind
  intro found _
  apply Prog.yields_perform_bind
  intro _ _
  split
  · exact yields_serveHit
  · exact yields_serveGds
  · exact yields_serveGds
  · exact yields_servePosix
  · exact yields_servePosix

theorem yields_readLoop {offset size copied : Nat} {out : Bytes} :
    (readLoop context path target offset size copied out).Yields WithoutCuda
      fun result => result.rc ≠ .unsupported := by
  induction remaining : size - copied using Nat.strong_induction_on generalizing copied out with
  | _ remaining induction =>
    rw [readLoop]
    split
    · rename_i more
      have positive := @pieceAt_need_pos context.options.chunkSize offset size copied
        context.chunkSize_pos more
      apply yields_readPiece.bind
      intro outcome supported
      cases outcome with
      | error rc => exact fun unsupported => supported (congrArg Except.error unsupported)
      | ok bytes => exact induction _ (by omega) rfl
    · apply Prog.yields_perform_bind
      intro _ _
      simp

/-- A read into host memory never asks for the device. -/
theorem yields_doReadImpl_cpu {args : ReadArgs} (host : args.target = .cpu) :
    (doReadImpl context args).Yields WithoutCuda fun result => result.rc ≠ .unsupported := by
  rw [doReadImpl]
  split
  · simp
  · split
    · simp
    · rw [if_neg (by simp [host])]
      exact yields_readLoop

/-- The first item cannot be copied. -/
theorem yields_copyItems_gpu {base : UInt64} {tmp : Bytes} {items : List Item}
    (nonempty : items ≠ []) :
    (copyItems context .gpu base tmp items).Yields WithoutCuda fun copied => copied.rc = .cuda := by
  obtain ⟨item, rest, rfl⟩ := List.exists_cons_of_ne_nil nonempty
  apply yields_copyTarget_gpu.bind
  rintro _ rfl
  rfl

/-- The first group cannot be delivered. -/
theorem yields_readvLoop_gpu {group : Group} {rest : List Group} (nonempty : group.items ≠ []) :
    (readvLoop context .gpu (group :: rest)).Yields WithoutCuda
      fun result => result.rc ≠ .ok ∧ result.rc ≠ .unsupported := by
  apply (yields_doReadImpl_cpu rfl).bind
  intro result supported
  dsimp only
  split
  · rename_i failed
    exact ⟨failed, supported⟩
  · apply (yields_copyItems_gpu nonempty).bind
    intro copied failed
    rw [if_pos (by simp [failed])]
    simp [failed]

/-- Neither vectored read succeeds, and neither reports that the target is not supported. -/
theorem yields_memtierReadv_gpu {sorter : Sorter} {args : ReadvArgs}
    (valid : (LoadCall.readv args).ForGpu) :
    (memtierReadv context sorter args).Yields WithoutCuda
      fun result => result.rc ≠ .unsupported := by
  obtain ⟨some_ranges, checked, device⟩ := valid
  rw [memtierReadv, if_neg some_ranges]
  cases found : args.ranges.mapM Range.item? with
  | none => simp
  | some items =>
      have some_items : sorter.sort items ≠ [] := by
        intro none
        rw [← List.length_eq_zero_iff, (sorter.perm items).length_eq,
          List.length_eq_zero_iff] at none
        rw [(mapM_item?_eq_some.mp found).1, none] at some_ranges
        exact some_ranges rfl
      obtain ⟨first, rest, sorted⟩ := List.exists_cons_of_ne_nil some_items
      simp only [sorted, device]
      rw [groups]
      apply (yields_readvLoop_gpu (List.cons_ne_nil _ _)).bind
      intro result failed
      rw [if_pos failed.1]
      exact failed.2

theorem yields_memtierLoadChunks_gpu {sorter : Sorter} {chunks : List ChunkDesc}
    {target : Option Target} (valid : (LoadCall.loadChunks chunks target).ForGpu) :
    (memtierLoadChunks context sorter chunks target).Yields WithoutCuda
      fun result => result.rc ≠ .unsupported := by
  obtain ⟨some_chunks, checked, rfl⟩ := valid
  rw [memtierLoadChunks, if_neg some_chunks,
    if_neg fun ⟨chunk, member, wrong⟩ => checked chunk member wrong]
  apply yields_memtierReadv_gpu
  refine ⟨by simpa using some_chunks, fun range member => ?_, rfl⟩
  obtain ⟨chunk, listed, rfl⟩ := List.mem_map.mp member
  exact checked chunk listed

end

/-! ## All calls -/

theorem serves_withoutCuda {context : Context} (noCuda : context.setup.cuda = false)
    {before after : Shared} {op : Op} {reply : Reply op}
    (served : context.environment.Serves before op reply after) : WithoutCuda op reply := by
  obtain ⟨ready, choice, -, execution, -⟩ := served
  cases op with
  | cudaCopyToGpu bytes =>
      simp only [Context.environment, serve, noCuda, Bool.false_and, Option.some.injEq,
        Prod.mk.injEq] at execution
      exact execution.1.symm
  | cudaSynchronize =>
      simp only [Context.environment, serve, noCuda, Bool.false_and, Option.some.injEq,
        Prod.mk.injEq] at execution
      exact execution.1.symm
  | _ => trivial

/-- Calls that read one range are turned down at once. -/
theorem LoadCall.program_single {context : Context} {sorter : Sorter} {made : LoadCall}
    (noCuda : context.setup.cuda = false) (valid : made.ForGpu) (single : made.Single) :
    made.program context sorter = return .unsupported := by
  cases made with
  | read args =>
      rw [program, memtierRead, doReadImpl_gpu noCuda valid]
      rfl
  | loadTensor desc dstNull target =>
      rw [program, memtierLoadTensor_gpu noCuda valid]
      rfl
  | readv args => exact absurd single id
  | loadChunks chunks target => exact absurd single id

/-- Calls that read several ranges never report that the target is not supported. -/
theorem LoadCall.yields_program {context : Context} {sorter : Sorter} {made : LoadCall}
    (valid : made.ForGpu) (vectored : ¬ made.Single) :
    (made.program context sorter).Yields WithoutCuda fun rc => rc ≠ .unsupported := by
  cases made with
  | read args => exact absurd trivial vectored
  | loadTensor desc dstNull target => exact absurd trivial vectored
  | readv args =>
      apply (yields_memtierReadv_gpu valid).bind
      intro result supported
      exact supported
  | loadChunks chunks target =>
      apply (yields_memtierLoadChunks_gpu valid).bind
      intro result supported
      exact supported

/-- In a build without CUDA, a valid call with the device as its target is refused without effect if
and only if it is a call that reads one range; such a call returns. -/
theorem gpu_refused_iff {context : Context} {sorter : Sorter} {made : LoadCall}
    (noCuda : context.setup.cuda = false) (valid : made.ForGpu) (before : Shared) :
    (made.Single → ∃ rc after,
        (made.program context sorter).Evaluates context.environment before rc after) ∧
      ∀ rc after, (made.program context sorter).Evaluates context.environment before rc after →
        (Refused before rc after ↔ made.Single) := by
  constructor
  · intro single
    rw [LoadCall.program_single noCuda valid single]
    exact ⟨.unsupported, before, rfl, rfl⟩
  · intro rc after evaluation
    constructor
    · intro refused
      by_contra vectored
      exact (LoadCall.yields_program valid vectored).evaluates
        (fun _ _ _ _ served => serves_withoutCuda noCuda served) evaluation refused.1
    · intro single
      rw [LoadCall.program_single noCuda valid single] at evaluation
      obtain ⟨rfl, rfl⟩ := evaluation
      exact ⟨rfl, rfl, rfl⟩

/-- A tensor of two bytes, loaded with the default options. -/
theorem gpu_refused_tensor :
    let context := Context.small id
    let before := context.initial (Files.single [1, 2, 3, 4])
    let made := LoadCall.loadTensor
      { path := some "weights", dataOffset := 1, nbytes := 2, shape := some [2], ndim := 1 } false none
    ∃ rc after, (made.program context .insertion).Evaluates context.environment before rc after ∧
      Refused before rc after := by
  intro context before made
  have valid : made.ForGpu := ⟨nofun, rfl, by decide, by decide, fun _ => nofun, rfl⟩
  obtain ⟨returns, refused⟩ := @gpu_refused_iff context .insertion made rfl valid before
  obtain ⟨rc, after, evaluation⟩ := returns trivial
  exact ⟨rc, after, evaluation, (refused rc after evaluation).mpr trivial⟩

instance (context : Context) (op : Op) (reply : Reply op) :
    Decidable (context.environment.permits op reply) :=
  inferInstanceAs (Decidable True)

/-- A vectored read of one byte reports an error of the device, after it has read the chunk, cached
it and counted it. -/
theorem gpu_refused_fails :
    ¬ ∀ (context : Context) (sorter : Sorter) (made : LoadCall) (before : Shared) (rc : Err)
        (after : Shared), context.setup.cuda = false → made.ForGpu →
      (made.program context sorter).Evaluates context.environment before rc after →
        Refused before rc after := by
  intro refused
  let context := Context.small id
  let before := context.initial (Files.single [1, 2, 3, 4])
  let made := LoadCall.readv
    { ranges := [{ path := some "table", offset := 0, size := 1, dst := some 0 }], target := .gpu }
  have evaluated : ((Prog.evaluate? context.environment (List.replicate 8 (.take 4))
      (made.program context .insertion) before).map fun found =>
        (found.1, found.2.cache.usedBytes, found.2.stats.posixReads)) = some (.cuda, 4, 1) := by
    decide +kernel
  obtain ⟨⟨rc, after⟩, found, shown⟩ := Option.map_eq_some_iff.mp evaluated
  obtain ⟨unsupported, -, -⟩ := refused context .insertion made before rc after rfl
    ⟨nofun, fun range member => by simp_all [Range.item?], rfl⟩ (Prog.Evaluates.of_evaluate? found)
  simp [unsupported] at shown

end MemTier
