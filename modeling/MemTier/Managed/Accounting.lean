import MemTier.Managed.Account

/-!
# Accounting in one thread

In a sequence of calls by one thread the counter is the size of the live memory gained since the
last `reset_stats`, until memory is released that is older than that: then the counter is decreased
by bytes it no longer holds. A load that fails leaves no trace, unless `from_blob` throws before it
has taken over the deleter.
-/

namespace MemTier.Managed

open Resumption Resumption.Prog

/-- One thread and nobody else, with certain replies only. -/
def alone (permits : (op : Op) → Reply op → Prop) : Environment Memory Choice Reply where
  serve := serve
  background := Eq
  permits := permits
  background_refl _ := rfl

instance {permits : (op : Op) → Reply op → Prop} [∀ op reply, Decidable (permits op reply)] :
    ∀ op reply, Decidable ((alone permits).permits op reply) :=
  inferInstanceAs (∀ op reply, Decidable (permits op reply))

/-- `from_blob` does not throw before the deleter has taken charge. -/
def Owned : (op : Op) → Reply op → Prop
  | .fromBlob .., reply => reply ≠ .thrown false
  | _, _ => True

instance : ∀ op reply, Decidable (Owned op reply)
  | .fromBlob .., reply => inferInstanceAs (Decidable (reply ≠ Blob.thrown false))
  | .cudaGetDeviceCount, _ | .driver _, _ | .cudaMallocManaged _, _ | .recordAllocation .., _
  | .cudaFree _, _ | .recordFree .., _ | .preadExact .., _ | .countFileRead _, _
  | .countPrefetchGpu, _ | .resetStats, _ => isTrue trivial

/-! ## Operations -/

section

variable {permits : (op : Op) → Reply op → Prop} {before after : Memory} {ptr : Address}
  {bytes : UInt64} {choice : Choice}

theorem serves_inert {op : Op} {reply : Reply op} (inert : op.Inert)
    (serves : (alone permits).Serves before op reply after) : after.account = before.account := by
  obtain ⟨_, choice, rfl, execution, -⟩ := serves
  exact serve_inert inert execution

theorem serves_cudaMallocManaged {reply : Option Address}
    (serves : (alone permits).Serves before (.cudaMallocManaged bytes) reply after) :
    (reply = none ∧ after = before) ∨
      ∃ ptr, reply = some ptr ∧ before.Fresh ptr bytes ∧ after = before.allocated ptr bytes := by
  obtain ⟨_, choice, rfl, execution, -⟩ := serves
  simp only [alone, serve] at execution
  split at execution
  · simp only [Option.some.injEq, Prod.mk.injEq] at execution
    exact .inl ⟨execution.1.symm, execution.2.symm⟩
  · rename_i ptr _
    split at execution
    · rename_i fresh
      simp only [Option.some.injEq, Prod.mk.injEq] at execution
      exact .inr ⟨ptr, execution.1.symm, fresh, execution.2.symm⟩
    · exact absurd execution (by simp)

theorem serves_cudaFree {reply : Bool}
    (serves : (alone permits).Serves before (.cudaFree ptr) reply after) :
    (reply = true ∧ before.IsLive ptr ∧ after = before.freed ptr) ∨
      (reply = false ∧ ¬ before.IsLive ptr ∧ after = before) := by
  obtain ⟨_, choice, rfl, execution, -⟩ := serves
  simp only [alone, serve] at execution
  split at execution
  · rename_i isLive
    simp only [Option.some.injEq, Prod.mk.injEq] at execution
    exact .inl ⟨execution.1.symm, isLive, execution.2.symm⟩
  · rename_i dead
    simp only [Option.some.injEq, Prod.mk.injEq] at execution
    exact .inr ⟨execution.1.symm, dead, execution.2.symm⟩

/-- What the driver frees and the extension strikes out is released. -/
theorem account_recordFree (sound : before.account.Sound) (isLive : before.IsLive ptr)
    (fallbackBytes : UInt64) :
    ((before.freed ptr).recordFree ptr fallbackBytes).account = before.account.released ptr := by
  obtain ⟨block, member, rfl⟩ := isLive
  have noted : before.allocSizes block.address = some block.bytes :=
    (congrFun sound.noted block.address).trans (sizeAt_of_mem sound.separate member)
  have noted' : before.account.allocSizes block.address = some block.bytes := noted
  have bytes_eq : ((before.freed block.address).allocSizes block.address).getD fallbackBytes =
      block.bytes := by
    rw [Memory.freed, noted, Option.getD_some]
  rw [Account.released, noted']
  simp only [Memory.recordFree, bytes_eq]
  rfl

theorem released_of_not_live (sound : before.account.Sound) (dead : ¬ before.IsLive ptr) :
    before.account.released ptr = before.account := by
  have unnoted : before.account.allocSizes ptr = none := by
    rw [sound.noted]
    exact sizeAt_eq_none_iff.mpr fun block member same => dead ⟨block, member, same⟩
  rw [Account.released, unnoted]

theorem not_isLive_zero (sound : before.account.Sound) : ¬ before.IsLive 0 := by
  rintro ⟨block, member, zero⟩
  have := (sound.separate.bounded block member).1
  rw [zero] at this
  exact absurd this (by decide)

end

/-! ## Programs -/

section

variable {permits : (op : Op) → Reply op → Prop} {before after : Memory} {ptr : Address}
  {bytes : UInt64}

theorem account_of_confined {α : Type} {program : Program α} {outcome : Except Failure α}
    (confined : Confined (fun _ _ => True) Op.Inert program.run)
    (evaluation : Evaluates (alone permits) program.run before outcome after) :
    after.account = before.account :=
  confined.evaluates (fun _ _ _ _ inert serves => ⟨trivial, serves_inert inert serves⟩) evaluation

theorem cudaFreeNoexcept_releases {outcome : Except Failure Unit} (sound : before.account.Sound)
    (evaluation : Evaluates (alone permits) (cudaFreeNoexcept ptr bytes).run before outcome after) :
    outcome = .ok () ∧ after.account = before.account.released ptr := by
  unfold cudaFreeNoexcept at evaluation
  split at evaluation
  · rename_i null
    obtain ⟨rfl, rfl⟩ := evaluates_pure.mp evaluation
    rw [null, released_of_not_live sound (not_isLive_zero sound)]
    exact ⟨rfl, rfl⟩
  obtain ⟨reply, middle, serves, rest⟩ := evaluates_issue_then.mp evaluation
  rcases serves_cudaFree serves with ⟨rfl, isLive, rfl⟩ | ⟨rfl, dead, rfl⟩
  · obtain ⟨_, ⟨_, choice, rfl, execution, -⟩, rfl⟩ := evaluates_issue.mp rest
    simp only [alone, serve, Option.some.injEq, Prod.mk.injEq] at execution
    rw [← execution.2, account_recordFree sound isLive]
    exact ⟨rfl, rfl⟩
  · obtain ⟨rfl, rfl⟩ := evaluates_pure.mp rest
    rw [released_of_not_live sound dead]
    exact ⟨rfl, rfl⟩

theorem freeManaged_releases {outcome : Except Failure Unit} (sound : before.account.Sound)
    (evaluation : Evaluates (alone permits) (freeManaged ptr).run before outcome after) :
    after.account = before.account.released ptr := by
  unfold freeManaged at evaluation
  split at evaluation
  · rename_i null
    obtain ⟨rfl, rfl⟩ := evaluates_pure.mp evaluation
    rw [null, released_of_not_live sound (not_isLive_zero sound)]
  obtain ⟨reply, middle, serves, rest⟩ := evaluates_issue_then.mp evaluation
  rcases serves_cudaFree serves with ⟨rfl, isLive, rfl⟩ | ⟨rfl, dead, rfl⟩
  · obtain ⟨_, ⟨_, choice, rfl, execution, -⟩, rfl⟩ := evaluates_issue.mp rest
    simp only [alone, serve, Option.some.injEq, Prod.mk.injEq] at execution
    rw [← execution.2, account_recordFree sound isLive]
  · obtain ⟨rfl, rfl⟩ := evaluates_throw.mp rest
    rw [released_of_not_live sound dead]

/-- A call that is to gain memory has gained it or changed nothing. -/
inductive Gains (before : Account) {α : Type} (place : α → Address × UInt64) :
    Except Failure α → Account → Prop
  | failed (failure : Failure) : Gains before place (.error failure) before
  | gained (value : α) (fresh : before.Fresh (place value).1 (place value).2) :
      Gains before place (.ok value) (before.gained (place value).1 (place value).2)

section

variable {α : Type} {place : α → Address × UInt64} {account later : Account}

theorem Gains.of_error {failure : Failure} (gains : Gains account place (.error failure) later) :
    later = account := by
  cases gains
  rfl

theorem Gains.of_ok {value : α} (gains : Gains account place (.ok value) later) :
    account.Fresh (place value).1 (place value).2 ∧
      later = account.gained (place value).1 (place value).2 := by
  cases gains with
  | gained _ fresh => exact ⟨fresh, rfl⟩

end

theorem allocateManaged_gains {device : Int} {outcome : Except Failure Address}
    (sound : before.account.Sound)
    (evaluation : Evaluates (alone permits) (allocateManaged bytes device).run before outcome after) :
    Gains before.account (fun ptr => (ptr, bytes)) outcome after.account := by
  rcases evaluates_then.mp evaluation with ⟨failure, failed, rfl⟩ | ⟨_, ensured, first, evaluation⟩
  · rw [account_of_confined (confined_ensureCudaDevice device) failed]
    exact .failed failure
  have same := account_of_confined (confined_ensureCudaDevice device) first
  rcases evaluates_then.mp evaluation with ⟨failure, failed, rfl⟩ | ⟨_, guarded, second, evaluation⟩
  · rw [account_of_confined (confined_cudaGuard device) failed, same]
    exact .failed failure
  have same' := (account_of_confined (confined_cudaGuard device) second).trans same
  obtain ⟨reply, middle, serves, rest⟩ := evaluates_issue_then.mp evaluation
  rcases serves_cudaMallocManaged serves with ⟨rfl, rfl⟩ | ⟨ptr, rfl, fresh, rfl⟩
  · obtain ⟨rfl, rfl⟩ := evaluates_throw.mp rest
    rw [same']
    exact .failed _
  · obtain ⟨_, noted, ⟨_, choice, rfl, execution, -⟩, rest⟩ := evaluates_issue_then.mp rest
    obtain ⟨rfl, rfl⟩ := evaluates_pure.mp rest
    simp only [alone, serve, Option.some.injEq, Prod.mk.injEq] at execution
    obtain ⟨-, rfl⟩ := execution
    have separate : Separate guarded.live := by
      have live_eq : guarded.live = before.live := congrArg Account.live same'
      rw [live_eq]
      exact sound.separate
    have fresh' : guarded.account.Fresh ptr bytes := fresh.separate separate
    rw [same'] at fresh'
    rw [← same'] at fresh' ⊢
    exact @Gains.gained _ _ (fun ptr => (ptr, bytes)) ptr fresh'

/-- The file is read, or the memory is released. -/
theorem readIntoManaged_releases {path : String} {offset : UInt64} {outcome : Except Failure Unit}
    (sound : before.account.Sound)
    (evaluation : Evaluates (alone permits) (readIntoManaged path offset ptr bytes).run before outcome
      after) :
    (outcome = .ok () ∧ after.account = before.account) ∨
      ∃ failure, outcome = .error failure ∧ after.account = before.account.released ptr := by
  have confined := @confined_readFile (fun _ _ => True) path offset ptr bytes
  rcases evaluates_tryCatch.mp evaluation with ⟨value, done, rfl⟩ | ⟨failure, middle, failed, rest⟩
  · exact .inl ⟨rfl, account_of_confined confined done⟩
  · have same := account_of_confined confined failed
    have sound' : middle.account.Sound := same ▸ sound
    rcases evaluates_then.mp rest with ⟨failure', impossible, -⟩ | ⟨_, given, back, rest⟩
    · exact absurd (cudaFreeNoexcept_releases sound' impossible).1 (by simp)
    · obtain ⟨rfl, rfl⟩ := evaluates_throw.mp rest
      exact .inr ⟨failure, rfl, by rw [(cudaFreeNoexcept_releases sound' back).2, same]⟩

/-- The memory becomes a tensor, or is released. -/
theorem fromBlob_releases {rows cols : Int64} {outcome : Except Failure Tensor}
    (sound : before.account.Sound)
    (evaluation : Evaluates (alone Owned) (fromBlob ptr rows cols bytes).run before outcome after) :
    (outcome = .ok ⟨ptr, bytes⟩ ∧ after.account = before.account) ∨
      ∃ failure, outcome = .error failure ∧ after.account = before.account.released ptr := by
  obtain ⟨reply, middle, serves, rest⟩ := evaluates_issue_then.mp evaluation
  have inert : Op.Inert (.fromBlob ptr rows cols) := trivial
  have same := serves_inert inert serves
  obtain ⟨_, _, _, _, owned⟩ := serves
  cases reply with
  | tensor =>
      obtain ⟨rfl, rfl⟩ := evaluates_pure.mp rest
      exact .inl ⟨rfl, same⟩
  | thrown taken =>
      cases taken with
      | false => exact absurd rfl owned
      | true =>
          have sound' : middle.account.Sound := same ▸ sound
          rcases evaluates_then.mp rest with ⟨failure, impossible, -⟩ | ⟨_, given, back, rest⟩
          · exact absurd (cudaFreeNoexcept_releases sound' impossible).1 (by simp)
          · obtain ⟨rfl, rfl⟩ := evaluates_throw.mp rest
            exact .inr ⟨_, rfl, by rw [(cudaFreeNoexcept_releases sound' back).2, same]⟩

def Tensor.place (tensor : Tensor) : Address × UInt64 := (tensor.ptr, tensor.bytes)

theorem loadFileToManaged_gains {path : String} {offset : UInt64} {rows cols : Int64} {device : Int}
    {outcome : Except Failure Tensor} (sound : before.account.Sound) (exact_ : before.account.Exact)
    (evaluation : Evaluates (alone Owned) (loadFileToManaged path offset rows cols device).run before
      outcome after) :
    Gains before.account Tensor.place outcome after.account := by
  rcases evaluates_then.mp evaluation with ⟨failure, failed, rfl⟩ | ⟨_, checked, first, later⟩
  · rw [account_of_confined confined_require failed]
    exact .failed failure
  obtain rfl : before = checked := (evaluates_require.mp first).2.symm
  rcases evaluates_then.mp later with ⟨failure, failed, rfl⟩ | ⟨ptr, taken, second, later⟩
  · rw [(allocateManaged_gains sound failed).of_error]
    exact .failed failure
  obtain ⟨fresh, taken_eq⟩ := (allocateManaged_gains sound second).of_ok
  have sound' : taken.account.Sound := taken_eq ▸ sound.gained fresh
  -- Whatever fails from here on gives back what was gained.
  have restored : taken.account.released ptr = before.account := by
    rw [taken_eq]
    exact Account.released_gained sound exact_ fresh
  rcases evaluates_then.mp later with ⟨failure, failed, rfl⟩ | ⟨_, filled, third, later⟩
  · rcases readIntoManaged_releases sound' failed with ⟨impossible, -⟩ | ⟨failure', -, released⟩
    · exact absurd impossible (by simp)
    · rw [released, restored]
      exact .failed failure
  rcases readIntoManaged_releases sound' third with ⟨-, same⟩ | ⟨failure, impossible, -⟩
  · rcases fromBlob_releases (same ▸ sound') later with ⟨rfl, same'⟩ | ⟨failure, rfl, released⟩
    · rw [same', same, taken_eq]
      exact @Gains.gained _ _ Tensor.place ⟨ptr, tensorBytes rows cols⟩ fresh
    · rw [released, same, restored]
      exact .failed failure
  · exact absurd impossible (by simp)

theorem uvmTensorFromFile_gains {path : String} {rows cols : Int64} {offset : UInt64} {device : Int}
    {prefetchPolicy : String} {outcome : Except Failure Tensor} (sound : before.account.Sound)
    (exact_ : before.account.Exact)
    (evaluation : Evaluates (alone Owned)
      (uvmTensorFromFile path rows cols offset device prefetchPolicy).run before outcome after) :
    Gains before.account Tensor.place outcome after.account := by
  rcases evaluates_then.mp evaluation with ⟨failure, failed, rfl⟩ | ⟨tensor, loaded, first, later⟩
  · exact loadFileToManaged_gains sound exact_ failed
  obtain ⟨fresh, loaded_eq⟩ := (loadFileToManaged_gains sound exact_ first).of_ok
  have sound' : loaded.account.Sound := loaded_eq ▸ sound.gained fresh
  rcases evaluates_then.mp later with ⟨failure, failed, rfl⟩ | ⟨_, advised, second, later⟩
  · rcases evaluates_tryCatch.mp failed with ⟨_, -, impossible⟩ | ⟨thrown, middle, advising, rest⟩
    · exact absurd impossible (by simp)
    have same := account_of_confined (confined_applyPrefetchPolicy _ _ _ _) advising
    rcases evaluates_then.mp rest with ⟨failure', impossible, -⟩ | ⟨_, given, back, rest⟩
    · exact absurd (cudaFreeNoexcept_releases (same ▸ sound') impossible).1 (by simp)
    · obtain ⟨-, rfl⟩ := evaluates_throw.mp rest
      rw [(cudaFreeNoexcept_releases (same ▸ sound') back).2, same, loaded_eq]
      have restored := Account.released_gained sound exact_ fresh
      dsimp only [Tensor.place] at restored ⊢
      rw [restored]
      exact .failed failure
  · obtain ⟨rfl, rfl⟩ := evaluates_pure.mp later
    rcases evaluates_tryCatch.mp second with ⟨_, advising, -⟩ | ⟨thrown, middle, advising, rest⟩
    · rw [account_of_confined (confined_applyPrefetchPolicy _ _ _ _) advising, loaded_eq]
      exact .gained tensor fresh
    · rcases evaluates_then.mp rest with ⟨_, -, impossible⟩ | ⟨_, given, back, rest⟩
      · exact absurd impossible (by simp)
      · exact absurd (evaluates_throw.mp rest).1 (by simp)

end

/-! ## Sessions -/

/-- The memory and the tensors that exist. -/
structure Session where
  memory : Memory := {}
  tensors : List Tensor := []

/-- A call is made and ends, by returning or by an exception. -/
def Session.Performs (permits : (op : Op) → Reply op → Prop) (session : Session) (call : Call)
    (outcome : Except Failure (Option Tensor)) (after : Session) : Prop :=
  ∃ program tensors, call.program session.tensors = some (program, tensors) ∧
    Evaluates (alone permits) program.run session.memory outcome after.memory ∧
    after.tensors = keepTensor tensors outcome

/-- Sessions after any number of calls among those allowed. -/
inductive Session.Reached (permits : (op : Op) → Reply op → Prop)
    (allowed : Session → Call → Prop) : Session → Prop
  | init : Reached permits allowed {}
  | call {session after : Session} {call : Call} {outcome : Except Failure (Option Tensor)}
      (reached : Reached permits allowed session) (allow : allowed session call)
      (performs : session.Performs permits call outcome after) : Reached permits allowed after

/-- The call releases nothing that `reset_stats` has forgotten. -/
def Session.Remembers (session : Session) : Call → Prop
  | .freeManaged addr => session.memory.account.Remembers addr
  | .destroyTensor index =>
      ∀ tensor, session.tensors[index]? = some tensor → session.memory.account.Remembers tensor.ptr
  | _ => True

def Call.IsLoad : Call → Prop
  | .loadFileToManaged .. | .uvmTensorFromFile .. => True
  | _ => False

/-- A program whose value is not a tensor. -/
theorem evaluates_discard {α : Type} {program : Program α} {value : α → Option Tensor}
    {outcome : Except Failure (Option Tensor)} {before after : Memory}
    {permits : (op : Op) → Reply op → Prop}
    (evaluation : Evaluates (alone permits) (do let result ← program; pure (value result) :
      Program (Option Tensor)).run before outcome after) :
    ∃ inner, Evaluates (alone permits) program.run before inner after ∧
      outcome = inner.map value := by
  rcases evaluates_then.mp evaluation with ⟨failure, failed, rfl⟩ | ⟨result, middle, done, rest⟩
  · exact ⟨.error failure, failed, rfl⟩
  · obtain ⟨rfl, rfl⟩ := evaluates_pure.mp rest
    exact ⟨.ok result, done, rfl⟩

theorem Gains.account_kept {α : Type} {place : α → Address × UInt64} {account later : Account}
    {outcome : Except Failure α} (gains : Gains account place outcome later)
    (sound : account.Sound) (exact_ : account.Exact) : later.Sound ∧ later.Exact := by
  cases gains with
  | failed failure => exact ⟨sound, exact_⟩
  | gained value fresh => exact ⟨sound.gained fresh, exact_.gained fresh⟩

section

variable {session after : Session} {call : Call} {outcome : Except Failure (Option Tensor)}

/-- The program of a call whose tensors are those there were. -/
theorem Session.Performs.inner {permits : (op : Op) → Reply op → Prop} {α : Type}
    {program : Program α} {value : α → Option Tensor}
    (performs : session.Performs permits call outcome after)
    (starts : ∀ tensors, call.program tensors =
      some (do let result ← program; pure (value result), tensors)) :
    ∃ inner, Evaluates (alone permits) program.run session.memory inner after.memory ∧
      outcome = inner.map value := by
  obtain ⟨started, tensors, program_eq, evaluation, -⟩ := performs
  rw [starts, Option.some.injEq, Prod.mk.injEq] at program_eq
  obtain ⟨rfl, -⟩ := program_eq
  exact evaluates_discard evaluation

/-- A load gains memory or changes nothing. -/
theorem Session.Performs.gains (performs : session.Performs Owned call outcome after)
    (isLoad : call.IsLoad) (sound : session.memory.account.Sound)
    (exact_ : session.memory.account.Exact) :
    ∃ inner : Except Failure Tensor, outcome = inner.map some ∧
      Gains session.memory.account Tensor.place inner after.memory.account := by
  cases call with
  | loadFileToManaged path offset rows cols device =>
      obtain ⟨inner, loaded, rfl⟩ := performs.inner fun _ => rfl
      exact ⟨inner, rfl, loadFileToManaged_gains sound exact_ loaded⟩
  | uvmTensorFromFile path rows cols offset device prefetchPolicy =>
      obtain ⟨inner, loaded, rfl⟩ := performs.inner fun _ => rfl
      exact ⟨inner, rfl, uvmTensorFromFile_gains sound exact_ loaded⟩
  | _ => exact isLoad.elim

theorem Session.Performs.released_freeManaged {permits : (op : Op) → Reply op → Prop}
    {addr : Address} (performs : session.Performs permits (.freeManaged addr) outcome after)
    (sound : session.memory.account.Sound) :
    after.memory.account = session.memory.account.released addr := by
  obtain ⟨inner, given, -⟩ := performs.inner fun _ => rfl
  exact freeManaged_releases sound given

theorem Session.Performs.released_destroyTensor {permits : (op : Op) → Reply op → Prop}
    {index : Nat} (performs : session.Performs permits (.destroyTensor index) outcome after)
    (sound : session.memory.account.Sound) :
    ∃ tensor, session.tensors[index]? = some tensor ∧
      after.memory.account = session.memory.account.released tensor.ptr := by
  obtain ⟨program, tensors, program_eq, evaluation, -⟩ := performs
  rw [Call.program] at program_eq
  split at program_eq
  · exact absurd program_eq (by simp)
  rename_i tensor present
  simp only [Option.some.injEq, Prod.mk.injEq] at program_eq
  obtain ⟨rfl, -⟩ := program_eq
  obtain ⟨inner, given, -⟩ := evaluates_discard evaluation
  exact ⟨tensor, present, (cudaFreeNoexcept_releases sound given).2⟩

/-- A call that releases nothing forgotten keeps the account right. -/
theorem Session.Performs.account_kept (performs : session.Performs Owned call outcome after)
    (remembers : session.Remembers call) (sound : session.memory.account.Sound)
    (exact_ : session.memory.account.Exact) :
    after.memory.account.Sound ∧ after.memory.account.Exact := by
  by_cases isLoad : call.IsLoad
  · obtain ⟨inner, -, gains⟩ := performs.gains isLoad sound exact_
    exact gains.account_kept sound exact_
  cases call with
  | loadFileToManaged | uvmTensorFromFile => exact absurd trivial isLoad
  | allocateManaged bytes device =>
      obtain ⟨inner, allocated, -⟩ := performs.inner fun _ => rfl
      exact (allocateManaged_gains sound allocated).account_kept sound exact_
  | freeManaged addr =>
      rw [performs.released_freeManaged sound]
      exact ⟨sound.released addr, exact_.released sound remembers⟩
  | destroyTensor index =>
      obtain ⟨tensor, present, released⟩ := performs.released_destroyTensor sound
      rw [released]
      exact ⟨sound.released tensor.ptr, exact_.released sound (remembers tensor present)⟩
  | resetStats =>
      obtain ⟨inner, reset, -⟩ := performs.inner fun _ => rfl
      obtain ⟨_, ⟨_, choice, rfl, execution, -⟩, -⟩ := evaluates_issue.mp reset
      simp only [alone, serve, Option.some.injEq, Prod.mk.injEq] at execution
      have forgotten : after.memory.account = session.memory.account.forgotten := by
        rw [← execution.2]
        rfl
      rw [forgotten]
      exact ⟨sound.forgotten, Account.forgotten_exact sound exact_.unwrapped⟩

/-- A call that releases something forgotten makes the account wrong. -/
theorem Session.Performs.exact_iff (performs : session.Performs Owned call outcome after)
    (sound : session.memory.account.Sound) (exact_ : session.memory.account.Exact) :
    after.memory.account.Exact ↔ session.Remembers call := by
  refine ⟨fun still => ?_, fun remembers => (performs.account_kept remembers sound exact_).2⟩
  cases call with
  | freeManaged addr =>
      rw [performs.released_freeManaged sound] at still
      exact exact_.remembers_of_released sound still
  | destroyTensor index =>
      obtain ⟨tensor, present, released⟩ := performs.released_destroyTensor sound
      rw [released] at still
      intro other present'
      obtain rfl := Option.some.inj (present.symm.trans present')
      exact exact_.remembers_of_released sound still
  | _ => trivial

/-- The account is right wherever only remembered memory has been released. -/
theorem Session.Reached.account (reached : Session.Reached Owned Session.Remembers session) :
    session.memory.account.Sound ∧ session.memory.account.Exact := by
  induction reached with
  | init =>
      refine ⟨⟨⟨.nil, fun block member => absurd member List.not_mem_nil⟩, rfl,
        fun block member => absurd member List.not_mem_nil⟩, ⟨rfl, rfl⟩⟩
  | call reached remembers performs induction =>
      exact performs.account_kept remembers induction.1 induction.2

end

/-- `allocated_bytes` is the size of the live memory made since the last `reset_stats`, and no
decrease has taken it below zero. -/
def Memory.Accounted (memory : Memory) : Prop :=
  memory.stats.allocatedBytes.toNat = totalBytes (memory.live.filter (·.era = memory.era)) ∧
    memory.wrapped = false

theorem Memory.accounted_iff {memory : Memory} : memory.Accounted ↔ memory.account.Exact :=
  ⟨fun ⟨counted, unwrapped⟩ => ⟨counted, unwrapped⟩,
    fun ⟨counted, unwrapped⟩ => ⟨counted, unwrapped⟩⟩

/-- While calls release nothing that `reset_stats` has forgotten, and `from_blob` never throws
before its deleter has taken charge, the memory is accounted for, and a load that fails leaves the
live memory and the counter as they were. The first call that releases something forgotten ends
that. -/
theorem allocated_bytes_exact (session : Session)
    (reached : Session.Reached Owned Session.Remembers session) :
    session.memory.Accounted ∧
      (∀ call failure after, call.IsLoad → session.Performs Owned call (.error failure) after →
        after.memory.live = session.memory.live ∧
        after.memory.stats.allocatedBytes = session.memory.stats.allocatedBytes) ∧
      ∀ call outcome after, session.Performs Owned call outcome after →
        (after.memory.Accounted ↔ session.Remembers call) := by
  obtain ⟨sound, exact_⟩ := reached.account
  refine ⟨Memory.accounted_iff.mpr exact_, fun call failure after isLoad performs => ?_,
    fun call outcome after performs =>
      Memory.accounted_iff.trans (performs.exact_iff sound exact_)⟩
  obtain ⟨inner, inner_eq, gains⟩ := performs.gains isLoad sound exact_
  cases inner with
  | ok tensor => exact absurd inner_eq (by simp [Except.map])
  | error failure =>
      have same := gains.of_error
      exact ⟨congrArg Account.live same, congrArg Account.allocatedBytes same⟩

/-! ## Concrete sessions -/

instance (account : Account) (ptr : Address) : Decidable (account.Remembers ptr) :=
  inferInstanceAs (Decidable (∀ block ∈ account.live, block.address = ptr →
    block.era = account.era ∨ block.bytes = 0))

instance (session : Session) : ∀ call, Decidable (session.Remembers call)
  | .freeManaged addr => inferInstanceAs (Decidable (session.memory.account.Remembers addr))
  | .destroyTensor index => inferInstanceAs (Decidable (∀ tensor ∈ session.tensors[index]?,
      session.memory.account.Remembers tensor.ptr))
  | .allocateManaged .. | .loadFileToManaged .. | .uvmTensorFromFile .. | .resetStats =>
      isTrue trivial

/-- Make calls under given choices, as long as they are allowed. -/
def Session.run? (permits : (op : Op) → Reply op → Prop) [∀ op reply, Decidable (permits op reply)]
    (allowed : Session → Call → Prop) [∀ session call, Decidable (allowed session call)] :
    List (Call × List Choice) → Session → Option Session
  | [], session => some session
  | (made, choices) :: later, session =>
      if allowed session made then
        match made.program session.tensors with
        | none => none
        | some (program, tensors) =>
            match evaluate? (alone permits) choices program.run session.memory with
            | none => none
            | some (outcome, memory) =>
                run? permits allowed later { memory, tensors := keepTensor tensors outcome }
      else none

section

variable {permits : (op : Op) → Reply op → Prop} [∀ op reply, Decidable (permits op reply)]
  {allowed : Session → Call → Prop} [∀ session call, Decidable (allowed session call)]

theorem Session.Reached.of_run? {calls : List (Call × List Choice)} {session after : Session}
    (reached : Session.Reached permits allowed session)
    (found : session.run? permits allowed calls = some after) :
    Session.Reached permits allowed after := by
  induction calls generalizing session with
  | nil => exact Option.some.inj found ▸ reached
  | cons made later induction =>
      rw [Session.run?] at found
      split at found
      · rename_i allow
        split at found
        · exact absurd found (by simp)
        rename_i program tensors program_eq
        split at found
        · exact absurd found (by simp)
        rename_i outcome memory evaluated
        exact induction (.call reached allow ⟨program, tensors, program_eq,
          Evaluates.of_evaluate? evaluated, rfl⟩) found
      · exact absurd found (by simp)

/-- Where some calls lead to, if they can be made. -/
def Session.endOf (permits : (op : Op) → Reply op → Prop) [∀ op reply, Decidable (permits op reply)]
    (allowed : Session → Call → Prop) [∀ session call, Decidable (allowed session call)]
    (calls : List (Call × List Choice)) : Session :=
  (Session.run? permits allowed calls {}).getD {}

theorem Session.reached_endOf {calls : List (Call × List Choice)}
    (runs : (Session.run? permits allowed calls {}).isSome) :
    Session.Reached permits allowed (Session.endOf permits allowed calls) := by
  obtain ⟨after, found⟩ := Option.isSome_iff_exists.mp runs
  rw [Session.endOf, found]
  exact Session.Reached.of_run? .init found

end

/-- Choices under which memory is handed out at an address. -/
def allocatesAt (address : Address) : List Choice := [{}, {}, { address := some address }, {}]

/-- One page is allocated, the counter reset, another page allocated and freed. -/
def resetCalls : List (Call × List Choice) :=
  [(.allocateManaged 4096 0, allocatesAt 65536), (.resetStats, [{}]),
    (.allocateManaged 8192 0, allocatesAt 131072), (.freeManaged 131072, [{}, {}])]

theorem allocated_bytes_exact_reset :
    let session := Session.endOf Owned Session.Remembers resetCalls
    session.memory.Accounted ∧
      (∀ call failure after, call.IsLoad → session.Performs Owned call (.error failure) after →
        after.memory.live = session.memory.live ∧
        after.memory.stats.allocatedBytes = session.memory.stats.allocatedBytes) ∧
      ∀ call outcome after, session.Performs Owned call outcome after →
        (after.memory.Accounted ↔ session.Remembers call) :=
  allocated_bytes_exact _ (Session.reached_endOf (by decide +kernel))

/-- One page is allocated, the counter reset, and the page freed. -/
def forgettingCalls : List (Call × List Choice) :=
  [(.allocateManaged 4096 0, allocatesAt 65536), (.resetStats, [{}]),
    (.freeManaged 65536, [{}, {}])]

def Anything (op : Op) (_ : Reply op) : Prop := True

instance : ∀ op reply, Decidable (Anything op reply) := fun _ _ => isTrue trivial

def AnyCall (_ : Session) (_ : Call) : Prop := True

instance : ∀ session call, Decidable (AnyCall session call) := fun _ _ => isTrue trivial

/-- With no memory live and none made since, the counter can stand at 2^64 - 4096. -/
theorem allocated_bytes_wraps :
    ¬ ∀ session, Session.Reached Anything AnyCall session → session.memory.Accounted := by
  intro exact_
  have reached : Session.Reached Anything AnyCall (Session.endOf Anything AnyCall forgettingCalls) :=
    Session.reached_endOf (by decide +kernel)
  exact absurd (exact_ _ reached).1 (by decide +kernel)

end MemTier.Managed
