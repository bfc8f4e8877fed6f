import MemTier.Managed.Memory

/-!
# The account of managed memory

What the driver has handed out, the sizes noted for it and the sum of these. Memory is gained,
released, and forgotten by the counter; an account that is right stays right, unless memory is
released that the counter has forgotten.
-/

namespace MemTier.Managed

open Containers.Intervals Resumption Resumption.Prog

/-! ## Live memory -/

/-- The size of the live block at an address. -/
def sizeAt (live : List Block) (ptr : Address) : Option UInt64 :=
  (live.find? (·.address = ptr)).map Block.bytes

/-- The bytes in some blocks. -/
def totalBytes (live : List Block) : Nat := (live.map (·.bytes.toNat)).sum

def Block.Separate (first second : Block) : Prop :=
  first.address ≠ second.address ∧
    Apart (fun block : Block => block.address.toNat) (fun block => block.bytes.toNat) first second

/-- Live blocks are different parts of the memory there is. -/
structure Separate (live : List Block) : Prop where
  pairwise : live.Pairwise Block.Separate
  bounded : ∀ block ∈ live, 1 ≤ block.address.toNat ∧
    block.address.toNat + block.bytes.toNat ≤ 2 ^ 64

section

variable {live : List Block} {block : Block} {ptr : Address}

theorem Separate.sublist {fewer : List Block} (separate : Separate live)
    (sublist : fewer.Sublist live) : Separate fewer where
  pairwise := separate.pairwise.sublist sublist
  bounded other member := separate.bounded other (sublist.subset member)

theorem Separate.totalBytes_lt (separate : Separate live) : totalBytes live < 2 ^ 64 := by
  have le := sum_length_le (separate.pairwise.imp And.right) separate.bounded
  unfold totalBytes
  omega

theorem Memory.Fresh.separate {memory : Memory} {bytes : UInt64}
    (fresh : memory.Fresh ptr bytes) (separate : Separate memory.live) :
    Separate (memory.allocated ptr bytes).live where
  pairwise := List.pairwise_cons.mpr
    ⟨fun other member => ⟨((fresh.2.2 other member).1).symm, (fresh.2.2 other member).2⟩,
      separate.pairwise⟩
  bounded := by
    refine List.forall_mem_cons.mpr ⟨⟨?_, fresh.2.1⟩, separate.bounded⟩
    have positive : ptr.toNat ≠ 0 := fun zero => fresh.1 (UInt64.toNat_inj.mp zero)
    exact Nat.one_le_iff_ne_zero.mpr positive

theorem sizeAt_cons : sizeAt (block :: live) =
    Function.update (sizeAt live) block.address (some block.bytes) := by
  funext ptr
  by_cases here : ptr = block.address
  · subst here
    simp [sizeAt]
  · rw [Function.update_of_ne here]
    simp [sizeAt, Ne.symm here]

theorem sizeAt_filter : sizeAt (live.filter (·.address ≠ ptr)) =
    Function.update (sizeAt live) ptr none := by
  funext other
  induction live with
  | nil => by_cases here : other = ptr <;> simp [sizeAt, here]
  | cons block live induction =>
      by_cases removed : block.address = ptr
      · rw [List.filter_cons_of_neg (by simp [removed]), induction, sizeAt_cons, removed,
          Function.update_idem]
      · rw [List.filter_cons_of_pos (by simp [removed]), sizeAt_cons, sizeAt_cons,
          Function.update_comm removed]
        by_cases here : other = block.address
        · subst here
          rw [Function.update_self, Function.update_self]
        · rw [Function.update_of_ne here, Function.update_of_ne here]
          exact induction

theorem sizeAt_eq_none_iff : sizeAt live ptr = none ↔ ∀ block ∈ live, block.address ≠ ptr := by
  simp [sizeAt]

theorem sizeAt_of_mem (separate : Separate live) (member : block ∈ live) :
    sizeAt live block.address = some block.bytes := by
  induction live with
  | nil => exact absurd member List.not_mem_nil
  | cons head live induction =>
      rw [sizeAt_cons]
      rcases List.mem_cons.mp member with rfl | later
      · rw [Function.update_self]
      · have different := ((List.pairwise_cons.mp separate.pairwise).1 block later).1
        rw [Function.update_of_ne different.symm]
        exact induction (separate.sublist (List.sublist_cons_self head live)) later

theorem Separate.eq_of_address {other : Block} (separate : Separate live) (member : block ∈ live)
    (member' : other ∈ live) (same : block.address = other.address) : block = other := by
  have distinct : (live.map Block.address).Nodup :=
    List.pairwise_map.mpr (separate.pairwise.imp And.left)
  exact List.inj_on_of_nodup_map distinct member member' same

theorem exists_of_sizeAt_eq_some {bytes : UInt64} (found : sizeAt live ptr = some bytes) :
    ∃ block ∈ live, block.address = ptr ∧ block.bytes = bytes := by
  obtain ⟨block, first, rfl⟩ := Option.map_eq_some_iff.mp found
  exact ⟨block, List.mem_of_find?_eq_some first, by simpa using List.find?_some first, rfl⟩

/-- Removing the block at an address. -/
theorem totalBytes_filter (separate : Separate live) (ptr : Address) :
    totalBytes (live.filter (·.address ≠ ptr)) + ((sizeAt live ptr).getD 0).toNat =
      totalBytes live := by
  induction live with
  | nil => rfl
  | cons block live induction =>
      have rest := separate.sublist (List.sublist_cons_self block live)
      have summed : totalBytes (block :: live) = block.bytes.toNat + totalBytes live := by
        rw [totalBytes, List.map_cons, List.sum_cons, totalBytes]
      rw [sizeAt_cons, summed, ← induction rest]
      by_cases removed : block.address = ptr
      · have others : ∀ other ∈ live, other.address ≠ ptr := fun other member same =>
          ((List.pairwise_cons.mp separate.pairwise).1 other member).1 (removed.trans same.symm)
        rw [List.filter_cons_of_neg (by simp [removed]), ← removed, Function.update_self,
          removed, sizeAt_eq_none_iff.mpr others]
        simp only [Option.getD_some, Option.getD_none, UInt64.toNat_zero]
        omega
      · rw [List.filter_cons_of_pos (by simp [removed]), Function.update_of_ne (Ne.symm removed)]
        simp only [totalBytes, List.map_cons, List.sum_cons]
        omega

end

/-! ## Accounts -/

/-- The part of the state that accounts for memory. -/
structure Account where
  live : List Block
  allocSizes : Address → Option UInt64
  allocatedBytes : UInt64
  era : Nat
  wrapped : Bool

def Memory.account (memory : Memory) : Account where
  live := memory.live
  allocSizes := memory.allocSizes
  allocatedBytes := memory.stats.allocatedBytes
  era := memory.era
  wrapped := memory.wrapped

namespace Account

/-- Live blocks made since the last call of `reset_stats`. -/
def recent (account : Account) : List Block := account.live.filter (·.era = account.era)

/-- Memory is handed out and noted. -/
def gained (account : Account) (ptr : Address) (bytes : UInt64) : Account :=
  { account with
    live := ⟨ptr, bytes, account.era⟩ :: account.live
    allocSizes := Function.update account.allocSizes ptr (some bytes)
    allocatedBytes := account.allocatedBytes + bytes }

/-- Memory, if it is live, is given back and no longer noted. -/
def released (account : Account) (ptr : Address) : Account :=
  match account.allocSizes ptr with
  | none => account
  | some bytes =>
      { account with
        live := account.live.filter (·.address ≠ ptr)
        allocSizes := Function.update account.allocSizes ptr none
        allocatedBytes := account.allocatedBytes - bytes
        wrapped := account.wrapped || account.allocatedBytes < bytes }

/-- The counter forgets. -/
def forgotten (account : Account) : Account :=
  { account with allocatedBytes := 0, era := account.era + 1 }

/-- Exactly the live memory is noted, and it is no older than the account. -/
structure Sound (account : Account) : Prop where
  separate : Separate account.live
  noted : account.allocSizes = sizeAt account.live
  aged : ∀ block ∈ account.live, block.era ≤ account.era

/-- The counter is the size of the live memory it has not forgotten, and has never been less than
what was taken from it. -/
structure Exact (account : Account) : Prop where
  counted : account.allocatedBytes.toNat = totalBytes account.recent
  unwrapped : account.wrapped = false

/-- Nothing at this address has been forgotten. -/
def Remembers (account : Account) (ptr : Address) : Prop :=
  ∀ block ∈ account.live, block.address = ptr → block.era = account.era ∨ block.bytes = 0

/-- Memory may be handed out. -/
def Fresh (account : Account) (ptr : Address) (bytes : UInt64) : Prop :=
  Separate (⟨ptr, bytes, account.era⟩ :: account.live)

variable {account : Account} {ptr : Address} {bytes : UInt64}

/-! ### Soundness -/

theorem Sound.gained (sound : account.Sound) (fresh : account.Fresh ptr bytes) :
    (account.gained ptr bytes).Sound where
  separate := fresh
  noted := by
    change Function.update account.allocSizes ptr (some bytes) = sizeAt (_ :: account.live)
    rw [sizeAt_cons, sound.noted]
  aged := List.forall_mem_cons.mpr ⟨le_rfl, sound.aged⟩

theorem Sound.released (sound : account.Sound) (ptr : Address) : (account.released ptr).Sound := by
  unfold Account.released
  split
  · exact sound
  · exact
      { separate := sound.separate.sublist List.filter_sublist
        noted := by rw [sizeAt_filter, ← sound.noted]
        aged := fun block member => sound.aged block (List.mem_of_mem_filter member) }

theorem Sound.forgotten (sound : account.Sound) : account.forgotten.Sound where
  separate := sound.separate
  noted := sound.noted
  aged block member := Nat.le_succ_of_le (sound.aged block member)

/-! ### Exactness -/

theorem recent_sublist (account : Account) : account.recent.Sublist account.live :=
  List.filter_sublist

theorem totalBytes_gained (account : Account) (ptr : Address) (bytes : UInt64) :
    totalBytes (account.gained ptr bytes).recent = bytes.toNat + totalBytes account.recent := by
  have recent_eq : (account.gained ptr bytes).recent =
      ⟨ptr, bytes, account.era⟩ :: account.recent := by
    rw [Account.recent, Account.gained, List.filter_cons_of_pos (by simp), Account.recent]
  rw [recent_eq, totalBytes, List.map_cons, List.sum_cons, totalBytes]

/-- The counter does not overflow, as there is not that much memory. -/
theorem Exact.toNat_gained (exact_ : account.Exact) (fresh : account.Fresh ptr bytes) :
    (account.allocatedBytes + bytes).toNat = account.allocatedBytes.toNat + bytes.toNat := by
  have separate : Separate (account.gained ptr bytes).live := fresh
  have bounded := (separate.sublist (recent_sublist _)).totalBytes_lt
  rw [totalBytes_gained, ← exact_.counted] at bounded
  rw [UInt64.toNat_add, Nat.mod_eq_of_lt (by omega)]

theorem Exact.gained (exact_ : account.Exact) (fresh : account.Fresh ptr bytes) :
    (account.gained ptr bytes).Exact where
  counted := by
    rw [totalBytes_gained, ← exact_.counted, Nat.add_comm]
    exact exact_.toNat_gained fresh
  unwrapped := exact_.unwrapped

/-- What is remembered at an address is part of the recent memory. -/
theorem Remembers.sizeAt_recent (remembers : account.Remembers ptr)
    (separate : Separate account.live) :
    (sizeAt account.recent ptr).getD 0 = (sizeAt account.live ptr).getD 0 := by
  have separate' := separate.sublist account.recent_sublist
  cases found : sizeAt account.live ptr with
  | none =>
      have absent : sizeAt account.recent ptr = none := sizeAt_eq_none_iff.mpr fun block member =>
        sizeAt_eq_none_iff.mp found block (account.recent_sublist.subset member)
      rw [absent]
  | some bytes =>
      obtain ⟨block, member, rfl, rfl⟩ := exists_of_sizeAt_eq_some found
      rcases remembers block member rfl with current | empty
      · have recent : block ∈ account.recent := List.mem_filter.mpr ⟨member, by simpa using current⟩
        rw [sizeAt_of_mem separate' recent]
      · cases found' : sizeAt account.recent block.address with
        | none => rw [empty, Option.getD_none, Option.getD_some]
        | some bytes =>
            obtain ⟨other, recent, same, rfl⟩ := exists_of_sizeAt_eq_some found'
            obtain rfl :=
              separate.eq_of_address (account.recent_sublist.subset recent) member same
            rfl

theorem recent_released (noted : account.allocSizes ptr = some bytes) :
    (account.released ptr).recent = account.recent.filter (·.address ≠ ptr) := by
  rw [Account.released, noted]
  exact List.filter_comm _ _ _

theorem allocatedBytes_released (noted : account.allocSizes ptr = some bytes) :
    (account.released ptr).allocatedBytes = account.allocatedBytes - bytes := by
  rw [Account.released, noted]

theorem Exact.released (exact_ : account.Exact) (sound : account.Sound)
    (remembers : account.Remembers ptr) : (account.released ptr).Exact := by
  cases noted : account.allocSizes ptr with
  | none =>
      rw [Account.released, noted]
      exact exact_
  | some bytes =>
      have removed := totalBytes_filter (sound.separate.sublist account.recent_sublist) ptr
      rw [remembers.sizeAt_recent sound.separate, ← sound.noted, ← exact_.counted, noted,
        Option.getD_some] at removed
      have enough : ¬ account.allocatedBytes < bytes := by
        rw [UInt64.lt_iff_toNat_lt]
        omega
      constructor
      · rw [recent_released noted, allocatedBytes_released noted,
          UInt64.toNat_sub_of_le _ _ (UInt64.not_lt.mp enough)]
        omega
      · rw [Account.released, noted]
        simp [exact_.unwrapped, enough]

/-- Releasing what is not remembered takes bytes from the counter that it does not hold. -/
theorem Exact.remembers_of_released (exact_ : account.Exact) (sound : account.Sound)
    (released : (account.released ptr).Exact) : account.Remembers ptr := by
  rintro block member rfl
  by_contra forgotten
  rw [not_or] at forgotten
  have noted : account.allocSizes block.address = some block.bytes := by
    rw [sound.noted, sizeAt_of_mem sound.separate member]
  have kept : account.recent.filter (·.address ≠ block.address) = account.recent := by
    apply List.filter_eq_self.mpr
    intro other recent
    rw [decide_eq_true_iff]
    intro same
    obtain rfl := sound.separate.eq_of_address (account.recent_sublist.subset recent) member same
    exact forgotten.1 (by simpa using List.of_mem_filter recent)
  have counted := released.counted
  rw [recent_released noted, allocatedBytes_released noted, kept, ← exact_.counted,
    UInt64.toNat_sub] at counted
  have positive : block.bytes.toNat ≠ 0 := fun zero => forgotten.2 (UInt64.toNat_inj.mp zero)
  have bounded := block.bytes.toNat_lt
  have bounded' := account.allocatedBytes.toNat_lt
  omega

theorem forgotten_exact (sound : account.Sound) (unwrapped : account.wrapped = false) :
    account.forgotten.Exact := by
  refine ⟨?_, unwrapped⟩
  have none_recent : account.forgotten.recent = [] := by
    apply List.filter_eq_nil_iff.mpr
    intro block member
    rw [decide_eq_true_iff]
    change ¬ block.era = account.era + 1
    have := sound.aged block member
    omega
  rw [none_recent]
  rfl

/-- Memory gained and released at once leaves no trace. -/
theorem released_gained (sound : account.Sound) (exact_ : account.Exact)
    (fresh : account.Fresh ptr bytes) : (account.gained ptr bytes).released ptr = account := by
  have absent : ∀ block ∈ account.live, block.address ≠ ptr := fun block member =>
    ((List.pairwise_cons.mp fresh.pairwise).1 block member).1.symm
  have unnoted : account.allocSizes ptr = none := by
    rw [sound.noted]
    exact sizeAt_eq_none_iff.mpr absent
  have live_eq : (account.gained ptr bytes).live.filter (·.address ≠ ptr) = account.live := by
    rw [Account.gained, List.filter_cons_of_neg (by simp)]
    exact List.filter_eq_self.mpr fun block member => by simpa using absent block member
  have enough : ¬ account.allocatedBytes + bytes < bytes := by
    rw [UInt64.lt_iff_toNat_lt, exact_.toNat_gained fresh]
    omega
  have noted : (account.gained ptr bytes).allocSizes ptr = some bytes := Function.update_self ..
  unfold Account.released
  rw [noted]
  dsimp only
  rw [live_eq]
  have sizes_eq : Function.update (account.gained ptr bytes).allocSizes ptr none =
      account.allocSizes := by
    rw [Account.gained, Function.update_idem, ← unnoted, Function.update_eq_self]
  have bytes_eq : (account.gained ptr bytes).allocatedBytes - bytes = account.allocatedBytes :=
    UInt64.add_sub_cancel _ _
  rw [sizes_eq, bytes_eq]
  simp [Account.gained, enough]

end Account

/-! ## Operations that leave the account alone -/

/-- Operations that leave the account alone. -/
def Op.Inert : Op → Prop
  | .cudaMallocManaged _ | .recordAllocation .. | .cudaFree _ | .recordFree .. | .resetStats => False
  | _ => True

theorem serve_inert {before after : Memory} {choice : Choice} {op : Op} {reply : Reply op}
    (inert : op.Inert) (execution : serve before op choice = some (reply, after)) :
    after.account = before.account := by
  cases op with
  | cudaMallocManaged | recordAllocation | cudaFree | recordFree | resetStats => exact inert.elim
  | _ =>
      simp only [serve, Option.some.injEq, Prod.mk.injEq] at execution
      obtain ⟨-, rfl⟩ := execution
      rfl

section

variable {replies : (op : Op) → Reply op → Prop}

theorem confined_cudaCheck (expr : String) (call : DriverCall) :
    Confined replies Op.Inert (cudaCheck expr call).run :=
  Confined.andThen (confined_issue trivial) fun _ => confined_require

theorem confined_ensureCudaDevice (device : Int) :
    Confined replies Op.Inert (ensureCudaDevice device).run := by
  apply Confined.andThen (confined_issue trivial)
  intro count
  cases count with
  | none => exact confined_throw _
  | some count => exact Confined.andThen confined_require fun _ => confined_require

theorem confined_cudaGuard (device : Int) : Confined replies Op.Inert (cudaGuard device).run :=
  Confined.andThen (confined_issue trivial) fun _ => confined_require

theorem confined_applyPrefetchPolicy (prefetchPolicy : String) (addr : Address) (bytes : UInt64)
    (device : Int) :
    Confined replies Op.Inert (applyPrefetchPolicy prefetchPolicy addr bytes device).run := by
  unfold applyPrefetchPolicy
  split
  · exact confined_cudaCheck _ _
  split
  · refine Confined.andThen ?_ fun _ => ?_
    · exact Confined.andThen (confined_ensureCudaDevice device) fun _ => confined_cudaCheck _ _
    · apply Confined.andThen (confined_ensureCudaDevice device)
      intro _
      apply Confined.andThen (confined_cudaGuard device)
      intro _
      apply Confined.andThen (confined_cudaCheck _ _)
      intro _
      exact Confined.andThen (confined_cudaCheck _ _) fun _ => confined_issue trivial
  split
  · exact Confined.andThen (confined_ensureCudaDevice device) fun _ => confined_cudaCheck _ _
  split
  · exact confined_pure ()
  · exact confined_throw _

theorem confined_readFile (path : String) (offset : UInt64) (ptr : Address) (bytes : UInt64) :
    Confined replies Op.Inert (readFile path offset ptr bytes).run := by
  apply Confined.andThen (confined_issue trivial)
  intro reply
  cases reply with
  | none => exact confined_issue trivial
  | some message => exact confined_throw _

end

end MemTier.Managed
