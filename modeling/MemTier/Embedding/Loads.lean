import MemTier.Embedding.Machine

/-!
# Loading a block

What the operations of the machine can do, and from that what a load can do: it writes a front
part of what it was asked for into its slot, all of it if it succeeds.
-/

namespace MemTier.Embedding

open Containers Resumption

/-! ## Operations -/

section

variable {file : Bytes} {mode : CopyMode} {permits : (op : Op) → Reply op → Prop}
  {before after : Machine}

/-- A read delivers a front part of the range it asks for, nothing only at the end of the file. -/
theorem serves_pread {block : BlockId} {dst count offset : Nat} {reply : Option Nat}
    (execution : (environment file mode permits).Serves before
      (.pread block dst count offset) reply after) :
    permits (.pread block dst count offset) reply ∧
      ∃ ready, before.Drains ready ∧
        ((reply = none ∧ after = ready) ∨
          ∃ data, data <+: slice file offset count ∧
            (data = [] → slice file offset count = []) ∧ offset < 2 ^ 63 ∧
            reply = some data.length ∧
            after = { ready with dram := ready.dram.write dst data }) := by
  obtain ⟨ready, choice, drains, served, permitted⟩ := execution
  refine ⟨permitted, ready, drains, ?_⟩
  simp only [environment, serve] at served
  split at served
  · simp at served
  · simp only [Option.some.injEq, Prod.mk.injEq] at served
    exact .inl ⟨served.1.symm, served.2.symm⟩
  · rename_i data outcome
    simp only [Option.some.injEq, Prod.mk.injEq] at served
    obtain ⟨read, nonempty, small⟩ := pread_data outcome
    exact .inr ⟨data, read, nonempty, small, served.1.symm, served.2.symm⟩

theorem serves_memcpyAsync {copy : Copy} {issued : Bool}
    (execution : (environment file mode permits).Serves before (.memcpyAsync copy) issued after) :
    permits (.memcpyAsync copy) issued ∧
      ∃ ready, before.Drains ready ∧
        after = if issued then ready.issue mode copy else ready := by
  obtain ⟨ready, choice, drains, served, permitted⟩ := execution
  refine ⟨permitted, ready, drains, ?_⟩
  simp only [environment, serve] at served
  split at served
  · simp only [Option.some.injEq, Prod.mk.injEq] at served
    obtain ⟨rfl, rfl⟩ := served
    rfl
  · simp only [Option.some.injEq, Prod.mk.injEq] at served
    obtain ⟨rfl, rfl⟩ := served
    rfl

/-- Creating and destroying a stream only gives it time. -/
theorem serves_streamCreate {created : Bool}
    (execution : (environment file mode permits).Serves before .streamCreate created after) :
    before.Drains after := by
  obtain ⟨ready, choice, drains, served, -⟩ := execution
  simp only [environment, serve, Option.some.injEq, Prod.mk.injEq] at served
  obtain ⟨-, rfl⟩ := served
  exact drains

theorem serves_streamDestroy {destroyed : Bool}
    (execution : (environment file mode permits).Serves before .streamDestroy destroyed after) :
    before.Drains after := by
  obtain ⟨ready, choice, drains, served, -⟩ := execution
  simp only [environment, serve, Option.some.injEq, Prod.mk.injEq] at served
  obtain ⟨-, rfl⟩ := served
  exact drains

theorem serves_streamSynchronize {finished : Bool}
    (execution : (environment file mode permits).Serves before .streamSynchronize finished after) :
    ∃ ready, before.Drains ready ∧
      after = if finished then ready.drain ready.pending.length else ready := by
  obtain ⟨ready, choice, drains, served, -⟩ := execution
  refine ⟨ready, drains, ?_⟩
  simp only [environment, serve] at served
  split at served
  · simp only [Option.some.injEq, Prod.mk.injEq] at served
    obtain ⟨rfl, rfl⟩ := served
    rfl
  · simp only [Option.some.injEq, Prod.mk.injEq] at served
    obtain ⟨rfl, rfl⟩ := served
    rfl

end

/-- Nothing was queued, and nothing is. -/
theorem Machine.Drains.eq_of_empty {before after : Machine} (drains : before.Drains after)
    (empty : before.pending = []) : after = before := by
  obtain ⟨count, rfl⟩ := drains
  exact Machine.drain_of_empty empty count

theorem Machine.Drains.dram {before after : Machine} (drains : before.Drains after) :
    after.dram = before.dram := by
  obtain ⟨count, rfl⟩ := drains
  exact Machine.drain_dram before count

theorem Machine.Drains.pending {before after : Machine} (drains : before.Drains after) :
    after.pending ⊆ before.pending := by
  obtain ⟨count, rfl⟩ := drains
  rw [(before.drain_split count).1]
  exact List.drop_subset _ _

/-! ## Loads -/

/-- What a load into a slot may do. -/
structure Loads (file : Bytes) (permits : (op : Op) → Reply op → Prop) (block : BlockId)
    (offset dst bytes : Nat) (before : Machine) (result : Option Nat) (after : Machine) : Prop where
  written : ∃ data, data <+: slice file offset bytes ∧
    (result ≠ none → data = slice file offset bytes) ∧ after.dram = before.dram.write dst data
  complete : ∀ read, result = some read → read = bytes ∧ offset + bytes ≤ file.length
  asked : ∃ dst count offset' reply, permits (.pread block dst count offset') reply
  failed : result = none → ∃ dst count offset' reply,
    permits (.pread block dst count offset') reply ∧
      (reply = none ∨ reply = some 0 ∧ file.length < offset + bytes)
  quiet : before.pending = [] → after = { before with dram := after.dram }
  shrinks : after.pending ⊆ before.pending

section

variable {file : Bytes} {mode : CopyMode} {permits : (op : Op) → Reply op → Prop}
  {before after : Machine}

/-- What the loop does once `total` bytes are in the slot. -/
theorem loadLoop_spec (small : file.length < 2 ^ 63) {block : BlockId}
    {offset dst bytes total : Nat} {result : Option Nat} (nonzero : offset + total < 2 ^ 64)
    (evaluation : (loadLoop block offset dst bytes total).Evaluates
      (environment file mode permits) before result after) :
    (∃ data, data <+: slice file (offset + total) (bytes - total) ∧
      (result ≠ none → data = slice file (offset + total) (bytes - total)) ∧
      after.dram = before.dram.write (dst + total) data) ∧
    (∀ read, result = some read → total ≤ bytes →
      read = bytes ∧ (total < bytes → offset + bytes ≤ file.length)) ∧
    (total < bytes → ∃ dst count offset' reply, permits (.pread block dst count offset') reply) ∧
    (result = none → ∃ dst count offset' reply,
      permits (.pread block dst count offset') reply ∧
        (reply = none ∨ reply = some 0 ∧ file.length < offset + bytes)) ∧
    (before.pending = [] → after = { before with dram := after.dram }) ∧
    after.pending ⊆ before.pending := by
  induction gap : bytes - total using Nat.strong_induction_on generalizing total before with
  | _ left induction =>
    rw [loadLoop] at evaluation
    split at evaluation
    · rename_i more
      obtain ⟨reply, middle, execution, rest⟩ := Prog.evaluates_bind.mp evaluation
      rw [Run.pread, Prog.evaluates_perform] at execution
      obtain ⟨permitted, ready, drains, outcome⟩ := serves_pread execution
      rw [Nat.mod_eq_of_lt nonzero] at permitted outcome
      rcases outcome with ⟨rfl, rfl⟩ | ⟨data, read, nonempty, offset_lt, rfl, rfl⟩
      · obtain ⟨rfl, rfl⟩ := rest
        refine ⟨⟨[], List.nil_prefix, by simp, ?_⟩, by simp, fun _ => ⟨_, _, _, _, permitted⟩,
          ?_, ?_, drains.pending⟩
        · rw [drains.dram]
          funext cell
          simp [Memory.write]
        · exact fun _ => ⟨_, _, _, none, permitted, .inl rfl⟩
        · intro empty
          rw [drains.eq_of_empty empty]
      · dsimp only at rest
        split at rest
        · rename_i eof
          obtain ⟨rfl, rfl⟩ := rest
          have past := congrArg List.length (nonempty (List.length_eq_zero_iff.mp eof))
          rw [length_slice, List.length_nil] at past
          rw [List.length_eq_zero_iff.mp eof] at permitted ⊢
          refine ⟨⟨[], List.nil_prefix, by simp, ?_⟩, by simp, fun _ => ⟨_, _, _, _, permitted⟩,
            ?_, ?_, drains.pending⟩
          · simp only [drains.dram]
          · exact fun _ => ⟨_, _, _, some 0, permitted, .inr ⟨rfl, by omega⟩⟩
          · intro empty
            rw [drains.eq_of_empty empty]
        · rename_i some_read
          have bound := read.length_le
          rw [length_slice] at bound
          have smaller : bytes - (total + data.length) < left := by omega
          obtain ⟨⟨later, more_read, all_read, written⟩, complete, -, failed, quiet, shrinks⟩ :=
            induction _ smaller (by omega) rest rfl
          have joined : data = slice file (offset + total) data.length :=
            eq_slice_of_front (read.trans (List.take_prefix _ _))
          have whole : data ++ slice file (offset + (total + data.length))
              (bytes - (total + data.length)) = slice file (offset + total) (bytes - total) := by
            rw [show bytes - total = data.length + (bytes - (total + data.length)) by omega,
              ← slice_append, ← joined, Nat.add_assoc]
          refine ⟨⟨data ++ later, ?_, ?_, ?_⟩, ?_, fun _ => ⟨_, _, _, _, permitted⟩, failed, ?_,
            List.Subset.trans shrinks drains.pending⟩
          · rw [← gap, ← whole]
            exact (List.prefix_append_right_inj data).mpr more_read
          · intro success
            rw [← gap, ← whole, ← all_read success]
          · rw [written, ← Nat.add_assoc, Memory.write_write_append, drains.dram]
          · intro count success le
            obtain ⟨same, inside⟩ := complete count success (by omega)
            refine ⟨same, fun _ => ?_⟩
            by_cases rest_left : total + data.length < bytes
            · exact inside rest_left
            · omega
          · intro empty
            rw [drains.eq_of_empty empty] at quiet
            rw [quiet empty]
    · rename_i done
      obtain ⟨rfl, rfl⟩ := evaluation
      have none_left : left = 0 := by omega
      subst none_left
      refine ⟨⟨[], List.nil_prefix, by simp [slice], ?_⟩, ?_, fun less => absurd less done, by simp,
        fun _ => rfl, fun _ => id⟩
      · funext cell
        simp [Memory.write]
      · rintro read ⟨⟩ le
        exact ⟨by omega, fun less => absurd less done⟩

theorem loadBlock_spec (small : file.length < 2 ^ 63) {config : Config} {block : BlockId}
    {dst bytes : Nat} {result : Option Nat} (positive : 0 < bytes)
    (evaluation : (loadBlock config block dst bytes).Evaluates
      (environment file mode permits) before result after) :
    Loads file permits block (config.loadOffset block).toNat dst bytes before result after := by
  obtain ⟨written, complete, asked, failed, quiet, shrinks⟩ :=
    loadLoop_spec small (config.loadOffset block).toNat_lt evaluation
  refine ⟨written, fun read success => ?_, asked positive, failed, quiet, shrinks⟩
  obtain ⟨same, inside⟩ := complete read success (Nat.zero_le _)
  exact ⟨same, inside positive⟩

end

end MemTier.Embedding
