import MemTier.Containers.Bytes

/-!
# Positioned reads

What one `pread` call may do on a regular file.  The environment decides whether the call is
interrupted, fails, or how many of the available bytes it delivers.
-/

namespace MemTier

open Containers

/-- A decision of the environment about one call. -/
inductive Choice where
  /-- `EINTR`: nothing happened. -/
  | interrupt
  /-- The call reports an error. -/
  | fail
  /-- The call succeeds; a `pread` delivers at most `count` bytes, and at least one if it can. -/
  | take (count : Nat)
  deriving DecidableEq, Repr

/-- The choices of an environment in which no call fails on its own account. -/
def Choice.Reliable (choice : Choice) : Prop := choice ≠ .fail

/-- The choices under which a call completes. -/
def Choice.Completes (choice : Choice) : Prop := choice ≠ .interrupt

/-- Outcome of a completed `pread`. -/
inductive PreadReply where
  | error
  | data (bytes : Bytes)
  deriving DecidableEq, Repr

/-- Read at most `count` bytes at `offset`.  Offsets with the top bit set are negative. -/
def pread (content : Bytes) (count offset : Nat) : Choice → Option PreadReply
  | .interrupt => none
  | .fail => some .error
  | .take wanted =>
      if 2 ^ 63 ≤ offset then some .error
      else some (.data ((slice content offset count).take (max 1 wanted)))

/-- A completed read delivers a prefix of what it was asked for, empty only at the end. -/
theorem pread_data {content : Bytes} {count offset : Nat} {choice : Choice} {bytes : Bytes}
    (outcome : pread content count offset choice = some (.data bytes)) :
    bytes <+: slice content offset count ∧
      (bytes = [] → slice content offset count = []) ∧ offset < 2 ^ 63 := by
  cases choice with
  | interrupt => simp [pread] at outcome
  | fail => simp [pread] at outcome
  | take wanted =>
      simp only [pread] at outcome
      split at outcome
      · simp at outcome
      · rename_i small
        simp only [Option.some.injEq, PreadReply.data.injEq] at outcome
        subst outcome
        refine ⟨List.take_prefix _ _, fun empty => ?_, by omega⟩
        rcases List.take_eq_nil_iff.mp empty with zero | nil
        · omega
        · exact nil

/-- Without failures only negative offsets are errors. -/
theorem pread_error {content : Bytes} {count offset : Nat} {choice : Choice}
    (reliable : choice.Reliable)
    (outcome : pread content count offset choice = some .error) : 2 ^ 63 ≤ offset := by
  cases choice with
  | interrupt => simp [pread] at outcome
  | fail => exact absurd rfl reliable
  | take wanted =>
      simp only [pread] at outcome
      split at outcome
      · assumption
      · simp at outcome

end MemTier
