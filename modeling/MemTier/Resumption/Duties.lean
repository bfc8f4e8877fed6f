import MemTier.Resumption.Exceptions

/-!
# Operations that come in pairs

Some operations leave something due: a program that issues one has to settle what is due with its
next operation, and settles nothing at any other time. Between the two it owes, and what it owes can
be read off where it stands.
-/

namespace Resumption

/-- What operations settle, and what their replies make due. -/
structure Duties {Op : Type} (Reply : Op → Type) (Due : Type) where
  settles : Op → Option Due
  incurs : (op : Op) → Reply op → Option Due

namespace Prog

section

variable {Op Due : Type} {Reply : Op → Type} {ε α β : Type} {duties : Duties Reply Due}

/-- What a program owes where it stands. -/
def owes (duties : Duties Reply Due) : Prog Reply α → Option Due
  | ret _ => none
  | call op _ => duties.settles op

/-- The program settles first what is due and later whatever it makes due. -/
def Dutiful (duties : Duties Reply Due) : Option Due → Prog Reply α → Prop
  | due, ret _ => due = none
  | due, call op next =>
      due = duties.settles op ∧ ∀ reply, Dutiful duties (duties.incurs op reply) (next reply)

theorem Dutiful.owes_eq {due : Option Due} {program : Prog Reply α}
    (dutiful : Dutiful duties due program) : owes duties program = due := by
  cases program with
  | ret value => exact dutiful.symm
  | call op next => exact dutiful.1.symm

theorem Dutiful.bind {due : Option Due} {program : Prog Reply α}
    {continuation : α → Prog Reply β} (dutiful : Dutiful duties due program)
    (rest : ∀ value, Dutiful duties none (continuation value)) :
    Dutiful duties due (program >>= continuation) := by
  induction program generalizing due with
  | ret value =>
      obtain rfl := dutiful
      exact rest value
  | call op next induction =>
      exact ⟨dutiful.1, fun reply => induction reply (dutiful.2 reply)⟩

/-- Operations that neither settle anything nor make anything due. -/
theorem Confined.dutiful {kind : Op → Prop}
    (free : ∀ op, kind op → duties.settles op = none ∧ ∀ reply, duties.incurs op reply = none)
    {program : Prog Reply α} (confined : Confined (fun _ _ => True) kind program) :
    Dutiful duties none program := by
  induction program with
  | ret value => rfl
  | call op next induction =>
      obtain ⟨allowed, rest⟩ := confined
      obtain ⟨settles, incurs⟩ := free op allowed
      refine ⟨settles.symm, fun reply => ?_⟩
      rw [incurs]
      exact induction reply (rest reply trivial)

/-! ## Programs that throw -/

theorem dutiful_pure (value : α) :
    Dutiful duties none (pure value : Throwing Reply ε α).run := rfl

theorem dutiful_throw (failure : ε) :
    Dutiful duties none (throw failure : Throwing Reply ε α).run := rfl

theorem Dutiful.andThen {program : Throwing Reply ε α} {continuation : α → Throwing Reply ε β}
    (dutiful : Dutiful duties none program.run)
    (rest : ∀ value, Dutiful duties none (continuation value).run) :
    Dutiful duties none (program >>= continuation).run := by
  rw [ExceptT.run_bind]
  apply dutiful.bind
  intro result
  cases result with
  | error failure => exact dutiful_throw failure
  | ok value => exact rest value

theorem Dutiful.handled {program : Throwing Reply ε α} {handler : ε → Throwing Reply ε α}
    (dutiful : Dutiful duties none program.run)
    (rest : ∀ failure, Dutiful duties none (handler failure).run) :
    Dutiful duties none (tryCatch program handler).run := by
  apply Dutiful.bind dutiful
  intro result
  cases result with
  | ok value => exact dutiful_pure value
  | error failure => exact rest failure

/-- An operation, and what follows on its reply. -/
theorem dutiful_issue_then {due : Option Due} {op : Op}
    {continuation : Reply op → Throwing Reply ε β} (settles : due = duties.settles op)
    (rest : ∀ reply, Dutiful duties (duties.incurs op reply) (continuation reply).run) :
    Dutiful duties due (issue op >>= continuation : Throwing Reply ε β).run :=
  ⟨settles, rest⟩

/-- An operation that makes nothing due. -/
theorem dutiful_issue {due : Option Due} {op : Op} (settles : due = duties.settles op)
    (clears : ∀ reply, duties.incurs op reply = none) :
    Dutiful duties due (issue op : Throwing Reply ε (Reply op)).run :=
  ⟨settles, clears⟩

end

end Prog
end Resumption
