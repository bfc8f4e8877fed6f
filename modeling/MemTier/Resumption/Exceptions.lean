import MemTier.Resumption.Confinement

/-!
# Programs that throw

Exceptions on top of programs with atomic operations. An exception leaves the shared state as it is
at the point where it is thrown, so that handlers have to restore what they want restored.
-/

namespace Resumption

/-- A program that returns a value or throws an exception. -/
abbrev Throwing {Op : Type} (Reply : Op → Type) (ε α : Type) : Type := ExceptT ε (Prog Reply) α

/-- Issue one operation, which throws nothing, and return its reply. -/
def issue {Op : Type} {Reply : Op → Type} {ε : Type} (op : Op) : Throwing Reply ε (Reply op) :=
  ExceptT.lift (Prog.perform op)

/-- Throw unless the condition holds. -/
def require {Op : Type} {Reply : Op → Type} {ε : Type} (condition : Prop) [Decidable condition]
    (failure : ε) : Throwing Reply ε Unit :=
  if condition then pure () else throw failure

namespace Prog

section

variable {σ Choice Op : Type} {Reply : Op → Type} {ε α β : Type}
  {environment : Environment σ Choice Reply} {before after : σ}

theorem evaluates_pure {value : α} {outcome : Except ε α} :
    Evaluates environment (pure value : Throwing Reply ε α).run before outcome after ↔
      outcome = .ok value ∧ after = before :=
  and_congr eq_comm eq_comm

theorem evaluates_throw {failure : ε} {outcome : Except ε α} :
    Evaluates environment (throw failure : Throwing Reply ε α).run before outcome after ↔
      outcome = .error failure ∧ after = before :=
  and_congr eq_comm eq_comm

theorem evaluates_require {condition : Prop} [Decidable condition] {failure : ε}
    {outcome : Except ε Unit} :
    Evaluates environment (require condition failure : Throwing Reply ε Unit).run before outcome
        after ↔
      outcome = (if condition then .ok () else .error failure) ∧ after = before := by
  unfold require
  split
  · exact evaluates_pure
  · exact evaluates_throw

/-- One operation, and what follows on its reply. -/
theorem evaluates_issue_then {op : Op} {continuation : Reply op → Throwing Reply ε β}
    {outcome : Except ε β} :
    Evaluates environment
        (issue op >>= continuation : Throwing Reply ε β).run before outcome after ↔
      ∃ reply middle, environment.Serves before op reply middle ∧
        Evaluates environment (continuation reply).run middle outcome after :=
  Iff.rfl

theorem evaluates_issue {op : Op} {outcome : Except ε (Reply op)} :
    Evaluates environment (issue op : Throwing Reply ε (Reply op)).run before outcome after ↔
      ∃ reply, environment.Serves before op reply after ∧ outcome = .ok reply := by
  constructor
  · rintro ⟨reply, middle, execution, rfl, rfl⟩
    exact ⟨reply, execution, rfl⟩
  · rintro ⟨reply, execution, rfl⟩
    exact ⟨reply, after, execution, rfl, rfl⟩

/-- A sequence ends where its first part throws. -/
theorem evaluates_then {program : Throwing Reply ε α} {continuation : α → Throwing Reply ε β}
    {outcome : Except ε β} :
    Evaluates environment (program >>= continuation).run before outcome after ↔
      (∃ failure, Evaluates environment program.run before (.error failure) after ∧
        outcome = .error failure) ∨
      ∃ value middle, Evaluates environment program.run before (.ok value) middle ∧
        Evaluates environment (continuation value).run middle outcome after := by
  rw [ExceptT.run_bind, evaluates_bind]
  constructor
  · rintro ⟨result, middle, evaluation, rest⟩
    cases result with
    | error failure =>
        obtain ⟨rfl, rfl⟩ := rest
        exact .inl ⟨failure, evaluation, rfl⟩
    | ok value => exact .inr ⟨value, middle, evaluation, rest⟩
  · rintro (⟨failure, evaluation, rfl⟩ | ⟨value, middle, evaluation, rest⟩)
    · exact ⟨.error failure, after, evaluation, rfl, rfl⟩
    · exact ⟨.ok value, middle, evaluation, rest⟩

/-- A handler runs where its body throws. -/
theorem evaluates_tryCatch {program : Throwing Reply ε α} {handler : ε → Throwing Reply ε α}
    {outcome : Except ε α} :
    Evaluates environment (tryCatch program handler).run before outcome after ↔
      (∃ value, Evaluates environment program.run before (.ok value) after ∧
        outcome = .ok value) ∨
      ∃ failure middle, Evaluates environment program.run before (.error failure) middle ∧
        Evaluates environment (handler failure).run middle outcome after := by
  have unfolded : (tryCatch program handler).run =
      program.run >>= fun result => match result with
        | .ok value => ret (.ok value)
        | .error failure => (handler failure).run := rfl
  rw [unfolded, evaluates_bind]
  constructor
  · rintro ⟨result, middle, evaluation, rest⟩
    cases result with
    | ok value =>
        obtain ⟨rfl, rfl⟩ := rest
        exact .inl ⟨value, evaluation, rfl⟩
    | error failure => exact .inr ⟨failure, middle, evaluation, rest⟩
  · rintro (⟨value, evaluation, rfl⟩ | ⟨failure, middle, evaluation, rest⟩)
    · exact ⟨.ok value, after, evaluation, rfl, rfl⟩
    · exact ⟨.error failure, middle, evaluation, rest⟩

end

/-! ## Confinement -/

section

variable {Op : Type} {Reply : Op → Type} {ε α β : Type} {replies : (op : Op) → Reply op → Prop}
  {kind : Op → Prop}

theorem confined_pure (value : α) :
    Confined replies kind (pure value : Throwing Reply ε α).run := trivial

theorem confined_throw (failure : ε) :
    Confined replies kind (throw failure : Throwing Reply ε α).run := trivial

theorem confined_require {condition : Prop} [Decidable condition] {failure : ε} :
    Confined replies kind (require condition failure : Throwing Reply ε Unit).run := by
  unfold require
  split
  · exact confined_pure ()
  · exact confined_throw failure

theorem confined_issue {op : Op} (allowed : kind op) :
    Confined replies kind (issue op : Throwing Reply ε (Reply op)).run :=
  ⟨allowed, fun _ _ => trivial⟩

theorem Confined.andThen {program : Throwing Reply ε α} {continuation : α → Throwing Reply ε β}
    (confined : Confined replies kind program.run)
    (rest : ∀ value, Confined replies kind (continuation value).run) :
    Confined replies kind (program >>= continuation).run := by
  rw [ExceptT.run_bind]
  apply Confined.bind confined
  intro result
  cases result with
  | error failure => exact confined_throw failure
  | ok value => exact rest value

/-- A body and the handler of its exceptions. -/
theorem Confined.handled {program : Throwing Reply ε α} {handler : ε → Throwing Reply ε α}
    (confined : Confined replies kind program.run)
    (rest : ∀ failure, Confined replies kind (handler failure).run) :
    Confined replies kind (tryCatch program handler).run := by
  have unfolded : (tryCatch program handler).run =
      program.run >>= fun result => match result with
        | .ok value => ret (.ok value)
        | .error failure => (handler failure).run := rfl
  rw [unfolded]
  apply Confined.bind confined
  intro result
  cases result with
  | error failure => exact rest failure
  | ok value => exact trivial

end

end Prog
end Resumption
