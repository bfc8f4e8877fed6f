import MemTier.Resumption.Evaluation

/-!
# Confined programs

A program is confined if, as long as replies are among those considered, it issues operations of a
given kind only.  If these operations keep an invariant of the shared state, and only replies
considered come back while it holds, then any number of confined programs keep it however their
steps interleave.
-/

namespace Resumption

namespace Prog

/-- Along the replies considered, every operation is of the given kind. -/
def Confined {Op : Type} {Reply : Op → Type} {α : Type} (replies : (op : Op) → Reply op → Prop)
    (kind : Op → Prop) : Prog Reply α → Prop
  | ret _ => True
  | call op next => kind op ∧ ∀ reply, replies op reply → Confined replies kind (next reply)

/-- What confinement to a kind of operations rests on. -/
structure Keeps {σ Choice Op : Type} {Reply : Op → Type} (serve : Server σ Choice Reply)
    (inv : σ → Prop) (replies : (op : Op) → Reply op → Prop) (kind : Op → Prop) : Prop where
  step : ∀ state op choice reply after, inv state → kind op →
    serve state op choice = some (reply, after) → replies op reply ∧ inv after

section

variable {σ Choice Op : Type} {Reply : Op → Type} {α β : Type}
  {replies : (op : Op) → Reply op → Prop} {kind : Op → Prop}

/-- An operation, and what follows on each reply considered. -/
theorem confined_perform_bind {op : Op} {continuation : Reply op → Prog Reply α}
    (allowed : kind op)
    (rest : ∀ reply, replies op reply → Confined replies kind (continuation reply)) :
    Confined replies kind (perform op >>= continuation) :=
  ⟨allowed, rest⟩

theorem Confined.bind {program : Prog Reply α} {continuation : α → Prog Reply β}
    (confined : Confined replies kind program)
    (rest : ∀ value, Confined replies kind (continuation value)) :
    Confined replies kind (program >>= continuation) := by
  induction program with
  | ret value => exact rest value
  | call op next induction =>
      exact ⟨confined.1, fun reply considered => induction reply (confined.2 reply considered)⟩

/-- Where every operation is allowed there is nothing to show. -/
theorem confined_anything (program : Prog Reply α) :
    Confined replies (fun _ => True) program := by
  induction program with
  | ret value => trivial
  | call op next induction => exact ⟨trivial, fun reply _ => induction reply⟩

/-- A step of a confined program. -/
theorem Confined.advance {serve : Server σ Choice Reply} {inv : σ → Prop}
    {program : Prog Reply α} (confined : Confined replies kind program)
    (keeps : Keeps serve inv replies kind) {state : σ} (invariant : inv state) (choice : Choice) :
    inv (advance serve choice (state, program)).1 ∧
      Confined replies kind (advance serve choice (state, program)).2 := by
  cases program with
  | ret value => exact ⟨invariant, confined⟩
  | call op next =>
      cases execution : serve state op choice with
      | none => simpa only [Prog.advance, execution] using ⟨invariant, confined⟩
      | some result =>
          obtain ⟨considered, kept⟩ := keeps.step state op choice result.1 result.2 invariant
            confined.1 execution
          simpa only [Prog.advance, execution] using ⟨kept, confined.2 result.1 considered⟩

/-- What operations of a kind keep, while they come back with replies considered, a confined program
keeps. -/
theorem Confined.keeps {environment : Environment σ Choice Reply} {inv : σ → Prop}
    (step : ∀ before op reply after, inv before → kind op →
      environment.Serves before op reply after → replies op reply ∧ inv after)
    {program : Prog Reply α} (confined : Confined replies kind program) {before after : σ}
    {value : α} (invariant : inv before)
    (evaluation : Evaluates environment program before value after) : inv after := by
  induction program generalizing before with
  | ret result =>
      obtain ⟨-, rfl⟩ := evaluation
      exact invariant
  | call op next induction =>
      obtain ⟨reply, middle, execution, rest⟩ := evaluation
      obtain ⟨considered, kept⟩ := step before op reply middle invariant confined.1 execution
      exact induction reply (confined.2 reply considered) kept rest

/-- What operations of a kind do not change is the same when a confined program has returned. -/
theorem Confined.evaluates {environment : Environment σ Choice Reply} {μ : Type} {measure : σ → μ}
    (step : ∀ before op reply after, kind op → environment.Serves before op reply after →
      replies op reply ∧ measure after = measure before)
    {program : Prog Reply α} (confined : Confined replies kind program) {before after : σ}
    {value : α} (evaluation : Evaluates environment program before value after) :
    measure after = measure before := by
  induction program generalizing before with
  | ret result =>
      obtain ⟨-, rfl⟩ := evaluation
      rfl
  | call op next induction =>
      obtain ⟨reply, middle, execution, rest⟩ := evaluation
      obtain ⟨considered, same⟩ := step before op reply middle confined.1 execution
      exact (induction reply (confined.2 reply considered) rest).trans same

end

end Prog
end Resumption
