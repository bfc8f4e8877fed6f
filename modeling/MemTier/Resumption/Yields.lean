import MemTier.Resumption.Evaluation

/-!
# What programs can return

A property of every value that a program can return, as long as replies are among those considered,
whatever the states are in which its operations are served.
-/

namespace Resumption

namespace Prog

/-- Along the replies considered, every value returned satisfies the postcondition. -/
def Yields {Op : Type} {Reply : Op → Type} {α : Type} (replies : (op : Op) → Reply op → Prop)
    (post : α → Prop) : Prog Reply α → Prop
  | ret value => post value
  | call op next => ∀ reply, replies op reply → Yields replies post (next reply)

section

variable {σ Choice Op : Type} {Reply : Op → Type} {α β : Type}
  {replies : (op : Op) → Reply op → Prop} {post : α → Prop} {post' : β → Prop}

@[simp] theorem yields_ret {value : α} :
    Yields replies post (ret value : Prog Reply α) ↔ post value :=
  Iff.rfl

/-- An operation, and what follows on each reply considered. -/
theorem yields_perform_bind {op : Op} {continuation : Reply op → Prog Reply α}
    (rest : ∀ reply, replies op reply → Yields replies post (continuation reply)) :
    Yields replies post (perform op >>= continuation) :=
  rest

/-- Without a postcondition there is nothing to show. -/
theorem yields_trivial (program : Prog Reply α) : program.Yields replies fun _ => True := by
  induction program with
  | ret value => trivial
  | call op next induction => exact fun reply _ => induction reply

/-- Sequencing: the second program starts with a value that the first one can return. -/
theorem Yields.bind {program : Prog Reply α} {continuation : α → Prog Reply β}
    (yields : Yields replies post program)
    (rest : ∀ value, post value → Yields replies post' (continuation value)) :
    Yields replies post' (program >>= continuation) := by
  induction program with
  | ret value => exact rest value yields
  | call op next induction => exact fun reply considered => induction reply (yields reply considered)

theorem Yields.evaluates {environment : Environment σ Choice Reply}
    (considered : ∀ before op reply after, environment.Serves before op reply after →
      replies op reply)
    {program : Prog Reply α} (yields : Yields replies post program) {before after : σ} {value : α}
    (evaluation : Evaluates environment program before value after) : post value := by
  induction program generalizing before with
  | ret result =>
      obtain ⟨rfl, -⟩ := evaluation
      exact yields
  | call op next induction =>
      obtain ⟨reply, middle, execution, rest⟩ := evaluation
      exact induction reply (yields reply (considered before op reply middle execution)) rest

end

end Prog
end Resumption
