import MemTier.Resumption.Evaluation

/-!
# Operations carried out by programs

What is one operation for one program may be a program of its own to those who carry it out.
`expand` puts these programs in the place of the operations.  If each of them only does what the
operation could have done, then the whole does only what the program could have done with its
operations served at once.  What an operation does may then be a relation, and need not be computed.
-/

namespace Resumption

namespace Environment

open Classical in
/-- The environment in which operations do what a relation says.  It chooses what comes of the
operation that it expects. -/
noncomputable def ofRelation {σ Op : Type} {Reply : Op → Type}
    (does : σ → (op : Op) → Reply op → σ → Prop) :
    Environment σ ((op : Op) × Reply op × σ) Reply where
  serve before op choice :=
    if expected : choice.1 = op then
      if does before op (expected ▸ choice.2.1) choice.2.2 then
        some (expected ▸ choice.2.1, choice.2.2)
      else none
    else none
  background := Eq
  permits _ _ := True
  background_refl _ := rfl

theorem serves_ofRelation {σ Op : Type} {Reply : Op → Type}
    {does : σ → (op : Op) → Reply op → σ → Prop} {before after : σ} {op : Op} {reply : Reply op} :
    (ofRelation does).Serves before op reply after ↔ does before op reply after := by
  constructor
  · rintro ⟨_, ⟨op', reply', after'⟩, rfl, served, -⟩
    simp only [ofRelation] at served
    split at served
    · rename_i expected
      subst expected
      split at served
      · rename_i possible
        simp only [Option.some.injEq, Prod.mk.injEq] at served
        obtain ⟨rfl, rfl⟩ := served
        exact possible
      · simp at served
    · simp at served
  · intro possible
    exact ⟨before, ⟨op, reply, after⟩, rfl, by simp [ofRelation, possible], trivial⟩

end Environment

namespace Prog

section

variable {Op Op' : Type} {Reply : Op → Type} {Reply' : Op' → Type} {α : Type}

/-- Every operation is carried out by a program over other operations. -/
def expand (carry : (op : Op) → Prog Reply' (Reply op)) : Prog Reply α → Prog Reply' α
  | ret value => ret value
  | call op next => carry op >>= fun reply => expand carry (next reply)

@[simp] theorem expand_ret {carry : (op : Op) → Prog Reply' (Reply op)} (value : α) :
    expand carry (ret value : Prog Reply α) = ret value := rfl

/-- Operations that carry out themselves. -/
theorem expand_perform (program : Prog Reply α) : expand perform program = program := by
  induction program with
  | ret value => rfl
  | call op next induction => exact congrArg (call op) (funext fun reply => induction reply)

end

/-- Where the invariant holds, what a program does for an operation the operation can do, on the
part of the state that is in view. -/
structure CarriesOut {σ τ Choice Choice' Op Op' : Type} {Reply : Op → Type} {Reply' : Op' → Type}
    (low : Environment τ Choice' Reply') (high : Environment σ Choice Reply)
    (carry : (op : Op) → Prog Reply' (Reply op)) (inv : τ → Prop) (view : τ → σ) : Prop where
  carried : ∀ op before reply after, inv before → Evaluates low (carry op) before reply after →
    high.Serves (view before) op reply (view after) ∧ inv after

section

variable {σ τ Choice Choice' Op Op' : Type} {Reply : Op → Type} {Reply' : Op' → Type} {α : Type}
  {low : Environment τ Choice' Reply'} {high : Environment σ Choice Reply}
  {carry : (op : Op) → Prog Reply' (Reply op)} {inv : τ → Prop} {view : τ → σ}

/-- An expanded program does what the program can do. -/
theorem CarriesOut.evaluates (carries : CarriesOut low high carry inv view)
    {program : Prog Reply α} {before after : τ} {value : α} (invariant : inv before)
    (evaluation : Evaluates low (expand carry program) before value after) :
    Evaluates high program (view before) value (view after) ∧ inv after := by
  induction program generalizing before with
  | ret result =>
      obtain ⟨rfl, rfl⟩ := evaluation
      exact ⟨⟨rfl, rfl⟩, invariant⟩
  | call op next induction =>
      obtain ⟨reply, middle, carried, rest⟩ := evaluates_bind.mp evaluation
      obtain ⟨serves, invariant'⟩ := carries.carried op before reply middle invariant carried
      obtain ⟨evaluation', kept⟩ := induction reply invariant' rest
      exact ⟨⟨reply, view middle, serves, evaluation'⟩, kept⟩

/-- A program does with more of the state in sight what it does without. -/
theorem Evaluates.project {low : Environment τ Choice' Reply} {program : Prog Reply α}
    {before after : τ} {value : α}
    (serves : ∀ op before reply after, low.Serves before op reply after →
      high.Serves (view before) op reply (view after))
    (evaluation : Evaluates low program before value after) :
    Evaluates high program (view before) value (view after) := by
  have carries : CarriesOut low high perform (fun _ => True) view :=
    ⟨fun op before reply after _ performed =>
      ⟨serves op before reply after (evaluates_perform.mp performed), trivial⟩⟩
  rw [← expand_perform program] at evaluation
  exact (carries.evaluates trivial evaluation).1

end

end Prog
end Resumption
