import MemTier.Resumption.Program

/-!
# Evaluation in an environment

`Evaluates` relates a program and the state it starts in to every value it can return and every
state it can leave behind, `Visits` to every state it passes through.  Both range over all choices
of the environment, which may also act on its own between two operations.  Evaluation of a
sequence splits into evaluations of its parts, which is how programs are taken apart.
-/

namespace Resumption

/-- Where a program runs: how operations are served, what happens between them, and which replies
are considered. -/
structure Environment (σ Choice : Type) {Op : Type} (Reply : Op → Type) where
  serve : Server σ Choice Reply
  background : σ → σ → Prop
  permits : (op : Op) → Reply op → Prop
  background_refl : ∀ state, background state state

namespace Environment

variable {σ Choice Op : Type} {Reply : Op → Type}

/-- Something happens in the background, and then an operation is served. -/
def Serves (environment : Environment σ Choice Reply) (before : σ) (op : Op) (reply : Reply op)
    (after : σ) : Prop :=
  ∃ ready choice, environment.background before ready ∧
    environment.serve ready op choice = some (reply, after) ∧ environment.permits op reply

end Environment

namespace Prog

/-- The program can return `value` in state `after`. -/
def Evaluates {σ Choice Op : Type} {Reply : Op → Type} {α : Type}
    (environment : Environment σ Choice Reply) : Prog Reply α → σ → α → σ → Prop
  | ret result, before, value, after => result = value ∧ before = after
  | call op next, before, value, after =>
      ∃ reply middle, environment.Serves before op reply middle ∧
        Evaluates environment (next reply) middle value after

/-- The program can pass through `state`. -/
def Visits {σ Choice Op : Type} {Reply : Op → Type} {α : Type}
    (environment : Environment σ Choice Reply) : Prog Reply α → σ → σ → Prop
  | ret _, before, state => environment.background before state
  | call op next, before, state =>
      environment.background before state ∨
        ∃ reply middle, environment.Serves before op reply middle ∧
          Visits environment (next reply) middle state

section

variable {σ Choice Op : Type} {Reply : Op → Type} {α β : Type}
  {environment : Environment σ Choice Reply}

@[simp] theorem evaluates_ret {result value : α} {before after : σ} :
    Evaluates environment (ret result) before value after ↔ result = value ∧ before = after :=
  Iff.rfl

/-- Evaluation of a sequence. -/
theorem evaluates_bind {program : Prog Reply α} {continuation : α → Prog Reply β} {value : β}
    {before after : σ} :
    Evaluates environment (program >>= continuation) before value after ↔
      ∃ result middle, Evaluates environment program before result middle ∧
        Evaluates environment (continuation result) middle value after := by
  induction program generalizing before with
  | ret result =>
      constructor
      · exact fun rest => ⟨result, before, ⟨rfl, rfl⟩, rest⟩
      · rintro ⟨_, _, ⟨rfl, rfl⟩, rest⟩
        exact rest
  | call op next induction =>
      constructor
      · rintro ⟨reply, first, execution, rest⟩
        obtain ⟨result, middle, evaluation, rest⟩ := (induction reply).mp rest
        exact ⟨result, middle, ⟨reply, first, execution, evaluation⟩, rest⟩
      · rintro ⟨result, middle, ⟨reply, first, execution, evaluation⟩, rest⟩
        exact ⟨reply, first, execution, (induction reply).mpr ⟨result, middle, evaluation, rest⟩⟩

/-- Evaluation of one operation. -/
theorem evaluates_perform {op : Op} {reply : Reply op} {before after : σ} :
    Evaluates environment (perform op) before reply after ↔
      environment.Serves before op reply after := by
  constructor
  · rintro ⟨_, _, execution, rfl, rfl⟩
    exact execution
  · exact fun execution => ⟨reply, after, execution, rfl, rfl⟩

/-- Whatever happens in the background may happen before a program moves at all. -/
theorem Visits.of_background {program : Prog Reply α} {before state : σ}
    (happens : environment.background before state) :
    Visits environment program before state := by
  cases program with
  | ret value => exact happens
  | call op next => exact .inl happens

/-- States on the way of a sequence. -/
theorem visits_bind {program : Prog Reply α} {continuation : α → Prog Reply β}
    {before state : σ} :
    Visits environment (program >>= continuation) before state ↔
      Visits environment program before state ∨
        ∃ result middle, Evaluates environment program before result middle ∧
          Visits environment (continuation result) middle state := by
  induction program generalizing before with
  | ret result =>
      constructor
      · exact fun rest => .inr ⟨result, before, ⟨rfl, rfl⟩, rest⟩
      · rintro (happens | ⟨_, _, ⟨rfl, rfl⟩, rest⟩)
        · exact Visits.of_background happens
        · exact rest
  | call op next induction =>
      constructor
      · rintro (happens | ⟨reply, first, execution, rest⟩)
        · exact .inl (.inl happens)
        · rcases (induction reply).mp rest with inside | ⟨result, middle, evaluation, rest⟩
          · exact .inl (.inr ⟨reply, first, execution, inside⟩)
          · exact .inr ⟨result, middle, ⟨reply, first, execution, evaluation⟩, rest⟩
      · rintro ((happens | ⟨reply, first, execution, inside⟩) |
          ⟨result, middle, ⟨reply, first, execution, evaluation⟩, rest⟩)
        · exact .inl happens
        · exact .inr ⟨reply, first, execution, (induction reply).mpr (.inl inside)⟩
        · exact .inr ⟨reply, first, execution,
            (induction reply).mpr (.inr ⟨result, middle, evaluation, rest⟩)⟩

/-- States on the way of one operation. -/
theorem visits_perform {op : Op} {before state : σ} :
    Visits environment (perform op) before state ↔
      environment.background before state ∨
        ∃ reply middle, environment.Serves before op reply middle ∧
          environment.background middle state :=
  Iff.rfl

/-- A program passes through the state it leaves behind. -/
theorem Evaluates.visits {program : Prog Reply α} {value : α} {before after : σ}
    (evaluation : Evaluates environment program before value after) :
    Visits environment program before after := by
  induction program generalizing before with
  | ret result =>
      obtain ⟨-, rfl⟩ := evaluation
      exact environment.background_refl before
  | call op next induction =>
      obtain ⟨reply, middle, execution, rest⟩ := evaluation
      exact .inr ⟨reply, middle, execution, induction reply rest⟩

/-- Where every operation has a reply that is considered, every program returns. -/
theorem exists_evaluates
    (total : ∀ before op, ∃ reply after, environment.Serves before op reply after)
    (program : Prog Reply α) (before : σ) :
    ∃ value after, Evaluates environment program before value after := by
  induction program generalizing before with
  | ret result => exact ⟨result, before, rfl, rfl⟩
  | call op next induction =>
      obtain ⟨reply, middle, execution⟩ := total before op
      obtain ⟨value, after, rest⟩ := induction reply middle
      exact ⟨value, after, reply, middle, execution, rest⟩

/-- A first choice, and a stream of choices after it. -/
theorem runFor_succ {serve : Server σ Choice Reply} {stream : Nat → Choice} (choice : Choice)
    (steps : Nat) (config : σ × Prog Reply α) :
    runFor serve (fun time => Nat.casesOn time choice stream) (steps + 1) config =
      runFor serve stream steps (advance serve choice config) := by
  induction steps with
  | zero => rfl
  | succ steps induction =>
      rw [runFor, induction]
      rfl

/-- What a program can return while nothing happens in the background, it returns along some
stream. -/
theorem Evaluates.returns (spare : Choice)
    (quiet : ∀ before after, environment.background before after → after = before)
    {program : Prog Reply α} {value : α} {before after : σ}
    (evaluation : Evaluates environment program before value after) :
    ∃ stream, Returns environment.serve stream before program value after := by
  induction program generalizing before with
  | ret result =>
      obtain ⟨rfl, rfl⟩ := evaluation
      exact ⟨fun _ => spare, 0, rfl⟩
  | call op next induction =>
      obtain ⟨reply, middle, ⟨ready, choice, happens, execution, -⟩, rest⟩ := evaluation
      obtain rfl := quiet before ready happens
      obtain ⟨stream, steps, finished⟩ := induction reply rest
      refine ⟨fun time => Nat.casesOn time choice stream, steps + 1, ?_⟩
      rw [runFor_succ, advance, execution]
      exact finished

/-- Evaluation under fewer replies. -/
theorem Evaluates.mono {permits : (op : Op) → Reply op → Prop}
    (weaker : ∀ op reply, environment.permits op reply → permits op reply)
    {program : Prog Reply α} {value : α} {before after : σ}
    (evaluation : Evaluates environment program before value after) :
    Evaluates { environment with permits } program before value after := by
  induction program generalizing before with
  | ret result => exact evaluation
  | call op next induction =>
      obtain ⟨reply, middle, ⟨ready, choice, happens, execution, permitted⟩, rest⟩ := evaluation
      exact ⟨reply, middle, ⟨ready, choice, happens, execution, weaker op reply permitted⟩,
        induction reply rest⟩

/-- Evaluate a program under given choices, while nothing happens in the background. -/
def evaluate? (environment : Environment σ Choice Reply)
    [∀ op reply, Decidable (environment.permits op reply)] :
    List Choice → Prog Reply α → σ → Option (α × σ)
  | _, ret value, state => some (value, state)
  | [], call _ _, _ => none
  | choice :: choices, call op next, state =>
      match environment.serve state op choice with
      | none => none
      | some (reply, after) =>
          if environment.permits op reply then evaluate? environment choices (next reply) after
          else none

/-- Finding a value by evaluation. -/
theorem Evaluates.of_evaluate? [∀ op reply, Decidable (environment.permits op reply)]
    {choices : List Choice} {program : Prog Reply α} {value : α} {before after : σ}
    (found : evaluate? environment choices program before = some (value, after)) :
    Evaluates environment program before value after := by
  induction choices generalizing program before with
  | nil =>
      cases program with
      | ret result => exact Prod.mk.inj (Option.some.inj found)
      | call op next => simp [evaluate?] at found
  | cons choice choices induction =>
      cases program with
      | ret result => exact Prod.mk.inj (Option.some.inj found)
      | call op next =>
          rw [evaluate?] at found
          split at found
          · simp at found
          · rename_i reply middle execution
            split at found
            · rename_i permitted
              exact ⟨reply, middle, ⟨before, choice, environment.background_refl before,
                execution, permitted⟩, induction found⟩
            · simp at found

end

end Prog
end Resumption
