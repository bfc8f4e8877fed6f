import Mathlib.Tactic

/-!
# Programs with atomic operations

A `Prog` is a tree of operations, each resuming on its reply.  A server executes one operation
atomically, so the nodes of the tree are exactly the points at which other parties may act.  An
operation that does not complete leaves the program where it stands, and it is issued again.
-/

namespace Resumption

/-- A program that issues operations and resumes on their replies. -/
inductive Prog {Op : Type} (Reply : Op → Type) (α : Type) : Type
  | ret (value : α) : Prog Reply α
  | call (op : Op) (next : Reply op → Prog Reply α) : Prog Reply α

/-- What can only move on finitely often, and is moved again and again until it is through, gets
through. -/
theorem eventually_final {α : Type} {moves : α → α → Prop} {final : α → Prop} {place : Nat → α}
    (finite : WellFounded fun later earlier => moves earlier later)
    (stays : ∀ time, final (place time) ∨ place (time + 1) = place time ∨
      moves (place time) (place (time + 1)))
    (turns : ∀ time, ∃ later, time ≤ later ∧
      (final (place later) ∨ moves (place later) (place (later + 1)))) (time : Nat) :
    ∃ later, time ≤ later ∧ final (place later) := by
  induction standing : place time using finite.induction generalizing time with
  | _ current induction =>
    obtain ⟨turn, time_le, moved⟩ := turns time
    obtain ⟨wait, rfl⟩ := Nat.exists_eq_add_of_le time_le
    clear time_le
    induction wait generalizing time with
    | zero =>
        rcases moved with through | moved
        · exact ⟨time, le_rfl, through⟩
        · rw [Nat.add_zero, standing] at moved
          obtain ⟨later, time_le, through⟩ := induction _ moved (time + 1) rfl
          exact ⟨later, by omega, through⟩
    | succ wait waiting =>
        rcases stays time with through | same | moved'
        · exact ⟨time, le_rfl, through⟩
        · obtain ⟨later, time_le, through⟩ := waiting (time + 1) (same.trans standing)
            (by rwa [show time + 1 + wait = time + (wait + 1) by omega])
          exact ⟨later, by omega, through⟩
        · rw [standing] at moved'
          obtain ⟨later, time_le, through⟩ := induction _ moved' (time + 1) rfl
          exact ⟨later, by omega, through⟩

namespace Prog

/-- Continue with a second program on the value of the first. -/
def bind {Op : Type} {Reply : Op → Type} {α β : Type} (program : Prog Reply α)
    (continuation : α → Prog Reply β) : Prog Reply β :=
  match program with
  | ret value => continuation value
  | call op next => call op fun reply => (next reply).bind continuation

instance {Op : Type} {Reply : Op → Type} : Monad (Prog Reply) where
  pure := ret
  bind := bind

/-- Issue one operation and return its reply. -/
def perform {Op : Type} {Reply : Op → Type} (op : Op) : Prog Reply (Reply op) :=
  call op ret

@[simp] theorem pure_eq_ret {Op : Type} {Reply : Op → Type} {α : Type} (value : α) :
    (pure value : Prog Reply α) = ret value := rfl

@[simp] theorem ret_bind {Op : Type} {Reply : Op → Type} {α β : Type} (value : α)
    (continuation : α → Prog Reply β) :
    (ret value : Prog Reply α) >>= continuation = continuation value := rfl

@[simp] theorem call_bind {Op : Type} {Reply : Op → Type} {α β : Type} (op : Op)
    (next : Reply op → Prog Reply α) (continuation : α → Prog Reply β) :
    call op next >>= continuation = call op fun reply => next reply >>= continuation := rfl

@[simp] theorem perform_bind {Op : Type} {Reply : Op → Type} {β : Type} (op : Op)
    (continuation : Reply op → Prog Reply β) :
    perform op >>= continuation = call op continuation := rfl

theorem bind_ret {Op : Type} {Reply : Op → Type} {α : Type} (program : Prog Reply α) :
    program >>= ret = program := by
  induction program with
  | ret value => rfl
  | call op next induction => exact congrArg (call op) (funext fun reply => induction reply)

theorem bind_bind {Op : Type} {Reply : Op → Type} {α β γ : Type} (program : Prog Reply α)
    (first : α → Prog Reply β) (second : β → Prog Reply γ) :
    (program.bind first).bind second = program.bind fun value => (first value).bind second := by
  induction program with
  | ret value => rfl
  | call op next induction => exact congrArg (call op) (funext fun reply => induction reply)

end Prog

/-- Execute one operation under a choice of the environment.  `none` means that the operation
did not complete and has to be issued again. -/
abbrev Server (σ Choice : Type) {Op : Type} (Reply : Op → Type) : Type :=
  σ → (op : Op) → Choice → Option (Reply op × σ)

namespace Prog

/-- Let a program take one step. -/
def advance {σ Choice Op : Type} {Reply : Op → Type} {α : Type}
    (serve : Server σ Choice Reply) (choice : Choice) :
    σ × Prog Reply α → σ × Prog Reply α
  | (state, ret value) => (state, ret value)
  | (state, call op next) =>
      match serve state op choice with
      | none => (state, call op next)
      | some (reply, after) => (after, next reply)

/-- The configuration after the first `steps` choices of a stream. -/
def runFor {σ Choice Op : Type} {Reply : Op → Type} {α : Type}
    (serve : Server σ Choice Reply) (stream : Nat → Choice) :
    Nat → σ × Prog Reply α → σ × Prog Reply α
  | 0, config => config
  | steps + 1, config => advance serve (stream steps) (runFor serve stream steps config)

/-- The program, left alone, returns a value and leaves a state behind. -/
def Returns {σ Choice Op : Type} {Reply : Op → Type} {α : Type}
    (serve : Server σ Choice Reply) (stream : Nat → Choice) (before : σ)
    (program : Prog Reply α) (value : α) (after : σ) : Prop :=
  ∃ steps, runFor serve stream steps (before, program) = (after, ret value)

/-- The value of a program that is through. -/
def value? {Op : Type} {Reply : Op → Type} {α : Type} : Prog Reply α → Option α
  | ret value => some value
  | call _ _ => none

theorem value?_eq_some {Op : Type} {Reply : Op → Type} {α : Type} {program : Prog Reply α}
    {value : α} : program.value? = some value ↔ program = ret value := by
  cases program with
  | ret other => simp [value?]
  | call op next => simp [value?]

/-- Finding the value of a program by running it. -/
theorem Returns.of_value? {σ Choice Op : Type} {Reply : Op → Type} {α : Type}
    {serve : Server σ Choice Reply} {stream : Nat → Choice} {before : σ}
    {program : Prog Reply α} {value : α} {steps : Nat}
    (found : (runFor serve stream steps (before, program)).2.value? = some value) :
    Returns serve stream before program value (runFor serve stream steps (before, program)).1 :=
  ⟨steps, by rw [← value?_eq_some.mp found]⟩

/-- A stream in which completing choices never cease. -/
def Fair {Choice : Type} (completes : Choice → Prop) (stream : Nat → Choice) : Prop :=
  ∀ time, ∃ later, time ≤ later ∧ completes (stream later)

theorem runFor_ret {σ Choice Op : Type} {Reply : Op → Type} {α : Type}
    (serve : Server σ Choice Reply) (stream : Nat → Choice)
    {steps : Nat} {config : σ × Prog Reply α} {state : σ} {value : α}
    (finished : runFor serve stream steps config = (state, ret value)) (more : Nat) :
    runFor serve stream (steps + more) config = (state, ret value) := by
  induction more with
  | zero => exact finished
  | succ more induction =>
      rw [← Nat.add_assoc, runFor, induction]
      rfl

/-- A program returns at most one value along a stream. -/
theorem Returns.unique {σ Choice Op : Type} {Reply : Op → Type} {α : Type}
    {serve : Server σ Choice Reply} {stream : Nat → Choice} {before : σ}
    {program : Prog Reply α} {value₁ value₂ : α} {after₁ after₂ : σ}
    (first : Returns serve stream before program value₁ after₁)
    (second : Returns serve stream before program value₂ after₂) :
    value₁ = value₂ ∧ after₁ = after₂ := by
  obtain ⟨steps₁, finished₁⟩ := first
  obtain ⟨steps₂, finished₂⟩ := second
  have later₁ := runFor_ret serve stream finished₁ steps₂
  have later₂ := runFor_ret serve stream finished₂ steps₁
  rw [Nat.add_comm, later₂] at later₁
  simp only [Prod.mk.injEq, ret.injEq] at later₁
  exact ⟨later₁.2.symm, later₁.1.symm⟩

/-- A program resumes on some reply to its first operation. -/
def Resumes {Op : Type} {Reply : Op → Type} {α : Type} (program rest : Prog Reply α) : Prop :=
  ∃ op next reply, program = call op next ∧ rest = next reply

theorem advance_resumes {σ Choice Op : Type} {Reply : Op → Type} {α : Type}
    (serve : Server σ Choice Reply) (choice : Choice) (state : σ) (program : Prog Reply α) :
    (advance serve choice (state, program)).2 = program ∨
      Resumes program (advance serve choice (state, program)).2 := by
  cases program with
  | ret value => exact .inl rfl
  | call op next =>
      cases execution : serve state op choice with
      | none => exact .inl (by simp [advance, execution])
      | some result => exact .inr ⟨op, next, result.1, rfl, by simp [advance, execution]⟩

/-- A program comes to `rest` on some replies to its operations. -/
def Reaches {Op : Type} {Reply : Op → Type} {α : Type} (program rest : Prog Reply α) : Prop :=
  Relation.ReflTransGen Resumes program rest

theorem Reaches.advance {σ Choice Op : Type} {Reply : Op → Type} {α : Type}
    {program rest : Prog Reply α} (reaches : Reaches program rest) (serve : Server σ Choice Reply)
    (choice : Choice) (state : σ) :
    Reaches program (Prog.advance serve choice (state, rest)).2 := by
  rcases advance_resumes serve choice state rest with same | resumes
  · rw [same]
    exact reaches
  · exact Relation.ReflTransGen.tail reaches resumes

theorem advance_completes {σ Choice Op : Type} {Reply : Op → Type} {α : Type}
    {serve : Server σ Choice Reply} {completes : Choice → Prop}
    (total : ∀ state op choice, completes choice → (serve state op choice).isSome)
    {choice : Choice} (completing : completes choice) (state : σ) {op : Op}
    (next : Reply op → Prog Reply α) :
    ∃ reply, (advance serve choice (state, call op next)).2 = next reply := by
  obtain ⟨⟨reply, after⟩, execution⟩ :=
    Option.isSome_iff_exists.mp (total state op choice completing)
  exact ⟨reply, by simp [advance, execution]⟩

/-- Programs resume finitely often. -/
theorem resumes_wellFounded {Op : Type} {Reply : Op → Type} {α : Type} :
    WellFounded fun later earlier : Prog Reply α => earlier.Resumes later := by
  refine ⟨fun program => ?_⟩
  induction program with
  | ret value =>
      refine ⟨_, ?_⟩
      rintro later ⟨op, next, reply, impossible, -⟩
      simp at impossible
  | call op next induction =>
      refine ⟨_, ?_⟩
      rintro later ⟨op', next', reply, same, rfl⟩
      obtain ⟨rfl, same⟩ := call.inj same
      obtain rfl := eq_of_heq same
      exact induction reply

/-- A program that is moved again and again, whatever happens in between, returns. -/
theorem eventually_ret {Op : Type} {Reply : Op → Type} {α : Type} {rest : Nat → Prog Reply α}
    (stays : ∀ time, rest (time + 1) = rest time ∨ Resumes (rest time) (rest (time + 1)))
    (moves : ∀ time, ∃ later, time ≤ later ∧ ∀ op next, rest later = call op next →
      ∃ reply, rest (later + 1) = next reply) (time : Nat) :
    ∃ later, time ≤ later ∧ ∃ value, rest later = ret value := by
  refine @eventually_final (Prog Reply α) Resumes (fun program => ∃ value, program = ret value) rest
    resumes_wellFounded (fun time => .inr (stays time)) (fun time => ?_) time
  obtain ⟨later, time_le, moved⟩ := moves time
  refine ⟨later, time_le, ?_⟩
  cases standing : rest later with
  | ret value => exact .inl ⟨value, rfl⟩
  | call op next =>
      obtain ⟨reply, resumed⟩ := moved op next standing
      exact .inr ⟨op, next, reply, rfl, resumed⟩

/-- Along a fair stream every program returns. -/
theorem returns_of_fair {σ Choice Op : Type} {Reply : Op → Type} {α : Type}
    {serve : Server σ Choice Reply} {completes : Choice → Prop}
    (total : ∀ state op choice, completes choice → (serve state op choice).isSome)
    {stream : Nat → Choice} (fair : Fair completes stream) (before : σ)
    (program : Prog Reply α) :
    ∃ value after, Returns serve stream before program value after := by
  obtain ⟨steps, -, value, returned⟩ := @eventually_ret Op Reply α
    (fun time => (runFor serve stream time (before, program)).2)
    (fun time => advance_resumes serve (stream time) _ _)
    (fun time => by
      obtain ⟨later, time_le, completing⟩ := fair time
      refine ⟨later, time_le, fun op next standing => ?_⟩
      rw [runFor, ← Prod.mk.eta (p := runFor serve stream later (before, program)), standing]
      exact advance_completes total completing _ next) 0
  exact ⟨value, (runFor serve stream steps (before, program)).1, steps, by rw [← returned]⟩

end Prog

end Resumption
