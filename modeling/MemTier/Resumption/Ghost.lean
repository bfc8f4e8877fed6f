import MemTier.Resumption.Confinement

/-!
# Programs with a ghost

A program can be accompanied by a ghost: data that it changes as it goes and that nothing it does
depends on.  The ghost is noted at every operation, so that it is known wherever the program stands
between two steps.  Erasing the notes gives the program back, step by step.
-/

namespace Resumption

/-- Replies of operations beside which a ghost is noted. -/
abbrev NotedReply {Op : Type} (Reply : Op → Type) (Ghost : Type) : Op × Ghost → Type :=
  fun op => Reply op.1

/-- A program with the ghost noted at every operation and at the end. -/
abbrev NotedProg {Op : Type} (Reply : Op → Type) (Ghost α : Type) : Type :=
  Prog (NotedReply Reply Ghost) (α × Ghost)

/-- A program that starts with some ghost and changes it. -/
def Ghostly {Op : Type} (Reply : Op → Type) (Ghost α : Type) : Type :=
  Ghost → NotedProg Reply Ghost α

/-- Serve operations without regard to the ghost. -/
def Server.noted {σ Choice Op : Type} {Reply : Op → Type} (Ghost : Type)
    (serve : Server σ Choice Reply) : Server σ Choice (NotedReply Reply Ghost) :=
  fun state op choice => serve state op.1 choice

instance {Op Ghost : Type} {Reply : Op → Type} : Monad (Ghostly Reply Ghost) where
  pure value := fun ghost => .ret (value, ghost)
  bind program continuation := fun ghost =>
    (program ghost).bind fun result => continuation result.1 result.2

namespace Prog

/-- Note the same ghost everywhere. -/
def annotate {Op Ghost : Type} {Reply : Op → Type} {α : Type} (ghost : Ghost) :
    Prog Reply α → NotedProg Reply Ghost α
  | ret value => ret (value, ghost)
  | call op next => call (op, ghost) fun reply => annotate ghost (next reply)

/-- Forget the notes. -/
def erase {Op Ghost : Type} {Reply : Op → Type} {α : Type} :
    NotedProg Reply Ghost α → Prog Reply α
  | ret result => ret result.1
  | call op next => call op.1 fun reply => erase (next reply)

/-- The ghost where the program stands. -/
def ghost {Op Ghost : Type} {Reply : Op → Type} {α : Type} : NotedProg Reply Ghost α → Ghost
  | ret result => result.2
  | call op _ => op.2

/-- Every operation comes with a change of the ghost that is allowed for it. -/
def Accounts {Op Ghost : Type} {Reply : Op → Type} {α : Type}
    (allows : Op → Ghost → Ghost → Prop) : NotedProg Reply Ghost α → Prop
  | ret _ => True
  | call op next => ∀ reply, allows op.1 op.2 (ghost (next reply)) ∧ Accounts allows (next reply)

/-- A program may be entered with a change of the ghost. -/
def Enters {Op Ghost : Type} {Reply : Op → Type} {α : Type} (allows : Op → Ghost → Ghost → Prop)
    (change : Ghost → Ghost → Prop) (before : Ghost) (program : NotedProg Reply Ghost α) : Prop :=
  change before (ghost program) ∧ Accounts allows program

end Prog

namespace Ghostly

/-- A program that leaves the ghost alone. -/
def lift {Op Ghost : Type} {Reply : Op → Type} {α : Type} (program : Prog Reply α) :
    Ghostly Reply Ghost α :=
  fun ghost => program.annotate ghost

/-- Change the ghost. -/
def note {Op Ghost : Type} {Reply : Op → Type} (change : Ghost → Ghost) :
    Ghostly Reply Ghost Unit :=
  fun ghost => .ret ((), change ghost)

section

variable {Op Ghost : Type} {Reply : Op → Type} {α β : Type}

@[simp] theorem pure_apply (value : α) (ghost : Ghost) :
    (pure value : Ghostly Reply Ghost α) ghost = .ret (value, ghost) := rfl

@[simp] theorem bind_apply (program : Ghostly Reply Ghost α)
    (continuation : α → Ghostly Reply Ghost β) (ghost : Ghost) :
    (program >>= continuation) ghost =
      (program ghost).bind fun result => continuation result.1 result.2 := rfl

@[simp] theorem lift_apply (program : Prog Reply α) (ghost : Ghost) :
    (lift program : Ghostly Reply Ghost α) ghost = program.annotate ghost := rfl

@[simp] theorem note_apply (change : Ghost → Ghost) (ghost : Ghost) :
    (note change : Ghostly Reply Ghost Unit) ghost = .ret ((), change ghost) := rfl

end

end Ghostly

namespace Prog

section

variable {σ Choice Op Ghost : Type} {Reply : Op → Type} {α β : Type}

theorem erase_annotate (program : Prog Reply α) (ghost : Ghost) :
    (program.annotate ghost).erase = program := by
  induction program with
  | ret value => rfl
  | call op next induction =>
      rw [annotate, erase]
      exact congrArg (call op) (funext fun reply => induction reply)

/-- Erasing a sequence, where the second part does the same under every ghost. -/
theorem erase_bind {program : NotedProg Reply Ghost α}
    {continuation : α × Ghost → NotedProg Reply Ghost β} {erased : α → Prog Reply β}
    (same : ∀ result, (continuation result).erase = erased result.1) :
    (program.bind continuation).erase = program.erase >>= erased := by
  induction program with
  | ret result => exact same result
  | call op next induction => exact congrArg (call op.1) (funext fun reply => induction reply)

/-- Annotating a sequence, with what follows it. -/
theorem annotate_bind_bind {γ : Type} {program : Prog Reply α} {continuation : α → Prog Reply β}
    {rest : β × Ghost → NotedProg Reply Ghost γ} (ghost : Ghost) :
    ((program >>= continuation).annotate ghost).bind rest =
      (program.annotate ghost).bind fun result =>
        ((continuation result.1).annotate ghost).bind rest := by
  induction program with
  | ret value => rfl
  | call op next induction => exact congrArg (call (op, ghost)) (funext fun reply => induction reply)

/-- Steps of a program with notes are those of the program. -/
theorem erase_advance (serve : Server σ Choice Reply) (choice : Choice) (state : σ)
    (program : NotedProg Reply Ghost α) :
    advance serve choice (state, program.erase) =
      ((advance (serve.noted Ghost) choice (state, program)).1,
        (advance (serve.noted Ghost) choice (state, program)).2.erase) := by
  cases program with
  | ret result => rfl
  | call op next =>
      cases execution : serve state op.1 choice with
      | none => simp [advance, erase, Server.noted, execution]
      | some result => simp [advance, erase, Server.noted, execution]

/-- A step of a program that keeps its books: it stays, or an operation is executed and the ghost
changes as allowed. -/
theorem Accounts.advance {allows : Op → Ghost → Ghost → Prop} {serve : Server σ Choice Reply}
    {program : NotedProg Reply Ghost α} (accounts : Accounts allows program) (choice : Choice)
    (state : σ) :
    Accounts allows (advance (serve.noted Ghost) choice (state, program)).2 ∧
      (advance (serve.noted Ghost) choice (state, program) = (state, program) ∨
        ∃ op reply after, serve state op choice = some (reply, after) ∧
          (advance (serve.noted Ghost) choice (state, program)).1 = after ∧
          allows op (ghost program)
            (ghost (advance (serve.noted Ghost) choice (state, program)).2)) := by
  cases program with
  | ret result => exact ⟨accounts, .inl rfl⟩
  | call op next =>
      cases execution : serve state op.1 choice with
      | none =>
          have stays : Prog.advance (serve.noted Ghost) choice (state, call op next) =
              (state, call op next) := by
            simp [Prog.advance, Server.noted, execution]
          rw [stays]
          exact ⟨accounts, .inl rfl⟩
      | some result =>
          have moves : Prog.advance (serve.noted Ghost) choice (state, call op next) =
              (result.2, next result.1) := by
            simp [Prog.advance, Server.noted, execution]
          obtain ⟨allowed, rest⟩ := accounts result.1
          rw [moves]
          exact ⟨rest, .inr ⟨op.1, result.1, result.2, execution, rfl, allowed⟩⟩

theorem Enters.mono {allows : Op → Ghost → Ghost → Prop} {change other : Ghost → Ghost → Prop}
    {before middle : Ghost} {program : NotedProg Reply Ghost α}
    (enters : Enters allows change middle program)
    (weaker : ∀ after, change middle after → other before after) :
    Enters allows other before program :=
  ⟨weaker _ enters.1, enters.2⟩

/-- One operation, and what follows it. -/
theorem enters_perform {allows : Op → Ghost → Ghost → Prop} {change : Ghost → Ghost → Prop}
    {ghost : Ghost} {op : Op} {continuation : Reply op × Ghost → NotedProg Reply Ghost α}
    (still : change ghost ghost)
    (rest : ∀ reply, Enters allows (allows op) ghost (continuation (reply, ghost))) :
    Enters allows change ghost (((perform op).annotate ghost).bind continuation) :=
  ⟨still, rest⟩

/-- A program all of whose operations allow a change is as good as none. -/
theorem enters_annotate {allows : Op → Ghost → Ghost → Prop} {change : Ghost → Ghost → Prop}
    {kind : Op → Prop} {ghost : Ghost} {program : Prog Reply α}
    {continuation : α × Ghost → NotedProg Reply Ghost β}
    (confined : program.Confined (fun _ _ => True) kind) (still : change ghost ghost)
    (quiet : ∀ op, kind op → ∀ after, change ghost after → allows op ghost after)
    (rest : ∀ value, Enters allows change ghost (continuation (value, ghost))) :
    Enters allows change ghost ((program.annotate ghost).bind continuation) := by
  induction program with
  | ret value => exact rest value
  | call op next induction =>
      refine ⟨still, fun reply => ?_⟩
      obtain ⟨changed, accounts⟩ := induction reply (confined.2 reply trivial)
      exact ⟨quiet op confined.1 _ changed, accounts⟩

end

end Prog

namespace Ghostly

/-- Without its notes a program is the given one, whatever ghost it starts with. -/
def Erases {Op Ghost : Type} {Reply : Op → Type} {α : Type} (noted : Ghostly Reply Ghost α)
    (program : Prog Reply α) : Prop :=
  ∀ ghost, (noted ghost).erase = program

section

variable {Op Ghost : Type} {Reply : Op → Type} {α β : Type}

theorem erases_pure (value : α) :
    Erases (pure value : Ghostly Reply Ghost α) (.ret value) :=
  fun _ => rfl

theorem erases_lift (program : Prog Reply α) :
    Erases (lift program : Ghostly Reply Ghost α) program :=
  fun ghost => Prog.erase_annotate program ghost

theorem Erases.bind {noted : Ghostly Reply Ghost α} {program : Prog Reply α}
    {continuation : α → Ghostly Reply Ghost β} {erased : α → Prog Reply β}
    (first : Erases noted program) (rest : ∀ value, Erases (continuation value) (erased value)) :
    Erases (noted >>= continuation) (program >>= erased) := by
  intro ghost
  rw [bind_apply, Prog.erase_bind fun result => rest result.1 result.2, first ghost]

/-- Notes after a program. -/
theorem Erases.after {noted : Ghostly Reply Ghost α} {program : Prog Reply α}
    {continuation : α → Ghostly Reply Ghost α} (first : Erases noted program)
    (rest : ∀ value, Erases (continuation value) (.ret value)) :
    Erases (noted >>= continuation) program := by
  have whole := first.bind rest
  rwa [Prog.bind_ret] at whole

/-- Notes before a program. -/
theorem Erases.before {continuation : Unit → Ghostly Reply Ghost α} {program : Prog Reply α}
    (change : Ghost → Ghost) (rest : Erases (continuation ()) program) :
    Erases (note change >>= continuation) program :=
  fun ghost => rest (change ghost)

end

end Ghostly
end Resumption
