import MemTier.Resumption.Program

/-!
# Rely–guarantee reasoning over atomic operations

A `Discipline` says what a party may assume of the others between its own steps (`rely`), what
each of its steps promises (`guarantee`), which invariant of the shared state holds at every
step boundary, and which operations may be issued in which states.  `Holds` is the resulting
proof obligation on a program, by recursion on its tree.
-/

namespace Resumption

/-- The contract between one party and its environment. -/
structure Discipline (σ Choice Op : Type) where
  /-- Invariant of the shared state between any two steps. -/
  inv : σ → Prop
  /-- What the other parties may do between two steps of this one. -/
  rely : σ → σ → Prop
  /-- What every own step does. -/
  guarantee : σ → σ → Prop
  /-- Choices the environment may make. -/
  legal : Choice → Prop
  /-- Operations that may be issued in a state. -/
  permits : Op → σ → Prop
  rely_refl : ∀ state, rely state state
  rely_trans : ∀ {first second third}, rely first second → rely second third → rely first third

namespace Prog

/-- The program keeps to the discipline from `state` on, and every value it returns satisfies
the postcondition in every state the environment may have reached by then. -/
def Holds {σ Choice Op : Type} {Reply : Op → Type} {α : Type}
    (serve : Server σ Choice Reply) (discipline : Discipline σ Choice Op)
    (post : α → σ → Prop) : Prog Reply α → σ → Prop
  | ret value, state =>
      ∀ later, discipline.rely state later → discipline.inv later → post value later
  | call op next, state =>
      ∀ later, discipline.rely state later → discipline.inv later →
        discipline.permits op later ∧
          ∀ choice reply after, discipline.legal choice →
            serve later op choice = some (reply, after) →
              discipline.inv after ∧ discipline.guarantee later after ∧
                Holds serve discipline post (next reply) after

section

variable {σ Choice Op : Type} {Reply : Op → Type} {α β : Type}
  {serve : Server σ Choice Reply} {discipline : Discipline σ Choice Op}

/-- Interference within the rely does not invalidate an obligation. -/
theorem Holds.stable {post : α → σ → Prop} {program : Prog Reply α} {state later : σ}
    (holds : Holds serve discipline post program state)
    (interference : discipline.rely state later) :
    Holds serve discipline post program later := by
  cases program with
  | ret value =>
      exact fun final between => holds final (discipline.rely_trans interference between)
  | call op next =>
      exact fun final between => holds final (discipline.rely_trans interference between)

theorem Holds.mono {post stronger : α → σ → Prop} {program : Prog Reply α} {state : σ}
    (holds : Holds serve discipline stronger program state)
    (weaken : ∀ value later, discipline.inv later → stronger value later → post value later) :
    Holds serve discipline post program state := by
  induction program generalizing state with
  | ret value =>
      exact fun later between kept => weaken value later kept (holds later between kept)
  | call op next induction =>
      intro later between kept
      obtain ⟨permitted, progress⟩ := holds later between kept
      refine ⟨permitted, fun choice reply after legal execution => ?_⟩
      obtain ⟨kept', promise, rest⟩ := progress choice reply after legal execution
      exact ⟨kept', promise, induction reply rest⟩

/-- If own steps are within the rely, so is the whole run. -/
theorem Holds.track {post : α → σ → Prop} {program : Prog Reply α} {start state : σ}
    (own : ∀ before after, discipline.guarantee before after → discipline.rely before after)
    (holds : Holds serve discipline post program state) (sofar : discipline.rely start state) :
    Holds serve discipline (fun value later => post value later ∧ discipline.rely start later)
      program state := by
  induction program generalizing state with
  | ret value =>
      exact fun later between kept =>
        ⟨holds later between kept, discipline.rely_trans sofar between⟩
  | call op next induction =>
      intro later between kept
      obtain ⟨permitted, progress⟩ := holds later between kept
      refine ⟨permitted, fun choice reply after legal execution => ?_⟩
      obtain ⟨kept', promise, rest⟩ := progress choice reply after legal execution
      exact ⟨kept', promise, induction reply rest (discipline.rely_trans
        (discipline.rely_trans sofar between) (own _ _ promise))⟩

/-- Sequencing: the second program starts where the first one returns. -/
theorem Holds.bind {post : β → σ → Prop} {program : Prog Reply α}
    {continuation : α → Prog Reply β} {state : σ}
    (invariant : discipline.inv state)
    (holds : Holds serve discipline
      (fun value later => Holds serve discipline post (continuation value) later)
      program state) :
    Holds serve discipline post (program >>= continuation) state := by
  induction program generalizing state with
  | ret value => exact holds state (discipline.rely_refl state) invariant
  | call op next induction =>
      intro later between kept
      obtain ⟨permitted, progress⟩ := holds later between kept
      refine ⟨permitted, fun choice reply after legal execution => ?_⟩
      obtain ⟨kept', promise, rest⟩ := progress choice reply after legal execution
      exact ⟨kept', promise, induction reply kept' rest⟩

/-- Wrapping the value of a program. -/
theorem Holds.map {post : β → σ → Prop} {program : Prog Reply α} {wrap : α → β} {state : σ}
    (holds : Holds serve discipline (fun value later => post (wrap value) later) program state) :
    Holds serve discipline post (program >>= fun value => ret (wrap value)) state := by
  induction program generalizing state with
  | ret value => exact holds
  | call op next induction =>
      intro later between kept
      obtain ⟨permitted, progress⟩ := holds later between kept
      refine ⟨permitted, fun choice reply after legal execution => ?_⟩
      obtain ⟨kept', promise, rest⟩ := progress choice reply after legal execution
      exact ⟨kept', promise, induction reply rest⟩

/-- One step of a program that keeps to the discipline. -/
theorem Holds.advance {post : α → σ → Prop} {program : Prog Reply α} {state : σ}
    (holds : Holds serve discipline post program state) (invariant : discipline.inv state)
    (reflexive : ∀ state, discipline.guarantee state state)
    {choice : Choice} (legal : discipline.legal choice) :
    let after := advance serve choice (state, program)
    discipline.inv after.1 ∧ discipline.guarantee state after.1 ∧
      Holds serve discipline post after.2 after.1 := by
  cases program with
  | ret value => exact ⟨invariant, reflexive state, holds⟩
  | call op next =>
      cases execution : serve state op choice with
      | none => simpa only [Prog.advance, execution] using ⟨invariant, reflexive state, holds⟩
      | some result =>
          obtain ⟨-, progress⟩ := holds state (discipline.rely_refl state) invariant
          simpa only [Prog.advance, execution] using
            progress choice result.1 result.2 legal execution

/-- A program left alone keeps the invariant and establishes its postcondition. -/
theorem Holds.returns {post : α → σ → Prop} {program : Prog Reply α} {before after : σ}
    {value : α} (holds : Holds serve discipline post program before)
    (invariant : discipline.inv before)
    (reflexive : ∀ state, discipline.guarantee state state)
    {stream : Nat → Choice} (legal : ∀ time, discipline.legal (stream time))
    (returned : Returns serve stream before program value after) :
    discipline.inv after ∧ post value after := by
  obtain ⟨steps, finished⟩ := returned
  have kept : ∀ time,
      discipline.inv (runFor serve stream time (before, program)).1 ∧
        Holds serve discipline post (runFor serve stream time (before, program)).2
          (runFor serve stream time (before, program)).1 := by
    intro time
    induction time with
    | zero => exact ⟨invariant, holds⟩
    | succ time induction =>
        obtain ⟨kept, -, rest⟩ :=
          induction.2.advance induction.1 reflexive (legal time)
        exact ⟨kept, rest⟩
  have final := kept steps
  rw [finished] at final
  exact ⟨final.1, final.2 after (discipline.rely_refl after) final.1⟩

end

end Prog
end Resumption
