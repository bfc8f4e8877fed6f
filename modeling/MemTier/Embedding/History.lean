import MemTier.Embedding.FailedLoads

/-!
# Histories

A session seen as the sequence of rounds that its calls begin, newest first.  What a round keeps
of the rounds before it, a session keeps.
-/

namespace MemTier.Embedding

open Containers Resumption

/-- A round that was begun: its block, and the tiers before and after it. -/
structure Passage where
  block : BlockId
  before : Tiers
  after : Tiers

/-- The blocks asked for, newest first. -/
def asked (passed : List Passage) : List BlockId := passed.map Passage.block

@[simp] theorem asked_cons (passage : Passage) (past : List Passage) :
    asked (passage :: past) = passage.block :: asked past := rfl

/-- The blocks a successful call looks up. -/
def Request.lookups : Request → List BlockId
  | .lookup blocks | .prefetch blocks => blocks
  | .release _ => []

/-- The rounds of a batch, up to the first one that throws, on top of earlier rounds. -/
inductive Course (file : Bytes) (mode : CopyMode) (permits : (op : Op) → Reply op → Prop) :
    List Passage → Tiers → Machine → List BlockId → Bool → List Passage → Tiers → Machine → Prop
  | done {past : List Passage} {tiers : Tiers} {machine : Machine} :
      Course file mode permits past tiers machine [] true past tiers machine
  | failed {past : List Passage} {tiers tiers' : Tiers} {before after : Machine} {block : BlockId}
      {blocks : List BlockId}
      (round : Round file mode permits tiers block before tiers' none after) :
      Course file mode permits past tiers before (block :: blocks) false
        (⟨block, tiers, tiers'⟩ :: past) tiers' after
  | step {past passed : List Passage} {tiers next tiers' : Tiers} {before middle after : Machine}
      {block : BlockId} {blocks : List BlockId} {served : Served} {complete : Bool}
      (round : Round file mode permits tiers block before next (some served) middle)
      (rest : Course file mode permits (⟨block, tiers, next⟩ :: past) next middle blocks complete
        passed tiers' after) :
      Course file mode permits past tiers before (block :: blocks) complete passed tiers' after

/-- A session with the rounds it has begun.  A release begins none, and neither does a call that
is turned down before its first round. -/
inductive History (file : Bytes) (mode : CopyMode) (permits : (op : Op) → Reply op → Prop)
    (admits : Request → Int → Prop) (config : Config) : List Passage → World → Prop
  | init {dramBase hbmBase : Nat} {handle : Handle} {machine : Machine}
      (created : memtierInitEmbedding config dramBase hbmBase = some handle)
      (idle : machine.pending = []) : History file mode permits admits config [] ⟨handle, machine⟩
  | quiet {passed : List Passage} {before after : World} {request : Request} {rc : Int}
      (past : History file mode permits admits config passed before)
      (evaluation : (request.run before.handle).Evaluates (environment file mode permits)
        before.machine (after.handle, rc) after.machine)
      (admitted : admits request rc)
      (nothing : (∃ blocks, request = .release blocks) ∨ rc ≠ 0 ∧ after.handle = before.handle) :
      History file mode permits admits config passed after
  | call {past passed : List Passage} {before after : World} {request : Request} {rc : Int}
      {ready middle : Machine} {complete : Bool}
      (earlier : History file mode permits admits config past before)
      (looks : ∀ blocks, request ≠ .release blocks)
      (evaluation : (request.run before.handle).Evaluates (environment file mode permits)
        before.machine (after.handle, rc) after.machine)
      (admitted : admits request rc)
      (starts : before.machine.Drains ready)
      (course : Course file mode permits past before.handle.tiers ready request.blocks complete
        passed after.handle.tiers middle)
      (ends : middle.Drains after.machine) (success : rc = 0 → complete = true) :
      History file mode permits admits config passed after

section

variable {file : Bytes} {mode : CopyMode} {permits : (op : Op) → Reply op → Prop}
  {admits : Request → Int → Prop} {config : Config} {world : World}

theorem Batch.course {tiers tiers' : Tiers} {before after : Machine} {blocks : List BlockId}
    {served : List Served} {complete : Bool}
    (batch : Batch file mode permits tiers before blocks served complete tiers' after)
    (past : List Passage) :
    ∃ passed, Course file mode permits past tiers before blocks complete passed tiers' after := by
  induction batch generalizing past with
  | done => exact ⟨past, .done⟩
  | failed round => exact ⟨_, .failed round⟩
  | step round rest induction =>
      obtain ⟨passed, course⟩ := induction (_ :: past)
      exact ⟨passed, .step round course⟩

theorem History.reachable {passed : List Passage}
    (history : History file mode permits admits config passed world) :
    Reachable file mode permits admits config world := by
  induction history with
  | init created idle => exact .init created idle
  | quiet past evaluation admitted nothing induction => exact .call induction evaluation admitted
  | call earlier looks evaluation admitted starts course ends success induction =>
      exact .call induction evaluation admitted

/-- Every session has a history. -/
theorem Reachable.history (small : file.length < 2 ^ 63)
    (reached : Reachable file mode permits admits config world) :
    ∃ passed, History file mode permits admits config passed world := by
  induction reached with
  | init created idle => exact ⟨[], .init created idle⟩
  | @call before after request rc reached evaluation admitted induction =>
      obtain ⟨past, earlier⟩ := induction
      rcases Request.run_cases small (reached.wellFormed small).positive_blockBytes evaluation with
        ⟨nothing, -⟩ |
        ⟨looks, ready, middle, served, complete, starts, batch, ends, success⟩
      · exact ⟨past, .quiet earlier evaluation admitted nothing⟩
      · obtain ⟨passed, course⟩ := batch.course past
        exact ⟨passed, .call earlier looks evaluation admitted starts course ends
          fun zero => (success zero).1⟩

/-- A batch that is not broken off asks for all its blocks. -/
theorem Course.asked_eq {past passed : List Passage} {tiers tiers' : Tiers}
    {before after : Machine} {blocks : List BlockId} {complete : Bool}
    (course : Course file mode permits past tiers before blocks complete passed tiers' after)
    (finished : complete = true) : asked passed = blocks.reverse ++ asked past := by
  induction course with
  | done => rfl
  | failed round => simp at finished
  | step round rest induction =>
      rw [induction finished]
      simp [asked]

/-- A successful call asks for the blocks it looks up. -/
theorem History.call_asked (small : file.length < 2 ^ 63)
    (successful : ∀ request rc, admits request rc → rc = 0) {past : List Passage}
    (history : History file mode permits admits config past world) (world' : World)
    {request : Request} {rc : Int}
    (evaluation : (request.run world.handle).Evaluates (environment file mode permits)
      world.machine (world'.handle, rc) world'.machine) (admitted : admits request rc) :
    ∃ passed, History file mode permits admits config passed world' ∧
      asked passed = request.lookups.reverse ++ asked past := by
  have zero := successful request rc admitted
  rcases Request.run_cases small (history.reachable.wellFormed small).positive_blockBytes
    evaluation with
    ⟨nothing, -⟩ | ⟨looks, ready, middle, served, complete, starts, batch, ends, success⟩
  · obtain ⟨blocks, rfl⟩ := nothing.resolve_right fun failed => failed.1 zero
    exact ⟨past, .quiet history evaluation admitted nothing, rfl⟩
  · obtain ⟨passed, course⟩ := batch.course past
    refine ⟨passed, .call history looks evaluation admitted starts course ends
      fun zero => (success zero).1, ?_⟩
    rw [course.asked_eq (success zero).1]
    cases request with
    | lookup blocks => rfl
    | prefetch blocks => rfl
    | release blocks => exact absurd rfl (looks blocks)

/-- What rounds keep of the rounds before them, batches keep. -/
theorem Course.keeps {P : List Passage → Tiers → Prop} {allowed : BlockId → Prop} {failing : Prop}
    (round : ∀ {past tiers tiers' block before after served}, allowed block →
      (served = none → failing) → tiers.WellFormed config → P past tiers →
      Round file mode permits tiers block before tiers' served after →
      P (⟨block, tiers, tiers'⟩ :: past) tiers')
    {past passed : List Passage} {tiers tiers' : Tiers} {before after : Machine}
    {blocks : List BlockId} {complete : Bool}
    (course : Course file mode permits past tiers before blocks complete passed tiers' after)
    (names : ∀ block ∈ blocks, allowed block) (fails : complete = false → failing)
    (wellFormed : tiers.WellFormed config) (kept : P past tiers) :
    tiers'.WellFormed config ∧ P passed tiers' := by
  induction course with
  | done => exact ⟨wellFormed, kept⟩
  | failed first =>
      exact ⟨first.wellFormed wellFormed,
        round (names _ List.mem_cons_self) (fun _ => fails rfl) wellFormed kept first⟩
  | step first rest induction =>
      exact induction (fun block member => names block (List.mem_cons_of_mem _ member)) fails
        (first.wellFormed wellFormed)
        (round (names _ List.mem_cons_self) (fun missing => absurd missing (Option.some_ne_none _))
          wellFormed kept first)

/-- What rounds keep of the rounds before them, sessions keep. -/
theorem History.keeps {P : List Passage → Tiers → Prop} {allowed : BlockId → Prop}
    (initial : ∀ {tiers}, tiers.WellFormed config → tiers.Fresh → P [] tiers)
    (round : ∀ {past tiers tiers' block before after served}, allowed block →
      (served = none → ∃ request rc, admits request rc ∧ rc ≠ 0) →
      tiers.WellFormed config → P past tiers →
      Round file mode permits tiers block before tiers' served after →
      P (⟨block, tiers, tiers'⟩ :: past) tiers')
    (names : ∀ request rc, admits request rc → ∀ block ∈ request.blocks, allowed block)
    {passed : List Passage} (history : History file mode permits admits config passed world) :
    world.handle.tiers.WellFormed config ∧ P passed world.handle.tiers := by
  induction history with
  | init created idle =>
      obtain ⟨wellFormed, fresh⟩ := memtierInitEmbedding_fresh created
      exact ⟨wellFormed, initial wellFormed fresh⟩
  | @quiet passed before after request rc past evaluation admitted nothing induction =>
      have same : after.handle.tiers = before.handle.tiers := by
        rcases nothing with ⟨blocks, rfl⟩ | ⟨-, same⟩
        · obtain ⟨returned, -⟩ := evaluation
          rw [← (Prod.mk.inj returned).1]
          exact tiers_memtierReleaseBlocks before.handle blocks
        · rw [same]
      rw [same]
      exact induction
  | @call past passed before after request rc ready middle complete earlier looks evaluation
      admitted starts course ends success induction =>
      obtain ⟨wellFormed, kept⟩ := induction
      have fails : complete = false → ∃ request rc, admits request rc ∧ rc ≠ 0 := by
        rintro rfl
        exact ⟨request, rc, admitted, fun zero => by simpa using success zero⟩
      exact course.keeps round (names request rc admitted) fails wellFormed kept

end

/-! ## Finding histories by evaluation -/

section

variable {file : Bytes} {mode : CopyMode} {permits : (op : Op) → Reply op → Prop}
  [∀ op reply, Decidable (permits op reply)] {admits : Request → Int → Prop}
  [∀ request rc, Decidable (admits request rc)] {config : Config} {world world' : World}

theorem History.continue (small : file.length < 2 ^ 63)
    (successful : ∀ request rc, admits request rc → rc = 0)
    {calls : List (Request × List Choice)} {past : List Passage}
    (history : History file mode permits admits config past world)
    (found : World.session? file mode permits admits calls world = some world') :
    ∃ passed, History file mode permits admits config passed world' ∧
      asked passed = (calls.flatMap fun call => call.1.lookups).reverse ++ asked past := by
  induction calls generalizing world past with
  | nil =>
      obtain rfl := Option.some.inj found
      exact ⟨past, history, rfl⟩
  | cons call calls induction =>
      rw [World.session?] at found
      split at found
      · simp at found
      · rename_i handle rc machine evaluation
        split at found
        · rename_i admitted
          obtain ⟨middle, history', asked'⟩ := history.call_asked small successful
            ⟨handle, machine⟩ (Prog.Evaluates.of_evaluate? evaluation) admitted
          obtain ⟨passed, history'', asked''⟩ := induction history' found
          refine ⟨passed, history'', ?_⟩
          rw [asked'', asked', List.flatMap_cons, List.reverse_append, List.append_assoc]
        · simp at found

theorem History.of_session? (small : file.length < 2 ^ 63)
    (successful : ∀ request rc, admits request rc → rc = 0)
    {calls : List (Request × List Choice)}
    (found : session? file mode permits admits config calls = some world) :
    ∃ passed, History file mode permits admits config passed world ∧
      asked passed = (calls.flatMap fun call => call.1.lookups).reverse := by
  obtain ⟨handle, created, rest⟩ := Option.bind_eq_some_iff.mp found
  obtain ⟨passed, history, eq⟩ := History.continue small successful (.init created rfl) rest
  exact ⟨passed, history, eq.trans (List.append_nil _)⟩

end

end MemTier.Embedding
