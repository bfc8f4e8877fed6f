import MemTier.Containers.Bytes

/-!
# Preparing experiment files

`memtier_prepare_experiment_file` fills a file from a buffer of one mebibyte, in as many writes as
it takes. The system decides how much of each write is accepted. What the file holds afterwards
should depend on positions only.
-/

namespace MemTier.FilePrep

open Containers

/-- What `mkdir` answers. -/
inductive MkdirResult where
  | created | exists | failed
  deriving DecidableEq, Repr

/-- What `write` answers: an error, or how much was accepted. -/
inductive WriteResult where
  | failed
  | accepted (count : Nat)
  deriving DecidableEq, Repr

/-- Files by path. -/
abbrev Files : Type := String → Option Bytes

/-- Size of the buffer. -/
def block : Nat := 2 ^ 20

/-- The bytes of the buffer. -/
def buf (i : Nat) : UInt8 := UInt8.ofNat (i % 251)

/-- The loop, once `written` bytes are in the file.  Every write starts at the front of the buffer.
Returns whether all writes succeeded and what the file holds, or `none` when the results given are
not those of a whole run. -/
def writeLoop (sizeBytes written : Nat) (file : Bytes) : List WriteResult → Option (Bool × Bytes)
  | [] => if written < sizeBytes then none else some (true, file)
  | result :: rest =>
      if written < sizeBytes then
        let n := min block (sizeBytes - written)
        match result with
        | .failed => some (false, file)
        | .accepted w =>
            if w ≤ n then
              writeLoop sizeBytes (written + w) (file ++ (List.range w).map buf) rest
            else none
      else some (true, file)

/-- `memtier_prepare_experiment_file`: the return code and the files afterwards. -/
def memtierPrepareExperimentFile (dir name : Option String) (sizeBytes : Nat) (mkdir : MkdirResult)
    (opens : Bool) (results : List WriteResult) (files : Files) : Option (Int × Files) :=
  match dir, name with
  | some dir, some name =>
      if sizeBytes = 0 then some (-1, files)
      else if mkdir = .failed then some (-2, files)
      else if !opens then some (-3, files)
      else do
        let path := dir ++ "/" ++ name
        let (complete, file) ← writeLoop sizeBytes 0 [] results
        return (if complete then 0 else -4, Function.update files path (some file))
  | _, _ => some (-1, files)

/-- The byte that belongs at a position. -/
def pattern (position : Nat) : UInt8 := UInt8.ofNat (position % 2 ^ 20 % 251)

/-- The bytes that belong at the positions from `start` on. -/
def patternFrom (start length : Nat) : Bytes :=
  (List.range length).map fun i => pattern (start + i)

theorem patternFrom_add (start first second : Nat) :
    patternFrom start (first + second) =
      patternFrom start first ++ patternFrom (start + first) second := by
  rw [patternFrom, List.range_add, List.map_append, List.map_map]
  simp only [patternFrom, Function.comp_def, Nat.add_assoc]

@[simp] theorem length_patternFrom (start length : Nat) :
    (patternFrom start length).length = length := by
  rw [patternFrom, List.length_map, List.length_range]

/-- A write at a position where the buffer's front belongs, which does not reach over the end of the
mebibyte it starts in. -/
def Fits (start count : Nat) : Prop :=
  start % 2 ^ 20 % 251 = 0 ∧ start % 2 ^ 20 + count ≤ 2 ^ 20

instance (start count : Nat) : Decidable (Fits start count) := inferInstanceAs (Decidable (_ ∧ _))

theorem ofNat_mod_inj {first second : Nat} :
    UInt8.ofNat (first % 251) = UInt8.ofNat (second % 251) ↔ first % 251 = second % 251 := by
  rw [← UInt8.toNat_inj, UInt8.toNat_ofNat', UInt8.toNat_ofNat']
  omega

/-- What the front of the buffer puts into the file is what belongs there exactly when it fits. -/
theorem buf_eq_patternFrom_iff {start count : Nat} (positive : 0 < count) (bounded : count ≤ block) :
    (List.range count).map buf = patternFrom start count ↔ Fits start count := by
  have same : (List.range count).map buf = patternFrom start count ↔
      ∀ i < count, i % 251 = (start + i) % 2 ^ 20 % 251 := by
    rw [patternFrom, List.map_inj_left]
    simp only [List.mem_range, buf, pattern, ofNat_mod_inj]
  rw [same, Fits]
  rw [block] at bounded
  constructor
  · intro agrees
    have first := agrees 0 positive
    rw [Nat.add_zero, Nat.zero_mod] at first
    refine ⟨first.symm, ?_⟩
    by_contra crosses
    -- The first position of the next mebibyte would have to hold a byte from within the pattern.
    have wrapped := agrees (2 ^ 20 - start % 2 ^ 20) (by omega)
    have boundary : (start + (2 ^ 20 - start % 2 ^ 20)) % 2 ^ 20 = 0 := by omega
    rw [boundary] at wrapped
    omega
  · rintro ⟨aligned, inside⟩ i below
    have shifted : (start + i) % 2 ^ 20 = start % 2 ^ 20 + i := by omega
    rw [shifted]
    omega

/-- All writes that are needed fit. -/
def AllFit (sizeBytes : Nat) : Nat → List WriteResult → Prop
  | _, [] => True
  | written, .failed :: rest => AllFit sizeBytes written rest
  | written, .accepted w :: rest =>
      (written < sizeBytes → Fits written w) ∧ AllFit sizeBytes (written + w) rest

/-- Every write accepts a part of what it is given that is not empty. -/
def Progresses (results : List WriteResult) : Prop :=
  ∀ result ∈ results, ∃ w, 0 < w ∧ result = .accepted w

theorem allFit_of_le {sizeBytes written : Nat} (done : sizeBytes ≤ written)
    (results : List WriteResult) : AllFit sizeBytes written results := by
  induction results generalizing written with
  | nil => exact trivial
  | cons result rest induction =>
      cases result with
      | failed => exact induction done
      | accepted w => exact ⟨fun more => absurd more (by omega), induction (by omega)⟩

/-- What the loop adds to the file is as much as is missing, and it is what belongs there exactly
when all writes fit. -/
structure Completes (sizeBytes written : Nat) (results : List WriteResult) (tail : Bytes) :
    Prop where
  length : tail.length = sizeBytes - written
  content : tail = patternFrom written (sizeBytes - written) ↔ AllFit sizeBytes written results

theorem Completes.done {sizeBytes written : Nat} (done : ¬ written < sizeBytes)
    (results : List WriteResult) : Completes sizeBytes written results [] := by
  have none_left : sizeBytes - written = 0 := by omega
  refine ⟨none_left.symm, ?_⟩
  rw [none_left]
  exact ⟨fun _ => allFit_of_le (by omega) results, fun _ => rfl⟩

/-- One more write in front. -/
theorem Completes.step {sizeBytes written w : Nat} {results : List WriteResult} {tail : Bytes}
    (positive : 0 < w) (accepted : w ≤ min block (sizeBytes - written))
    (completes : Completes sizeBytes (written + w) results tail) :
    Completes sizeBytes written (.accepted w :: results) ((List.range w).map buf ++ tail) := by
  have length := completes.length
  have split : sizeBytes - written = w + (sizeBytes - (written + w)) := by omega
  refine ⟨?_, ?_⟩
  · rw [List.length_append, List.length_map, List.length_range]
    omega
  · have sizes : ((List.range w).map buf).length = (patternFrom written w).length := by
      rw [List.length_map, List.length_range, length_patternFrom]
    rw [split, patternFrom_add, AllFit, ← completes.content,
      List.append_eq_append_iff_of_size_eq_left sizes,
      buf_eq_patternFrom_iff positive (by omega)]
    constructor
    · exact fun right => ⟨fun _ => right.1, right.2⟩
    · exact fun right => ⟨right.1 (by omega), right.2⟩

/-- A run of the loop in which every write makes progress. -/
theorem writeLoop_completes {sizeBytes written : Nat} {file out : Bytes}
    {results : List WriteResult} (progresses : Progresses results)
    (ran : writeLoop sizeBytes written file results = some (true, out)) :
    ∃ tail, out = file ++ tail ∧ Completes sizeBytes written results tail := by
  induction results generalizing written file with
  | nil =>
      rw [writeLoop] at ran
      split at ran
      · simp at ran
      · rename_i done
        obtain rfl := (Prod.mk.inj (Option.some.inj ran)).2
        exact ⟨[], (List.append_nil _).symm, .done done []⟩
  | cons result rest induction =>
      obtain ⟨w, positive, rfl⟩ := progresses result List.mem_cons_self
      rw [writeLoop] at ran
      split at ran
      · dsimp only at ran
        split at ran
        · rename_i accepted
          obtain ⟨tail, rfl, completes⟩ := induction
            (fun result member => progresses result (List.mem_cons_of_mem _ member)) ran
          exact ⟨_, List.append_assoc .., completes.step positive accepted⟩
        · simp at ran
      · rename_i done
        obtain rfl := (Prod.mk.inj (Option.some.inj ran)).2
        exact ⟨[], (List.append_nil _).symm, .done done _⟩

theorem eq_patternFrom_iff {content : Bytes} :
    content = patternFrom 0 content.length ↔
      ∀ position (inside : position < content.length),
        content[position] = UInt8.ofNat (position % 2 ^ 20 % 251) := by
  constructor
  · intro same position inside
    have here := congrArg (·[position]?) same
    rw [patternFrom, List.getElem?_eq_getElem inside, List.getElem?_map,
      List.getElem?_range inside, Option.map_some, Nat.zero_add] at here
    exact Option.some.inj here
  · intro right
    apply List.ext_getElem (length_patternFrom 0 _).symm
    intro position inside _
    rw [right position inside]
    simp [patternFrom, pattern]

/-- A file is prepared with the bytes that belong at its positions exactly when all writes fit.
Its size is right in any case. -/
theorem prepared_content_iff {dir name : String} {sizeBytes : Nat} {mkdir : MkdirResult}
    {opens : Bool} {results : List WriteResult} {files files' : Files}
    (progresses : Progresses results)
    (returned : memtierPrepareExperimentFile (some dir) (some name) sizeBytes mkdir opens results
      files = some (0, files')) :
    ∃ content, files' (dir ++ "/" ++ name) = some content ∧ content.length = sizeBytes ∧
      ((∀ position (inside : position < content.length),
        content[position] = UInt8.ofNat (position % 2 ^ 20 % 251)) ↔
          AllFit sizeBytes 0 results) := by
  simp only [memtierPrepareExperimentFile] at returned
  split at returned
  · simp at returned
  · split at returned
    · simp at returned
    · split at returned
      · simp at returned
      · obtain ⟨⟨complete, content⟩, ran, rest⟩ := Option.bind_eq_some_iff.mp returned
        obtain ⟨code, rfl⟩ := Prod.mk.inj (Option.some.inj rest)
        cases complete with
        | false => simp at code
        | true =>
            obtain ⟨_, rfl, completes⟩ := writeLoop_completes progresses ran
            have length := completes.length
            rw [Nat.sub_zero] at length
            refine ⟨content, Function.update_self .., length, ?_⟩
            rw [← eq_patternFrom_iff, ← completes.content, length, Nat.sub_zero]

/-- The first of two writes stops where the pattern starts over. -/
theorem prepared_content_two_writes :
    ∃ files' content,
      memtierPrepareExperimentFile (some "d") (some "f") 300 .created true
        [.accepted 251, .accepted 49] (fun _ => none) = some (0, files') ∧
      files' ("d" ++ "/" ++ "f") = some content ∧ content.length = 300 ∧
      ∀ position (inside : position < content.length),
        content[position] = UInt8.ofNat (position % 2 ^ 20 % 251) := by
  obtain ⟨files', returned⟩ : ∃ files',
      memtierPrepareExperimentFile (some "d") (some "f") 300 .created true
        [.accepted 251, .accepted 49] (fun _ => none) = some (0, files') := ⟨_, rfl⟩
  obtain ⟨content, held, length, right⟩ := prepared_content_iff (by
    rintro result (_ | ⟨_, _ | ⟨_, ⟨⟩⟩⟩)
    · exact ⟨251, by decide, rfl⟩
    · exact ⟨49, by decide, rfl⟩) returned
  refine ⟨files', content, returned, held, length, right.mpr ?_⟩
  exact ⟨fun _ => by decide, fun _ => by decide, trivial⟩

/-- Two writes of one byte each leave the first byte of the buffer at both positions. -/
theorem prepared_content_repeats :
    ¬ ∀ results files', Progresses results →
      memtierPrepareExperimentFile (some "d") (some "f") 2 .created true results (fun _ => none) =
        some (0, files') →
      ∃ content, files' ("d" ++ "/" ++ "f") = some content ∧ content.length = 2 ∧
        ∀ position (inside : position < content.length),
          content[position] = UInt8.ofNat (position % 2 ^ 20 % 251) := by
  intro claimed
  obtain ⟨content, held, length, right⟩ := claimed [.accepted 1, .accepted 1] _ (by
    rintro result (_ | ⟨_, _ | ⟨_, ⟨⟩⟩⟩)
    · exact ⟨1, by decide, rfl⟩
    · exact ⟨1, by decide, rfl⟩) rfl
  have same : content = [0, 0] := by
    simpa [buf] using held.symm
  subst same
  exact absurd (right 1 (by decide)) (by decide)

end MemTier.FilePrep
