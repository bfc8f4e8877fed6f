import Mathlib.Data.List.Basic
import Mathlib.Data.List.TakeWhile

/-!
# Words

The words of a list are its maximal runs without a separator. They can be read off one after the
other from the front, and cutting the list first at some of the separators does not change them.
-/

namespace Containers.Words

variable {α : Type}

/-- The maximal runs of a list on which `space` fails. -/
def words (space : α → Bool) (text : List α) : List (List α) :=
  (text.splitOnP space).filter (· ≠ [])

@[simp] theorem words_nil (space : α → Bool) : words space [] = [] := by
  rw [words, List.splitOnP_nil]
  rfl

theorem words_append_cons {space : α → Bool} {separator : α} (isSpace : space separator)
    (front rest : List α) :
    words space (front ++ separator :: rest) = words space front ++ words space rest := by
  rw [words, List.splitOnP_append_cons _ _ isSpace, List.filter_append, words, words]

theorem words_cons {space : α → Bool} {separator : α} (isSpace : space separator)
    (rest : List α) : words space (separator :: rest) = words space rest := by
  simpa using words_append_cons isSpace [] rest

theorem words_dropWhile (space : α → Bool) (text : List α) :
    words space (text.dropWhile space) = words space text := by
  induction text with
  | nil => rfl
  | cons head tail induction =>
      by_cases isSpace : space head
      · rw [List.dropWhile_cons_of_pos isSpace, induction, words_cons isSpace]
      · rw [List.dropWhile_cons_of_neg isSpace]

theorem words_of_forall_not {space : α → Bool} {run : List α}
    (run_free : ∀ symbol ∈ run, space symbol = false) (nonempty : run ≠ []) :
    words space run = [run] := by
  rw [words, List.splitOnP_eq_singleton run_free]
  simp [nonempty]

/-- Predicates that agree on a list cut it into the same words. -/
theorem words_congr {first second : α → Bool} {text : List α}
    (agree : ∀ symbol ∈ text, first symbol = second symbol) :
    words first text = words second text := by
  have split_eq : text.splitOnP first = text.splitOnP second := by
    induction text with
    | nil => rfl
    | cons head tail induction =>
        rw [List.splitOnP_cons_eq_if_modifyHead, List.splitOnP_cons_eq_if_modifyHead,
          agree head List.mem_cons_self,
          induction fun symbol member => agree symbol (List.mem_cons_of_mem _ member)]
  rw [words, words, split_eq]

theorem words_eq_nil_iff {space : α → Bool} {text : List α} :
    words space text = [] ↔ ∀ symbol ∈ text, space symbol := by
  induction text with
  | nil => simp
  | cons head tail induction =>
      by_cases isSpace : space head
      · rw [words_cons isSpace, induction, List.forall_mem_cons, and_iff_right isSpace]
      · have nonempty : words space (head :: tail) ≠ [] := by
          rw [words, List.splitOnP_cons_eq_if_modifyHead, if_neg isSpace]
          obtain ⟨run, runs, split_eq⟩ :=
            List.exists_cons_of_ne_nil (List.splitOnP_ne_nil space tail)
          simp [split_eq]
        simp [nonempty, isSpace]

/-! ## Reading the first word -/

/-- A list that starts with a word starts, after separators, with the letters of that word; what
follows is empty or starts with a separator and holds the other words. -/
theorem words_eq_cons {space : α → Bool} {text word : List α} {rest : List (List α)}
    (words_eq : words space text = word :: rest) :
    ∃ tail, text.dropWhile space = word ++ tail ∧ word ≠ [] ∧
      (∀ symbol ∈ word, space symbol = false) ∧ (∀ symbol ∈ tail.head?, space symbol) ∧
      words space tail = rest := by
  rw [← words_dropWhile] at words_eq
  generalize front : text.dropWhile space = trimmed at words_eq
  have run_free : ∀ symbol ∈ trimmed.takeWhile (! space ·), space symbol = false := by
    intro symbol member
    simpa using List.mem_takeWhile_imp member
  have run_nonempty : trimmed.takeWhile (! space ·) ≠ [] := by
    cases trimmed with
    | nil => simp at words_eq
    | cons head tail =>
        have stopped := List.dropWhile_get_zero_not space text (by rw [front]; simp)
        simp only [front, List.get_eq_getElem, List.getElem_cons_zero] at stopped
        simp [stopped]
  have cut := List.takeWhile_append_dropWhile (p := (! space ·)) (l := trimmed)
  cases after : trimmed.dropWhile (! space ·) with
  | nil =>
      rw [after, List.append_nil] at cut
      rw [← cut, words_of_forall_not run_free run_nonempty] at words_eq
      injection words_eq with word_eq rest_eq
      exact ⟨[], by rw [← word_eq, List.append_nil, cut], by rw [← word_eq]; exact run_nonempty,
        by rw [← word_eq]; exact run_free, by simp, by rw [← rest_eq, words_nil]⟩
  | cons separator tail =>
      have isSpace : space separator := by
        have stopped := List.dropWhile_get_zero_not (! space ·) trimmed (by rw [after]; simp)
        simpa [after] using stopped
      rw [after] at cut
      rw [← cut, words_append_cons isSpace, words_of_forall_not run_free run_nonempty] at words_eq
      injection words_eq with word_eq rest_eq
      refine ⟨separator :: tail, by rw [← word_eq, cut], by rw [← word_eq]; exact run_nonempty,
        by rw [← word_eq]; exact run_free, by simp [isSpace], ?_⟩
      rw [words_cons isSpace, ← rest_eq]
      rfl

/-! ## Cutting before reading -/

/-- Cutting at either of two kinds of separators is cutting at one and then at the other. -/
theorem splitOnP_or (first second : α → Bool) (text : List α) :
    text.splitOnP (fun symbol => first symbol || second symbol) =
      (text.splitOnP first).flatMap (List.splitOnP second) := by
  induction text with
  | nil => rfl
  | cons head tail induction =>
      obtain ⟨run, runs, split_eq⟩ := List.exists_cons_of_ne_nil (List.splitOnP_ne_nil first tail)
      rw [List.splitOnP_cons_eq_if_modifyHead, induction, List.splitOnP_cons_eq_if_modifyHead,
        split_eq]
      by_cases isFirst : first head
      · simp [isFirst]
      · obtain ⟨piece, pieces, piece_eq⟩ :=
          List.exists_cons_of_ne_nil (List.splitOnP_ne_nil second run)
        simp [isFirst, List.splitOnP_cons_eq_if_modifyHead, piece_eq]
        by_cases isSecond : second head <;> simp [isSecond]

/-- Words do not change when the list is cut at some of the separators first. -/
theorem flatMap_words_splitOnP {cut space : α → Bool} (finer : ∀ symbol, cut symbol → space symbol)
    (text : List α) : (text.splitOnP cut).flatMap (words space) = words space text := by
  have either : (fun symbol => cut symbol || space symbol) = space := by
    funext symbol
    by_cases isCut : cut symbol
    · rw [isCut, finer symbol isCut, Bool.or_self]
    · simp [isCut]
  have split_eq := splitOnP_or cut space text
  rw [either] at split_eq
  rw [words, split_eq, List.filter_flatMap]
  rfl

end Containers.Words
