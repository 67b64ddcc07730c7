import Mathlib.Data.List.Basic
import Mathlib.Data.List.TakeWhile

/-!
# Words between separators

The words of a list are its longest parts without separators. They are found one after the other: skip
the separators, and take what comes up to the next one.
-/

namespace Words

variable {α : Type} (sep : α → Bool)

/-- Two separators in a row have no word between them. -/
def words (l : List α) : List (List α) :=
  (l.splitOnP sep).filter fun word => !word.isEmpty

def skip (l : List α) : List α := l.dropWhile sep

def word (l : List α) : List α := l.takeWhile fun a => !sep a

def afterWord (l : List α) : List α := l.dropWhile fun a => !sep a

variable {sep}

lemma words_nil : words sep [] = [] := by
  simp [words]

lemma words_cons_sep {a : α} (h : sep a = true) (l : List α) : words sep (a :: l) = words sep l := by
  simp [words, List.splitOnP_cons_eq_if_modifyHead, h]

lemma words_skip (l : List α) : words sep (skip sep l) = words sep l := by
  induction l with
  | nil => rfl
  | cons a l ih =>
    rw [skip, List.dropWhile_cons]
    split
    · next h => rw [words_cons_sep h, ← ih, skip]
    · rfl

lemma words_of_skip_eq_nil {l : List α} (h : skip sep l = []) : words sep l = [] := by
  rw [← words_skip, h, words_nil]

lemma words_of_forall {w : List α} (hw : ∀ a ∈ w, sep a = false) (hne : w ≠ []) : words sep w = [w] := by
  simp [words, List.splitOnP_eq_singleton hw, hne]

/-- A word ends at the next separator, or where the list ends. -/
lemma words_append {w rest : List α} (hw : ∀ a ∈ w, sep a = false) (hne : w ≠ [])
    (hrest : ∀ a ∈ rest.head?, sep a = true) : words sep (w ++ rest) = w :: words sep rest := by
  cases rest with
  | nil => rw [List.append_nil, words_of_forall hw hne, words_nil]
  | cons a rest =>
    have ha : sep a = true := hrest a rfl
    rw [words_cons_sep ha, words, List.splitOnP_append_cons _ _ ha, List.filter_append]
    exact congrArg (· ++ words sep rest) (words_of_forall hw hne)

/-- The first word, and the words behind it. -/
theorem words_of_skip_ne_nil {l : List α} (h : skip sep l ≠ []) :
    words sep l = word sep (skip sep l) :: words sep (afterWord sep (skip sep l)) := by
  have hhead : sep ((skip sep l).head h) = false := List.head_dropWhile_not sep h
  have hword : ∀ a ∈ word sep (skip sep l), sep a = false := fun a ha => by simpa using List.mem_takeWhile_imp ha
  have hne : word sep (skip sep l) ≠ [] := by
    rw [word, ← List.cons_head_tail h, List.takeWhile_cons, hhead]
    simp
  have hrest : ∀ a ∈ (afterWord sep (skip sep l)).head?, sep a = true := by
    intro a ha
    have h := List.head?_dropWhile_not (fun a => !sep a) (skip sep l)
    rw [show (skip sep l).dropWhile (fun a => !sep a) = afterWord sep (skip sep l) from rfl, Option.mem_def.mp ha] at h
    simpa using h
  calc words sep l = words sep (skip sep l) := (words_skip l).symm
    _ = words sep (word sep (skip sep l) ++ afterWord sep (skip sep l)) := by
      rw [word, afterWord, List.takeWhile_append_dropWhile]
    _ = _ := words_append hword hne hrest

example : words (· == 0) [0, 1, 0, 0, 2, 3] = [[1], [2, 3]] := by decide

end Words
