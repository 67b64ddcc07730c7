import Mathlib.Data.List.Basic
import Mathlib.Data.List.TakeWhile

/-!
# Lines in pieces of bounded length

A reader that takes a line up to and including its end, but no more than so many elements at a time,
cuts its input into pieces. A line that is too long becomes several pieces.
-/

namespace Lines

variable {α : Type} (ends : α → Bool)

/-- The next `n` elements, but none behind the end of the line. -/
def piece : ℕ → List α → List α
  | 0, _ => []
  | _ + 1, [] => []
  | n + 1, a :: l => if ends a then [a] else a :: piece n l

variable {ends}

lemma piece_append_drop (n : ℕ) (l : List α) : piece ends n l ++ l.drop (piece ends n l).length = l := by
  induction n generalizing l with
  | zero => rfl
  | succ n ih =>
    cases l with
    | nil => rfl
    | cons a l =>
      rw [piece]
      split
      · rfl
      · simpa using ih l

lemma length_piece_le (n : ℕ) (l : List α) : (piece ends n l).length ≤ n := by
  induction n generalizing l with
  | zero => exact le_rfl
  | succ n ih =>
    cases l with
    | nil => exact Nat.zero_le _
    | cons a l =>
      rw [piece]
      split
      · simp
      · simpa using ih l

lemma piece_ne_nil {l : List α} (h : l ≠ []) (n : ℕ) : piece ends (n + 1) l ≠ [] := by
  cases l with
  | nil => exact absurd rfl h
  | cons a l =>
    rw [piece]
    split
    · simp
    · simp

lemma filter_piece (n : ℕ) (l : List α) :
    (piece ends n l).takeWhile (fun a => !ends a) = (piece ends n l).filter fun a => !ends a := by
  induction n generalizing l with
  | zero => rfl
  | succ n ih =>
    cases l with
    | nil => rfl
    | cons a l =>
      rw [piece]
      split
      · next ha => simp [ha]
      · next ha => simp [ha, ih l]

lemma piece_line {line : List α} {e : α} (hline : ∀ a ∈ line, ends a = false) (he : ends e = true) {n : ℕ}
    (hn : line.length < n) (rest : List α) : piece ends n (line ++ e :: rest) = line ++ [e] := by
  induction line generalizing n with
  | nil =>
    cases n with
    | zero => simp at hn
    | succ n => simp [piece, he]
  | cons a line ih =>
    cases n with
    | zero => simp at hn
    | succ n =>
      have ha : ends a = false := hline a (by simp)
      have hrest := ih (fun b hb => hline b (by simp [hb])) (n := n) (by simpa using hn)
      simp [piece, ha, hrest]

variable (ends)

/-- All pieces of at most `n + 1` elements, one after the other. -/
def pieces (n : ℕ) (l : List α) : List (List α) :=
  if h : l = [] then []
  else piece ends (n + 1) l :: pieces n (l.drop (piece ends (n + 1) l).length)
termination_by l.length
decreasing_by
  have hne : piece ends (n + 1) l ≠ [] := piece_ne_nil h n
  have hpos := List.length_pos_iff.mpr hne
  have hl := List.length_pos_iff.mpr h
  rw [List.length_drop]
  omega

variable {ends}

@[simp] lemma pieces_nil (n : ℕ) : pieces ends n [] = [] := by
  rw [pieces]
  rfl

lemma pieces_of_ne_nil {l : List α} (h : l ≠ []) (n : ℕ) :
    pieces ends n l = piece ends (n + 1) l :: pieces ends n (l.drop (piece ends (n + 1) l).length) := by
  rw [pieces, dif_neg h]

/-- Nothing of the input is lost. -/
theorem flatten_pieces (n : ℕ) (l : List α) : (pieces ends n l).flatten = l := by
  induction l using pieces.induct ends n with
  | case1 => simp
  | case2 l h ih => rw [pieces_of_ne_nil h, List.flatten_cons, ih, piece_append_drop]

lemma exists_piece_of_mem {n : ℕ} {l p : List α} (h : p ∈ pieces ends n l) : ∃ m, p = piece ends (n + 1) m := by
  induction l using pieces.induct ends n with
  | case1 => simp at h
  | case2 l hne ih =>
    rw [pieces_of_ne_nil hne, List.mem_cons] at h
    rcases h with rfl | h
    · exact ⟨l, rfl⟩
    · exact ih h

/-- Lines that are short enough are the pieces. -/
theorem pieces_lines {lines : List (List α)} {e : α} (he : ends e = true) {n : ℕ}
    (hlines : ∀ line ∈ lines, line.length ≤ n ∧ ∀ a ∈ line, ends a = false) :
    pieces ends n (lines.flatMap (· ++ [e])) = lines.map (· ++ [e]) := by
  induction lines with
  | nil => simp
  | cons line lines ih =>
    have hline := hlines line (by simp)
    have hpiece : piece ends (n + 1) (line ++ e :: lines.flatMap (· ++ [e])) = line ++ [e] :=
      piece_line hline.2 he (Nat.lt_succ_of_le hline.1) _
    have hrest := ih fun l hl => hlines l (by simp [hl])
    rw [List.flatMap_cons, List.append_assoc, List.singleton_append, pieces_of_ne_nil (by simp), hpiece]
    simp [hrest]

end Lines
