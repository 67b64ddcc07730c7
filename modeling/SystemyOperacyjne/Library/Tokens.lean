import Mathlib.Algebra.BigOperators.Fin
import Mathlib.Algebra.Order.BigOperators.Group.Finset

/-!
# Counting tokens held by processes

`tokens w f` adds up, over all processes, how many tokens the local state of each holds.
Conservation laws over arbitrarily many processes are equations between such sums, and
a step of one process changes one summand.
-/

namespace Concurrency

variable {ι π : Type} [Fintype ι]

/-- The tokens that the processes `f` hold together. -/
def tokens (w : π → ℕ) (f : ι → π) : ℕ :=
  ∑ i, w (f i)

lemma tokens_update [DecidableEq ι] (w : π → ℕ) (f : ι → π) (i : ι) (p : π) :
    tokens w (Function.update f i p) + w (f i) = tokens w f + w p := by
  have hf : tokens w f = w (f i) + ∑ j ∈ Finset.univ \ {i}, w (f j) := by
    rw [tokens, ← Finset.sum_sdiff (Finset.subset_univ {i}), Finset.sum_singleton, add_comm]
  have hu : tokens w (Function.update f i p) = w p + ∑ j ∈ Finset.univ \ {i}, w (f j) := by
    have h := Finset.sum_update_of_mem (Finset.mem_univ i) (fun j => w (f j)) (w p)
    rw [← h, tokens]
    refine Finset.sum_congr rfl fun j _ => ?_
    by_cases hj : j = i
    · subst hj; simp
    · simp [hj]
  omega

lemma le_tokens (w : π → ℕ) (f : ι → π) (i : ι) : w (f i) ≤ tokens w f :=
  Finset.single_le_sum (f := fun j => w (f j)) (fun _ _ => Nat.zero_le _) (Finset.mem_univ i)

lemma add_le_tokens [DecidableEq ι] (w : π → ℕ) (f : ι → π) {i j : ι} (h : i ≠ j) :
    w (f i) + w (f j) ≤ tokens w f := by
  have hsub : ({i, j} : Finset ι) ⊆ Finset.univ := Finset.subset_univ _
  have hle := Finset.sum_le_sum_of_subset (f := fun k => w (f k)) hsub
  rwa [Finset.sum_pair h] at hle

lemma tokens_eq_zero {w : π → ℕ} {f : ι → π} (h : ∀ i, w (f i) = 0) : tokens w f = 0 :=
  Finset.sum_eq_zero fun i _ => h i

lemma tokens_le {w : π → ℕ} {f : ι → π} {c : ℕ} (h : ∀ i, w (f i) ≤ c) : tokens w f ≤ Fintype.card ι * c := by
  have hle := Finset.sum_le_card_nsmul Finset.univ (fun i => w (f i)) c fun i _ => h i
  rwa [smul_eq_mul, Finset.card_univ] at hle

lemma tokens_lt {w : π → ℕ} {f g : ι → π} (i : ι) (hother : ∀ j, j ≠ i → g j = f j) (hlt : w (g i) < w (f i)) :
    tokens w g < tokens w f := by
  refine Finset.sum_lt_sum (fun j _ => ?_) ⟨i, Finset.mem_univ i, hlt⟩
  by_cases hj : j = i
  · rw [hj]
    exact hlt.le
  · rw [hother j hj]

lemma sum_update_add {κ : Type} [DecidableEq κ] (w : π → ℕ) (f : κ → π) {S : Finset κ} {i : κ} (hi : i ∈ S) (p : π) :
    ∑ j ∈ S, w (Function.update f i p j) + w (f i) = ∑ j ∈ S, w (f j) + w p := by
  have hrest : ∑ j ∈ S.erase i, w (Function.update f i p j) = ∑ j ∈ S.erase i, w (f j) := by
    apply Finset.sum_congr rfl
    intro j hj
    rw [Function.update_of_ne (Finset.ne_of_mem_erase hj)]
  rw [← Finset.add_sum_erase S _ hi, ← Finset.add_sum_erase S (fun j => w (f j)) hi, hrest, Function.update_self]
  omega

lemma sum_map_set (w : π → ℕ) {f : List π} {k : ℕ} {p : π} (h : f[k]? = some p) (q : π) :
    ((f.set k q).map w).sum + w p = (f.map w).sum + w q := by
  induction f generalizing k with
  | nil => simp at h
  | cons r f ih =>
    cases k with
    | zero =>
      obtain rfl : r = p := by simpa using h
      simp only [List.set_cons_zero, List.map_cons, List.sum_cons]
      omega
    | succ k =>
      have := ih (k := k) (by simpa using h)
      simp only [List.set_cons_succ, List.map_cons, List.sum_cons]
      omega

end Concurrency
