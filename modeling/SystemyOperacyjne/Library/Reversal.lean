import Mathlib.Data.List.OfFn
import Mathlib.Logic.Function.Basic
import Mathlib.Tactic.Common

/-!
# Reversal in place

The first cells of an array are reversed by exchanging the first of them with the last, the second
with the last but one, and so on up to the middle. An access outside the array has no result.
-/

namespace Reversal

variable {α : Type} {n : ℕ}

def read (a : Fin n → α) (i : ℤ) : Option α :=
  if h : 0 ≤ i ∧ i < n then some (a ⟨i.toNat, by omega⟩) else none

def write (a : Fin n → α) (i : ℤ) (x : α) : Option (Fin n → α) :=
  if h : 0 ≤ i ∧ i < n then some (Function.update a ⟨i.toNat, by omega⟩ x) else none

/-- Exchanges two cells, through a third one. -/
def exchange (a : Fin n → α) (i j : ℤ) : Option (Fin n → α) := do
  let temp ← read a i
  let other ← read a j
  let a ← write a i other
  write a j temp

/-- The first `size` cells are reversed as far as `k` exchanges do it. -/
def mirror (a : Fin n → α) {size : ℕ} (hsize : size ≤ n) (k : ℕ) : Fin n → α := fun i =>
  if i.val < k ∨ size - k ≤ i.val ∧ i.val < size then a ⟨size - 1 - i.val, by omega⟩ else a i

lemma exchange_eq (a : Fin n → α) (i j : Fin n) :
    exchange a i j = some (Function.update (Function.update a i (a j)) j (a i)) := by
  have hi : (0 : ℤ) ≤ (i.val : ℤ) ∧ (i.val : ℤ) < n := by omega
  have hj : (0 : ℤ) ≤ (j.val : ℤ) ∧ (j.val : ℤ) < n := by omega
  simp [exchange, read, write, hi, hj]

lemma mirror_zero (a : Fin n → α) {size : ℕ} (hsize : size ≤ n) : mirror a hsize 0 = a := by
  funext i
  have h : ¬(i.val < 0 ∨ size - 0 ≤ i.val ∧ i.val < size) := by omega
  rw [mirror, if_neg h]

lemma mirror_succ (a : Fin n → α) {size : ℕ} (hsize : size ≤ n) {k : ℕ} (hk : k < size / 2) :
    exchange (mirror a hsize k) k (size - k - 1) = some (mirror a hsize (k + 1)) := by
  have hfirst : mirror a hsize k ⟨k, by omega⟩ = a ⟨k, by omega⟩ := by
    rw [mirror, if_neg]
    simp only
    omega
  have hlast : mirror a hsize k ⟨size - 1 - k, by omega⟩ = a ⟨size - 1 - k, by omega⟩ := by
    rw [mirror, if_neg]
    simp only
    omega
  have hindex : (size : ℤ) - k - 1 = (⟨size - 1 - k, by omega⟩ : Fin n).val := by
    simp only
    omega
  have h := exchange_eq (mirror a hsize k) ⟨k, by omega⟩ ⟨size - 1 - k, by omega⟩
  rw [hindex, h, hfirst, hlast, Option.some_inj]
  funext i
  by_cases hil : i = ⟨size - 1 - k, by omega⟩
  · subst hil
    rw [Function.update_self, mirror, if_pos (by simp only; omega)]
    congr 1
    exact Fin.ext (by simp only; omega)
  · rw [Function.update_of_ne hil]
    by_cases hif : i = ⟨k, by omega⟩
    · subst hif
      rw [Function.update_self, mirror, if_pos (by simp only; omega)]
    · rw [Function.update_of_ne hif]
      have hil' : i.val ≠ size - 1 - k := fun h => hil (Fin.ext h)
      have hif' : i.val ≠ k := fun h => hif (Fin.ext h)
      unfold mirror
      congr 1
      apply propext
      omega

/-- The exchanges up to the middle. -/
theorem exchanges_eq (a : Fin n → α) {size : ℕ} (hsize : size ≤ n) {k : ℕ} (hk : k ≤ size / 2) :
    (List.range k).foldlM (fun (a : Fin n → α) (i : ℕ) => exchange a i (size - i - 1)) a =
      some (mirror a hsize k) := by
  induction k with
  | zero => exact congrArg some (mirror_zero a hsize).symm
  | succ k ih =>
    rw [List.range_succ, List.foldlM_append, ih (by omega), Option.bind_eq_bind, Option.bind_some,
      List.foldlM_cons, mirror_succ a hsize (by omega)]
    rfl

/-- After them, the first cells are reversed. -/
theorem take_mirror (a : Fin n → α) {size : ℕ} (hsize : size ≤ n) :
    (List.ofFn (mirror a hsize (size / 2))).take size = ((List.ofFn a).take size).reverse := by
  apply List.ext_getElem
  · simp
  · intro i hi₁ hi₂
    have hi : i < size := by
      rw [List.length_take] at hi₁
      omega
    rw [List.getElem_take, List.getElem_ofFn, List.getElem_reverse, List.getElem_take, List.getElem_ofFn, mirror]
    simp only [List.length_take, List.length_ofFn]
    split
    · congr 1
      exact Fin.ext (by simp only; omega)
    · congr 1
      exact Fin.ext (by simp only; omega)

end Reversal
