import Mathlib.Algebra.Group.Subgroup.Defs
import Mathlib.Algebra.Group.End
import Mathlib.Data.Set.Basic
import Mathlib.Logic.Function.Iterate

/-!
# Local rules on a board and on the whole space

A configuration gives every cell a value, and a local rule computes the next value of a cell
from those of its neighbours. A board keeps the cells outside it at one value. Deep inside,
the board behaves like the whole space, for as many steps as it takes to reach the border. The
permutations of the cells that a rule does not notice form a group.
-/

namespace Cellular

variable {ι α : Type} {N : ι → Set ι} {B : Set ι} {F : (ι → α) → ι → α}

/-- The next value of a cell depends on its neighbours only. -/
def Local (N : ι → Set ι) (F : (ι → α) → ι → α) : Prop :=
  ∀ x y i, (∀ j ∈ N i, x j = y j) → F x i = F y i

/-- The rule on the board `B`; the other cells are always `dead`. -/
def clip (B : Set ι) [DecidablePred (· ∈ B)] (dead : α) (F : (ι → α) → ι → α) (x : ι → α) (i : ι) : α :=
  if i ∈ B then F x i else dead

/-- It takes more than `k` steps to neighbours to leave the board. -/
def Within (N : ι → Set ι) (B : Set ι) : ℕ → ι → Prop
  | 0, _ => True
  | k + 1, i => i ∈ B ∧ ∀ j ∈ N i, Within N B k j

/-- The border of the board has no effect on a cell before it can have reached it. -/
theorem clip_iterate [DecidablePred (· ∈ B)] (hF : Local N F) (dead : α) (x : ι → α) {k : ℕ} {i : ι}
    (h : Within N B k i) : (clip B dead F)^[k] x i = F^[k] x i := by
  induction k generalizing i with
  | zero => rfl
  | succ k ih =>
    obtain ⟨hi, hN⟩ := h
    rw [Function.iterate_succ_apply', Function.iterate_succ_apply', clip, if_pos hi]
    apply hF
    intro j hj
    exact ih (hN j hj)

/-- The permutations of the cells that the rule does not notice. -/
def symmetries (F : (ι → α) → ι → α) : Subgroup (Equiv.Perm ι) where
  carrier := {e | ∀ x, F (x ∘ e) = F x ∘ e}
  one_mem' _ := rfl
  mul_mem' := by
    intro e f he hf x
    have hcomp : x ∘ (e * f : Equiv.Perm ι) = (x ∘ e) ∘ f := rfl
    rw [hcomp, hf, he]
    rfl
  inv_mem' := by
    intro e he x
    have hx : x = (x ∘ (e⁻¹ : Equiv.Perm ι)) ∘ e := by
      funext i
      simp
    rw [hx, he]
    funext i
    simp [Function.comp_assoc]

lemma mem_symmetries {e : Equiv.Perm ι} : e ∈ symmetries F ↔ ∀ x, F (x ∘ e) = F x ∘ e :=
  Iff.rfl

end Cellular
