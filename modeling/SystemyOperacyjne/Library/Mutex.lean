import Mathlib.Logic.Basic
import Mathlib.Tactic.Common

/-!
# Owners of a mutex

A mutex records its owner; the program counters of the processes say which of them are
between `lock` and `unlock`. The mutex excludes when only the owner is inside.
-/

namespace Concurrency

variable {ι : Type} {owner : Option ι} {inside inside' : ι → Prop} {i j : ι}

/-- Only the owner of the mutex is between `lock` and `unlock`. -/
def Guards (owner : Option ι) (inside : ι → Prop) : Prop :=
  ∀ i, inside i → owner = some i

lemma Guards.eq_of_inside (h : Guards owner inside) (hi : inside i) (hj : inside j) : i = j := by
  have howner := h i hi
  rw [h j hj] at howner
  exact (Option.some.inj howner).symm

lemma Guards.not_inside (h : Guards owner inside) (hi : inside i) (hj : j ≠ i) : ¬inside j :=
  fun hin => hj (h.eq_of_inside hin hi)

lemma Guards.not_inside_of_free (h : Guards none inside) (i : ι) : ¬inside i := by
  intro hi
  cases h i hi

lemma Guards.keep (h : Guards owner inside) (hsame : ∀ i, inside' i → inside i) : Guards owner inside' :=
  fun i hi => h i (hsame i hi)

lemma Guards.lock (h : Guards none inside) (hsame : ∀ j, j ≠ i → inside' j → inside j) :
    Guards (some i) inside' := by
  intro j hj
  by_cases hji : j = i
  · rw [hji]
  · exact absurd (hsame j hji hj) (h.not_inside_of_free j)

lemma Guards.unlock (h : Guards owner inside) (hi : inside i) (hi' : ¬inside' i)
    (hsame : ∀ j, j ≠ i → inside' j → inside j) : Guards none inside' := by
  intro j hj
  by_cases hji : j = i
  · rw [hji] at hj
    exact absurd hj hi'
  · exact absurd (hsame j hji hj) (h.not_inside hi hji)

end Concurrency
