import Mathlib.Logic.Function.Iterate
import Mathlib.Data.Nat.Find
import Mathlib.Order.Nat
import Mathlib.Tactic.Common

/-!
# The first time that an orbit meets a condition

Iterates of a function, and the first of them that meets a predicate. Two systems whose states
correspond as long as neither has met its predicate meet them at the same time.
-/

namespace Orbit

variable {α β : Type} {f : α → α} {g : β → β} {p : α → Prop} {q : β → Prop}

/-- The iterate number `k` meets the predicate, and none before it does. -/
def FirstAt (f : α → α) (p : α → Prop) (x : α) (k : ℕ) : Prop :=
  p (f^[k] x) ∧ ∀ j < k, ¬p (f^[j] x)

lemma FirstAt.unique {x : α} {k l : ℕ} (hk : FirstAt f p x k) (hl : FirstAt f p x l) : k = l := by
  rcases lt_trichotomy k l with hlt | rfl | hlt
  · exact absurd hk.1 (hl.2 k hlt)
  · rfl
  · exact absurd hl.1 (hk.2 l hlt)

lemma exists_firstAt {x : α} {n : ℕ} (h : p (f^[n] x)) : ∃ k ≤ n, FirstAt f p x k := by
  classical
  have hmeets : ∃ k, p (f^[k] x) := ⟨n, h⟩
  exact ⟨Nat.find hmeets, Nat.find_min' hmeets h, Nat.find_spec hmeets, fun j hj => Nat.find_min hmeets hj⟩

/-- The iterates correspond for as long as each step that is made before the predicate is met keeps
the correspondence. -/
lemma agree {R : α → β → Prop} {x : α} {y : β} (hxy : R x y) {n : ℕ}
    (hstep : ∀ j < n, (∀ i ≤ j, ¬q (g^[i] y)) → (∀ i ≤ j, R (f^[i] x) (g^[i] y)) → R (f^[j + 1] x) (g^[j + 1] y))
    {j : ℕ} (hj : j ≤ n) (hbefore : ∀ i < j, ¬q (g^[i] y)) : R (f^[j] x) (g^[j] y) := by
  induction j using Nat.strongRecOn with
  | _ j ih =>
    cases j with
    | zero => exact hxy
    | succ j =>
      apply hstep j (by omega) fun i hi => hbefore i (by omega)
      exact fun i hi => ih i (by omega) (by omega) fun k hk => hbefore k (by omega)

/-- Systems that correspond meet their predicates at the same time. -/
theorem firstAt_iff {R : α → β → Prop} {x : α} {y : β} (hxy : R x y) {n : ℕ}
    (hstep : ∀ j < n, (∀ i ≤ j, ¬q (g^[i] y)) → (∀ i ≤ j, R (f^[i] x) (g^[i] y)) → R (f^[j + 1] x) (g^[j + 1] y))
    (hR : ∀ a b, R a b → (p a ↔ q b)) {k : ℕ} (hk : k ≤ n) : FirstAt f p x k ↔ FirstAt g q y k := by
  have hagree : ∀ {j}, j ≤ n → (∀ i < j, ¬q (g^[i] y)) → (p (f^[j] x) ↔ q (g^[j] y)) :=
    fun hj hbefore => hR _ _ (agree hxy hstep hj hbefore)
  constructor
  · rintro ⟨hp, hnot⟩
    have hbefore : ∀ j, j ≤ k → ∀ i < j, ¬q (g^[i] y) := by
      intro j
      induction j with
      | zero => exact fun _ i hi => absurd hi (Nat.not_lt_zero i)
      | succ j ih =>
        intro hj i hi
        have hearlier := ih (by omega)
        rcases Nat.lt_succ_iff_lt_or_eq.mp hi with hlt | rfl
        · exact hearlier i hlt
        · rw [← hagree (by omega) hearlier]
          exact hnot i (by omega)
    exact ⟨(hagree hk (hbefore k le_rfl)).mp hp, hbefore k le_rfl⟩
  · rintro ⟨hq, hnot⟩
    refine ⟨(hagree hk hnot).mpr hq, fun j hj => ?_⟩
    rw [hagree (by omega) fun i hi => hnot i (by omega)]
    exact hnot j hj

end Orbit
