import Mathlib.Data.Fin.Basic
import Mathlib.Data.Int.ModEq
import Mathlib.Logic.Function.Basic
import Mathlib.Tactic.Common

/-!
# Queues stored in a ring

A ring of `n` slots holds the items of a list from the slot `out` on, wrapping at `n`.
Writing the slot after the last item, with room left, appends an item; moving `out` by
one removes the oldest.
-/

namespace Concurrency

variable {α : Type} {n : ℕ}

/-- The slot `j` places after `out`. -/
def ringSlot (out : Fin n) (j : ℕ) : Fin n :=
  ⟨(out.val + j) % n, Nat.mod_lt _ (Nat.zero_lt_of_lt out.isLt)⟩

@[simp] lemma ringSlot_zero (out : Fin n) : ringSlot out 0 = out :=
  Fin.ext (Nat.mod_eq_of_lt out.isLt)

lemma ringSlot_ringSlot (out : Fin n) (j k : ℕ) :
    ringSlot (ringSlot out j) k = ringSlot out (j + k) := by
  apply Fin.ext
  simp only [ringSlot, Nat.mod_add_mod, Nat.add_assoc]

lemma ringSlot_inj {out : Fin n} {j k : ℕ} (hj : j < n) (hk : k < n)
    (h : ringSlot out j = ringSlot out k) : j = k := by
  have hv : (out.val + j) % n = (out.val + k) % n := congrArg Fin.val h
  have hmod : Nat.ModEq n j k := Nat.ModEq.add_left_cancel' out.val hv
  exact hmod.eq_of_lt_of_lt hj hk

/-- The slots from `out` on hold the items of `q`. -/
def RingHolds (mem : Fin n → α) (out : Fin n) (q : List α) : Prop :=
  ∀ (j : ℕ) (h : j < q.length), mem (ringSlot out j) = q[j]

lemma RingHolds.head {mem : Fin n → α} {out : Fin n} {a : α} {q : List α}
    (h : RingHolds mem out (a :: q)) : mem out = a := by
  have h0 := h 0 (by simp)
  rwa [ringSlot_zero] at h0

/-- The slot after the last item is free, so any write to it leaves the items alone. -/
lemma RingHolds.write_free {mem : Fin n → α} {out : Fin n} {q : List α}
    (h : RingHolds mem out q) (hq : q.length < n) (a : α) :
    RingHolds (Function.update mem (ringSlot out q.length) a) out q := by
  intro j hj
  have hne : ringSlot out j ≠ ringSlot out q.length := by
    intro he
    have := ringSlot_inj (by omega) hq he
    omega
  rw [Function.update_of_ne hne, h j hj]

lemma RingHolds.append {mem : Fin n → α} {out : Fin n} {q : List α}
    (h : RingHolds mem out q) : RingHolds mem out (q ++ [mem (ringSlot out q.length)]) := by
  intro j hj
  by_cases hlt : j < q.length
  · rw [List.getElem_append_left hlt, h j hlt]
  · have he : j = q.length := by
      rw [List.length_append, List.length_singleton] at hj
      omega
    subst he
    simp

lemma RingHolds.tail {mem : Fin n → α} {out : Fin n} {a : α} {q : List α}
    (h : RingHolds mem out (a :: q)) : RingHolds mem (ringSlot out 1) q := by
  intro j hj
  have hs := h (j + 1) (by simpa using hj)
  rw [ringSlot_ringSlot, Nat.add_comm 1 j, hs, List.getElem_cons_succ]

end Concurrency
