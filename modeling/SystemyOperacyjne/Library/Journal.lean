import Mathlib.Data.List.Basic
import Mathlib.Tactic.Common

/-!
# Journals

Several parties write entries into one list. What one of them wrote, in its order, is read off by its
signature, and an entry of one party leaves what the others wrote alone.
-/

namespace Concurrency

variable {κ α : Type} [DecidableEq κ]

/-- The entries that `x` signed. -/
def signedBy (x : κ) (l : List (κ × α)) : List α :=
  l.filterMap fun e => if e.1 = x then some e.2 else none

@[simp] lemma signedBy_nil (x : κ) : signedBy x ([] : List (κ × α)) = [] := rfl

lemma signedBy_append (x : κ) (l m : List (κ × α)) : signedBy x (l ++ m) = signedBy x l ++ signedBy x m :=
  List.filterMap_append

@[simp] lemma signedBy_concat_self (x : κ) (l : List (κ × α)) (a : α) :
    signedBy x (l ++ [(x, a)]) = signedBy x l ++ [a] := by
  rw [signedBy_append]
  simp [signedBy]

@[simp] lemma signedBy_concat_of_ne {x y : κ} (h : y ≠ x) (l : List (κ × α)) (a : α) :
    signedBy x (l ++ [(y, a)]) = signedBy x l := by
  rw [signedBy_append]
  simp [signedBy, h]

end Concurrency
