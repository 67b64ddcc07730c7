import Mathlib.Data.List.GetD
import Mathlib.Data.List.OfFn
import Mathlib.Data.List.Induction
import Mathlib.Data.List.TakeWhile

/-!
# Strings in arrays of bytes

A C string is what an array holds from some offset up to the next zero byte. An array is a
function on its indices; a copy into it that is longer than the array has no result.
-/

namespace CString

/-- A string literal of ASCII characters, without its terminator. -/
def bytesOf (s : String) : List UInt8 :=
  s.toList.map fun c => c.toNat.toUInt8

variable {n : ℕ}

/-- The array after the bytes were copied to its beginning, as far as they fit. -/
def overwrite (a : Fin n → UInt8) (bytes : List UInt8) : Fin n → UInt8 :=
  fun k => bytes.getD k (a k)

/-- `memcpy` to the beginning of an array; `none` is a write behind its end. -/
def memcpy (a : Fin n → UInt8) (bytes : List UInt8) : Option (Fin n → UInt8) :=
  if bytes.length ≤ n then some (overwrite a bytes) else none

/-- The string at the beginning of an array. -/
def cString (a : Fin n → UInt8) : List UInt8 :=
  (List.ofFn a).takeWhile (· ≠ 0)

/-- The string at an offset; `none` when there is no terminator behind it. -/
def stringAt (a : Fin n → UInt8) (k : ℕ) : Option (List UInt8) :=
  if 0 ∈ (List.ofFn a).drop k then some (((List.ofFn a).drop k).takeWhile (· ≠ 0)) else none

lemma ofFn_overwrite (a : Fin n → UInt8) {bytes : List UInt8} (h : bytes.length ≤ n) :
    List.ofFn (overwrite a bytes) = bytes ++ (List.ofFn a).drop bytes.length := by
  apply List.ext_getElem
  · simp [h]
  · intro k hk₁ hk₂
    rw [List.getElem_ofFn, overwrite]
    by_cases hk : k < bytes.length
    · rw [List.getD_eq_getElem bytes _ hk, List.getElem_append_left hk]
    · rw [List.getD_eq_default _ _ (by simpa using hk), List.getElem_append_right (by omega),
        List.getElem_drop, List.getElem_ofFn]
      congr 1
      exact Fin.ext (by simp only; omega)

lemma cString_overwrite_zero {bytes : List UInt8} (h : bytes.length ≤ n) (hz : ∀ b ∈ bytes, b ≠ 0) :
    cString (overwrite (fun _ : Fin n => 0) bytes) = bytes := by
  have hrest : ((List.ofFn fun _ : Fin n => (0 : UInt8)).drop bytes.length).takeWhile (· ≠ 0) = [] := by
    rw [List.ofFn_const, List.drop_replicate, List.takeWhile_replicate]
    simp
  unfold cString
  rw [ofFn_overwrite _ h, List.takeWhile_append_of_pos (by simpa using hz), hrest, List.append_nil]

lemma update_overwrite (a : Fin n → UInt8) {bytes : List UInt8} (h : bytes.length < n) (b : UInt8) :
    Function.update (overwrite a bytes) ⟨bytes.length, h⟩ b = overwrite a (bytes ++ [b]) := by
  funext k
  by_cases hk : k = ⟨bytes.length, h⟩
  · subst hk
    simp [overwrite, List.getD]
  · have hne : k.val ≠ bytes.length := fun he => hk (Fin.ext he)
    rw [Function.update_of_ne hk, overwrite, overwrite]
    by_cases hlt : k.val < bytes.length
    · rw [List.getD_append _ _ _ _ hlt]
    · rw [List.getD_eq_default _ _ (by omega), List.getD_eq_default _ _ (by simp; omega)]

lemma stringAt_of_ofFn {a : Fin n → UInt8} {l rest : List UInt8} (h : List.ofFn a = l ++ 0 :: rest)
    (hz : ∀ b ∈ l, b ≠ 0) {k : ℕ} (hk : k ≤ l.length) : stringAt a k = some (l.drop k) := by
  have hdrop : (List.ofFn a).drop k = l.drop k ++ 0 :: rest := by
    rw [h, List.drop_append_of_le_length hk]
  have hz' : ∀ b ∈ l.drop k, b ≠ 0 := fun b hb => hz b (List.mem_of_mem_drop hb)
  unfold stringAt
  rw [hdrop, if_pos (by simp), List.takeWhile_append_of_pos (by simpa using hz')]
  simp

lemma cString_of_ofFn {a : Fin n → UInt8} {l rest : List UInt8} (h : List.ofFn a = l ++ 0 :: rest)
    (hz : ∀ b ∈ l, b ≠ 0) : cString a = l := by
  unfold cString
  rw [h, List.takeWhile_append_of_pos (by simpa using hz)]
  simp

/-- A string that was copied without its terminator goes on with what the array held behind it. -/
lemma stringAt_overwrite {a : Fin n → UInt8} {bytes : List UInt8} (h : bytes.length ≤ n) (hz : ∀ b ∈ bytes, b ≠ 0) :
    stringAt (overwrite a bytes) 0 = (stringAt a bytes.length).map (bytes ++ ·) := by
  have hnone : 0 ∉ bytes := fun h0 => hz 0 h0 rfl
  unfold stringAt
  rw [ofFn_overwrite a h, List.drop_zero]
  by_cases h0 : 0 ∈ (List.ofFn a).drop bytes.length
  · rw [if_pos (List.mem_append_right _ h0), if_pos h0, List.takeWhile_append_of_pos (by simpa using hz)]
    rfl
  · rw [if_neg (by simp [hnone, h0]), if_neg h0]
    rfl

lemma ofFn_of_stringAt {a : Fin n → UInt8} {l : List UInt8} (h : stringAt a 0 = some l) :
    ∃ rest, List.ofFn a = l ++ 0 :: rest ∧ ∀ b ∈ l, b ≠ 0 := by
  unfold stringAt at h
  split at h
  · next h0 =>
    obtain rfl := Option.some.inj h
    rw [List.drop_zero] at h0 ⊢
    refine ⟨((List.ofFn a).dropWhile (· ≠ 0)).tail, ?_, fun b hb => by simpa using List.mem_takeWhile_imp hb⟩
    have hne : (List.ofFn a).dropWhile (· ≠ 0) ≠ [] := by
      intro hnil
      have hall := List.dropWhile_eq_nil_iff.mp hnil 0 h0
      simp at hall
    have hhead : ((List.ofFn a).dropWhile (· ≠ 0)).head hne = 0 := by
      simpa using List.head_dropWhile_not (· ≠ (0 : UInt8)) hne
    have hcons : (0 : UInt8) :: ((List.ofFn a).dropWhile (· ≠ 0)).tail = (List.ofFn a).dropWhile (· ≠ 0) := by
      conv_rhs => rw [← List.cons_head_tail hne, hhead]
    rw [hcons, List.takeWhile_append_dropWhile]
  · cases h

lemma stringAt_eq_nil {a : Fin n → UInt8} {k : ℕ} : stringAt a k = some [] ↔ ∃ h : k < n, a ⟨k, h⟩ = 0 := by
  unfold stringAt
  by_cases hk : k < n
  · have hdrop : (List.ofFn a).drop k = a ⟨k, hk⟩ :: (List.ofFn a).drop (k + 1) := by
      rw [List.drop_eq_getElem_cons (by simpa using hk), List.getElem_ofFn]
    rw [hdrop]
    by_cases h0 : a ⟨k, hk⟩ = 0
    · simp [h0, hk]
    · simp [h0, hk]
  · have hdrop : (List.ofFn a).drop k = [] := List.drop_eq_nil_of_le (by simpa using hk)
    simp [hdrop, hk]

/-- The bytes alone are the string exactly if a terminator stood behind their place. -/
lemma stringAt_overwrite_eq_self {a : Fin n → UInt8} {bytes : List UInt8} (h : bytes.length < n) :
    stringAt (overwrite a bytes) 0 = some bytes ↔ 0 ∉ bytes ∧ a ⟨bytes.length, h⟩ = 0 := by
  by_cases h0 : 0 ∈ bytes
  · refine iff_of_false (fun hs => ?_) fun hand => hand.1 h0
    unfold stringAt at hs
    split at hs
    · have hmem := Option.some.inj hs ▸ h0
      simpa using List.mem_takeWhile_imp hmem
    · cases hs
  · have hz : ∀ b ∈ bytes, b ≠ 0 := fun b hb he => h0 (he ▸ hb)
    have hmap : (stringAt a bytes.length).map (bytes ++ ·) = some bytes ↔ stringAt a bytes.length = some [] := by
      cases stringAt a bytes.length <;> simp
    rw [stringAt_overwrite h.le hz, hmap, stringAt_eq_nil]
    simp [h0, h]

/-- After one copy over the other, a byte is what the last copy that reached it left there. -/
lemma foldl_overwrite_apply (a : Fin n → UInt8) (copies : List (List UInt8)) (k : Fin n) :
    copies.foldl overwrite a k =
      ((copies.reverse.find? fun bytes => k.val < bytes.length).elim (a k) fun bytes => bytes.getD k (a k)) := by
  induction copies using List.reverseRecOn with
  | nil => rfl
  | append_singleton copies bytes ih =>
    rw [List.foldl_append, List.foldl_cons, List.foldl_nil, List.reverse_append, List.reverse_singleton,
      List.singleton_append, List.find?_cons]
    by_cases hk : k.val < bytes.length
    · simp [hk, overwrite, List.getD]
    · simp [hk, overwrite, List.getD, ih]

end CString
