import Mathlib.Algebra.Order.Ring.Int
import Mathlib.Data.List.Basic
import Mathlib.Tactic.Linarith
import Mathlib.Tactic.Positivity
import Mathlib.Tactic.Ring

/-!
# Integers in bytes

The bytes of an integer in memory, the lowest first, and the unsigned and the signed integer that some
bytes hold. Negative integers are in two's complement.
-/

namespace LittleEndian

/-- The lowest `w` bytes of an integer. -/
def encode : ℕ → ℤ → List UInt8
  | 0, _ => []
  | w + 1, z => (z % 256).toNat.toUInt8 :: encode w (z / 256)

def decode : List UInt8 → ℕ
  | [] => 0
  | b :: bytes => b.toNat + 256 * decode bytes

def decodeSigned (bytes : List UInt8) : ℤ :=
  (decode bytes : ℤ).bmod (256 ^ bytes.length)

@[simp] lemma length_encode (w : ℕ) (z : ℤ) : (encode w z).length = w := by
  induction w generalizing z with
  | zero => rfl
  | succ w ih => rw [encode, List.length_cons, ih]

lemma decode_lt (bytes : List UInt8) : decode bytes < 256 ^ bytes.length := by
  induction bytes with
  | nil => exact Nat.one_pos
  | cons b bytes ih =>
    have hb : b.toNat < 256 := b.toNat_lt
    rw [decode, List.length_cons, pow_succ]
    omega

lemma decode_append (bytes bytes' : List UInt8) :
    decode (bytes ++ bytes') = decode bytes + 256 ^ bytes.length * decode bytes' := by
  induction bytes with
  | nil => simp [decode]
  | cons b bytes ih =>
    rw [List.cons_append, decode, decode, ih, List.length_cons, pow_succ]
    ring

/-- The lowest byte of what is left of an integer in `w + 1` bytes, and the others. -/
lemma emod_pow_succ (w : ℕ) (z : ℤ) : z % 256 ^ (w + 1) = z % 256 + 256 * (z / 256 % 256 ^ w) := by
  have hpos : (0 : ℤ) < 256 ^ w := by positivity
  have hrest := Int.emod_nonneg (z / 256) hpos.ne'
  have hrest' := Int.emod_lt_of_pos (z / 256) hpos
  have hsum := Int.mul_ediv_add_emod (z / 256) (256 ^ w)
  refine ((Int.ediv_emod_unique (q := z / 256 / 256 ^ w) (by positivity)).mpr ⟨?_, by omega, ?_⟩).2
  · rw [pow_succ']
    linarith [Int.mul_ediv_add_emod z 256]
  · rw [pow_succ']
    omega

lemma decode_encode (w : ℕ) (z : ℤ) : (decode (encode w z) : ℤ) = z % 256 ^ w := by
  induction w generalizing z with
  | zero => rw [encode, decode, pow_zero, Int.emod_one, Nat.cast_zero]
  | succ w ih =>
    have hbyte : (z % 256).toNat < 256 := by omega
    have hfirst : ((z % 256).toNat.toUInt8.toNat : ℤ) = z % 256 := by
      rw [Nat.toUInt8, UInt8.toNat_ofNat_of_lt' hbyte]
      omega
    rw [encode, decode, Nat.cast_add, Nat.cast_mul, ih, hfirst, Nat.cast_ofNat, emod_pow_succ]

lemma encode_emod (w : ℕ) (z : ℤ) : encode w (z % 256 ^ w) = encode w z := by
  induction w generalizing z with
  | zero => rfl
  | succ w ih =>
    have hlow : z % 256 ^ (w + 1) % 256 = z % 256 := by
      rw [emod_pow_succ]
      omega
    have hhigh : z % 256 ^ (w + 1) / 256 = z / 256 % 256 ^ w := by
      rw [emod_pow_succ]
      omega
    rw [encode, encode, hlow, hhigh, ih]

lemma encode_decode (bytes : List UInt8) : encode bytes.length (decode bytes) = bytes := by
  induction bytes with
  | nil => rfl
  | cons b bytes ih =>
    have hb : b.toNat < 256 := b.toNat_lt
    have hlow : ((decode (b :: bytes) : ℤ) % 256).toNat = b.toNat := by
      rw [decode]
      omega
    have hhigh : (decode (b :: bytes) : ℤ) / 256 = decode bytes := by
      rw [decode]
      omega
    rw [List.length_cons, encode, hlow, hhigh, ih]
    simp

/-- What is read as a signed integer is written back as it was. -/
theorem encode_decodeSigned (bytes : List UInt8) : encode bytes.length (decodeSigned bytes) = bytes := by
  have hmod : decodeSigned bytes % 256 ^ bytes.length = (decode bytes : ℤ) % 256 ^ bytes.length := by
    have h := Int.bmod_emod (x := (decode bytes : ℤ)) (m := 256 ^ bytes.length)
    push_cast at h
    exact h
  rw [← encode_emod, hmod, encode_emod, encode_decode]

/-- The signed integers of `w` bytes. -/
def InRange (w : ℕ) (z : ℤ) : Prop := -256 ^ w ≤ 2 * z ∧ 2 * z < 256 ^ w

lemma decodeSigned_encode {w : ℕ} {z : ℤ} (h : InRange w z) : decodeSigned (encode w z) = z := by
  have hmod : (decode (encode w z) : ℤ).bmod (256 ^ w) = z.bmod (256 ^ w) := by
    rw [decode_encode, show (256 : ℤ) ^ w = ((256 ^ w : ℕ) : ℤ) by push_cast; rfl, Int.emod_bmod]
  rw [decodeSigned, length_encode, hmod]
  apply Int.bmod_eq_of_le_mul_two
  · push_cast
    linarith [h.1]
  · push_cast
    linarith [h.2]

lemma bmod_two_mul_iff {z c : ℤ} {half : ℕ} (hpos : 0 < half) :
    z.bmod (2 * half) = c ↔ -half ≤ c ∧ c < half ∧ ∃ k, c = z + 2 * half * k := by
  have hlow : -(((2 * half : ℕ) : ℤ) / 2) = -half := by omega
  have hhigh : (((2 * half : ℕ) : ℤ) + 1) / 2 = half := by omega
  have hdvd : ((2 * half : ℕ) : ℤ) ∣ c - z ↔ ∃ k, c = z + 2 * half * k := by
    push_cast
    exact exists_congr fun k => sub_eq_iff_eq_add'
  rw [Int.bmod_eq_iff (by omega), hlow, hhigh, hdvd]

lemma exists_half {bytes : List UInt8} (h : bytes ≠ []) : ∃ half, 0 < half ∧ 256 ^ bytes.length = 2 * half := by
  obtain ⟨b, rest, rfl⟩ := List.exists_cons_of_ne_nil h
  refine ⟨128 * 256 ^ rest.length, by positivity, ?_⟩
  rw [List.length_cons, pow_succ]
  ring

/-- The sign is in the higher bytes. -/
theorem decodeSigned_append (bytes : List UInt8) {bytes' : List UInt8} (h : bytes' ≠ []) :
    decodeSigned (bytes ++ bytes') = decode bytes + 256 ^ bytes.length * decodeSigned bytes' := by
  obtain ⟨half, hpos, hhalf⟩ := exists_half h
  have hsigned : (decode bytes' : ℤ).bmod (2 * half) = decodeSigned bytes' := by rw [decodeSigned, hhalf]
  obtain ⟨hge, hlt, k, hk⟩ := (bmod_two_mul_iff hpos).mp hsigned
  have hscale : 0 < 256 ^ bytes.length := by positivity
  have hwhole : 256 ^ (bytes ++ bytes').length = 2 * (256 ^ bytes.length * half) := by
    rw [List.length_append, pow_add, hhalf]
    ring
  -- the lower bytes are less than one unit of the higher ones
  have hlow : (decode bytes : ℤ) + 1 ≤ 256 ^ bytes.length := by exact_mod_cast decode_lt bytes
  have hscale' : (0 : ℤ) ≤ 256 ^ bytes.length := by positivity
  have hbelow := mul_le_mul_of_nonneg_left hge hscale'
  have habove := mul_le_mul_of_nonneg_left (show decodeSigned bytes' + 1 ≤ half by omega) hscale'
  rw [decodeSigned, hwhole, bmod_two_mul_iff (Nat.mul_pos hscale hpos), decode_append]
  push_cast
  refine ⟨by linarith, by linarith, k, ?_⟩
  rw [hk]
  ring

end LittleEndian
