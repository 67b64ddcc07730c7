import SystemyOperacyjne.Library.Stepping
import Mathlib.Algebra.BigOperators.Ring.Finset
import Mathlib.Algebra.Order.Ring.Rat
import Mathlib.Data.Rat.Floor
import Mathlib.Tactic.NormNum
import Mathlib.Tactic.Positivity

/-!
# Quadrature

`cw6/zadanie1/integrals.c` and `cw6/zadanie2/integral.c`. The numbers of `integrals.c` are of any type with
the operations that it uses; what is proved here about the results is about rational numbers in the place of
`float`. The closing piece of `intergral` is sampled in its middle. A piece of the loop is sampled at
`(start + step) / 2`, which is the middle of it only if it begins at 0.
-/

namespace SystemyOperacyjne.Quadrature
open Finset Stepping

section
variable {F : Type} [One F] [OfNat F 2] [OfNat F 4] [Add F] [Mul F] [Div F] [LT F] [DecidableLT F]

def function (x : F) : F := 4 / (x * x + 1)

/-- The loop of `intergral`: `start` and `result` after it, `none` without fuel. -/
def intergralLoop (end' step : F) : ℕ → F → F → Option (F × F)
  | 0, _, _ => none
  | fuel + 1, start, result =>
    if start + step < end' then
      intergralLoop end' step fuel (start + step) (result + function ((start + step) / 2) * step)
    else some (start, result)

lemma intergralLoop_mono {end' step : F} {fuel fuel' : ℕ} (hle : fuel ≤ fuel') {start result : F} {p : F × F}
    (h : intergralLoop end' step fuel start result = some p) : intergralLoop end' step fuel' start result = some p := by
  induction fuel generalizing fuel' start result with
  | zero => cases h
  | succ fuel ih =>
    obtain ⟨fuel', rfl⟩ := Nat.exists_eq_add_of_le' (Nat.one_le_of_lt hle)
    rw [intergralLoop] at h ⊢
    by_cases hlt : start + step < end'
    · rw [if_pos hlt] at h ⊢
      exact ih (Nat.le_of_succ_le_succ hle) h
    · rwa [if_neg hlt] at h ⊢

variable [Zero F] [Sub F] [NatCast F]

def intergral (fuel : ℕ) (start end' step : F) : Option F :=
  (intergralLoop end' step fuel start 0).map fun (start, result) =>
    result + function ((end' - start) / 2 + start) * (end' - start)

/-- `main` of `integrals.c`: worker `i` writes its result to pipe `i`, and the parent reads the pipes
in order. -/
def integrals (fuel : ℕ) (step : F) (n : ℕ) : Option F :=
  let step1 : F := 1 / n
  ((List.range n).mapM fun (i : ℕ) => intergral fuel (i * step1) ((i + 1 : ℕ) * step1) step).map fun data =>
    data.foldl (· + ·) 0

end

/-- The intervals on which `main` of `integral.c` calls `intergral`. -/
def calls (start end' : ℚ) : List (ℚ × ℚ) :=
  let n : ℕ := 10
  let step : ℚ := n / (end' - start)
  (List.range n).map fun (i : ℕ) => (i * step, (i + 1) * step)

/-- `main` of `integral.c`. -/
def integral (fuel : ℕ) (start end' : ℚ) : Option ℚ :=
  let n : ℕ := 10
  let step : ℚ := n / (end' - start)
  (calls start end').foldlM (fun res (a, b) => (intergral fuel a b step).map (res + ·)) 0

/-! ### The result of `intergral` -/

lemma intergralLoop_eq {start end' step : ℚ} {N fuel : ℕ} (h : Passes start end' step N) (hfuel : N < fuel)
    (result : ℚ) : intergralLoop end' step fuel start result =
      some (start + N * step, result + ∑ k ∈ range N, function ((start + k * step + step) / 2) * step) := by
  induction N generalizing fuel start result with
  | zero =>
    obtain ⟨fuel, rfl⟩ := Nat.exists_eq_succ_of_ne_zero (show fuel ≠ 0 by omega)
    have hlast := h.last
    simp only [Nat.cast_zero, zero_mul, add_zero] at hlast
    rw [intergralLoop, if_neg (not_lt.mpr hlast)]
    simp
  | succ N ih =>
    obtain ⟨fuel, rfl⟩ := Nat.exists_eq_succ_of_ne_zero (show fuel ≠ 0 by omega)
    have hlt := h.before 0 (Nat.succ_pos N)
    simp only [Nat.cast_zero, zero_mul, add_zero] at hlt
    rw [intergralLoop, if_pos hlt, ih h.tail (by omega)]
    congr 2
    · push_cast
      ring
    · rw [sum_range_succ', Nat.cast_zero, zero_mul, add_zero]
      simp only [add_succ_mul]
      ring

/-- The result of `intergral`, in the pieces of its steps and the closing piece. -/
theorem intergral_eq {start end' step : ℚ} {N fuel : ℕ} (h : Passes start end' step N) (hfuel : N < fuel) :
    intergral fuel start end' step = some (∑ k ∈ range N, function ((start + k * step + step) / 2) * step +
      function ((end' - (start + N * step)) / 2 + (start + N * step)) * (end' - (start + N * step))) := by
  rw [intergral, intergralLoop_eq h hfuel, Option.map_some, zero_add]

lemma intergralLoop_none {start end' step : ℚ} {N fuel : ℕ} (h : Passes start end' step N) (hfuel : fuel ≤ N)
    (result : ℚ) : intergralLoop end' step fuel start result = none := by
  induction fuel generalizing N start result with
  | zero => rfl
  | succ fuel ih =>
    obtain ⟨N, rfl⟩ := Nat.exists_eq_succ_of_ne_zero (show N ≠ 0 by omega)
    have hlt := h.before 0 (Nat.succ_pos N)
    simp only [Nat.cast_zero, zero_mul, add_zero] at hlt
    rw [intergralLoop, if_pos hlt]
    exact ih h.tail (by omega) _

lemma lt_of_intergral_eq_some {start end' step r : ℚ} {N fuel : ℕ} (h : Passes start end' step N)
    (hr : intergral fuel start end' step = some r) : N < fuel := by
  by_contra hfuel
  rw [intergral, intergralLoop_none h (not_lt.mp hfuel)] at hr
  exact absurd hr (Option.some_ne_none r).symm

/-- The pieces of the midpoint rule are tiles of the interval, as wide as the step apart from a last one
that is no wider. -/
theorem tiles_pieces {start end' step : ℚ} (hlt : start < end') (hstep : 0 < step) :
    ∃ N : ℕ, ⌈(end' - start) / step⌉₊ = N + 1 ∧
      Tiles start end' ((List.range (N + 1)).map fun k => (cut start end' step k, cut start end' step (k + 1))) ∧
      (∀ k < N, cut start end' step (k + 1) - cut start end' step k = step) ∧
      cut start end' step (N + 1) - cut start end' step N ≤ step := by
  obtain ⟨N, h⟩ : ∃ N, Passes start end' step N := exists_passes hstep
  obtain ⟨hwidth, -, hlast⟩ := h.widths hlt
  exact ⟨N, h.ceil_eq hstep hlt, h.tiles hstep hlt, hwidth, hlast⟩

/-! ### The samples -/

/-- By how much the value at the sample of a piece of the loop exceeds that in the middle of it. -/
def excess (step a : ℚ) : ℚ := function ((a + step) / 2) - function (a + step / 2)

lemma denominator_ne_zero (x : ℚ) : x * x + 1 ≠ 0 :=
  (add_pos_of_nonneg_of_pos (mul_self_nonneg x) one_pos).ne'

lemma excess_eq (step a : ℚ) :
    excess step a = 16 * (a * (3 * a + 2 * step)) / (((a + step) ^ 2 + 4) * ((2 * a + step) ^ 2 + 4)) := by
  have hsample := denominator_ne_zero ((a + step) / 2)
  have hmiddle := denominator_ne_zero (a + step / 2)
  have hsample' : (a + step) ^ 2 + 4 ≠ 0 := by positivity
  have hmiddle' : (2 * a + step) ^ 2 + 4 ≠ 0 := by positivity
  rw [excess, function, function, div_sub_div _ _ hsample hmiddle,
    div_eq_div_iff (mul_ne_zero hsample hmiddle) (mul_ne_zero hsample' hmiddle')]
  ring

lemma excess_denominator_pos (step a : ℚ) : 0 < ((a + step) ^ 2 + 4) * ((2 * a + step) ^ 2 + 4) := by
  positivity

lemma excess_eq_zero_iff (step a : ℚ) : excess step a = 0 ↔ a = 0 ∨ 3 * a + 2 * step = 0 := by
  rw [excess_eq, div_eq_zero_iff, or_iff_left (excess_denominator_pos step a).ne', mul_eq_zero,
    or_iff_right (by norm_num), mul_eq_zero]

lemma excess_nonneg {step a : ℚ} (hstep : 0 < step) (h : 0 ≤ a ∨ 3 * a + 2 * step ≤ 0) : 0 ≤ excess step a := by
  rw [excess_eq]
  refine div_nonneg (mul_nonneg (by norm_num) ?_) (excess_denominator_pos step a).le
  rcases h with hpos | hneg
  · exact mul_nonneg hpos (by linarith)
  · exact mul_nonneg_of_nonpos_of_nonpos (by linarith) hneg

lemma excess_ge (step a : ℚ) : -(step ^ 2 / 3) ≤ excess step a := by
  have hden : 16 ≤ ((a + step) ^ 2 + 4) * ((2 * a + step) ^ 2 + 4) := by
    have hproduct := mul_nonneg (sq_nonneg (a + step)) (sq_nonneg (2 * a + step))
    linarith [sq_nonneg (a + step), sq_nonneg (2 * a + step)]
  rw [excess_eq, le_div_iff₀ (excess_denominator_pos step a)]
  have hsquare := mul_le_mul_of_nonneg_left hden (show 0 ≤ step ^ 2 / 3 by positivity)
  have hcomplete : 0 ≤ (3 * a + step) ^ 2 := sq_nonneg _
  linarith

lemma excess_gt {step b : ℚ} (hstep : 0 < step) (hsmall : step ≤ 1 / 2) (hb : step ^ 2 < b * (3 * b + 2 * step))
    (hsample : (b + step) ^ 2 ≤ 4 * step ^ 2) (hmiddle : (2 * b + step) ^ 2 ≤ 9 * step ^ 2) :
    step ^ 2 / 3 < excess step b := by
  have hsquare : step ^ 2 ≤ 1 / 4 := by nlinarith
  have hden : ((b + step) ^ 2 + 4) * ((2 * b + step) ^ 2 + 4) ≤ 5 * (25 / 4) :=
    mul_le_mul (by linarith) (by linarith) (by positivity) (by norm_num)
  rw [excess_eq, lt_div_iff₀ (excess_denominator_pos step b)]
  have hbound := mul_le_mul_of_nonneg_left hden (show 0 ≤ step ^ 2 / 3 by positivity)
  have hpos : 0 < step ^ 2 := by positivity
  linarith

/-- The only piece that the sample may make smaller. -/
def Straddles (step a : ℚ) : Prop := a < 0 ∧ 0 < 3 * a + 2 * step

lemma excess_add_pos {step a b : ℚ} (hstep : 0 < step) (hsmall : step ≤ 1 / 2) (ha : Straddles step a)
    (hb : b = a + step ∨ b = a - step) : 0 < excess step a + excess step b := by
  obtain ⟨hneg, hpos⟩ := ha
  have hgt : step ^ 2 / 3 < excess step b := by
    rcases hb with rfl | rfl
    · exact excess_gt hstep hsmall (by nlinarith) (by nlinarith) (by nlinarith)
    · exact excess_gt hstep hsmall (by nlinarith) (by nlinarith) (by nlinarith)
  linarith [excess_ge step a]

/-! ### The midpoint rule -/

/-- `intergral` returns what the midpoint rule gives. -/
def Midpoint (start end' step : ℚ) : Prop :=
  ∃ fuel, intergral fuel start end' step = some (midpointRule function start end' step)

/-- The loop makes no step, or one whose sample is as good as the middle. -/
def SamplesMidpoints (start end' step : ℚ) : Prop :=
  (end' ≤ start + step) ∨ end' ≤ start + 2 * step ∧ (start = 0 ∨ 3 * start + 2 * step = 0)

/-- The step is larger than 1/2, the loop makes two steps or more, and the sample makes one of them
smaller. -/
def Mixed (start end' step : ℚ) : Prop :=
  1 / 2 < step ∧ start + 2 * step < end' ∧ ∃ k : ℕ, start + k * step + step < end' ∧ Straddles step (start + k * step)

section
variable {start end' step : ℚ} {N : ℕ}

theorem midpoint_iff_sum (h : Passes start end' step N) (hlt : start < end') (hstep : 0 < step) :
    Midpoint start end' step ↔ ∑ k ∈ range N, excess step (start + k * step) = 0 := by
  have hsum : ∑ k ∈ range N, function ((start + k * step + step) / 2) * step =
      ∑ k ∈ range N, function (start + k * step + step / 2) * step +
        (∑ k ∈ range N, excess step (start + k * step)) * step := by
    rw [sum_mul, ← sum_add_distrib]
    refine sum_congr rfl fun k _ => ?_
    rw [excess]
    ring
  have hrule := h.midpointRule_eq hstep hlt function
  constructor
  · rintro ⟨fuel, hfuel⟩
    rw [intergral_eq h (lt_of_intergral_eq_some h hfuel), Option.some_inj, hrule, hsum, add_left_inj,
      add_eq_left, mul_eq_zero] at hfuel
    exact hfuel.resolve_right hstep.ne'
  · intro hzero
    refine ⟨N + 1, ?_⟩
    rw [intergral_eq h (Nat.lt_succ_self N), hrule, hsum, hzero, zero_mul, add_zero]

lemma excess_eq_zero_of_samplesMidpoints (h : Passes start end' step N) (hstep : 0 < step)
    (hsamples : SamplesMidpoints start end' step) : ∀ k ∈ range N, excess step (start + k * step) = 0 := by
  intro k hk
  have hbefore := h.before k (mem_range.mp hk)
  rcases hsamples with hnone | ⟨hone, hgood⟩
  · have hk0 : (0 : ℚ) ≤ k * step := by positivity
    linarith
  · cases k with
    | zero => simpa using (excess_eq_zero_iff step start).mpr hgood
    | succ k =>
      have hk0 : (0 : ℚ) ≤ k * step := by positivity
      push_cast at hbefore
      linarith

/-- Two pieces in a row cannot both have a sample that is as good as the middle. -/
lemma samplesMidpoints_of_forall (h : Passes start end' step N) (hstep : 0 < step)
    (hzero : ∀ k ∈ range N, excess step (start + k * step) = 0) : SamplesMidpoints start end' step := by
  have hlast := h.last
  cases N with
  | zero => exact .inl (by simpa using hlast)
  | succ N =>
    have hfirst := (excess_eq_zero_iff step start).mp (by simpa using hzero 0 (by simp))
    cases N with
    | zero =>
      refine .inr ⟨?_, hfirst⟩
      push_cast at hlast
      linarith
    | succ N =>
      -- the next piece begins one step later, and cannot be as good again
      have hsecond := (excess_eq_zero_iff step (start + step)).mp (by simpa using hzero 1 (by simp))
      rcases hfirst with hfirst | hfirst <;> rcases hsecond with hsecond | hsecond <;> linarith

lemma excess_nonneg_of_ne (hstep : 0 < step) {k j : ℕ} (hk : Straddles step (start + k * step)) (hj : j ≠ k) :
    0 ≤ excess step (start + j * step) := by
  obtain ⟨hneg, hpos⟩ := hk
  apply excess_nonneg hstep
  rcases Nat.lt_or_gt_of_ne hj with hlt | hgt
  · right
    have hle : (j : ℚ) + 1 ≤ k := by exact_mod_cast hlt
    have hmul := mul_le_mul_of_nonneg_right hle hstep.le
    linarith
  · left
    have hle : (k : ℚ) + 1 ≤ j := by exact_mod_cast hgt
    have hmul := mul_le_mul_of_nonneg_right hle hstep.le
    linarith

/-- Small steps: the piece that straddles has a neighbour that makes up for it. -/
lemma sum_excess_pos (hstep : 0 < step) (hsmall : step ≤ 1 / 2) {k : ℕ} (hk : k < N) (hN : 2 ≤ N)
    (hstraddles : Straddles step (start + k * step)) : 0 < ∑ j ∈ range N, excess step (start + j * step) := by
  obtain ⟨j, hj, hne, hnext⟩ : ∃ j, j < N ∧ j ≠ k ∧ (start + j * step = start + k * step + step ∨
      start + j * step = start + k * step - step) := by
    by_cases hlast : k + 1 < N
    · exact ⟨k + 1, hlast, by omega, .inl (by push_cast; ring)⟩
    · obtain ⟨j, rfl⟩ : ∃ j, k = j + 1 := ⟨k - 1, by omega⟩
      exact ⟨j, by omega, by omega, .inr (by push_cast; ring)⟩
  have hpair := excess_add_pos hstep hsmall hstraddles hnext
  have hrest : 0 ≤ ∑ i ∈ ((range N).erase k).erase j, excess step (start + i * step) :=
    sum_nonneg fun i hi => excess_nonneg_of_ne hstep hstraddles (mem_erase.mp (mem_erase.mp hi).2).1
  rw [← add_sum_erase (range N) _ (mem_range.mpr hk),
    ← add_sum_erase ((range N).erase k) _ (mem_erase.mpr ⟨hne, mem_range.mpr hj⟩)]
  linarith

/-- `intergral` is the midpoint rule if its loop samples no piece badly; and only then, unless the step
is large and there are pieces on both sides of 0 whose errors might outweigh each other. -/
theorem midpoint_of_samplesMidpoints (start end' step : ℚ) (hlt : start < end') (hstep : 0 < step) :
    (SamplesMidpoints start end' step → Midpoint start end' step) ∧
      (¬Mixed start end' step → Midpoint start end' step → SamplesMidpoints start end' step) := by
  obtain ⟨N, h⟩ : ∃ N, Passes start end' step N := exists_passes hstep
  rw [midpoint_iff_sum h hlt hstep]
  refine ⟨fun hsamples => sum_eq_zero (excess_eq_zero_of_samplesMidpoints h hstep hsamples), fun hmixed hsum => ?_⟩
  apply samplesMidpoints_of_forall h hstep
  by_cases hN : 2 ≤ N
  · by_cases hstraddles : ∃ k < N, Straddles step (start + k * step)
    · obtain ⟨k, hk, hk'⟩ := hstraddles
      have hsmall : step ≤ 1 / 2 := by
        by_contra hlarge
        have hbefore := h.before 1 (by omega)
        rw [Nat.cast_one, one_mul] at hbefore
        exact hmixed ⟨not_le.mp hlarge, by linarith, k, h.before k hk, hk'⟩
      exact absurd hsum (sum_excess_pos hstep hsmall hk hN hk').ne'
    · have hnonneg : ∀ k ∈ range N, 0 ≤ excess step (start + k * step) := by
        intro k hk
        apply excess_nonneg hstep
        by_contra hneg
        rw [not_or, not_le, not_le] at hneg
        exact hstraddles ⟨k, mem_range.mp hk, hneg⟩
      exact (sum_eq_zero_iff_of_nonneg hnonneg).mp hsum
  · -- there is one piece at most
    intro k hk
    have hk := mem_range.mp hk
    obtain rfl : k = 0 := by omega
    obtain rfl : N = 1 := by omega
    simpa using hsum

end

/-- The only piece of the loop begins two thirds of a step before 0. -/
theorem midpoint_twoThirds : Midpoint (-2 / 3) (4 / 3) 1 ∧ ¬Midpoint 1 3 1 := by
  constructor
  · apply (midpoint_of_samplesMidpoints (-2 / 3) (4 / 3) 1 (by norm_num) (by norm_num)).1
    norm_num [SamplesMidpoints]
  · intro h
    have hsamples := (midpoint_of_samplesMidpoints 1 3 1 (by norm_num) (by norm_num)).2
      (fun ⟨_, hlt, _⟩ => by norm_num at hlt) h
    norm_num [SamplesMidpoints] at hsamples

/-- The piece from 1 to 2 is sampled at 1. -/
theorem not_midpoint : ¬∀ start end' step : ℚ, start < end' → 0 < step → Midpoint start end' step := by
  intro h
  have hpasses : Passes (1 : ℚ) 3 1 1 := by
    refine ⟨fun k hk => ?_, by norm_num⟩
    obtain rfl : k = 0 := by omega
    norm_num
  have hsum := (midpoint_iff_sum hpasses (by norm_num) (by norm_num)).mp (h 1 3 1 (by norm_num) (by norm_num))
  norm_num [excess, function] at hsum

/-! ### The workers -/

/-- The workers and a single call return the same number. -/
def SplitsEvenly (n m : ℕ) : Prop :=
  ∃ (fuel : ℕ) (r : ℚ), integrals fuel (1 / (n * m) : ℚ) n = some r ∧ intergral fuel 0 1 (1 / (n * m) : ℚ) = some r

section
variable {n m : ℕ}

/-- The sample of piece `j`, times the width. -/
def sampled (step : ℚ) (j : ℕ) : ℚ := function ((j * step + step) / 2) * step

lemma passes_worker (hn : 1 ≤ n) (hm : 1 ≤ m) (i : ℕ) :
    Passes ((i : ℚ) * (1 / n)) ((i + 1) * (1 / n)) (1 / (n * m)) (m - 1) := by
  have hn' : (0 : ℚ) < n := Nat.cast_pos.mpr hn
  have hm' : (0 : ℚ) < m := Nat.cast_pos.mpr hm
  have hstep : (0 : ℚ) < 1 / (n * m) := by positivity
  have hwidth : (1 : ℚ) / n = m * (1 / (n * m)) := by
    field_simp
  refine ⟨fun k hk => ?_, ?_⟩
  · have hk' : ((k : ℚ) + 1) < m := by
      exact_mod_cast (show k + 1 < m by omega)
    have hlt := mul_lt_mul_of_pos_right hk' hstep
    rw [hwidth]
    linarith
  · rw [hwidth]
    push_cast [Nat.cast_sub hm]
    linarith

/-- What the last sample of worker `i` would have been more in the loop. -/
def lost (n m i : ℕ) : ℚ :=
  excess (1 / (n * m)) ((i * m + (m - 1) : ℕ) * (1 / (n * m))) * (1 / (n * m))

/-- The result of worker `i`: the samples of its pieces, the last of which is not that of the loop. -/
lemma worker_eq (hn : 1 ≤ n) (hm : 1 ≤ m) {fuel : ℕ} (hfuel : m ≤ fuel) (i : ℕ) :
    intergral fuel ((i : ℚ) * (1 / n)) ((i + 1) * (1 / n)) (1 / (n * m)) =
      some (∑ k ∈ range m, sampled (1 / (n * m)) (i * m + k) - lost n m i) := by
  have hpasses := passes_worker hn hm i
  have hn' : (n : ℚ) ≠ 0 := Nat.cast_ne_zero.mpr (by omega)
  have hm' : (m : ℚ) ≠ 0 := Nat.cast_ne_zero.mpr (by omega)
  have hstart : (i : ℚ) * (1 / n) = (i * m : ℕ) * (1 / (n * m)) := by
    push_cast
    field_simp
  have hend : ((i : ℚ) + 1) * (1 / n) = ((i * m + (m - 1) : ℕ) + 1) * (1 / (n * m)) := by
    push_cast [Nat.cast_sub hm]
    field_simp
    ring
  rw [intergral_eq hpasses (by omega), hend, hstart, lost]
  obtain ⟨l, rfl⟩ : ∃ l, m = l + 1 := ⟨m - 1, by omega⟩
  rw [Nat.add_sub_cancel, sum_range_succ, add_sub_assoc]
  congr 2
  · refine sum_congr rfl fun k _ => ?_
    rw [sampled]
    congr 3
    push_cast
    ring
  · rw [sampled, excess, sub_mul, sub_sub_cancel]
    congr 2
    · push_cast
      ring
    · push_cast
      ring

lemma foldl_map_range (g : ℕ → ℚ) (n : ℕ) : ((List.range n).map g).foldl (· + ·) 0 = ∑ i ∈ range n, g i := by
  induction n with
  | zero => rfl
  | succ n ih => rw [List.range_succ, List.map_append, List.foldl_append, ih, sum_range_succ]; rfl

lemma integrals_eq (hn : 1 ≤ n) (hm : 1 ≤ m) {fuel : ℕ} (hfuel : m ≤ fuel) :
    integrals fuel (1 / (n * m) : ℚ) n =
      some (∑ j ∈ range (n * m), sampled (1 / (n * m)) j - ∑ i ∈ range n, lost n m i) := by
  have hworkers : (fun i : ℕ => intergral fuel ((i : ℚ) * (1 / n)) ((i + 1 : ℕ) * (1 / n)) (1 / (n * m))) =
      fun i => pure (∑ k ∈ range m, sampled (1 / (n * m)) (i * m + k) - lost n m i) := by
    funext i
    rw [Nat.cast_succ]
    exact worker_eq hn hm hfuel i
  rw [integrals, hworkers, List.mapM_pure, Option.pure_def, Option.map_some, foldl_map_range, sum_sub_distrib,
    sum_blocks]

lemma single_eq (hn : 1 ≤ n) (hm : 1 ≤ m) {fuel : ℕ} (hfuel : n * m ≤ fuel) :
    intergral fuel 0 1 (1 / (n * m) : ℚ) =
      some (∑ j ∈ range (n * m), sampled (1 / (n * m)) j - lost n m (n - 1)) := by
  have hpos : 1 ≤ n * m := Nat.mul_pos hn hm
  have hlast : (n - 1) * m + (m - 1) = n * m - 1 := by
    obtain ⟨k, rfl⟩ : ∃ k, n = k + 1 := ⟨n - 1, by omega⟩
    rw [Nat.add_sub_cancel, Nat.succ_mul]
    omega
  have h := worker_eq (n := 1) le_rfl hpos hfuel 0
  simpa [lost, hlast] using h

lemma lost_nonneg (hn : 1 ≤ n) (hm : 1 ≤ m) (i : ℕ) : 0 ≤ lost n m i := by
  have hn' : (0 : ℚ) < n := Nat.cast_pos.mpr hn
  have hm' : (0 : ℚ) < m := Nat.cast_pos.mpr hm
  have hstep : (0 : ℚ) < 1 / (n * m) := by positivity
  exact mul_nonneg (excess_nonneg hstep (.inl (by positivity))) hstep.le

lemma lost_eq_zero_iff (hn : 1 ≤ n) (hm : 1 ≤ m) (i : ℕ) : lost n m i = 0 ↔ i = 0 ∧ m = 1 := by
  have hn' : (0 : ℚ) < n := Nat.cast_pos.mpr hn
  have hm' : (0 : ℚ) < m := Nat.cast_pos.mpr hm
  have hstep : (0 : ℚ) < 1 / (n * m) := by positivity
  have hstart : (0 : ℚ) ≤ (i * m + (m - 1) : ℕ) * (1 / (n * m)) := by positivity
  rw [lost, mul_eq_zero, or_iff_left hstep.ne', excess_eq_zero_iff, or_iff_left (by linarith), mul_eq_zero,
    or_iff_left hstep.ne', Nat.cast_eq_zero, Nat.add_eq_zero_iff, Nat.mul_eq_zero]
  omega

lemma splitsEvenly_iff_sum (hn : 1 ≤ n) (hm : 1 ≤ m) :
    SplitsEvenly n m ↔ ∑ i ∈ range (n - 1), lost n m i = 0 := by
  have hle : m ≤ n * m := Nat.le_mul_of_pos_left m hn
  have hlast : ∑ i ∈ range n, lost n m i = ∑ i ∈ range (n - 1), lost n m i + lost n m (n - 1) := by
    rw [← sum_range_succ, Nat.sub_add_cancel hn]
  constructor
  · rintro ⟨fuel, r, hworkers, hsingle⟩
    have hpasses := passes_worker (n := 1) le_rfl (Nat.mul_pos hn hm) 0
    have hfuel := lt_of_intergral_eq_some (by simpa using hpasses) hsingle
    rw [single_eq hn hm (by omega)] at hsingle
    rw [integrals_eq hn hm (by omega), ← hsingle, Option.some_inj, sub_right_inj, hlast] at hworkers
    exact add_eq_right.mp hworkers
  · intro hzero
    refine ⟨n * m, _, integrals_eq hn hm hle, ?_⟩
    rw [single_eq hn hm le_rfl, hlast, hzero, zero_add]

end

/-- The workers and a single call agree exactly if there is one worker, or two of one piece each. -/
theorem splitsEvenly_iff (n m : ℕ) (hn : 1 ≤ n) (hm : 1 ≤ m) : SplitsEvenly n m ↔ n = 1 ∨ n = 2 ∧ m = 1 := by
  rw [splitsEvenly_iff_sum hn hm, sum_eq_zero_iff_of_nonneg fun i _ => lost_nonneg hn hm i]
  constructor
  · intro hzero
    by_cases hn1 : n = 1
    · exact .inl hn1
    · -- the closing piece of the last worker but one is a piece of the loop for a single call
      have hlost := (lost_eq_zero_iff hn hm (n - 2)).mp (hzero (n - 2) (mem_range.mpr (by omega)))
      exact .inr ⟨by omega, hlost.2⟩
  · rintro (rfl | ⟨rfl, rfl⟩) i hi
    · exact absurd (mem_range.mp hi) (Nat.not_lt_zero i)
    · have hi := mem_range.mp hi
      exact (lost_eq_zero_iff hn hm i).mpr ⟨by omega, rfl⟩

theorem splitsEvenly_two : SplitsEvenly 2 1 :=
  (splitsEvenly_iff 2 1 (by decide) (by decide)).mpr (.inr ⟨rfl, rfl⟩)

/-- The second of three workers samples its piece in the middle, and a single call does not. -/
theorem not_splitsEvenly : ¬∀ n m : ℕ, 1 ≤ n → 1 ≤ m → SplitsEvenly n m := by
  intro h
  have hsum := (splitsEvenly_iff_sum (by decide) le_rfl).mp (h 3 1 (by decide) le_rfl)
  norm_num [lost, excess, function, sum_range_succ] at hsum

/-! ### The service -/

lemma monotone_mul {step : ℚ} (hstep : 0 ≤ step) : Monotone fun i : ℕ => (i : ℚ) * step := by
  intro i j hij
  exact mul_le_mul_of_nonneg_right (Nat.cast_le.mpr hij) hstep

lemma tiles_calls (start end' : ℚ) (hlt : start < end') :
    Tiles 0 (10 * (10 / (end' - start))) (calls start end') := by
  have hstep : 0 ≤ (10 : ℚ) / (end' - start) := div_nonneg (by norm_num) (by linarith)
  have h := tiles_map_range (monotone_mul hstep) (n := 10) (by decide)
  simpa [calls] using h

/-- The service integrates over the interval that is requested only if this reaches from 0 to 10. -/
theorem tiles_calls_iff (start end' : ℚ) (hlt : start < end') :
    Tiles start end' (calls start end') ↔ start = 0 ∧ end' = 10 := by
  constructor
  · intro h
    obtain ⟨rfl, hend⟩ := h.unique hlt.le (tiles_calls start end' hlt)
    refine ⟨rfl, ?_⟩
    rw [sub_zero, ← mul_div_assoc, eq_div_iff hlt.ne'] at hend
    nlinarith
  · rintro ⟨rfl, rfl⟩
    have h := tiles_calls 0 10 (by norm_num)
    norm_num at h
    exact h

theorem tiles_calls_ten : Tiles 0 10 (calls 0 10) :=
  (tiles_calls_iff 0 10 (by norm_num)).mpr ⟨rfl, rfl⟩

/-- For the interval from 0 to 1 the service takes steps of width 10. -/
theorem not_tiles_calls : ¬∀ start end' : ℚ, start < end' → Tiles start end' (calls start end') := by
  intro h
  obtain ⟨-, hend⟩ := (h 0 1 one_pos).unique one_pos.le (tiles_calls 0 1 one_pos)
  norm_num at hend

end SystemyOperacyjne.Quadrature
