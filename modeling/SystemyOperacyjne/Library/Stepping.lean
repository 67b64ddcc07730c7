import Mathlib.Algebra.BigOperators.Group.Finset.Basic
import Mathlib.Algebra.Order.Archimedean.Basic
import Mathlib.Algebra.Order.Floor.Semiring
import Mathlib.Data.List.Range
import Mathlib.Data.Nat.SuccPred
import Mathlib.Order.SuccPred.IntervalSucc
import Mathlib.Tactic.FieldSimp
import Mathlib.Tactic.Linarith
import Mathlib.Tactic.Ring

/-!
# Stepping through an interval

A variable that starts at one end of an interval and grows by a fixed step for as long as the next
step stays before the other end; the pieces into which it cuts the interval, and sums over them.
-/

namespace Stepping
open Finset

/-! ### Tiles and blocks -/

/-- The intervals follow one another, do not overlap and cover all that lies between `a` and `b`. -/
structure Tiles {α : Type*} [Preorder α] (a b : α) (intervals : List (α × α)) : Prop where
  consecutive : intervals.IsChain fun p q => p.2 = q.1
  disjoint : intervals.Pairwise fun p q => Set.Ioo p.1 p.2 ∩ Set.Ioo q.1 q.2 = ∅
  cover : ⋃ p ∈ intervals, Set.Icc p.1 p.2 = Set.Icc a b

/-- The intervals between consecutive values of a monotone sequence cover all that lies between the
first of them and the last. -/
lemma biUnion_Icc_map_succ {α : Type*} [LinearOrder α] {c : ℕ → α} (hc : Monotone c) {n : ℕ} (hn : 0 < n) :
    ⋃ k ∈ range n, Set.Icc (c k) (c (k + 1)) = Set.Icc (c 0) (c n) := by
  ext x
  simp only [Set.mem_iUnion, mem_range, exists_prop]
  constructor
  · rintro ⟨k, hk, hx⟩
    exact ⟨(hc (Nat.zero_le k)).trans hx.1, hx.2.trans (hc hk)⟩
  · rintro ⟨hge, hle⟩
    rcases hge.eq_or_lt with rfl | hgt
    · exact ⟨0, hn, le_rfl, hc (Nat.zero_le 1)⟩
    · have hmem : x ∈ ⋃ i ∈ Set.Ico 0 n, Set.Ioc (c i) (c (Order.succ i)) := by
        rw [hc.biUnion_Ico_Ioc_map_succ]
        exact ⟨hgt, hle⟩
      simp only [Set.mem_iUnion, exists_prop] at hmem
      obtain ⟨k, hk, hx⟩ := hmem
      exact ⟨k, hk.2, hx.1.le, hx.2⟩

/-- The intervals between consecutive values of a monotone sequence are tiles. -/
theorem tiles_map_range {α : Type*} [LinearOrder α] {c : ℕ → α} (hc : Monotone c) {n : ℕ} (hn : 0 < n) :
    Tiles (c 0) (c n) ((List.range n).map fun i => (c i, c (i + 1))) where
  consecutive := by
    rw [List.isChain_map, List.isChain_range]
    exact fun i _ => rfl
  disjoint := by
    rw [List.pairwise_map]
    refine List.pairwise_lt_range.imp fun {i j} hij => Set.eq_empty_iff_forall_notMem.mpr ?_
    rintro x ⟨hxi, hxj⟩
    have hle : c (i + 1) ≤ c j := hc hij
    exact absurd hxj.1 (not_lt.mpr (hxi.2.le.trans hle))
  cover := by
    rw [← biUnion_Icc_map_succ hc hn]
    ext x
    simp

lemma Tiles.unique {α : Type*} [PartialOrder α] {a b a' b' : α} {intervals : List (α × α)} (hab : a ≤ b)
    (h : Tiles a b intervals) (h' : Tiles a' b' intervals) : a = a' ∧ b = b' :=
  (Set.Icc_eq_Icc_iff hab).mp (h.cover.symm.trans h'.cover)

lemma sum_blocks {M : Type*} [AddCommMonoid M] (f : ℕ → M) (n m : ℕ) :
    ∑ i ∈ range n, ∑ k ∈ range m, f (i * m + k) = ∑ j ∈ range (n * m), f j := by
  induction n with
  | zero => simp
  | succ n ih => rw [sum_range_succ, ih, Nat.succ_mul, sum_range_add]

/-! ### Steps -/

variable {K : Type*} [Field K]

lemma add_succ_mul (start step : K) (k : ℕ) : start + ((k + 1 : ℕ) : K) * step = start + step + k * step := by
  push_cast
  ring

variable [LinearOrder K]

/-- The variable makes `N` steps: each of them ends before `end'`, and one more would not. -/
structure Passes (start end' step : K) (N : ℕ) : Prop where
  before : ∀ k < N, start + k * step + step < end'
  last : end' ≤ start + N * step + step

/-- The `k`th cut of the interval. -/
def cut (start end' step : K) (k : ℕ) : K := min (start + k * step) end'

/-- The composite midpoint rule on the pieces between the cuts. -/
def midpointRule [FloorSemiring K] (f : K → K) (start end' step : K) : K :=
  ∑ k ∈ range ⌈(end' - start) / step⌉₊,
    f ((cut start end' step k + cut start end' step (k + 1)) / 2) *
      (cut start end' step (k + 1) - cut start end' step k)

section
variable {start end' step : K} {N : ℕ}

lemma passes_zero (h : end' ≤ start + step) : Passes start end' step 0 := by
  refine ⟨fun k hk => absurd hk (Nat.not_lt_zero k), ?_⟩
  simpa using h

lemma Passes.succ (hlt : start + step < end') (h : Passes (start + step) end' step N) :
    Passes start end' step (N + 1) := by
  refine ⟨fun k hk => ?_, ?_⟩
  · cases k with
    | zero => simpa using hlt
    | succ k =>
      rw [add_succ_mul]
      exact h.before k (by omega)
  · rw [add_succ_mul]
    exact h.last

lemma Passes.tail (h : Passes start end' step (N + 1)) : Passes (start + step) end' step N := by
  refine ⟨fun k hk => ?_, ?_⟩
  · rw [← add_succ_mul]
    exact h.before (k + 1) (by omega)
  · rw [← add_succ_mul]
    exact h.last

lemma Passes.unique {M : ℕ} (hN : Passes start end' step N) (hM : Passes start end' step M) : N = M := by
  rcases lt_trichotomy N M with hlt | heq | hgt
  · exact absurd (hM.before N hlt) (not_lt.mpr hN.last)
  · exact heq
  · exact absurd (hN.before M hgt) (not_lt.mpr hM.last)

lemma cut_succ_eq (start end' step : K) (k : ℕ) :
    cut start end' step (k + 1) = cut (start + step) end' step k := by
  rw [cut, cut, add_succ_mul]

lemma cut_zero (hlt : start < end') : cut start end' step 0 = start := by
  simp [cut, hlt.le]

variable [IsStrictOrderedRing K]

/-- The variable stops exactly if it grows, or no step can be made. -/
theorem exists_passes_iff [Archimedean K] : (∃ N, Passes start end' step N) ↔ 0 < step ∨ end' ≤ start + step := by
  constructor
  · rintro ⟨N, h⟩
    by_contra hnot
    rw [not_or, not_lt, not_le] at hnot
    have hle : (N : K) * step ≤ 0 := mul_nonpos_of_nonneg_of_nonpos (Nat.cast_nonneg N) hnot.1
    have hlast := h.last
    linarith [hnot.2]
  · rintro (hstep | hle)
    · have hex : ∃ N : ℕ, end' ≤ start + N * step + step := by
        obtain ⟨N, hN⟩ := Archimedean.arch (end' - start) hstep
        refine ⟨N, ?_⟩
        rw [nsmul_eq_mul] at hN
        linarith
      classical
      refine ⟨Nat.find hex, fun k hk => ?_, Nat.find_spec hex⟩
      exact not_le.mp (Nat.find_min hex hk)
    · exact ⟨0, passes_zero hle⟩

lemma exists_passes [Archimedean K] (hstep : 0 < step) : ∃ N, Passes start end' step N :=
  exists_passes_iff.mpr (.inl hstep)

/-- The number of steps is one less than the number of pieces. -/
theorem Passes.ceil_eq [FloorSemiring K] (h : Passes start end' step N) (hstep : 0 < step) (hlt : start < end') :
    ⌈(end' - start) / step⌉₊ = N + 1 := by
  rw [Nat.ceil_eq_iff (Nat.succ_ne_zero N), lt_div_iff₀ hstep, div_le_iff₀ hstep]
  have hlast := h.last
  refine ⟨?_, by push_cast; linarith⟩
  cases N with
  | zero => simpa using hlt
  | succ N =>
    have hbefore := h.before N (Nat.lt_succ_self N)
    push_cast [Nat.add_sub_cancel]
    linarith

/-! ### The pieces -/

lemma monotone_cut {start end' step : K} (hstep : 0 ≤ step) : Monotone (cut start end' step) := by
  intro k l hkl
  have hle : (k : K) * step ≤ l * step := mul_le_mul_of_nonneg_right (Nat.cast_le.mpr hkl) hstep
  exact min_le_min_right end' (by linarith)

lemma Passes.cut_of_le (h : Passes start end' step N) (hlt : start < end') {k : ℕ} (hk : k ≤ N) :
    cut start end' step k = start + k * step := by
  apply min_eq_left
  cases k with
  | zero => simpa using hlt.le
  | succ k =>
    have hbefore := h.before k (by omega)
    push_cast
    linarith

lemma Passes.cut_succ (h : Passes start end' step N) : cut start end' step (N + 1) = end' := by
  apply min_eq_right
  have hlast := h.last
  push_cast
  linarith

/-- All pieces have the width of a step, apart from a last one that is no wider. -/
theorem Passes.widths (h : Passes start end' step N) (hlt : start < end') :
    (∀ k < N, cut start end' step (k + 1) - cut start end' step k = step) ∧
      0 < cut start end' step (N + 1) - cut start end' step N ∧
      cut start end' step (N + 1) - cut start end' step N ≤ step := by
  have hlast := h.last
  refine ⟨fun k hk => ?_, ?_, ?_⟩
  · rw [h.cut_of_le hlt (by omega), h.cut_of_le hlt hk.le]
    push_cast
    ring
  · rw [h.cut_succ, h.cut_of_le hlt le_rfl]
    cases N with
    | zero => simpa using hlt
    | succ N =>
      have hbefore := h.before N (Nat.lt_succ_self N)
      push_cast
      linarith
  · rw [h.cut_succ, h.cut_of_le hlt le_rfl]
    linarith

/-- The pieces between the cuts are tiles of the interval. -/
theorem Passes.tiles (h : Passes start end' step N) (hstep : 0 < step) (hlt : start < end') :
    Tiles start end' ((List.range (N + 1)).map fun k => (cut start end' step k, cut start end' step (k + 1))) := by
  have htiles := tiles_map_range (monotone_cut hstep.le : Monotone (cut start end' step)) (Nat.succ_pos N)
  rwa [cut_zero hlt, h.cut_succ] at htiles

/-- The midpoint rule, with its last piece apart. -/
theorem Passes.midpointRule_eq [FloorSemiring K] (h : Passes start end' step N) (hstep : 0 < step)
    (hlt : start < end') (f : K → K) : midpointRule f start end' step =
      ∑ k ∈ range N, f (start + k * step + step / 2) * step +
        f ((end' - (start + N * step)) / 2 + (start + N * step)) * (end' - (start + N * step)) := by
  obtain ⟨hwidth, -, -⟩ := h.widths hlt
  rw [midpointRule, h.ceil_eq hstep hlt, sum_range_succ, h.cut_succ, h.cut_of_le hlt le_rfl]
  congr 1
  · refine sum_congr rfl fun k hk => ?_
    have hk := mem_range.mp hk
    rw [hwidth k hk, h.cut_of_le hlt (show k + 1 ≤ N by omega), h.cut_of_le hlt hk.le]
    congr 2
    push_cast
    ring
  · congr 2
    ring

end

end Stepping
