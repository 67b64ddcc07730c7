import SystemyOperacyjne.Library.Orbit
import Mathlib.Algebra.Order.Ring.Int

/-!
# The Collatz test

`cw2/collatzlib/collatz.c`. An `int` has 32 bits and wraps around; the sequence that the test is
about consists of unbounded integers.
-/

namespace SystemyOperacyjne.Collatz
open Orbit

def collatz_conjecture (input : Int32) : Int32 :=
  if input % 2 = 0 then input / 2 else 3 * input + 1

/-- The loop of `test_collatz_convergence`: `input` and `iter` after it, `none` without fuel. -/
def convergenceLoop (max_iter : Int32) : ℕ → Int32 → Int32 → Option (Int32 × Int32)
  | 0, _, _ => none
  | fuel + 1, input, iter =>
    if input ≠ 1 ∧ iter < max_iter then convergenceLoop max_iter fuel (collatz_conjecture input) (iter + 1)
    else some (input, iter)

def test_collatz_convergence (input max_iter : Int32) : Option Int32 :=
  (convergenceLoop max_iter (max_iter.toInt.toNat + 1) input 0).map fun (input, iter) =>
    if input = 1 then iter else -1

/-- The true sequence. -/
def collatz (n : ℤ) : ℤ :=
  if n % 2 = 0 then n / 2 else 3 * n + 1

/-- The body of the loop is executed for the iterate `j`. -/
def Performed (input max_iter : Int32) (j : ℕ) : Prop :=
  (j : ℤ) < max_iter.toInt ∧ ∀ i ≤ j, collatz_conjecture^[i] input ≠ 1

/-- The test returns the number of steps in which the true sequence first reaches 1, if these are no
more than the limit, and otherwise -1; no value that it computes is outside the range of `int`. -/
structure Exact (input max_iter : Int32) : Prop where
  returns : ∃ r, test_collatz_convergence input max_iter = some r ∧
    (∀ k : ℕ, r.toInt = k ↔ FirstAt collatz (· = 1) input.toInt k ∧ (k : ℤ) ≤ max max_iter.toInt 0) ∧
    (r = -1 ↔ ∀ k : ℕ, (k : ℤ) ≤ max max_iter.toInt 0 → collatz^[k] input.toInt ≠ 1)
  in_range : ∀ j, Performed input max_iter j → (collatz_conjecture^[j] input) % 2 ≠ 0 →
    -2 ^ 31 ≤ 3 * (collatz_conjecture^[j] input).toInt + 1 ∧ 3 * (collatz_conjecture^[j] input).toInt + 1 < 2 ^ 31

/-- The true sequence stays below `2 ^ 31` for as long as it is followed. -/
def StaysBelow (n : ℤ) (max_iter : Int32) : Prop :=
  ∀ j : ℕ, (j : ℤ) < max_iter.toInt → (∀ i ≤ j, collatz^[i] n ≠ 1) → collatz^[j + 1] n < 2 ^ 31

/-! ### The loop -/

lemma toInt_succ {iter max_iter : Int32} (h : iter < max_iter) : (iter + 1).toInt = iter.toInt + 1 := by
  rw [Int32.lt_iff_toInt_lt] at h
  have hlt := max_iter.toInt_lt
  have hge := iter.le_toInt
  rw [Int32.toInt_add, show (1 : Int32).toInt = 1 from rfl]
  exact Int.bmod_eq_of_le (by omega) (by omega)

lemma convergenceLoop_eq (max_iter : Int32) (fuel : ℕ) (input iter : Int32)
    (hfuel : (max_iter.toInt - iter.toInt).toNat < fuel) : ∃ (k : ℕ) (last : Int32),
      convergenceLoop max_iter fuel input iter = some (collatz_conjecture^[k] input, last) ∧
      last.toInt = iter.toInt + k ∧ (k ≠ 0 → last.toInt ≤ max_iter.toInt) ∧
      (∀ j < k, collatz_conjecture^[j] input ≠ 1) ∧
      (collatz_conjecture^[k] input = 1 ∨ max_iter.toInt ≤ last.toInt) := by
  induction fuel generalizing input iter with
  | zero => exact absurd hfuel (Nat.not_lt_zero _)
  | succ fuel ih =>
    by_cases htest : input ≠ 1 ∧ iter < max_iter
    · obtain ⟨hne, hlt⟩ := htest
      have hsucc := toInt_succ hlt
      have hlt' := Int32.lt_iff_toInt_lt.mp hlt
      obtain ⟨k, last, hloop, hlast, hle, hbefore, hend⟩ := ih (collatz_conjecture input) (iter + 1) (by omega)
      refine ⟨k + 1, last, ?_, by omega, fun _ => ?_, fun j hj => ?_, hend⟩
      · rw [convergenceLoop, if_pos ⟨hne, hlt⟩, hloop]
        rfl
      · by_cases hk : k = 0
        · omega
        · exact hle hk
      · cases j with
        | zero => exact hne
        | succ j => exact hbefore j (by omega)
    · refine ⟨0, iter, by rw [convergenceLoop, if_neg htest]; rfl, by simp, fun h => absurd rfl h, by simp, ?_⟩
      by_cases hone : input = 1
      · exact .inl hone
      · right
        have hnot : ¬iter < max_iter := fun hlt => htest ⟨hone, hlt⟩
        rw [Int32.lt_iff_toInt_lt] at hnot
        omega

/-- The test finds the first 1 among the iterates of `collatz_conjecture` up to the limit. -/
theorem test_cases (input max_iter : Int32) : ∃ r, test_collatz_convergence input max_iter = some r ∧
    ((∃ k : ℕ, (k : ℤ) ≤ max max_iter.toInt 0 ∧ FirstAt collatz_conjecture (· = 1) input k ∧ r.toInt = k) ∨
      (∀ k : ℕ, (k : ℤ) ≤ max max_iter.toInt 0 → collatz_conjecture^[k] input ≠ 1) ∧ r = -1) := by
  obtain ⟨k, last, hloop, hlast, hle, hbefore, hend⟩ := convergenceLoop_eq max_iter (max_iter.toInt.toNat + 1) input 0
    (Nat.lt_succ_of_le (Int.toNat_le_toNat (by simp)))
  have hzero : (0 : Int32).toInt = 0 := rfl
  rw [hzero, zero_add] at hlast
  have hk : (k : ℤ) ≤ max max_iter.toInt 0 := by
    by_cases h0 : k = 0
    · simp [h0]
    · have := hle h0
      omega
  by_cases hone : collatz_conjecture^[k] input = 1
  · refine ⟨last, ?_, .inl ⟨k, hk, ⟨hone, hbefore⟩, hlast⟩⟩
    simp only [test_collatz_convergence, hloop, Option.map_some, if_pos hone]
  · refine ⟨-1, ?_, .inr ⟨fun j hj => ?_, rfl⟩⟩
    · simp only [test_collatz_convergence, hloop, Option.map_some, if_neg hone]
    · have hlimit := hend.resolve_left hone
      rcases lt_or_eq_of_le (show j ≤ k by omega) with hlt | rfl
      · exact hbefore j hlt
      · exact hone

/-! ### The true sequence -/

/-- The variable of the loop holds the value of the true sequence. -/
structure Holds (input : Int32) (n : ℤ) : Prop where
  toInt_eq : input.toInt = n
  pos : 1 ≤ n

lemma Holds.even_iff {input : Int32} {n : ℤ} (h : Holds input n) : input % 2 = 0 ↔ n % 2 = 0 := by
  have hpos := h.pos
  rw [← Int32.toInt_inj, Int32.toInt_mod, h.toInt_eq, show (2 : Int32).toInt = 2 from rfl,
    show (0 : Int32).toInt = 0 from rfl, Int.tmod_eq_emod_of_nonneg (by omega)]

lemma Holds.one_iff {input : Int32} {n : ℤ} (h : Holds input n) : input = 1 ↔ n = 1 := by
  rw [← Int32.toInt_inj, h.toInt_eq, show (1 : Int32).toInt = 1 from rfl]

lemma Holds.lt {input : Int32} {n : ℤ} (h : Holds input n) : n < 2 ^ 31 := by
  have hlt := input.toInt_lt
  rwa [h.toInt_eq] at hlt

lemma Holds.next {input : Int32} {n : ℤ} (h : Holds input n) (hlt : collatz n < 2 ^ 31) :
    Holds (collatz_conjecture input) (collatz n) := by
  have hpos := h.pos
  have hn := h.lt
  unfold collatz_conjecture collatz at *
  by_cases heven : n % 2 = 0
  · rw [if_pos (h.even_iff.mpr heven), if_pos heven]
    refine ⟨?_, by omega⟩
    rw [Int32.toInt_div, h.toInt_eq, show (2 : Int32).toInt = 2 from rfl, Int.tdiv_eq_ediv_of_nonneg (by omega)]
    exact Int.bmod_eq_of_le (by omega) (by omega)
  · rw [if_neg (mt h.even_iff.mp heven), if_neg heven]
    rw [if_neg heven] at hlt
    refine ⟨?_, by omega⟩
    rw [Int32.toInt_add, Int32.toInt_mul, h.toInt_eq, show (3 : Int32).toInt = 3 from rfl,
      show (1 : Int32).toInt = 1 from rfl, Int.bmod_add_bmod]
    exact Int.bmod_eq_of_le (by omega) (by omega)

/-- The step from each iterate up to the limit keeps `Holds`, as long as 1 is not reached. -/
def Follows (input max_iter : Int32) : Prop :=
  ∀ j < max_iter.toInt.toNat, (∀ i ≤ j, collatz^[i] input.toInt ≠ 1) →
    (∀ i ≤ j, Holds (collatz_conjecture^[i] input) (collatz^[i] input.toInt)) →
      Holds (collatz_conjecture^[j + 1] input) (collatz^[j + 1] input.toInt)

section
variable {input max_iter : Int32}

lemma follows_of_staysBelow (h : StaysBelow input.toInt max_iter) : Follows input max_iter := by
  intro j hj hbefore hholds
  have hlt := h j (by omega) hbefore
  rw [Function.iterate_succ_apply'] at hlt ⊢
  rw [Function.iterate_succ_apply']
  exact (hholds j le_rfl).next hlt

lemma follows_of_exact (h : Exact input max_iter) : Follows input max_iter := by
  intro j hj hbefore hholds
  have hperformed : Performed input max_iter j := by
    refine ⟨by omega, fun i hi hone => hbefore i hi ?_⟩
    exact (hholds i hi).one_iff.mp hone
  have hj' := hholds j le_rfl
  rw [Function.iterate_succ_apply', Function.iterate_succ_apply']
  apply hj'.next
  have hlt := hj'.lt
  have hpos := hj'.pos
  rw [collatz]
  split
  · omega
  · next hodd =>
    have hrange := h.in_range j hperformed (mt hj'.even_iff.mp hodd)
    rw [hj'.toInt_eq] at hrange
    exact hrange.2

lemma Follows.firstAt_iff (h : Follows input max_iter) (hinput : 1 ≤ input.toInt) {k : ℕ}
    (hk : (k : ℤ) ≤ max max_iter.toInt 0) :
    FirstAt collatz_conjecture (· = 1) input k ↔ FirstAt collatz (· = 1) input.toInt k :=
  Orbit.firstAt_iff (R := Holds) (q := (· = 1)) ⟨rfl, hinput⟩ h (fun _ _ hR => hR.one_iff) (by omega)

lemma Follows.holds (h : Follows input max_iter) (hinput : 1 ≤ input.toInt) {j : ℕ} (hj : (j : ℤ) ≤ max_iter.toInt)
    (hbefore : ∀ i < j, collatz^[i] input.toInt ≠ 1) :
    Holds (collatz_conjecture^[j] input) (collatz^[j] input.toInt) :=
  agree (R := Holds) (q := (· = 1)) ⟨rfl, hinput⟩ h (by omega) hbefore

lemma Follows.before (h : Follows input max_iter) (hinput : 1 ≤ input.toInt) {j : ℕ}
    (hj : Performed input max_iter j) : ∀ i ≤ j, collatz^[i] input.toInt ≠ 1 := by
  intro i hi hone
  obtain ⟨hlimit, hne⟩ := hj
  obtain ⟨k, hk, hfirst⟩ := exists_firstAt (p := (· = 1)) hone
  have hmachine := (h.firstAt_iff hinput (by omega)).mpr hfirst
  exact hne k (by omega) hmachine.1

lemma Follows.returns (h : Follows input max_iter) (hinput : 1 ≤ input.toInt) :
    ∃ r, test_collatz_convergence input max_iter = some r ∧
      (∀ k : ℕ, r.toInt = k ↔ FirstAt collatz (· = 1) input.toInt k ∧ (k : ℤ) ≤ max max_iter.toInt 0) ∧
      (r = -1 ↔ ∀ k : ℕ, (k : ℤ) ≤ max max_iter.toInt 0 → collatz^[k] input.toInt ≠ 1) := by
  have hneg : (-1 : Int32).toInt = -1 := rfl
  obtain ⟨r, hr, ⟨k, hk, hfirst, hval⟩ | ⟨hnone, rfl⟩⟩ := test_cases input max_iter
  · have htrue := (h.firstAt_iff hinput hk).mp hfirst
    refine ⟨r, hr, fun l => ?_, ?_⟩
    · constructor
      · intro hl
        obtain rfl : k = l := by omega
        exact ⟨htrue, hk⟩
      · rintro ⟨hl, -⟩
        rw [hval, htrue.unique hl]
    · refine iff_of_false ?_ fun hnot => hnot k hk htrue.1
      rintro rfl
      omega
  · have hnever : ∀ l : ℕ, (l : ℤ) ≤ max max_iter.toInt 0 → ¬FirstAt collatz (· = 1) input.toInt l :=
      fun l hl hfirst => hnone l hl ((h.firstAt_iff hinput hl).mpr hfirst).1
    refine ⟨-1, hr, fun l => ?_, iff_of_true rfl fun l hl hone => ?_⟩
    · refine iff_of_false (by omega) ?_
      rintro ⟨hfirst, hl⟩
      exact hnever l hl hfirst
    · obtain ⟨j, hj, hfirst⟩ := exists_firstAt (p := (· = 1)) hone
      exact hnever j (by omega) hfirst

/-- The test is exact, and stays in the range of `int`, exactly if the true sequence stays below
`2 ^ 31` for as long as it is followed. -/
theorem exact_iff_staysBelow (input max_iter : Int32) (hinput : 1 ≤ input.toInt) :
    Exact input max_iter ↔ StaysBelow input.toInt max_iter := by
  constructor
  · intro h j hj hbefore
    have hfollows := follows_of_exact h
    exact (hfollows.holds hinput (by push_cast; omega) fun i hi => hbefore i (by omega)).lt
  · intro h
    have hfollows := follows_of_staysBelow h
    refine ⟨hfollows.returns hinput, fun j hj hodd => ?_⟩
    have hbefore := hfollows.before hinput hj
    have hholds := hfollows.holds hinput hj.1.le fun i hi => hbefore i hi.le
    have hlt := h j hj.1 hbefore
    have hpos := hholds.pos
    rw [Function.iterate_succ_apply', collatz, if_neg (mt hholds.even_iff.mpr hodd)] at hlt
    rw [hholds.toInt_eq]
    exact ⟨by omega, hlt⟩

end

/-- The sequence of 27 climbs to 9232 and reaches 1 after 111 steps. -/
theorem exact_twentySeven : Exact 27 200 := by
  have hbelow : ∀ j < 200, collatz^[j + 1] 27 < 2 ^ 31 := by decide +kernel
  have hlimit : (200 : Int32).toInt = 200 := rfl
  exact (exact_iff_staysBelow 27 200 (by decide)).mpr fun j hj _ => hbelow j (by omega)

/-- The sequence of 113383 reaches 1 after 247 steps, but the test finds no 1. -/
theorem not_exact : ¬∀ input max_iter : Int32, 1 ≤ input.toInt → Exact input max_iter := by
  intro h
  obtain ⟨r, hr, hfound, -⟩ := (h 113383 300 (by decide)).returns
  have hfails : test_collatz_convergence 113383 300 = some (-1) := by decide +kernel
  obtain rfl := Option.some.inj (hfails.symm.trans hr)
  have hone : collatz^[247] (113383 : Int32).toInt = 1 := by decide +kernel
  obtain ⟨k, hk, hfirst⟩ := exists_firstAt (p := (· = 1)) hone
  have hval := (hfound k).mpr ⟨hfirst, by simp; omega⟩
  simp at hval

/-! ### Two limits -/

/-- The results with two limits: the first 1 is found with the smaller one if it is within it, and with
the larger one at the same place. -/
theorem limits_agree (input max_iter max_iter' : Int32) (hle : max_iter ≤ max_iter') :
    ∃ k k', test_collatz_convergence input max_iter = some k ∧ test_collatz_convergence input max_iter' = some k' ∧
      (0 ≤ k → k' = k) ∧ (0 ≤ k' → k = if k'.toInt ≤ max max_iter.toInt 0 then k' else -1) := by
  have hle' : max max_iter.toInt 0 ≤ max max_iter'.toInt 0 := max_le_max_right 0 (Int32.le_iff_toInt_le.mp hle)
  obtain ⟨k, hk, hcases⟩ := test_cases input max_iter
  obtain ⟨k', hk', hcases'⟩ := test_cases input max_iter'
  refine ⟨k, k', hk, hk', ?_⟩
  rcases hcases with ⟨n, hn, hfirst, hval⟩ | ⟨hnone, rfl⟩
  · -- what is found within the smaller limit is also found within the larger one
    obtain ⟨n', -, hfirst', hval'⟩ : ∃ n' : ℕ, (n' : ℤ) ≤ max max_iter'.toInt 0 ∧
        FirstAt collatz_conjecture (· = 1) input n' ∧ k'.toInt = n' := by
      rcases hcases' with hfound | ⟨hnone', -⟩
      · exact hfound
      · exact absurd hfirst.1 (hnone' n (hn.trans hle'))
    have heq : k' = k := by
      rw [← Int32.toInt_inj, hval', hval, hfirst'.unique hfirst]
    refine ⟨fun _ => heq, fun _ => ?_⟩
    rw [heq, if_pos (hval ▸ hn)]
  · refine ⟨fun hneg => absurd hneg (by decide), fun hpos => ?_⟩
    rcases hcases' with ⟨n', -, hfirst', hval'⟩ | ⟨-, rfl⟩
    · have hlate : ¬k'.toInt ≤ max max_iter.toInt 0 := by
        rw [hval']
        exact fun hn' => hnone n' hn' hfirst'.1
      rw [if_neg hlate]
    · exact absurd hpos (by decide)

/-- The sequence of 5 reaches 1 after five steps, which a limit of 4 does not allow. -/
theorem limits_agree_five : ∃ k k', test_collatz_convergence 5 4 = some k ∧ test_collatz_convergence 5 8 = some k' ∧
    (0 ≤ k → k' = k) ∧ (0 ≤ k' → k = if k'.toInt ≤ 4 then k' else -1) :=
  limits_agree 5 4 8 (by decide)

end SystemyOperacyjne.Collatz
