import SystemyOperacyjne.Quadrature

/-!
# The pieces of the quadrature

The intervals that `intergral` samples, one for each step of its loop and a closing one; for which
arguments the loop ends, how many pieces there are then, and how wide they are. The step comes from the
command line and may have any sign.
-/

namespace SystemyOperacyjne.Quadrature
open Stepping

/-- The pieces that are sampled from `start` on, `none` without fuel. -/
def pieces (end' step : ℚ) : ℕ → ℚ → Option (List (ℚ × ℚ))
  | 0, _ => none
  | fuel + 1, start =>
    if start + step < end' then (pieces end' step fuel (start + step)).map fun ps => (start, start + step) :: ps
    else some [(start, end')]

def width (p : ℚ × ℚ) : ℚ := p.2 - p.1

def totalWidth : List (ℚ × ℚ) → ℚ
  | [] => 0
  | p :: ps => width p + totalWidth ps

/-- What the pieces contribute to `result`; the last one is sampled in its middle. -/
def contribution : List (ℚ × ℚ) → ℚ
  | [] => 0
  | [p] => function ((p.2 - p.1) / 2 + p.1) * width p
  | p :: q :: ps => function (p.2 / 2) * width p + contribution (q :: ps)

/-- `intergral` returns. -/
def Terminates (start end' step : ℚ) : Prop :=
  ∃ fuel r, intergral fuel start end' step = some r

section
variable {start end' step : ℚ} {N fuel : ℕ}

lemma pieces_ne_nil {ps : List (ℚ × ℚ)} (h : pieces end' step fuel start = some ps) : ps ≠ [] := by
  cases fuel with
  | zero => cases h
  | succ fuel =>
    rw [pieces] at h
    split at h
    · obtain ⟨ps', -, rfl⟩ := Option.map_eq_some_iff.mp h
      exact List.cons_ne_nil _ _
    · obtain rfl := Option.some.inj h
      exact List.cons_ne_nil _ _

lemma intergralLoop_eq_contribution (fuel : ℕ) (start result : ℚ) :
    ((intergralLoop end' step fuel start result).map fun (start, result) =>
        result + function ((end' - start) / 2 + start) * (end' - start)) =
      (pieces end' step fuel start).map fun ps => result + contribution ps := by
  induction fuel generalizing start result with
  | zero => rfl
  | succ fuel ih =>
    rw [intergralLoop, pieces]
    split
    · rw [ih, Option.map_map]
      cases hps : pieces end' step fuel (start + step) with
      | none => rfl
      | some ps =>
        obtain ⟨q, qs, rfl⟩ := List.exists_cons_of_ne_nil (pieces_ne_nil hps)
        simp only [Option.map_some, Function.comp_apply, contribution, width, Option.some_inj]
        ring
    · rfl

/-- `intergral` samples these pieces and no others. -/
theorem intergral_eq_contribution (fuel : ℕ) (start end' step : ℚ) :
    intergral fuel start end' step = (pieces end' step fuel start).map contribution := by
  rw [intergral, intergralLoop_eq_contribution]
  simp only [zero_add]

lemma totalWidth_pieces {ps : List (ℚ × ℚ)} (h : pieces end' step fuel start = some ps) :
    totalWidth ps = end' - start := by
  induction fuel generalizing start ps with
  | zero => cases h
  | succ fuel ih =>
    rw [pieces] at h
    split at h
    · obtain ⟨ps', hps', rfl⟩ := Option.map_eq_some_iff.mp h
      rw [totalWidth, ih hps', width]
      ring
    · obtain rfl := Option.some.inj h
      rw [totalWidth, totalWidth, width, add_zero]

lemma exists_passes_of_pieces {ps : List (ℚ × ℚ)} (h : pieces end' step fuel start = some ps) :
    ∃ N, Passes start end' step N ∧ ps.length = N + 1 := by
  induction fuel generalizing start ps with
  | zero => cases h
  | succ fuel ih =>
    rw [pieces] at h
    split at h
    · next hlt =>
      obtain ⟨ps', hps', rfl⟩ := Option.map_eq_some_iff.mp h
      obtain ⟨N, hN, hlength⟩ := ih hps'
      exact ⟨N + 1, hN.succ hlt, by rw [List.length_cons, hlength]⟩
    · next hge =>
      obtain rfl := Option.some.inj h
      exact ⟨0, passes_zero (not_lt.mp hge), rfl⟩

lemma pieces_eq_cuts (hlt : start < end') {ps : List (ℚ × ℚ)} (h : pieces end' step fuel start = some ps) :
    ∃ N, Passes start end' step N ∧
      ps = (List.range (N + 1)).map fun k => (cut start end' step k, cut start end' step (k + 1)) := by
  induction fuel generalizing start ps with
  | zero => cases h
  | succ fuel ih =>
    rw [pieces] at h
    split at h
    · next hnext =>
      obtain ⟨ps', hps', rfl⟩ := Option.map_eq_some_iff.mp h
      obtain ⟨N, hN, rfl⟩ := ih hnext hps'
      refine ⟨N + 1, hN.succ hnext, ?_⟩
      rw [List.range_succ_eq_map (n := N + 1), List.map_cons, List.map_map, cut_zero hlt, cut_succ_eq, cut_zero hnext]
      -- a cut of the whole interval is the cut before it of what follows the first step
      refine congrArg _ (List.map_congr_left fun k _ => ?_)
      rw [Function.comp_apply, Nat.succ_eq_add_one, cut_succ_eq start, cut_succ_eq start]
    · next hge =>
      obtain rfl := Option.some.inj h
      have hN := passes_zero (not_lt.mp hge)
      exact ⟨0, hN, by simp [cut_zero hlt, hN.cut_succ]⟩

/-- The pieces follow one another and cover the interval. -/
theorem tiles_of_pieces (hstep : 0 < step) (hlt : start < end') {ps : List (ℚ × ℚ)}
    (h : pieces end' step fuel start = some ps) : Tiles start end' ps := by
  obtain ⟨N, hN, rfl⟩ := pieces_eq_cuts hlt h
  exact hN.tiles hstep hlt

lemma terminates_iff_passes : Terminates start end' step ↔ ∃ N, Passes start end' step N := by
  constructor
  · rintro ⟨fuel, r, hr⟩
    rw [intergral_eq_contribution] at hr
    obtain ⟨ps, hps, -⟩ := Option.map_eq_some_iff.mp hr
    obtain ⟨N, hN, -⟩ := exists_passes_of_pieces hps
    exact ⟨N, hN⟩
  · rintro ⟨N, hN⟩
    exact ⟨N + 1, _, intergral_eq hN (Nat.lt_succ_self N)⟩

lemma width_of_mem_pieces (hstep : 0 < step) (hlt : start < end') {ps : List (ℚ × ℚ)}
    (h : pieces end' step fuel start = some ps) : ∀ p ∈ ps, 0 < width p ∧ width p ≤ step := by
  induction fuel generalizing start ps with
  | zero => cases h
  | succ fuel ih =>
    rw [pieces] at h
    split at h
    · next hnext =>
      obtain ⟨ps', hps', rfl⟩ := Option.map_eq_some_iff.mp h
      have hwidth : width (start, start + step) = step := add_sub_cancel_left start step
      intro p hp
      rcases List.mem_cons.mp hp with rfl | hp
      · rw [hwidth]
        exact ⟨hstep, le_rfl⟩
      · exact ih hnext hps' p hp
    · next hge =>
      obtain rfl := Option.some.inj h
      intro p hp
      obtain rfl := List.mem_singleton.mp hp
      exact ⟨sub_pos.mpr hlt, sub_le_iff_le_add'.mpr (not_lt.mp hge)⟩

end

/-- The loop ends exactly if the step is positive or leads to the end at once. The pieces then have the
width of the interval together, and with a positive step they are as many as steps fit into it, rounded
up, each of a positive width that is at most the step. -/
theorem pieces_complete (start end' step : ℚ) :
    (Terminates start end' step ↔ 0 < step ∨ end' ≤ start + step) ∧
      ∀ fuel r, intergral fuel start end' step = some r →
        ∃ ps, pieces end' step fuel start = some ps ∧ contribution ps = r ∧ totalWidth ps = end' - start ∧
          (0 < step → start < end' →
            ps.length = ⌈(end' - start) / step⌉₊ ∧ ∀ p ∈ ps, 0 < width p ∧ width p ≤ step) := by
  refine ⟨terminates_iff_passes.trans exists_passes_iff, fun fuel r hr => ?_⟩
  rw [intergral_eq_contribution] at hr
  obtain ⟨ps, hps, hvalue⟩ := Option.map_eq_some_iff.mp hr
  refine ⟨ps, hps, hvalue, totalWidth_pieces hps, fun hstep hlt => ⟨?_, width_of_mem_pieces hstep hlt hps⟩⟩
  obtain ⟨N, hN, hlength⟩ := exists_passes_of_pieces hps
  rw [hlength, hN.ceil_eq hstep hlt]

example : pieces (7 / 2) 1 5 0 = some [(0, 1), (1, 2), (2, 3), (3, 7 / 2)] := by decide +kernel

end SystemyOperacyjne.Quadrature
