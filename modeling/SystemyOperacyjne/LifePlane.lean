import SystemyOperacyjne.Library.Cellular
import SystemyOperacyjne.LifeGrid
import Mathlib.Data.Finset.Prod
import Mathlib.Data.Int.Interval
import Mathlib.Algebra.Group.Prod
import Mathlib.Algebra.BigOperators.Group.Finset.Piecewise

/-!
# Life on the infinite plane

Conway's rule on `ℤ × ℤ`, and how long the grid of `cw9/grid.c` computes the same: a cell
that is `k` steps away from the border follows the plane for `k` generations.
-/

namespace SystemyOperacyjne.Life
open Cellular

/-- The row and the column of a cell. -/
abbrev Place := ℤ × ℤ

/-- The live cells of the plane. -/
abbrev Plane := Place → Bool

/-- The larger of the distances in rows and in columns. -/
def chebyshev (p q : Place) : ℕ :=
  max (p.1 - q.1).natAbs (p.2 - q.2).natAbs

/-- The eight directions. -/
def offsets : Finset Place :=
  {(-1, -1), (-1, 0), (-1, 1), (0, -1), (0, 1), (1, -1), (1, 0), (1, 1)}

def liveNeighbours (plane : Plane) (p : Place) : ℕ :=
  (offsets.filter fun d => plane (p + d)).card

/-- The next generation of the plane: birth on three, survival on two or three. -/
def life (plane : Plane) (p : Place) : Bool :=
  liveNeighbours plane p == 3 || plane p && liveNeighbours plane p == 2

/-- The positions of the cells of the grid. -/
def board : Set Place :=
  {p | 0 ≤ p.1 ∧ p.1 < grid_height ∧ 0 ≤ p.2 ∧ p.2 < grid_width}

instance : DecidablePred (· ∈ board) :=
  fun p => inferInstanceAs (Decidable (0 ≤ p.1 ∧ p.1 < grid_height ∧ 0 ≤ p.2 ∧ p.2 < grid_width))

/-- The live cells of a grid, as cells of the plane. -/
def live (grid : Grid) : Plane := fun p =>
  if p ∈ board then (grid.read (p.1 * grid_width + p.2)).any (· ≠ 0) else false

/-- `k` passes of `update_grid`, between which the two grids are exchanged. -/
def update_passes : ℕ → Grid → Grid → Option (Grid × Grid)
  | 0, foreground, background => some (foreground, background)
  | k + 1, foreground, background => do
    let next ← update_grid foreground background
    update_passes k next foreground

/-! ### The rule of the plane is local -/

/-- A cell and the eight around it. -/
def around (p : Place) : Set Place :=
  {q | chebyshev p q ≤ 1}

lemma mem_around_of_offset {p d : Place} (h : d ∈ offsets) : p + d ∈ around p := by
  simp only [around, chebyshev, Set.mem_ofPred_eq, Prod.fst_add, Prod.snd_add]
  simp only [offsets, Finset.mem_insert, Finset.mem_singleton] at h
  rcases h with rfl | rfl | rfl | rfl | rfl | rfl | rfl | rfl <;> simp

lemma mem_around_self (p : Place) : p ∈ around p := by
  simp [around, chebyshev]

lemma life_local : Local around life := by
  intro x y p h
  have hcount : liveNeighbours x p = liveNeighbours y p := by
    unfold liveNeighbours
    congr 1
    apply Finset.filter_congr
    intro d hd
    rw [h _ (mem_around_of_offset hd)]
  rw [life, life, hcount, h p (mem_around_self p)]

lemma within_board {k : ℕ} {p : Place} (h : ∀ q, q ∉ board → k ≤ chebyshev p q) : Within around board k p := by
  induction k generalizing p with
  | zero => trivial
  | succ k ih =>
    constructor
    · by_contra hp
      have hself := h p hp
      simp [chebyshev] at hself
    · intro q hq
      apply ih
      intro r hr
      have htriangle := h r hr
      simp only [around, Set.mem_ofPred_eq] at hq
      unfold chebyshev at htriangle hq ⊢
      omega

/-! ### The grid is the board -/

lemma live_eq (grid : Grid) (k : Fin 900) :
    live grid ((k.val / 30 : ℕ), (k.val % 30 : ℕ)) = decide (grid k ≠ 0) := by
  have hk := k.isLt
  have hboard : (((k.val / 30 : ℕ), (k.val % 30 : ℕ)) : Place) ∈ board := by
    simp only [board, grid_height, grid_width, Set.mem_ofPred_eq]
    omega
  have hidx : ((k.val / 30 : ℕ) : ℤ) * grid_width + ((k.val % 30 : ℕ) : ℤ) = (k.val : ℤ) := by
    rw [grid_width]
    omega
  have hread : grid.read (k.val : ℤ) = some (grid k) := by
    have h : (0 : ℤ) ≤ (k.val : ℤ) ∧ (k.val : ℤ) < 900 := by omega
    rw [Grid.read, dif_pos h]
    rfl
  rw [live, if_pos hboard, hidx, hread]
  simp

lemma countNeighbour_eq (grid : Grid) (p d : Place) (count : ℕ) (hd : d ≠ (0, 0)) :
    countNeighbour p.1 p.2 grid d.1 d.2 count = some (count + if live grid (p + d) then 1 else 0) := by
  have hne : ¬(d.1 = 0 ∧ d.2 = 0) := fun h => hd (Prod.ext h.1 h.2)
  rw [countNeighbour, if_neg hne]
  by_cases hin : p + d ∈ board
  · have hb := hin
    simp only [board, Set.mem_ofPred_eq, Prod.fst_add, Prod.snd_add, grid_height, grid_width] at hb
    obtain ⟨cell, hcell⟩ := grid.read_eq_some (i := (p.1 + d.1) * 30 + (p.2 + d.2)) (by omega) (by omega)
    have hlive : live grid (p + d) = decide (cell ≠ 0) := by
      simp [live, hin, grid_width, hcell]
    have hout : ¬(p.1 + d.1 < 0 ∨ p.1 + d.1 ≥ grid_height ∨ p.2 + d.2 < 0 ∨ p.2 + d.2 ≥ grid_width) := by
      rw [grid_height, grid_width]
      omega
    simp only [hout, if_false, hlive]
    rw [grid_width, mul_comm, hcell, Option.map_some]
    by_cases hc : cell = 0
    · simp [hc]
    · simp [hc]
  · have hout : p.1 + d.1 < 0 ∨ p.1 + d.1 ≥ grid_height ∨ p.2 + d.2 < 0 ∨ p.2 + d.2 ≥ grid_width := by
      simp only [board, Set.mem_ofPred_eq, Prod.fst_add, Prod.snd_add] at hin
      omega
    simp only [hout, if_true, live, if_neg hin]
    simp

lemma countNeighbours_eq (grid : Grid) (p : Place) :
    countNeighbours p.1 p.2 grid = some (liveNeighbours (live grid) p) := by
  have hcentre : ∀ count, countNeighbour p.1 p.2 grid 0 0 count = some count := by
    intro count
    simp [countNeighbour]
  have hstep : ∀ (i j : ℤ) (count : ℕ), (i, j) ≠ ((0, 0) : Place) →
      countNeighbour p.1 p.2 grid i j count = some (count + if live grid (p + (i, j)) then 1 else 0) :=
    fun i j count hd => countNeighbour_eq grid p (i, j) count hd
  have hsum : liveNeighbours (live grid) p = ∑ d ∈ offsets, if live grid (p + d) then 1 else 0 := by
    rw [liveNeighbours, Finset.card_filter]
  rw [hsum, offsets, Finset.sum_insert (by decide), Finset.sum_insert (by decide), Finset.sum_insert (by decide),
    Finset.sum_insert (by decide), Finset.sum_insert (by decide), Finset.sum_insert (by decide),
    Finset.sum_insert (by decide), Finset.sum_singleton]
  simp only [countNeighbours, List.foldlM_cons, List.foldlM_nil, Option.bind_eq_bind, Option.pure_def]
  simp [hcentre, hstep]
  omega

lemma is_alive_eq (grid : Grid) {p : Place} (hp : p ∈ board) : is_alive p.1 p.2 grid = some (life (live grid) p) := by
  have hb := hp
  simp only [board, Set.mem_ofPred_eq, grid_height, grid_width] at hb
  obtain ⟨cell, hcell⟩ := grid.read_eq_some (i := p.1 * 30 + p.2) (by omega) (by omega)
  have hlive : live grid p = decide (cell ≠ 0) := by
    simp [live, hp, grid_width, hcell]
  simp only [is_alive, countNeighbours_eq, grid_width, hcell, Option.bind_eq_bind, Option.bind_some, life, hlive]
  by_cases hc : cell = 0
  · simp [hc]
  · simp [hc, Bool.or_comm]

lemma live_successor (grid : Grid) : live (successor grid) = clip board false life (live grid) := by
  funext p
  by_cases hp : p ∈ board
  · have hb := hp
    simp only [board, Set.mem_ofPred_eq, grid_height, grid_width] at hb
    obtain ⟨row, hrow⟩ := Int.eq_ofNat_of_zero_le hb.1
    obtain ⟨col, hcol⟩ := Int.eq_ofNat_of_zero_le hb.2.2.1
    have hidx : row * 30 + col < 900 := by omega
    have hp' : p = ((((row * 30 + col) / 30 : ℕ) : ℤ), (((row * 30 + col) % 30 : ℕ) : ℤ)) :=
      Prod.ext (by rw [hrow]; simp only; omega) (by rw [hcol]; simp only; omega)
    have hcell := is_alive_cell grid ⟨row * 30 + col, hidx⟩
    have halive := is_alive_eq grid hp
    rw [hp'] at halive ⊢
    rw [live_eq (successor grid) ⟨row * 30 + col, hidx⟩, clip, if_pos (hp' ▸ hp)]
    rw [halive] at hcell
    rw [successor, ← Option.some.inj hcell]
    cases life (live grid) _ <;> rfl
  · rw [live, if_neg hp, clip, if_neg hp]

lemma update_passes_eq (k : ℕ) (foreground background : Grid) :
    ∃ old, update_passes k foreground background = some (successor^[k] foreground, old) := by
  induction k generalizing foreground background with
  | zero => exact ⟨background, rfl⟩
  | succ k ih =>
    obtain ⟨old, hk⟩ := ih (successor foreground) foreground
    refine ⟨old, ?_⟩
    rw [update_passes, update_grid_eq, Option.bind_eq_bind, Option.bind_some, hk, Function.iterate_succ_apply]

/-- A cell that is at least `k` away from all positions outside the grid is, after `k` passes, what
it is on the plane after `k` generations. -/
theorem passes_follow_plane (foreground background : Grid) (k : ℕ) (p : Place)
    (h : ∀ q, q ∉ board → k ≤ chebyshev p q) :
    ∃ grid old, update_passes k foreground background = some (grid, old) ∧
      live grid p = life^[k] (live foreground) p := by
  obtain ⟨old, hpasses⟩ := update_passes_eq k foreground background
  refine ⟨_, old, hpasses, ?_⟩
  have hclip : live (successor^[k] foreground) = (clip board false life)^[k] (live foreground) :=
    (Function.Semiconj.iterate_right live_successor k).eq foreground
  rw [hclip]
  exact clip_iterate life_local false _ (within_board h)

/-- Three live cells in column 1, the first of them at the border. -/
def blinker : Grid := fun k => if k = 1 ∨ k = 31 ∨ k = 61 then 1 else 0

/-- After two generations the middle of the blinker is alive, on the plane and in the grid. -/
theorem passes_follow_plane_blinker : ∃ grid old, update_passes 2 blinker blinker = some (grid, old) ∧
    live grid (1, 1) = true := by
  have hdistance : ∀ q, q ∉ board → 2 ≤ chebyshev (1, 1) q := by
    intro q hq
    simp only [board, Set.mem_ofPred_eq, grid_height, grid_width] at hq
    unfold chebyshev
    omega
  obtain ⟨grid, old, hpasses, hlive⟩ := passes_follow_plane blinker blinker 2 (1, 1) hdistance
  have halive : life^[2] (live blinker) (1, 1) = true := by decide +kernel
  exact ⟨grid, old, hpasses, hlive.trans halive⟩

end SystemyOperacyjne.Life
