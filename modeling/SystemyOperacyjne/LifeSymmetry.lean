import SystemyOperacyjne.LifePlane
import Mathlib.Algebra.Group.Subgroup.Lattice

/-!
# The symmetries of Life

The rule of `cw9/grid.c` knows no direction: passes over a grid that was turned over a diagonal or mirrored
give the turned or mirrored grid.
-/

namespace SystemyOperacyjne.Life
open Cellular

/-- The place of a cell. -/
def place (k : Fin 900) : Place :=
  ((k.val / 30 : ℕ), (k.val % 30 : ℕ))

/-- Rows become columns. -/
def transpose : Equiv.Perm (Fin 900) :=
  Function.Involutive.toPerm (fun k => ⟨k.val % 30 * 30 + k.val / 30, by omega⟩) (by
    intro k
    apply Fin.ext
    simp only
    omega)

/-- The first row becomes the last. -/
def mirror : Equiv.Perm (Fin 900) :=
  Function.Involutive.toPerm (fun k => ⟨(29 - k.val / 30) * 30 + k.val % 30, by omega⟩) (by
    intro k
    apply Fin.ext
    simp only
    omega)

lemma transpose_val (k : Fin 900) : (transpose k).val = k.val % 30 * 30 + k.val / 30 := rfl

lemma mirror_val (k : Fin 900) : (mirror k).val = (29 - k.val / 30) * 30 + k.val % 30 := rfl

/-! ### The plane -/

lemma life_comp {e turn : Place → Place} (hturn : ∀ d ∈ offsets, turn d ∈ offsets) (hback : ∀ d, turn (turn d) = d)
    (he : ∀ p d, e (p + d) = e p + turn d) (plane : Plane) (p : Place) : life (plane ∘ e) p = life plane (e p) := by
  have hcount : liveNeighbours (plane ∘ e) p = liveNeighbours plane (e p) := by
    unfold liveNeighbours
    apply Finset.card_nbij' turn turn
    · intro d hd
      simp only [Finset.coe_filter, Set.mem_ofPred_eq, Function.comp_apply, he] at hd ⊢
      exact ⟨hturn d hd.1, hd.2⟩
    · intro d hd
      simp only [Finset.coe_filter, Set.mem_ofPred_eq, Function.comp_apply, he, hback] at hd ⊢
      exact ⟨hturn d hd.1, hd.2⟩
    · exact fun d _ => hback d
    · exact fun d _ => hback d
  simp only [life, hcount, Function.comp_apply]

lemma exists_place {p : Place} (hp : p ∈ board) : ∃ k, p = place k := by
  simp only [board, Set.mem_ofPred_eq, grid_height, grid_width] at hp
  obtain ⟨row, hrow⟩ := Int.eq_ofNat_of_zero_le hp.1
  obtain ⟨col, hcol⟩ := Int.eq_ofNat_of_zero_le hp.2.2.1
  refine ⟨⟨row * 30 + col, by omega⟩, Prod.ext ?_ ?_⟩
  · rw [hrow]
    simp only [place]
    omega
  · rw [hcol]
    simp only [place]
    omega

lemma live_comp {e : Fin 900 → Fin 900} {onPlane : Place → Place} (hplace : ∀ k, place (e k) = onPlane (place k))
    (hboard : ∀ p, onPlane p ∈ board ↔ p ∈ board) (grid : Grid) : live (grid ∘ e) = live grid ∘ onPlane := by
  funext p
  by_cases hp : p ∈ board
  · obtain ⟨k, rfl⟩ := exists_place hp
    rw [Function.comp_apply, ← hplace]
    exact (live_eq (grid ∘ e) k).trans (live_eq grid (e k)).symm
  · rw [live, if_neg hp, Function.comp_apply, live, if_neg (mt (hboard p).mp hp)]

lemma cellAlive_eq_life (grid : Grid) (k : Fin 900) : cellAlive grid k = life (live grid) (place k) := by
  have hk := k.isLt
  have hboard : place k ∈ board := by
    simp only [place, board, grid_height, grid_width, Set.mem_ofPred_eq]
    omega
  have halive := is_alive_eq grid hboard
  simp only [place] at halive
  rw [is_alive_cell, Option.some_inj] at halive
  exact halive

/-- A map of the cells that moves the board on the plane in such a way is not noticed by `update_grid`. -/
lemma successor_comp {e : Fin 900 → Fin 900} (onPlane turn : Place → Place)
    (hplace : ∀ k, place (e k) = onPlane (place k)) (hboard : ∀ p, onPlane p ∈ board ↔ p ∈ board)
    (hturn : ∀ d ∈ offsets, turn d ∈ offsets) (hback : ∀ d, turn (turn d) = d)
    (hmoves : ∀ p d, onPlane (p + d) = onPlane p + turn d) (grid : Grid) :
    successor (grid ∘ e) = successor grid ∘ e := by
  funext k
  have hcell : cellAlive (grid ∘ e) k = cellAlive grid (e k) := by
    rw [cellAlive_eq_life, cellAlive_eq_life, live_comp hplace hboard, life_comp hturn hback hmoves, hplace]
  exact congrArg toChar hcell

/-! ### The grid -/

lemma transpose_mem : transpose ∈ symmetries successor := by
  rw [mem_symmetries]
  apply successor_comp Prod.swap Prod.swap
  · intro k
    have hk := k.isLt
    apply Prod.ext
    · simp only [place, transpose_val, Prod.fst_swap]
      omega
    · simp only [place, transpose_val, Prod.snd_swap]
      omega
  · intro p
    simp only [board, Set.mem_ofPred_eq, Prod.fst_swap, Prod.snd_swap, grid_height, grid_width]
    omega
  · decide
  · exact Prod.swap_swap
  · exact fun p d => rfl

lemma mirror_mem : mirror ∈ symmetries successor := by
  rw [mem_symmetries]
  apply successor_comp (fun p => (29 - p.1, p.2)) fun d => (-d.1, d.2)
  · intro k
    have hk := k.isLt
    apply Prod.ext
    · simp only [place, mirror_val]
      omega
    · simp only [place, mirror_val]
      omega
  · intro p
    simp only [board, Set.mem_ofPred_eq, grid_height, grid_width]
    omega
  · decide
  · intro d
    simp
  · intro p d
    apply Prod.ext
    · simp only [Prod.fst_add]
      omega
    · rfl

/-- Passes over a grid that was moved by one of the eight symmetries of the square give the moved grid. -/
theorem update_passes_symmetric {e : Equiv.Perm (Fin 900)} (he : e ∈ Subgroup.closure {transpose, mirror}) (k : ℕ)
    (foreground background : Grid) : update_passes k (foreground ∘ e) (background ∘ e) =
      (update_passes k foreground background).map fun grids => (grids.1 ∘ e, grids.2 ∘ e) := by
  have hgenerators : ({transpose, mirror} : Set (Equiv.Perm (Fin 900))) ⊆ symmetries successor := by
    rintro f (rfl | rfl)
    · exact transpose_mem
    · exact mirror_mem
  have hsuccessor := mem_symmetries.mp ((Subgroup.closure_le _).mpr hgenerators he)
  induction k generalizing foreground background with
  | zero => rfl
  | succ k ih =>
    rw [update_passes, update_passes, update_grid_eq, update_grid_eq]
    simp only [Option.bind_eq_bind, Option.bind_some]
    rw [hsuccessor, ih]

/-- The blinker that lies in row 1 at the border. -/
theorem update_passes_symmetric_blinker : update_passes 2 (blinker ∘ transpose) (blinker ∘ transpose) =
    (update_passes 2 blinker blinker).map fun grids => (grids.1 ∘ transpose, grids.2 ∘ transpose) :=
  update_passes_symmetric (Subgroup.subset_closure (Set.mem_insert _ _)) 2 blinker blinker

end SystemyOperacyjne.Life
