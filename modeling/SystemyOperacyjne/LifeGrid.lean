import Mathlib.Data.Fin.Basic
import Mathlib.Data.Int.Basic
import Mathlib.Logic.Function.Basic
import Mathlib.Tactic.Common

/-!
# The Life grid

`is_alive` and `update_grid` of `cw9/grid.c`. A grid is the block of 900 cells that
`create_grid` allocates; an access outside the block has no result, so that staying in
bounds is part of what is proved.
-/

namespace SystemyOperacyjne.Life

def grid_width : ℤ := 30
def grid_height : ℤ := 30

/-- `malloc(sizeof(char) * grid_width * grid_height)`. -/
abbrev Grid := Fin 900 → UInt8

def Grid.read (grid : Grid) (i : ℤ) : Option UInt8 :=
  if h : 0 ≤ i ∧ i < 900 then some (grid ⟨i.toNat, by omega⟩) else none

def Grid.write (grid : Grid) (i : ℤ) (cell : UInt8) : Option Grid :=
  if h : 0 ≤ i ∧ i < 900 then some (Function.update grid ⟨i.toNat, by omega⟩ cell) else none

/-- The body of the double loop of `is_alive`, for the offsets `i` and `j`. -/
def countNeighbour (row col : ℤ) (grid : Grid) (i j : ℤ) (count : ℕ) : Option ℕ :=
  if i = 0 ∧ j = 0 then some count
  else
    let r := row + i
    let c := col + j
    if r < 0 ∨ r ≥ grid_height ∨ c < 0 ∨ c ≥ grid_width then some count
    else (grid.read (grid_width * r + c)).map fun cell => if cell ≠ 0 then count + 1 else count

def countNeighbours (row col : ℤ) (grid : Grid) : Option ℕ :=
  [-1, 0, 1].foldlM (fun count i =>
    [-1, 0, 1].foldlM (fun count j => countNeighbour row col grid i j count) count) 0

def is_alive (row col : ℤ) (grid : Grid) : Option Bool := do
  let count ← countNeighbours row col grid
  let cell ← grid.read (row * grid_width + col)
  return if cell ≠ 0 then count == 2 || count == 3 else count == 3

/-- A `bool` stored in a `char`. -/
def toChar (b : Bool) : UInt8 := if b then 1 else 0

/-- `dst[i * grid_width + j] = is_alive(i, j, src)`. -/
def updateCell (src : Grid) (i j : ℤ) (dst : Grid) : Option Grid := do
  let alive ← is_alive i j src
  dst.write (i * grid_width + j) (toChar alive)

def update_grid (src dst : Grid) : Option Grid :=
  (List.range grid_height.toNat).foldlM (fun dst (i : ℕ) =>
    (List.range grid_width.toNat).foldlM (fun dst (j : ℕ) => updateCell src i j dst) dst) dst

/-! ### Every access of `is_alive` and `update_grid` is in bounds -/

lemma Grid.read_eq_some (grid : Grid) {i : ℤ} (h₀ : 0 ≤ i) (h₁ : i < 900) :
    ∃ cell, grid.read i = some cell := by
  simp [Grid.read, h₀, h₁]

lemma Grid.write_eq_some (grid : Grid) (k : Fin 900) (cell : UInt8) :
    grid.write k.val cell = some (Function.update grid k cell) := by
  have h : (0 : ℤ) ≤ (k.val : ℤ) ∧ (k.val : ℤ) < 900 := by omega
  simp [Grid.write, h]

lemma countNeighbour_eq_some (row col : ℤ) (grid : Grid) (i j : ℤ) (count : ℕ) :
    ∃ count', countNeighbour row col grid i j count = some count' := by
  unfold countNeighbour
  by_cases h₀ : i = 0 ∧ j = 0
  · exact ⟨count, by simp [h₀]⟩
  · rw [if_neg h₀]
    by_cases hout : row + i < 0 ∨ row + i ≥ grid_height ∨ col + j < 0 ∨ col + j ≥ grid_width
    · exact ⟨count, by simp only [hout, if_true]⟩
    · simp only [grid_height, grid_width] at hout ⊢
      obtain ⟨cell, hcell⟩ := grid.read_eq_some (i := 30 * (row + i) + (col + j)) (by omega) (by omega)
      simp only [hout, if_false, hcell, Option.map_some]
      exact ⟨_, rfl⟩

lemma foldlM_eq_some {α β : Type} {f : β → α → Option β} (hf : ∀ b a, ∃ b', f b a = some b')
    (as : List α) (b : β) : ∃ b', as.foldlM f b = some b' := by
  induction as generalizing b with
  | nil => exact ⟨b, rfl⟩
  | cons a as ih =>
    obtain ⟨b₁, h₁⟩ := hf b a
    obtain ⟨b₂, h₂⟩ := ih b₁
    exact ⟨b₂, by simp [List.foldlM_cons, h₁, h₂]⟩

lemma countNeighbours_eq_some (row col : ℤ) (grid : Grid) :
    ∃ count, countNeighbours row col grid = some count := by
  unfold countNeighbours
  refine foldlM_eq_some (fun count i => ?_) _ _
  exact foldlM_eq_some (fun count j => countNeighbour_eq_some row col grid i j count) _ _

lemma is_alive_eq_some (row col : ℤ) (grid : Grid) (hr₀ : 0 ≤ row) (hr : row < 30) (hc₀ : 0 ≤ col)
    (hc : col < 30) : ∃ b, is_alive row col grid = some b := by
  obtain ⟨count, hcount⟩ := countNeighbours_eq_some row col grid
  obtain ⟨cell, hcell⟩ := grid.read_eq_some (i := row * 30 + col) (by omega) (by omega)
  simp only [is_alive, grid_width, hcount, hcell]
  exact ⟨_, rfl⟩

/-! ### The successor of a grid -/

/-- What `is_alive` finds at the cell with flat index `k`. -/
def cellAlive (grid : Grid) (k : Fin 900) : Bool :=
  (is_alive (k.val / 30 : ℕ) (k.val % 30 : ℕ) grid).getD false

/-- The grid of the next generation. -/
def successor (grid : Grid) : Grid := fun k => toChar (cellAlive grid k)

lemma is_alive_cell (grid : Grid) (k : Fin 900) :
    is_alive (k.val / 30 : ℕ) (k.val % 30 : ℕ) grid = some (cellAlive grid k) := by
  have hk := k.isLt
  obtain ⟨b, hb⟩ := is_alive_eq_some (k.val / 30 : ℕ) (k.val % 30 : ℕ) grid
    (by omega) (by omega) (by omega) (by omega)
  rw [cellAlive, hb, Option.getD_some]

lemma is_alive_row_col (grid : Grid) {i j : ℕ} (hi : i < 30) (hj : j < 30) :
    is_alive i j grid = some (cellAlive grid ⟨i * 30 + j, by omega⟩) := by
  have h := is_alive_cell grid ⟨i * 30 + j, by omega⟩
  rwa [show (i * 30 + j) / 30 = i by omega, show (i * 30 + j) % 30 = j by omega] at h

/-- A grid whose cells of flat index in `[a, b)` are those of `new`, the others of `old`. -/
def patched (new old : Grid) (a b : ℕ) : Grid :=
  fun k => if a ≤ k.val ∧ k.val < b then new k else old k

lemma patched_self (new old : Grid) (a : ℕ) : patched new old a a = old := by
  funext k
  have : ¬(a ≤ k.val ∧ k.val < a) := by omega
  simp [patched, this]

lemma update_patched (new old : Grid) {a b : ℕ} (hab : a ≤ b) (hb : b < 900) :
    Function.update (patched new old a b) ⟨b, hb⟩ (new ⟨b, hb⟩) = patched new old a (b + 1) := by
  funext k
  by_cases hk : k = ⟨b, hb⟩
  · subst hk
    simp [patched, hab]
  · have hne : k.val ≠ b := fun h => hk (Fin.ext h)
    rw [Function.update_of_ne hk]
    unfold patched
    congr 1
    apply propext
    omega

lemma patched_patched (new old : Grid) {a b c : ℕ} (hab : a ≤ b) (hbc : b ≤ c) :
    patched new (patched new old a b) b c = patched new old a c := by
  funext k
  unfold patched
  by_cases h₁ : b ≤ k.val ∧ k.val < c
  · rw [if_pos h₁, if_pos ⟨by omega, h₁.2⟩]
  · rw [if_neg h₁]
    congr 1
    apply propext
    omega

lemma updateCell_eq (src dst : Grid) {i j : ℕ} (hi : i < 30) (hj : j < 30) :
    updateCell src i j dst =
      some (Function.update dst ⟨i * 30 + j, by omega⟩ (successor src ⟨i * 30 + j, by omega⟩)) := by
  have hw := dst.write_eq_some ⟨i * 30 + j, by omega⟩ (toChar (cellAlive src ⟨i * 30 + j, by omega⟩))
  have hidx : (i : ℤ) * grid_width + j = ((i * 30 + j : ℕ) : ℤ) := by
    rw [grid_width]
    omega
  rw [updateCell, is_alive_row_col src hi hj, hidx, successor]
  simp only [Option.bind_eq_bind, Option.bind_some]
  rw [hw]

lemma foldlM_range_succ {β : Type} (f : β → ℕ → Option β) (b : β) (n : ℕ) :
    (List.range (n + 1)).foldlM f b = ((List.range n).foldlM f b).bind fun b' => f b' n := by
  rw [List.range_succ, List.foldlM_append]
  simp

lemma update_grid_row (src dst : Grid) {i : ℕ} (hi : i < 30) (j : ℕ) (hj : j ≤ 30) :
    (List.range j).foldlM (fun (dst : Grid) (j : ℕ) => updateCell src i j dst) dst =
      some (patched (successor src) dst (i * 30) (i * 30 + j)) := by
  induction j with
  | zero => simp [patched_self]
  | succ j ih =>
    rw [foldlM_range_succ, ih (by omega), Option.bind_some, updateCell_eq _ _ hi (by omega),
      update_patched _ _ (by omega)]
    rfl

/-- `update_grid` writes the successor of its source to every cell of its destination. -/
theorem update_grid_eq (src dst : Grid) : update_grid src dst = some (successor src) := by
  have hrows : ∀ i, i ≤ 30 → (List.range i).foldlM (fun (dst : Grid) (i : ℕ) =>
      (List.range 30).foldlM (fun (dst : Grid) (j : ℕ) => updateCell src i j dst) dst) dst =
      some (patched (successor src) dst 0 (i * 30)) := by
    intro i
    induction i with
    | zero => intro _; simp [patched_self]
    | succ i ih =>
      intro hi
      rw [foldlM_range_succ, ih (by omega), Option.bind_some, update_grid_row _ _ (by omega) 30 le_rfl,
        patched_patched _ _ (Nat.zero_le _) (by omega), Nat.succ_mul]
  rw [update_grid, show grid_height.toNat = 30 from rfl, show grid_width.toNat = 30 from rfl,
    hrows 30 le_rfl]
  congr 1
  funext k
  have hk := k.isLt
  simp [patched, hk]

end SystemyOperacyjne.Life
