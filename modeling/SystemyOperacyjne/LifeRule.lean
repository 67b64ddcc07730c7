import SystemyOperacyjne.LifePlane

/-!
# Conway's rule

`update_grid` of `cw9/grid.c` as it works on the memory: both arguments are addresses of grids, and
every call of `is_alive` reads the source as it is at that moment.
-/

namespace SystemyOperacyjne.Life

section
variable {Address : Type} [DecidableEq Address]

/-- `dst[i * grid_width + j] = is_alive(i, j, src)`. -/
def updateCellAt (src dst : Address) (i j : ℤ) (memory : Address → Grid) : Option (Address → Grid) := do
  let alive ← is_alive i j (memory src)
  let grid ← (memory dst).write (i * grid_width + j) (toChar alive)
  return Function.update memory dst grid

def update_gridAt (src dst : Address) (memory : Address → Grid) : Option (Address → Grid) :=
  (List.range grid_height.toNat).foldlM (fun memory (i : ℕ) =>
    (List.range grid_width.toNat).foldlM (fun memory (j : ℕ) => updateCellAt src dst i j memory) memory) memory

/-- A cell survives with two or three neighbours, and is born with three. -/
def Lives (plane : Plane) (p : Place) : Prop :=
  plane p = true ∧ (liveNeighbours plane p = 2 ∨ liveNeighbours plane p = 3) ∨
    plane p = false ∧ liveNeighbours plane p = 3

instance (plane : Plane) (p : Place) : Decidable (Lives plane p) :=
  inferInstanceAs (Decidable (_ ∨ _))

lemma life_iff_lives (plane : Plane) (p : Place) : life plane p = true ↔ Lives plane p := by
  unfold life Lives
  cases plane p
  · simp
  · simp
    omega

/-- A loop over states that hold the state of another loop follows that loop. -/
lemma foldlM_map {α β γ : Type} {f : β → α → Option β} {g : γ → α → Option γ} (into : γ → β)
    (h : ∀ c a, f (into c) a = (g c a).map into) (as : List α) (c : γ) :
    as.foldlM f (into c) = (as.foldlM g c).map into := by
  induction as generalizing c with
  | nil => rfl
  | cons a as ih =>
    rw [List.foldlM_cons, List.foldlM_cons, h]
    cases g c a with
    | none => rfl
    | some c' => exact ih c'

lemma updateCellAt_update {src dst : Address} (hne : src ≠ dst) (i j : ℤ) (memory : Address → Grid) (grid : Grid) :
    updateCellAt src dst i j (Function.update memory dst grid) =
      (updateCell (memory src) i j grid).map (Function.update memory dst) := by
  rw [updateCellAt, updateCell, Function.update_of_ne hne, Function.update_self]
  cases is_alive i j (memory src) with
  | none => rfl
  | some alive =>
    simp only [Option.bind_eq_bind, Option.bind_some]
    cases grid.write (i * grid_width + j) (toChar alive) with
    | none => rfl
    | some grid' => exact congrArg some (Function.update_idem grid grid' memory)

/-- On distinct grids, `update_grid` on the memory is `update_grid` on the two grids. -/
theorem update_gridAt_eq {src dst : Address} (hne : src ≠ dst) (memory : Address → Grid) :
    update_gridAt src dst memory = (update_grid (memory src) (memory dst)).map (Function.update memory dst) := by
  have hrow : ∀ (grid : Grid) (i : ℕ),
      (List.range grid_width.toNat).foldlM (fun memory (j : ℕ) => updateCellAt src dst i j memory)
        (Function.update memory dst grid) =
      ((List.range grid_width.toNat).foldlM (fun grid (j : ℕ) => updateCell (memory src) i j grid) grid).map
        (Function.update memory dst) :=
    fun grid i => foldlM_map _ (fun grid (j : ℕ) => updateCellAt_update hne i j memory grid) _ grid
  calc update_gridAt src dst memory = update_gridAt src dst (Function.update memory dst (memory dst)) := by
        rw [Function.update_eq_self]
    _ = (update_grid (memory src) (memory dst)).map (Function.update memory dst) :=
        foldlM_map _ hrow (List.range grid_height.toNat) (memory dst)

lemma read_successor (grid : Grid) {p : Place} (hp : p ∈ board) :
    (successor grid).read (p.1 * grid_width + p.2) = some (toChar (life (live grid) p)) := by
  have hb := hp
  simp only [board, Set.mem_ofPred_eq, grid_height, grid_width] at hb
  obtain ⟨row, hrow⟩ := Int.eq_ofNat_of_zero_le hb.1
  obtain ⟨col, hcol⟩ := Int.eq_ofNat_of_zero_le hb.2.2.1
  have halive := is_alive_eq grid hp
  rw [hrow, hcol, is_alive_row_col grid (by omega) (by omega), Option.some_inj] at halive
  have hidx : p.1 * grid_width + p.2 = ((row * 30 + col : ℕ) : ℤ) := by
    rw [hrow, hcol, grid_width]
    omega
  rw [hidx, Grid.read, dif_pos (by omega), ← halive]
  rfl

/-- `update_grid` makes every cell of the destination what Conway's rule says, where the cells outside
the grid are dead, and changes nothing else. -/
theorem update_gridAt_lives {src dst : Address} (hne : src ≠ dst) (memory : Address → Grid) :
    ∃ memory', update_gridAt src dst memory = some memory' ∧
      (∀ p ∈ board, (memory' dst).read (p.1 * grid_width + p.2) =
        some (if Lives (live (memory src)) p then 1 else 0)) ∧
      ∀ other, other ≠ dst → memory' other = memory other := by
  refine ⟨Function.update memory dst (successor (memory src)), ?_, fun p hp => ?_, fun other hother => ?_⟩
  · rw [update_gridAt_eq hne, update_grid_eq, Option.map_some]
  · rw [Function.update_self, read_successor _ hp, toChar]
    exact congrArg some (if_congr (life_iff_lives _ _) rfl rfl)
  · exact Function.update_of_ne hother _ _

end

/-- The blinker at the border turns, and stays what it was in the source. -/
theorem update_gridAt_blinker : ∃ memory', update_gridAt false true (fun _ => blinker) = some memory' ∧
    (memory' true).read 30 = some 1 ∧ (memory' true).read 1 = some 0 ∧ memory' false = blinker := by
  obtain ⟨memory', hupdate, hcells, hothers⟩ :=
    update_gridAt_lives (show false ≠ true by decide) fun _ => blinker
  refine ⟨memory', hupdate, ?_, ?_, hothers false (by decide)⟩
  · have hcell := hcells (1, 0) (by decide)
    rwa [if_pos (by decide +kernel)] at hcell
  · have hcell := hcells (0, 1) (by decide)
    rwa [if_neg (by decide +kernel)] at hcell

end SystemyOperacyjne.Life
