import SystemyOperacyjne.LifeGrid
import Mathlib.Data.Rat.Floor
import Mathlib.Order.Interval.Finset.Nat

/-!
# The work of the Life threads

How `main` of `cw9/life.c` splits the 900 cells over `n` workers, and what one complete
pass of all workers leaves in the background grid.
-/

namespace SystemyOperacyjne.Life

/-- `(int)ceil(30 * 30 / n)`: the quotient is that of two `int`s before it is rounded. -/
def cells_per_thread (n : ℕ) : ℕ :=
  ⌈((30 * 30 / n : ℕ) : ℚ)⌉.toNat

def start_index (n i : ℕ) : ℕ := i * cells_per_thread n
def end_index (n i : ℕ) : ℕ := (i + 1) * cells_per_thread n

/-- The body of the loop of `update`, for the flat index `i`. -/
def updateIndex (foreground : Grid) (i : ℕ) (background : Grid) : Option Grid := do
  let row := i / 30
  let col := i % 30
  let alive ← is_alive row col foreground
  background.write i (toChar alive)

/-- The loop of `update` from `start` to `stop`. -/
def update (foreground : Grid) (start stop : ℕ) (background : Grid) : Option Grid :=
  (List.range' start (stop - start)).foldlM (fun bg i => updateIndex foreground i bg) background

/-- One complete pass: each worker runs its loop once. -/
def pass (n : ℕ) (foreground background : Grid) : Option Grid :=
  (List.range n).foldlM (fun bg i => update foreground (start_index n i) (end_index n i) bg) background

lemma cells_per_thread_eq (n : ℕ) : cells_per_thread n = 900 / n := by
  rw [cells_per_thread, Int.ceil_natCast, Int.toNat_natCast]

lemma mul_cells_per_thread_le (n : ℕ) : n * cells_per_thread n ≤ 900 := by
  rw [cells_per_thread_eq]
  exact Nat.mul_div_le 900 n

lemma end_index_le {n i : ℕ} (hi : i < n) : end_index n i ≤ n * cells_per_thread n :=
  Nat.mul_le_mul_right _ hi

lemma end_index_le_900 {n i : ℕ} (hi : i < n) : end_index n i ≤ 900 :=
  (end_index_le hi).trans (mul_cells_per_thread_le n)

lemma start_index_le_end_index (n i : ℕ) : start_index n i ≤ end_index n i :=
  Nat.mul_le_mul_right _ (Nat.le_succ i)

lemma end_index_le_start_index (n : ℕ) {i j : ℕ} (h : i < j) : end_index n i ≤ start_index n j :=
  Nat.mul_le_mul_right _ h

lemma ranges_disjoint (n : ℕ) {i j : ℕ} (h : i ≠ j) :
    Disjoint (Finset.Ico (start_index n i) (end_index n i))
      (Finset.Ico (start_index n j) (end_index n j)) := by
  rw [Finset.disjoint_left]
  intro k hi hj
  rw [Finset.mem_Ico] at hi hj
  rcases Nat.lt_or_gt_of_ne h with hlt | hlt
  · have := end_index_le_start_index n hlt
    omega
  · have := end_index_le_start_index n hlt
    omega

lemma exists_worker_iff (n k : ℕ) :
    (∃ i, i < n ∧ k ∈ Finset.Ico (start_index n i) (end_index n i)) ↔ k < n * cells_per_thread n := by
  constructor
  · rintro ⟨i, hi, hk⟩
    rw [Finset.mem_Ico] at hk
    exact hk.2.trans_le (end_index_le hi)
  · intro hk
    have hpos : 0 < cells_per_thread n := Nat.pos_of_ne_zero fun h => by simp [h] at hk
    have hdiv : k / cells_per_thread n < n := (Nat.div_lt_iff_lt_mul hpos).mpr hk
    refine ⟨k / cells_per_thread n, hdiv, Finset.mem_Ico.mpr ⟨Nat.div_mul_le_self k _, ?_⟩⟩
    rw [end_index, Nat.mul_comm]
    exact Nat.lt_mul_div_succ k hpos

/-! ### One pass -/

lemma updateIndex_eq (fg bg : Grid) (k : Fin 900) :
    updateIndex fg k.val bg = some (Function.update bg k (successor fg k)) := by
  have halive : is_alive ((k.val / 30 : ℕ) : ℤ) ((k.val % 30 : ℕ) : ℤ) fg = some (cellAlive fg k) :=
    is_alive_cell fg k
  rw [updateIndex, successor]
  simp only [halive, Option.bind_eq_bind, Option.bind_some]
  exact bg.write_eq_some k _

lemma update_eq (fg bg : Grid) {start stop : ℕ} (h : start ≤ stop) (hstop : stop ≤ 900) :
    update fg start stop bg = some (patched (successor fg) bg start stop) := by
  obtain ⟨len, rfl⟩ := Nat.exists_eq_add_of_le h
  rw [update, Nat.add_sub_cancel_left]
  induction len with
  | zero => simp [patched_self]
  | succ len ih =>
    have hlt : start + len < 900 := by omega
    have hidx := updateIndex_eq fg (patched (successor fg) bg start (start + len)) ⟨start + len, hlt⟩
    rw [List.range'_concat, List.foldlM_append, ih (by omega) (by omega)]
    simp only [Option.bind_eq_bind, Option.bind_some, List.foldlM_cons, List.foldlM_nil, Nat.one_mul]
    rw [hidx, update_patched _ _ (by omega)]
    rfl

/-- A pass leaves the new generation in the first `n * cells_per_thread n` cells. -/
theorem pass_eq (n : ℕ) (fg bg : Grid) :
    pass n fg bg = some (patched (successor fg) bg 0 (n * cells_per_thread n)) := by
  have hworkers : ∀ i, i ≤ n → (List.range i).foldlM
      (fun bg i => update fg (start_index n i) (end_index n i) bg) bg =
      some (patched (successor fg) bg 0 (start_index n i)) := by
    intro i
    induction i with
    | zero => intro _; simp [start_index, patched_self]
    | succ i ih =>
      intro hi
      rw [foldlM_range_succ, ih (by omega), Option.bind_some,
        update_eq _ _ (start_index_le_end_index n i) (end_index_le_900 hi),
        patched_patched _ _ (Nat.zero_le _) (start_index_le_end_index n i)]
      rfl
  exact hworkers n le_rfl

/-- What the partition is for: the ranges are disjoint, inside the grid and cover it, and
a pass of all workers computes what `update_grid` computes. -/
structure Coverage (n : ℕ) : Prop where
  disjoint : ∀ i j, i < n → j < n → i ≠ j →
    Disjoint (Finset.Ico (start_index n i) (end_index n i)) (Finset.Ico (start_index n j) (end_index n j))
  inside : ∀ i, i < n → Finset.Ico (start_index n i) (end_index n i) ⊆ Finset.Ico 0 900
  covers : ∀ k, k < 900 → ∃ i, i < n ∧ k ∈ Finset.Ico (start_index n i) (end_index n i)
  pass_eq : ∀ fg bg, pass n fg bg = update_grid fg bg

/-- The rounded-down quotient covers the grid exactly when it is exact. -/
lemma mul_cells_per_thread_eq_iff (n : ℕ) : n * cells_per_thread n = 900 ↔ n ∣ 900 := by
  rw [cells_per_thread_eq]
  exact ⟨fun h => ⟨900 / n, h.symm⟩, fun h => Nat.mul_div_cancel' h⟩

/-- The `n` workers do the work of `update_grid` exactly when `n` divides 900: the
quotient is rounded down before `ceil` sees it. -/
theorem coverage_iff (n : ℕ) : Coverage n ↔ n ∣ 900 := by
  rw [← mul_cells_per_thread_eq_iff]
  constructor
  · intro h
    have hlast := (exists_worker_iff n 899).mp (h.covers 899 (by omega))
    have hle := mul_cells_per_thread_le n
    omega
  · intro heq
    refine ⟨fun i j _ _ hij => ranges_disjoint n hij, fun i hi => ?_, fun k hk => ?_, fun fg bg => ?_⟩
    · exact Finset.Ico_subset_Ico (Nat.zero_le _) (end_index_le_900 hi)
    · exact (exists_worker_iff n k).mpr (by omega)
    · rw [pass_eq, update_grid_eq, heq]
      congr 1
      funext k
      simp [patched, k.isLt]

/-- Seven workers take 128 cells each and leave the last four cells to nobody. -/
theorem not_coverage_seven : ¬∀ n, 1 ≤ n → Coverage n := by
  intro h
  have hcells : cells_per_thread 7 = 128 := by rw [cells_per_thread_eq]
  obtain ⟨i, hi, hk⟩ := (h 7 (by omega)).covers 899 (by omega)
  rw [Finset.mem_Ico, end_index, hcells] at hk
  omega

end SystemyOperacyjne.Life
