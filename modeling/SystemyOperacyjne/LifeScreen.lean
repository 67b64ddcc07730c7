import SystemyOperacyjne.LifeRule

/-!
# The window of Life

`draw_grid` of `cw9/grid.c` gives every cell of the grid two characters of the window of ncurses. What is
shown of one generation and of the next is related by Conway's rule, whatever was in the window before and
however large it is. Of ncurses only what it promises about `mvprintw` is used.
-/

namespace SystemyOperacyjne.Life
open Cellular

/-- What `draw_grid` uses of ncurses, and the character that a window holds at a row and a column. -/
structure Ncurses (Window : Type) where
  lines : ℤ
  cols : ℤ
  mvprintw : ℤ → ℤ → String → Window → Window
  inch : Window → ℤ × ℤ → Char

section
variable {Window : Type}

/-- The position is in the window. -/
def Ncurses.Inside (curses : Ncurses Window) (q : ℤ × ℤ) : Prop :=
  0 ≤ q.1 ∧ q.1 < curses.lines ∧ 0 ≤ q.2 ∧ q.2 < curses.cols

instance (curses : Ncurses Window) : DecidablePred curses.Inside :=
  fun _ => inferInstanceAs (Decidable (_ ∧ _))

/-- What ncurses promises for a string of one character that takes one column: `mvprintw` puts it at the
position if this is in the window, and changes nothing else. -/
structure Ncurses.Prints (curses : Ncurses Window) (c : Char) : Prop where
  written : ∀ y x window, curses.Inside (y, x) →
    curses.inch (curses.mvprintw y x (.singleton c) window) (y, x) = c
  others : ∀ y x window q, curses.Inside q → q ≠ (y, x) →
    curses.inch (curses.mvprintw y x (.singleton c) window) q = curses.inch window q

/-- The body of the double loop of `draw_grid`. -/
def drawCell (curses : Ncurses Window) (grid : Grid) (i j : ℤ) (window : Window) : Option Window :=
  (grid.read (i * grid_width + j)).map fun cell =>
    if cell ≠ 0 then curses.mvprintw i (j * 2 + 1) " " (curses.mvprintw i (j * 2) "■" window)
    else curses.mvprintw i (j * 2 + 1) " " (curses.mvprintw i (j * 2) " " window)

/-- The window that `refresh` brings to the terminal. -/
def draw_grid (curses : Ncurses Window) (grid : Grid) (window : Window) : Option Window :=
  (List.range grid_height.toNat).foldlM (fun window (i : ℕ) =>
    (List.range grid_width.toNat).foldlM (fun window (j : ℕ) => drawCell curses grid i j window) window) window

/-- The window shows the cells of a plane with a blank behind each, and else what it held before. -/
structure Ncurses.Shows (curses : Ncurses Window) (plane : Plane) (old window : Window) : Prop where
  cells : ∀ p ∈ board, curses.Inside (p.1, p.2 * 2) →
    curses.inch window (p.1, p.2 * 2) = if plane p = true then '■' else ' '
  blanks : ∀ p ∈ board, curses.Inside (p.1, p.2 * 2 + 1) → curses.inch window (p.1, p.2 * 2 + 1) = ' '
  rest : ∀ q, curses.Inside q → ¬(0 ≤ q.1 ∧ q.1 < 30 ∧ 0 ≤ q.2 ∧ q.2 < 60) →
    curses.inch window q = curses.inch old q

/-- The cells that the window shows alive. -/
def Ncurses.shown (curses : Ncurses Window) (window : Window) : Plane := fun p =>
  decide (p ∈ board) && curses.inch window (p.1, p.2 * 2) == '■'

/-! ### The loops of `draw_grid` -/

/-- The character that belongs at a position. -/
def glyph (grid : Grid) (q : ℤ × ℤ) : Char :=
  if q.2 % 2 = 0 ∧ live grid (q.1, q.2 / 2) = true then '■' else ' '

/-- The part of the window that the first `i` rows, and `j` cells of the next one, take. -/
def Painted (i j : ℤ) (q : ℤ × ℤ) : Prop :=
  0 ≤ q.1 ∧ 0 ≤ q.2 ∧ q.2 < 60 ∧ (q.1 < i ∨ q.1 = i ∧ q.2 < j * 2)

/-- This part has been drawn. -/
structure Drawn (curses : Ncurses Window) (grid : Grid) (old : Window) (i j : ℤ) (window : Window) : Prop where
  painted : ∀ q, curses.Inside q → Painted i j q → curses.inch window q = glyph grid q
  rest : ∀ q, curses.Inside q → ¬Painted i j q → curses.inch window q = curses.inch old q

variable {curses : Ncurses Window} {grid : Grid} {old window : Window}

lemma Ncurses.Prints.inch_eq {c : Char} (h : curses.Prints c) (y x : ℤ) (window : Window) {q : ℤ × ℤ}
    (hq : curses.Inside q) : curses.inch (curses.mvprintw y x (.singleton c) window) q =
      if q = (y, x) then c else curses.inch window q := by
  by_cases he : q = (y, x)
  · rw [if_pos he, he]
    exact h.written y x window (he ▸ hq)
  · rw [if_neg he]
    exact h.others y x window q hq he

lemma Drawn.start (curses : Ncurses Window) (grid : Grid) (window : Window) : Drawn curses grid window 0 0 window where
  painted q _ hq := by
    obtain ⟨hy, hx, -, hlt⟩ := hq
    omega
  rest _ _ _ := rfl

lemma painted_row {i : ℤ} {q : ℤ × ℤ} : Painted i 30 q ↔ Painted (i + 1) 0 q := by
  unfold Painted
  omega

lemma Drawn.row {i : ℤ} (h : Drawn curses grid old i 30 window) : Drawn curses grid old (i + 1) 0 window where
  painted q hq hpainted := h.painted q hq (painted_row.mpr hpainted)
  rest q hq hnot := h.rest q hq fun hpainted => hnot (painted_row.mp hpainted)

lemma painted_succ {i j : ℕ} (hj : j < 30) {q : ℤ × ℤ} : Painted i (j + 1) q ↔
    Painted i j q ∨ q = ((i : ℤ), (j : ℤ) * 2) ∨ q = ((i : ℤ), (j : ℤ) * 2 + 1) := by
  obtain ⟨y, x⟩ := q
  simp only [Painted, Prod.mk.injEq]
  omega

lemma drawCell_drawn (hblock : curses.Prints '■') (hblank : curses.Prints ' ') {i j : ℕ} (hi : i < 30) (hj : j < 30)
    (h : Drawn curses grid old i j window) :
    ∃ next, drawCell curses grid i j window = some next ∧ Drawn curses grid old i (j + 1) next := by
  have hboard : ((i : ℤ), (j : ℤ)) ∈ board := by
    simp only [board, Set.mem_ofPred_eq, grid_height, grid_width]
    omega
  obtain ⟨cell, hcell⟩ := grid.read_eq_some (i := (i : ℤ) * grid_width + j) (by rw [grid_width]; omega)
    (by rw [grid_width]; omega)
  have hlive : live grid (i, j) = decide (cell ≠ 0) := by
    simp only [live, hboard, if_true, hcell]
    rfl
  have hleft : glyph grid (i, j * 2) = if cell ≠ 0 then '■' else ' ' := by
    have hhalf : (j : ℤ) * 2 / 2 = j := by omega
    have heven : (j : ℤ) * 2 % 2 = 0 := by omega
    simp only [glyph, hhalf, heven, hlive, true_and, decide_eq_true_eq]
  have hright : glyph grid (i, j * 2 + 1) = ' ' := by
    have hodd : ¬((j : ℤ) * 2 + 1) % 2 = 0 := by omega
    simp only [glyph, hodd, false_and, if_false]
  have hwrites : ∀ c, curses.Prints c → c = glyph grid (i, j * 2) → Drawn curses grid old i (j + 1)
      (curses.mvprintw i (j * 2 + 1) (.singleton ' ') (curses.mvprintw i (j * 2) (.singleton c) window)) := by
    intro c hc hglyph
    constructor
    · intro q hq hpainted
      rw [hblank.inch_eq _ _ _ hq, hc.inch_eq _ _ _ hq]
      by_cases hsecond : q = ((i : ℤ), (j : ℤ) * 2 + 1)
      · rw [if_pos hsecond, hsecond, hright]
      · rw [if_neg hsecond]
        by_cases hfirst : q = ((i : ℤ), (j : ℤ) * 2)
        · rw [if_pos hfirst, hfirst, hglyph]
        · rw [if_neg hfirst]
          rcases (painted_succ hj).mp hpainted with hbefore | hnow | hnow
          · exact h.painted q hq hbefore
          · exact absurd hnow hfirst
          · exact absurd hnow hsecond
    · intro q hq hnot
      have hne : ¬Painted i j q ∧ q ≠ ((i : ℤ), (j : ℤ) * 2) ∧ q ≠ ((i : ℤ), (j : ℤ) * 2 + 1) := by
        rwa [painted_succ hj, not_or, not_or] at hnot
      rw [hblank.inch_eq _ _ _ hq, hc.inch_eq _ _ _ hq, if_neg hne.2.2, if_neg hne.2.1]
      exact h.rest q hq hne.1
  rw [drawCell, hcell, Option.map_some]
  by_cases hzero : cell ≠ 0
  · rw [if_pos hzero]
    exact ⟨_, rfl, hwrites '■' hblock (by rw [hleft, if_pos hzero])⟩
  · rw [if_neg hzero]
    exact ⟨_, rfl, hwrites ' ' hblank (by rw [hleft, if_neg hzero])⟩

lemma draw_row (hblock : curses.Prints '■') (hblank : curses.Prints ' ') {i : ℕ} (hi : i < 30)
    (h : Drawn curses grid old i 0 window) {j : ℕ} (hj : j ≤ 30) :
    ∃ next, (List.range j).foldlM (fun window (j : ℕ) => drawCell curses grid i j window) window = some next ∧
      Drawn curses grid old i j next := by
  induction j with
  | zero => exact ⟨window, rfl, h⟩
  | succ j ih =>
    obtain ⟨before, hbefore, hdrawn⟩ := ih (by omega)
    obtain ⟨next, hnext, hdrawn'⟩ := drawCell_drawn hblock hblank hi (by omega) hdrawn
    refine ⟨next, ?_, by exact_mod_cast hdrawn'⟩
    rw [foldlM_range_succ, hbefore, Option.bind_some, hnext]

theorem draw_grid_drawn (hblock : curses.Prints '■') (hblank : curses.Prints ' ') (grid : Grid) (window : Window) :
    ∃ next, draw_grid curses grid window = some next ∧ Drawn curses grid window 30 0 next := by
  have hrows : ∀ i : ℕ, i ≤ 30 → ∃ next, (List.range i).foldlM (fun window (i : ℕ) =>
      (List.range 30).foldlM (fun window (j : ℕ) => drawCell curses grid i j window) window) window = some next ∧
      Drawn curses grid window i 0 next := by
    intro i
    induction i with
    | zero => exact fun _ => ⟨window, rfl, .start curses grid window⟩
    | succ i ih =>
      intro hi
      obtain ⟨before, hbefore, hdrawn⟩ := ih (by omega)
      obtain ⟨next, hnext, hdrawn'⟩ := draw_row hblock hblank (by omega) hdrawn le_rfl
      refine ⟨next, ?_, by exact_mod_cast hdrawn'.row⟩
      rw [foldlM_range_succ, hbefore, Option.bind_some, hnext]
  exact hrows 30 le_rfl

/-! ### What is shown -/

lemma Drawn.shows (h : Drawn curses grid old 30 0 window) : curses.Shows (live grid) old window := by
  have hpart : ∀ p ∈ board, Painted 30 0 (p.1, p.2 * 2) ∧ Painted 30 0 (p.1, p.2 * 2 + 1) := by
    intro p hp
    simp only [board, Set.mem_ofPred_eq, grid_height, grid_width] at hp
    simp only [Painted]
    omega
  constructor
  · intro p hp hinside
    have hhalf : p.2 * 2 / 2 = p.2 := by omega
    have heven : p.2 * 2 % 2 = 0 := by omega
    rw [h.painted _ hinside (hpart p hp).1]
    simp only [glyph, heven, hhalf, true_and]
  · intro p hp hinside
    have hodd : ¬(p.2 * 2 + 1) % 2 = 0 := by omega
    rw [h.painted _ hinside (hpart p hp).2]
    simp only [glyph, hodd, false_and, if_false]
  · intro q hinside hq
    refine h.rest q hinside fun hpainted => hq ?_
    simp only [Painted] at hpainted
    omega

lemma Ncurses.Shows.shown_eq (h : curses.Shows (live grid) old window) (hlines : 30 ≤ curses.lines)
    (hcols : 60 ≤ curses.cols) : curses.shown window = live grid := by
  funext p
  by_cases hp : p ∈ board
  · have hinside : curses.Inside (p.1, p.2 * 2) := by
      simp only [board, Set.mem_ofPred_eq, grid_height, grid_width] at hp
      simp only [Ncurses.Inside]
      omega
    simp only [Ncurses.shown, hp, decide_true, Bool.true_and, h.cells p hp hinside]
    cases live grid p <;> rfl
  · simp [Ncurses.shown, live, hp]

/-- When two generations are drawn one after the other, the window shows the first and then the second by
Conway's rule, as far as it reaches, with a blank behind every cell and the rest as it was. A window of 30
rows and 60 columns shows enough to apply the rule to what is seen. -/
theorem drawings_follow_rule (hblock : curses.Prints '■') (hblank : curses.Prints ' ') (foreground background : Grid)
    (window : Window) :
    ∃ next before after, update_grid foreground background = some next ∧
      draw_grid curses foreground window = some before ∧ draw_grid curses next before = some after ∧
      curses.Shows (live foreground) window before ∧
      curses.Shows (fun p => decide (Lives (live foreground) p)) window after ∧
      (30 ≤ curses.lines → 60 ≤ curses.cols → curses.shown before = live foreground) := by
  obtain ⟨before, hbefore, hdrawn⟩ := draw_grid_drawn hblock hblank foreground window
  obtain ⟨after, hafter, hdrawn'⟩ := draw_grid_drawn hblock hblank (successor foreground) before
  have hfirst := hdrawn.shows
  have hsecond := hdrawn'.shows
  refine ⟨_, before, after, update_grid_eq _ _, hbefore, hafter, hfirst, ⟨fun p hp hinside => ?_, hsecond.blanks,
    fun q hinside hq => (hsecond.rest q hinside hq).trans (hfirst.rest q hinside hq)⟩, hfirst.shown_eq⟩
  have hrule : live (successor foreground) p = life (live foreground) p := by
    rw [live_successor, clip, if_pos hp]
  rw [hsecond.cells p hp hinside, hrule]
  simp only [life_iff_lives, decide_eq_true_eq]

end

/-- A terminal of 24 rows and 80 columns, where a string is put down character by character. -/
def terminal : Ncurses (ℤ × ℤ → Char) where
  lines := 24
  cols := 80
  mvprintw y x text window := text.toList.zipIdx.foldl (fun window (c, k) =>
    if 0 ≤ y ∧ y < 24 ∧ 0 ≤ x + k ∧ x + k < 80 then Function.update window (y, x + k) c else window) window
  inch window := window

lemma terminal_prints (c : Char) : terminal.Prints c := by
  have hput : ∀ y x window, terminal.mvprintw y x (.singleton c) window =
      if 0 ≤ y ∧ y < 24 ∧ 0 ≤ x ∧ x < 80 then Function.update window (y, x) c else window := by
    intro y x window
    simp [terminal]
  constructor
  · intro y x window hinside
    rw [hput, if_pos (show 0 ≤ y ∧ y < 24 ∧ 0 ≤ x ∧ x < 80 from hinside)]
    exact Function.update_self (y, x) c window
  · intro y x window q _ hne
    rw [hput]
    split
    · exact Function.update_of_ne hne _ _
    · rfl

/-- The blinker turns on the terminal, where the last six rows of the grid have no place. -/
theorem drawings_follow_rule_blinker : ∃ next before after, update_grid blinker blinker = some next ∧
    draw_grid terminal blinker (fun _ => '?') = some before ∧ draw_grid terminal next before = some after ∧
    before (0, 2) = '■' ∧ after (0, 2) = ' ' ∧ after (1, 0) = '■' ∧ after (1, 1) = ' ' ∧ after (0, 60) = '?' := by
  obtain ⟨next, before, after, hnext, hbefore, hafter, hfirst, hsecond, -⟩ :=
    drawings_follow_rule (terminal_prints '■') (terminal_prints ' ') blinker blinker fun _ => '?'
  refine ⟨next, before, after, hnext, hbefore, hafter, ?_, ?_, ?_, ?_, ?_⟩
  · exact hfirst.cells (0, 1) (by decide) (by decide)
  · exact hsecond.cells (0, 1) (by decide) (by decide)
  · exact hsecond.cells (1, 0) (by decide) (by decide)
  · exact hsecond.blanks (1, 0) (by decide) (by decide)
  · exact hsecond.rest (0, 60) (by decide) (by decide)

end SystemyOperacyjne.Life
