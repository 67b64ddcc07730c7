import SystemyOperacyjne.LifeThreads

/-!
# The cells that belong to no worker

When the number of workers does not divide 900, the last cells belong to none of them. Whatever the
workers and the signals do, such a cell shows in turn what `init_grid` drew and what `malloc` left.
-/

namespace SystemyOperacyjne.Life
open Concurrency

variable {n : ℕ} {s t : State n} {k : Fin 900} {drawn left : UInt8} {draws : List Bool} {rand : Bool}

/-- The value of `rand() % 2 == 0` that `init_grid` draws for the cell `k`, at the step that fills it. -/
def fills (k : Fin 900) (s : State n) : Action n → Option Bool
  | .main rand => if s.main = .init k then some rand else none
  | _ => none

/-- What a cell shows in frame `m`. -/
def inTurn (drawn left : UInt8) (m : ℕ) : UInt8 :=
  if m % 2 = 0 then drawn else left

lemma inTurn_succ (drawn left : UInt8) (m : ℕ) : inTurn left drawn (m + 1) = inTurn drawn left m := by
  unfold inTurn
  rcases Nat.mod_two_eq_zero_or_one m with h | h
  · rw [if_neg (by omega), if_pos h]
  · rw [if_pos (by omega), if_neg (by omega)]

/-- How often `main` has exchanged the grids. -/
def State.swaps (s : State n) : ℕ :=
  match s.main with
  | .kill _ | .sleep => s.frames.length - 1
  | _ => s.frames.length

/-- The cell `k` in the grids and in the frames, once `init_grid` is over. -/
structure InTurn (s : State n) (k : Fin 900) (drawn left : UInt8) : Prop where
  foreground : s.foreground k = inTurn drawn left s.swaps
  background : s.background k = inTurn left drawn s.swaps
  frames : ∀ (m : ℕ) (frame : Grid), s.frames[m]? = some frame → frame k = inTurn drawn left m

/-- Before that nothing has been shown, and the background is what `malloc` left. Of the foreground the cells
before `i` have been drawn. -/
structure Filling (s : State n) (k : Fin 900) (left : UInt8) (i : ℕ) (draws : List Bool) : Prop where
  background : s.background k = left
  frames : s.frames = []
  ahead : i ≤ k.val → draws = []
  filled : k.val < i → ∃ rand, draws = [rand] ∧ s.foreground k = toChar rand

/-- What is known of the cell `k`, by the place of `main`. -/
def LeftoverOk (left : UInt8) (k : Fin 900) (s : State n) (draws : List Bool) : Prop :=
  match s.main with
  | .create _ => Filling s k left 0 draws
  | .init i => Filling s k left i draws
  | .draw => ∃ rand, draws = [rand] ∧ InTurn s k (toChar rand) left
  | .kill _ | .sleep => s.frames ≠ [] ∧ ∃ rand, draws = [rand] ∧ InTurn s k (toChar rand) left

/-- A step of a worker, or a delivery: `main` stands still, and the cell `k` stays as it is. -/
lemma LeftoverOk.of_worker (h : LeftoverOk left k s draws) (hmain : t.main = s.main)
    (hfg : t.foreground = s.foreground) (hbg : t.background k = s.background k) (hframes : t.frames = s.frames) :
    LeftoverOk left k t draws := by
  have hswaps : t.swaps = s.swaps := by
    unfold State.swaps
    rw [hmain, hframes]
  have hfilling : ∀ i, Filling s k left i draws → Filling t k left i draws := by
    intro i hs
    refine ⟨hbg.trans hs.background, hframes.trans hs.frames, hs.ahead, fun hi => ?_⟩
    rw [hfg]
    exact hs.filled hi
  have hinTurn : ∀ rand, draws = [rand] ∧ InTurn s k (toChar rand) left →
      draws = [rand] ∧ InTurn t k (toChar rand) left := by
    rintro rand ⟨hdraws, hs⟩
    refine ⟨hdraws, ?_, ?_, ?_⟩
    · rw [hfg, hswaps]
      exact hs.foreground
    · rw [hbg, hswaps]
      exact hs.background
    · rw [hframes]
      exact hs.frames
  unfold LeftoverOk at h ⊢
  rw [hmain]
  cases hm : s.main with
  | create | init =>
    simp only [hm] at h ⊢
    exact hfilling _ h
  | draw =>
    simp only [hm] at h ⊢
    exact h.imp hinTurn
  | kill | sleep =>
    simp only [hm] at h ⊢
    rw [hframes]
    exact ⟨h.1, h.2.imp hinTurn⟩

lemma worker_leaves (hk : n * cells_per_thread n ≤ k.val) {w : Fin n} (hs : workerStep s w = some t) :
    t.main = s.main ∧ t.foreground = s.foreground ∧ t.background k = s.background k ∧ t.frames = s.frames := by
  obtain ⟨i, -, ⟨hi, hend, rfl⟩ | ⟨-, rfl⟩⟩ := workerStep_cases hs
  · have hle := end_index_le w.isLt
    have hne : k ≠ ⟨i, hi⟩ := by
      intro he
      rw [he] at hk
      simp only at hk
      omega
    exact ⟨rfl, rfl, Function.update_of_ne hne _ _, rfl⟩
  · exact ⟨rfl, rfl, rfl, rfl⟩

lemma InTurn.draw (h : InTurn s k drawn left) (hm : s.main = .draw) :
    InTurn { s with frames := s.frames ++ [s.foreground], main := .kill 0 } k drawn left := by
  have hswaps : s.swaps = s.frames.length := by simp only [State.swaps, hm]
  have hswaps' : State.swaps { s with frames := s.frames ++ [s.foreground], main := .kill 0 } = s.swaps := by
    simp [State.swaps, hm]
  constructor
  · rw [hswaps']
    exact h.foreground
  · rw [hswaps']
    exact h.background
  · intro m frame hframe
    rcases Nat.lt_trichotomy m s.frames.length with hlt | rfl | hgt
    · rw [List.getElem?_append_left hlt] at hframe
      exact h.frames m frame hframe
    · rw [List.getElem?_append_right le_rfl, Nat.sub_self] at hframe
      obtain rfl := Option.some.inj hframe
      rw [← hswaps]
      exact h.foreground
    · rw [List.getElem?_eq_none (by rw [List.length_append, List.length_singleton]; omega)] at hframe
      cases hframe

lemma InTurn.swap (h : InTurn s k drawn left) (hm : s.main = .sleep) (hframes : s.frames ≠ []) :
    InTurn { s with foreground := s.background, background := s.foreground, main := .draw } k drawn left := by
  have hpos := List.length_pos_iff.mpr hframes
  have hswaps : s.swaps = s.frames.length - 1 := by simp only [State.swaps, hm]
  have hswaps' : State.swaps
      { s with foreground := s.background, background := s.foreground, main := .draw } = s.swaps + 1 := by
    rw [hswaps]
    simp only [State.swaps]
    omega
  constructor
  · rw [hswaps', inTurn_succ]
    exact h.background
  · rw [hswaps', inTurn_succ]
    exact h.foreground
  · exact h.frames

lemma Filling.fill {i : ℕ} {grid : Grid} (h : Filling s k left i draws) (hm : s.main = .init i) (hi : i < 900)
    (hgrid : s.foreground.write i (toChar rand) = some grid) :
    Filling { s with foreground := grid, main := .init (i + 1) } k left (i + 1)
      (draws ++ (fills k s (.main rand)).toList) := by
  have hwrite := s.foreground.write_eq_some ⟨i, hi⟩ (toChar rand)
  obtain rfl := Option.some.inj (hgrid.symm.trans hwrite)
  by_cases hk : k.val = i
  · have hdraws : draws = [] := h.ahead (by omega)
    have hnow : fills k s (.main rand) = some rand := by simp only [fills, hm, hk, if_true]
    have hcell : k = ⟨i, hi⟩ := Fin.ext hk
    refine ⟨h.background, h.frames, fun hle => absurd hle (by omega), fun _ => ⟨rand, ?_, ?_⟩⟩
    · rw [hdraws, hnow]
      rfl
    · simp only [hcell, Function.update_self]
  · have hother : fills k s (.main rand) = none := by
      simp only [fills, hm, MainPc.init.injEq]
      exact if_neg fun he => hk he.symm
    have hne : k ≠ ⟨i, hi⟩ := fun he => hk (congrArg Fin.val he)
    rw [hother, Option.toList_none, List.append_nil]
    refine ⟨h.background, h.frames, fun hle => h.ahead (by omega), fun hlt => ?_⟩
    simp only [Function.update_of_ne hne]
    exact h.filled (by omega)

lemma fills_eq_none (hm : ∀ i, s.main ≠ .init i) (a : Action n) : fills k s a = none := by
  cases a with
  | main rand => exact if_neg (hm k)
  | worker => rfl
  | deliver => rfl

lemma LeftoverOk.main (h : LeftoverOk left k s draws) (hs : mainStep s rand = some t) :
    LeftoverOk left k t (draws ++ (fills k s (.main rand)).toList) := by
  unfold LeftoverOk at h
  have hquiet : (∀ i, s.main ≠ .init i) → draws ++ (fills k s (.main rand)).toList = draws := by
    intro hm
    rw [fills_eq_none hm, Option.toList_none, List.append_nil]
  cases hm : s.main with
  | create i =>
    simp only [hm] at h
    rw [hquiet (by simp [hm])]
    simp only [mainStep, hm] at hs
    split at hs <;> cases hs <;> exact ⟨h.background, h.frames, h.ahead, h.filled⟩
  | init i =>
    simp only [hm] at h
    simp only [mainStep, hm] at hs
    split at hs
    · next hi =>
      obtain ⟨grid, hgrid, rfl⟩ := Option.map_eq_some_iff.mp hs
      exact h.fill hm hi hgrid
    · next hi =>
      cases hs
      have hother : fills k s (.main rand) = none := by
        simp only [fills, hm, MainPc.init.injEq]
        refine if_neg fun he => hi ?_
        rw [he]
        exact k.isLt
      obtain ⟨rand, hdraws, hfg⟩ := h.filled (by omega)
      have hswaps : State.swaps { s with main := .draw } = 0 := by simp [State.swaps, h.frames]
      rw [hother, Option.toList_none, List.append_nil]
      refine ⟨rand, hdraws, ?_, ?_, ?_⟩
      · rw [hswaps]
        exact hfg
      · rw [hswaps]
        exact h.background
      · intro m frame hframe
        simp only [h.frames] at hframe
        cases hframe
  | draw =>
    simp only [hm] at h
    rw [hquiet (by simp [hm])]
    simp only [mainStep, hm, Option.some.injEq] at hs
    subst hs
    obtain ⟨rand, hdraws, hturn⟩ := h
    exact ⟨by simp, rand, hdraws, hturn.draw hm⟩
  | kill i =>
    simp only [hm] at h
    rw [hquiet (by simp [hm])]
    obtain ⟨hframes, rand, hdraws, hturn⟩ := h
    have hswaps : s.swaps = s.frames.length - 1 := by simp only [State.swaps, hm]
    have hfg := hturn.foreground
    have hbg := hturn.background
    rw [hswaps] at hfg hbg
    simp only [mainStep, hm] at hs
    split at hs <;> cases hs <;> exact ⟨hframes, rand, hdraws, hfg, hbg, hturn.frames⟩
  | sleep =>
    simp only [hm] at h
    rw [hquiet (by simp [hm])]
    simp only [mainStep, hm, Option.some.injEq] at hs
    subst hs
    obtain ⟨hframes, rand, hdraws, hturn⟩ := h
    exact ⟨rand, hdraws, hturn.swap hm hframes⟩

lemma LeftoverOk.step {a : Action n} (h : LeftoverOk left k s draws) (hk : n * cells_per_thread n ≤ k.val)
    (hs : (machine n).next s a = some t) : LeftoverOk left k t (draws ++ (fills k s a).toList) := by
  cases a with
  | main rand => exact h.main hs
  | worker w =>
    obtain ⟨hmain, hfg, hbg, hframes⟩ := worker_leaves hk hs
    rw [show draws ++ (fills k s (.worker w)).toList = draws from List.append_nil draws]
    exact h.of_worker hmain hfg hbg hframes
  | deliver w =>
    rw [show draws ++ (fills k s (.deliver w)).toList = draws from List.append_nil draws]
    obtain ⟨-, ⟨-, rfl⟩ | ⟨-, rfl⟩⟩ := deliverStep_cases hs
    · exact h.of_worker rfl rfl rfl rfl
    · exact h.of_worker rfl rfl rfl rfl

/-- For every number of workers and every interleaving, at whatever moments `main` exchanges the grids:
`init_grid` has drawn a cell that belongs to no worker once, and the cell shows what was drawn in the first,
third, ... frame, and what `malloc` left in the background in the others. -/
theorem leftover_in_turn {s₀ : State n} (h₀ : Started s₀) {as : List (Action n)}
    (h : (machine n).exec s₀ as = some s) (hk : n * (900 / n) ≤ k.val) (hframes : s.frames ≠ []) :
    ∃ rand, (machine n).visible (fills k) s₀ as = [rand] ∧ ∀ (m : ℕ) (frame : Grid), s.frames[m]? = some frame →
      frame k = if m % 2 = 0 then toChar rand else s₀.background k := by
  have hstart : LeftoverOk (s₀.background k) k s₀ [] := by
    unfold LeftoverOk
    rw [h₀.main]
    exact ⟨rfl, h₀.frames, fun _ => rfl, fun hlt => absurd hlt (Nat.not_lt_zero _)⟩
  rw [← cells_per_thread_eq] at hk
  have hok := Machine.visible_keeps (fun u a v draws hn hu => LeftoverOk.step hu hk hn) h hstart
  rw [List.nil_append] at hok
  unfold LeftoverOk at hok
  split at hok
  · exact absurd hok.frames hframes
  · exact absurd hok.frames hframes
  · exact hok.imp fun rand hrand => ⟨hrand.1, hrand.2.frames⟩
  · exact hok.2.imp fun rand hrand => ⟨hrand.1, hrand.2.frames⟩
  · exact hok.2.imp fun rand hrand => ⟨hrand.1, hrand.2.frames⟩

/-- `main` draws a 1 for the last cell only, and shows three frames while two workers begin. -/
def threeFrames : List (Action 7) :=
  List.replicate 907 (.main false) ++ [.worker ⟨6, by decide⟩, .main true, .worker ⟨0, by decide⟩, .main true] ++
    List.replicate 10 (.main true) ++ [.deliver ⟨6, by decide⟩, .worker ⟨6, by decide⟩] ++
    List.replicate 11 (.main true)

/-- Seven workers: the last cell belongs to none of them. -/
theorem leftover_in_turn_seven : ∃ s : State 7, s.frames.length = 3 ∧
    ∀ (m : ℕ) (frame : Grid), s.frames[m]? = some frame → frame 899 = if m % 2 = 0 then 1 else 5 := by
  let s₀ : State 7 := ⟨fun _ => 0, fun _ => 5, .create 0, fun _ => ⟨.notCreated, false⟩, []⟩
  have hrun : ((machine 7).exec s₀ threeFrames).map
      (fun s => (s.frames.length, (machine 7).visible (fills 899) s₀ threeFrames)) = some (3, [true]) := by
    decide +kernel
  obtain ⟨s, hs, heq⟩ := Option.map_eq_some_iff.mp hrun
  simp only [Prod.mk.injEq] at heq
  have hframes : s.frames ≠ [] := List.ne_nil_of_length_pos (by omega)
  obtain ⟨rand, hrand, hturn⟩ := leftover_in_turn ⟨rfl, fun _ => rfl, rfl⟩ hs (k := 899) (by decide) hframes
  obtain rfl : rand = true := by simpa using hrand.symm.trans heq.2
  exact ⟨s, heq.1, hturn⟩

end SystemyOperacyjne.Life
