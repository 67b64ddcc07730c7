import SystemyOperacyjne.Library.Machine
import SystemyOperacyjne.LifeWorkers

/-!
# The threads of Life

`main` of `cw9/life.c` with its `n` workers, one statement of one thread at a time. The
workers reach the grids through the addresses of main's variables `foreground` and
`background`, so exchanging the pointers exchanges the grids for everybody.
-/

namespace SystemyOperacyjne.Life
open Concurrency

/-- A worker before its creation, in the loop of `update` at the flat index `i`, in
`pause`, or after an access outside a grid. -/
inductive WorkerPc
  | notCreated
  | computing (i : ℕ)
  | paused
  | fault
  deriving DecidableEq, Repr

/-- `pending` is a SIGUSR1 that was sent and has not been delivered. -/
structure Worker where
  pc : WorkerPc
  pending : Bool
  deriving DecidableEq, Repr

/-- `main`: creating worker `k`, filling cell `k` in `init_grid`, before `draw_grid`,
sending SIGUSR1 to worker `k`, in `usleep` before the exchange of the pointers. -/
inductive MainPc
  | create (k : ℕ)
  | init (k : ℕ)
  | draw
  | kill (k : ℕ)
  | sleep
  deriving DecidableEq, Repr

/-- `frames` are the grids drawn so far. -/
structure State (n : ℕ) where
  foreground : Grid
  background : Grid
  main : MainPc
  workers : Fin n → Worker
  frames : List Grid

/-- Which thread moves; `rand` is whether `rand() % 2 == 0` for the cell that `main` fills,
and `deliver` runs the empty handler in a worker. -/
inductive Action (n : ℕ)
  | main (rand : Bool)
  | worker (w : Fin n)
  | deliver (w : Fin n)
  deriving DecidableEq, Repr

variable {n : ℕ}

def State.setWorker (s : State n) (w : Fin n) (x : Worker) : State n :=
  { s with workers := Function.update s.workers w x }

def mainStep (s : State n) (rand : Bool) : Option (State n) :=
  match s.main with
  | .create k =>
    if h : k < n then
      some { s.setWorker ⟨k, h⟩ ⟨.computing (start_index n k), false⟩ with main := .create (k + 1) }
    else some { s with main := .init 0 }
  | .init k =>
    if k < 900 then
      (s.foreground.write k (toChar rand)).map fun g => { s with foreground := g, main := .init (k + 1) }
    else some { s with main := .draw }
  | .draw => some { s with frames := s.frames ++ [s.foreground], main := .kill 0 }
  | .kill k =>
    if h : k < n then
      some { s.setWorker ⟨k, h⟩ { s.workers ⟨k, h⟩ with pending := true } with main := .kill (k + 1) }
    else some { s with main := .sleep }
  | .sleep => some { s with foreground := s.background, background := s.foreground, main := .draw }

def workerStep (s : State n) (w : Fin n) : Option (State n) :=
  match (s.workers w).pc with
  | .computing i =>
    if i < end_index n w then
      match updateIndex s.foreground i s.background with
      | some bg =>
        some { s.setWorker w { s.workers w with pc := .computing (i + 1) } with background := bg }
      | none => some (s.setWorker w { s.workers w with pc := .fault })
    else some (s.setWorker w { s.workers w with pc := .paused })
  | .notCreated | .paused | .fault => none

/-- The handler returns, and so does a `pause` that the signal finds the worker in. -/
def deliverStep (s : State n) (w : Fin n) : Option (State n) :=
  if (s.workers w).pending then
    match (s.workers w).pc with
    | .paused => some (s.setWorker w ⟨.computing (start_index n w), false⟩)
    | pc => some (s.setWorker w ⟨pc, false⟩)
  else none

def step (s : State n) : Action n → Option (State n)
  | .main rand => mainStep s rand
  | .worker w => workerStep s w
  | .deliver w => deliverStep s w

/-- Before the first thread is created; both grids hold whatever `malloc` left there. -/
structure Started (s : State n) : Prop where
  main : s.main = .create 0
  workers : ∀ w, s.workers w = ⟨.notCreated, false⟩
  frames : s.frames = []

def machine (n : ℕ) : Machine (State n) (Action n) where
  init := Started
  next := step

lemma setWorker_workers (s : State n) (w v : Fin n) (x : Worker) :
    (s.setWorker w x).workers v = if v = w then x else s.workers v := by
  simp [State.setWorker, Function.update_apply]

/-- What a step of a worker inside its range can be: it writes the next cell of the new
generation, or it calls `pause` at the end of its range. -/
lemma workerStep_cases {s t : State n} {w : Fin n} (h : workerStep s w = some t) :
    ∃ i, (s.workers w).pc = .computing i ∧
      ((∃ hi : i < 900, i < end_index n w ∧
          t = { s.setWorker w { s.workers w with pc := .computing (i + 1) } with
            background := Function.update s.background ⟨i, hi⟩ (successor s.foreground ⟨i, hi⟩) }) ∨
        (end_index n w ≤ i ∧ t = s.setWorker w { s.workers w with pc := .paused })) := by
  unfold workerStep at h
  cases hpc : (s.workers w).pc with
  | computing i =>
    refine ⟨i, rfl, ?_⟩
    simp only [hpc] at h
    by_cases hi : i < end_index n w
    · have hle := end_index_le_900 w.isLt
      have hlt : i < 900 := by omega
      have hupd := updateIndex_eq s.foreground s.background ⟨i, hlt⟩
      simp only at hupd
      rw [if_pos hi, hupd] at h
      exact .inl ⟨hlt, hi, (Option.some.inj h).symm⟩
    · rw [if_neg hi] at h
      exact .inr ⟨by omega, (Option.some.inj h).symm⟩
  | notCreated | paused | fault => simp [hpc] at h

/-- What a delivery can do: wake a worker from `pause`, or be lost on one that is not
there. -/
lemma deliverStep_cases {s t : State n} {w : Fin n} (h : deliverStep s w = some t) :
    (s.workers w).pending = true ∧
      (((s.workers w).pc = .paused ∧ t = s.setWorker w ⟨.computing (start_index n w), false⟩) ∨
        ((s.workers w).pc ≠ .paused ∧ t = s.setWorker w ⟨(s.workers w).pc, false⟩)) := by
  unfold deliverStep at h
  by_cases hp : (s.workers w).pending = true
  · rw [if_pos hp] at h
    cases hpc : (s.workers w).pc with
    | paused =>
      simp only [hpc, Option.some.injEq] at h
      exact ⟨hp, .inl ⟨rfl, h.symm⟩⟩
    | notCreated | computing _ | fault =>
      simp only [hpc, Option.some.injEq] at h
      exact ⟨hp, .inr ⟨by simp, h.symm⟩⟩
  · rw [if_neg hp] at h
    cases h

/-! ### One generation -/

/-- Steps during which `main` neither fills nor exchanges the grids. -/
def Within (s : State n) (a : Action n) : Prop :=
  ∀ rand, a = .main rand → s.main ≠ .sleep ∧ ∀ k, s.main ≠ .init k

/-- What a worker of a generation has done to its range: the cells before `i` are new, the
others are new or still old, and all are new once it has paused. -/
def RangeOk (fg old bg : Grid) (n w : ℕ) : WorkerPc → Prop
  | .notCreated => ∀ k : Fin 900, start_index n w ≤ k.val → k.val < end_index n w →
      bg k = successor fg k ∨ bg k = old k
  | .computing i => start_index n w ≤ i ∧ i ≤ end_index n w ∧
      (∀ k : Fin 900, start_index n w ≤ k.val → k.val < i → bg k = successor fg k) ∧
      ∀ k : Fin 900, i ≤ k.val → k.val < end_index n w → bg k = successor fg k ∨ bg k = old k
  | .paused => ∀ k : Fin 900, start_index n w ≤ k.val → k.val < end_index n w → bg k = successor fg k
  | .fault => False

/-- At the beginning of its loop nothing is required of a worker's range but that no cell
in it is foreign. -/
lemma RangeOk.restart {fg old bg : Grid} {w : ℕ}
    (h : ∀ k : Fin 900, start_index n w ≤ k.val → k.val < end_index n w →
      bg k = successor fg k ∨ bg k = old k) :
    RangeOk fg old bg n w (.computing (start_index n w)) :=
  ⟨le_rfl, start_index_le_end_index n w, fun k hk₁ hk₂ => absurd hk₂ (by omega), h⟩

lemma RangeOk.new_or_old {fg old bg : Grid} {w : ℕ} {pc : WorkerPc} (h : RangeOk fg old bg n w pc)
    (k : Fin 900) (hk₁ : start_index n w ≤ k.val) (hk₂ : k.val < end_index n w) :
    bg k = successor fg k ∨ bg k = old k := by
  cases pc with
  | notCreated => exact h k hk₁ hk₂
  | computing i =>
    obtain ⟨-, -, hnew, hrest⟩ := h
    by_cases hk : k.val < i
    · exact .inl (hnew k hk₁ hk)
    · exact hrest k (by omega) hk₂
  | paused => exact .inl (h k hk₁ hk₂)
  | fault => exact h.elim

lemma write_foreign (bg : Grid) {w v : ℕ} (hvw : v ≠ w) {i : ℕ} (hi : i < 900) (h₁ : start_index n v ≤ i)
    (h₂ : i < end_index n v) (cell : UInt8) (k : Fin 900) (hk₁ : start_index n w ≤ k.val)
    (hk₂ : k.val < end_index n w) : Function.update bg ⟨i, hi⟩ cell k = bg k := by
  refine Function.update_of_ne (fun he => ?_) _ _
  have hdisj := Finset.disjoint_left.mp (ranges_disjoint n hvw) (Finset.mem_Ico.mpr ⟨h₁, h₂⟩)
  rw [he] at hk₁ hk₂
  exact hdisj (Finset.mem_Ico.mpr ⟨hk₁, hk₂⟩)

lemma RangeOk.write_other {fg old bg : Grid} {w v : ℕ} {pc : WorkerPc} (h : RangeOk fg old bg n w pc)
    (hvw : v ≠ w) {i : ℕ} (hi : i < 900) (h₁ : start_index n v ≤ i) (h₂ : i < end_index n v) (cell : UInt8) :
    RangeOk fg old (Function.update bg ⟨i, hi⟩ cell) n w pc := by
  have hsame := write_foreign bg hvw hi h₁ h₂ cell
  cases pc with
  | computing j =>
    obtain ⟨hj₁, hj₂, hnew, hrest⟩ := h
    refine ⟨hj₁, hj₂, fun k hk₁ hk₂ => ?_, fun k hk₁ hk₂ => ?_⟩
    · rw [hsame k hk₁ (by omega)]
      exact hnew k hk₁ hk₂
    · rw [hsame k (by omega) hk₂]
      exact hrest k hk₁ hk₂
  | paused =>
    intro k hk₁ hk₂
    rw [hsame k hk₁ hk₂]
    exact h k hk₁ hk₂
  | notCreated =>
    intro k hk₁ hk₂
    rw [hsame k hk₁ hk₂]
    exact h k hk₁ hk₂
  | fault => exact h

lemma RangeOk.write_next {fg old bg : Grid} {w i : ℕ} (h : RangeOk fg old bg n w (.computing i))
    (hi : i < 900) (hend : i < end_index n w) :
    RangeOk fg old (Function.update bg ⟨i, hi⟩ (successor fg ⟨i, hi⟩)) n w (.computing (i + 1)) := by
  obtain ⟨h₁, h₂, hnew, hrest⟩ := h
  refine ⟨by omega, hend, fun k hk₁ hk₂ => ?_, fun k hk₁ hk₂ => ?_⟩
  · by_cases hk : k = ⟨i, hi⟩
    · subst hk
      rw [Function.update_self]
    · have hne : k.val ≠ i := fun he => hk (Fin.ext he)
      rw [Function.update_of_ne hk]
      exact hnew k hk₁ (by omega)
  · have hk : k ≠ ⟨i, hi⟩ := by
      intro he
      rw [he] at hk₁
      exact absurd hk₁ (Nat.not_succ_le_self i)
    rw [Function.update_of_ne hk]
    exact hrest k (by omega) hk₂

/-- The state of a generation: the foreground is that of the start, every worker is as
`RangeOk` says, and the cells that belong to nobody are old. -/
structure Generation (fg old : Grid) (s : State n) : Prop where
  foreground : s.foreground = fg
  workers : ∀ w : Fin n, RangeOk fg old s.background n w (s.workers w).pc
  rest : ∀ k : Fin 900, n * cells_per_thread n ≤ k.val → s.background k = old k

/-- No worker has computed anything yet. -/
def Fresh (s : State n) : Prop :=
  ∀ w, (s.workers w).pc = .notCreated ∨ (s.workers w).pc = .computing (start_index n w)

lemma Generation.start {s : State n} (h : Fresh s) : Generation s.foreground s.background s := by
  refine ⟨rfl, fun w => ?_, fun _ _ => rfl⟩
  rcases h w with hw | hw
  · rw [hw]
    exact fun _ _ _ => .inr rfl
  · rw [hw]
    exact .restart fun _ _ _ => .inr rfl

lemma Generation.setWorker {fg old : Grid} {s : State n} (h : Generation fg old s) {w : Fin n} {x : Worker}
    (hx : RangeOk fg old s.background n w x.pc) : Generation fg old (s.setWorker w x) := by
  refine ⟨h.foreground, fun v => ?_, h.rest⟩
  rw [setWorker_workers]
  by_cases hv : v = w
  · subst hv
    rw [if_pos rfl]
    exact hx
  · rw [if_neg hv]
    exact h.workers v

lemma Generation.workerStep {fg old : Grid} {s t : State n} (h : Generation fg old s) {w : Fin n}
    (hs : Life.workerStep s w = some t) : Generation fg old t := by
  obtain ⟨i, hpc, ⟨hi, hend, rfl⟩ | ⟨hend, rfl⟩⟩ := workerStep_cases hs
  · have hw := h.workers w
    rw [hpc] at hw
    refine ⟨h.foreground, fun v => ?_, fun k hk => ?_⟩
    · simp only [setWorker_workers, h.foreground]
      by_cases hv : v = w
      · subst hv
        rw [if_pos rfl]
        exact hw.write_next hi hend
      · rw [if_neg hv]
        exact (h.workers v).write_other (fun he => hv (Fin.ext he.symm)) hi hw.1 hend _
    · have hle := end_index_le w.isLt
      have hk' : k ≠ ⟨i, hi⟩ := by
        intro he
        rw [he] at hk
        simp only at hk
        omega
      simp only [Function.update_of_ne hk']
      exact h.rest k hk
  · have hw := h.workers w
    rw [hpc] at hw
    refine h.setWorker fun k hk₁ hk₂ => hw.2.2.1 k hk₁ (by omega)

lemma Generation.deliverStep {fg old : Grid} {s t : State n} (h : Generation fg old s) {w : Fin n}
    (hs : Life.deliverStep s w = some t) : Generation fg old t := by
  obtain ⟨-, ⟨hpc, rfl⟩ | ⟨-, rfl⟩⟩ := deliverStep_cases hs
  · have hw := h.workers w
    rw [hpc] at hw
    exact h.setWorker (.restart fun k hk₁ hk₂ => .inl (hw k hk₁ hk₂))
  · exact h.setWorker (h.workers w)

lemma Generation.mainStep {fg old : Grid} {s t : State n} (h : Generation fg old s) {rand : Bool}
    (hsleep : s.main ≠ .sleep) (hinit : ∀ k, s.main ≠ .init k) (hs : Life.mainStep s rand = some t) :
    Generation fg old t := by
  cases hm : s.main with
  | create k =>
    by_cases hk : k < n
    · simp only [Life.mainStep, hm, hk, dite_true, Option.some.injEq] at hs
      subst hs
      have hset := h.setWorker (w := ⟨k, hk⟩) (x := ⟨.computing (start_index n k), false⟩)
        (.restart (h.workers ⟨k, hk⟩).new_or_old)
      exact ⟨hset.foreground, hset.workers, hset.rest⟩
    · simp only [Life.mainStep, hm, hk, dite_false, Option.some.injEq] at hs
      subst hs
      exact ⟨h.foreground, h.workers, h.rest⟩
  | init k => exact absurd hm (hinit k)
  | draw =>
    simp only [Life.mainStep, hm, Option.some.injEq] at hs
    subst hs
    exact ⟨h.foreground, h.workers, h.rest⟩
  | kill k =>
    by_cases hk : k < n
    · simp only [Life.mainStep, hm, hk, dite_true, Option.some.injEq] at hs
      subst hs
      have hset := h.setWorker (w := ⟨k, hk⟩) (x := { s.workers ⟨k, hk⟩ with pending := true })
        (h.workers ⟨k, hk⟩)
      exact ⟨hset.foreground, hset.workers, hset.rest⟩
    · simp only [Life.mainStep, hm, hk, dite_false, Option.some.injEq] at hs
      subst hs
      exact ⟨h.foreground, h.workers, h.rest⟩
  | sleep => exact absurd hm hsleep

/-- For every interleaving of the workers' updates in which `main` leaves the grids alone:
no worker leaves the grid, the foreground is unchanged, and once all have paused the
background is the new generation up to `n * (900 / n)` and old from there on. -/
theorem generation_schedule_independent {s t : State n} (hs : Fresh s)
    (h : ((machine n).startingAt s).ReachableBy Within t) :
    (∀ w, (t.workers w).pc ≠ .fault) ∧ t.foreground = s.foreground ∧
      ((∀ w, (t.workers w).pc = .paused) → ∀ k : Fin 900, t.background k =
        if k.val < n * (900 / n) then toChar (cellAlive s.foreground k) else s.background k) := by
  have hgen : Generation s.foreground s.background t := by
    refine h.invariant ?_ ?_
    · rintro u rfl
      exact .start hs
    · intro u a v hu hP hn
      cases a with
      | main rand => exact hu.mainStep (hP rand rfl).1 (hP rand rfl).2 hn
      | worker w => exact hu.workerStep hn
      | deliver w => exact hu.deliverStep hn
  refine ⟨fun w hw => ?_, hgen.foreground, fun hpaused k => ?_⟩
  · have hok := hgen.workers w
    rw [hw] at hok
    exact hok
  · rw [← cells_per_thread_eq]
    by_cases hk : k.val < n * cells_per_thread n
    · rw [if_pos hk]
      obtain ⟨i, hi, hmem⟩ := (exists_worker_iff n k).mpr hk
      rw [Finset.mem_Ico] at hmem
      have hok := hgen.workers ⟨i, hi⟩
      rw [hpaused] at hok
      exact hok k hmem.1 hmem.2
    · rw [if_neg hk]
      exact hgen.rest k (by omega)

/-- A grid all of whose cells hold the same value. -/
def filled (cell : UInt8) : Grid := fun _ => cell

/-- Two workers before their loops, the second with a signal that has not been delivered. -/
def pairReady : State 2 where
  foreground := filled 1
  background := filled 0
  main := .draw
  workers w := ⟨.computing (w.val * 450), w.val == 1⟩
  frames := []

/-- The first worker is ahead by ten cells, then they take turns; the signal comes in the middle. -/
def takingTurns : List (Action 2) :=
  let first : Action 2 := .worker ⟨0, by decide⟩
  let second : Action 2 := .worker ⟨1, by decide⟩
  List.replicate 10 first ++ (List.replicate 441 [second, first]).flatten ++
    .deliver ⟨1, by decide⟩ :: List.replicate 10 second

theorem generation_schedule_independent_takingTurns :
    ∃ t, ((machine 2).startingAt pairReady).ReachableBy Within t ∧ t.background = successor (filled 1) := by
  have hrun : ((machine 2).exec pairReady takingTurns).map
      (fun t => decide (∀ w, (t.workers w).pc = .paused)) = some true := by
    decide +kernel
  obtain ⟨t, ht, hpaused⟩ := Option.map_eq_some_iff.mp hrun
  have hquiet : ∀ a ∈ takingTurns, ∀ rand, a ≠ .main rand := by decide +kernel
  have hreach : ((machine 2).startingAt pairReady).ReachableBy Within t := by
    refine Machine.ReachableBy.exec (.start rfl) (fun u a ha rand hmain => absurd hmain (hquiet a ha rand)) ?_
    rw [Machine.startingAt_exec]
    exact ht
  have hfresh : Fresh pairReady := by
    intro w
    refine .inr (congrArg WorkerPc.computing ?_)
    rw [start_index, cells_per_thread_eq]
  obtain ⟨-, -, hbg⟩ := generation_schedule_independent hfresh hreach
  refine ⟨t, hreach, funext fun k => ?_⟩
  rw [hbg (of_decide_eq_true hpaused) k]
  exact if_pos k.isLt

/-! ### One worker -/

/-- A state with one worker. -/
def solo (fg bg : Grid) (m : MainPc) (pc : WorkerPc) (pending : Bool) (frames : List Grid) : State 1 where
  foreground := fg
  background := bg
  main := m
  workers _ := ⟨pc, pending⟩
  frames := frames

lemma solo_setWorker (fg bg : Grid) (m : MainPc) (pc : WorkerPc) (pending : Bool) (frames : List Grid)
    (x : Worker) : (solo fg bg m pc pending frames).setWorker 0 x = solo fg bg m x.pc x.pending frames := by
  unfold State.setWorker solo
  congr 1
  funext v
  rw [Subsingleton.elim v 0, Function.update_self]

lemma cells_per_thread_one : cells_per_thread 1 = 900 := by
  rw [cells_per_thread_eq]

lemma solo_write (fg bg : Grid) (m : MainPc) (pending : Bool) (frames : List Grid) {i : ℕ} (hi : i < 900) :
    workerStep (solo fg (patched (successor fg) bg 0 i) m (.computing i) pending frames) 0 =
      some (solo fg (patched (successor fg) bg 0 (i + 1)) m (.computing (i + 1)) pending frames) := by
  have hend : end_index 1 0 = 900 := by rw [end_index, cells_per_thread_one]
  have hupd := updateIndex_eq fg (patched (successor fg) bg 0 i) ⟨i, hi⟩
  rw [update_patched _ _ (Nat.zero_le i)] at hupd
  have hset := solo_setWorker fg (patched (successor fg) bg 0 i) m (.computing i) pending frames
    ⟨.computing (i + 1), pending⟩
  unfold workerStep
  simp only [solo, Fin.val_zero, hend, hi, if_true] at hupd hset ⊢
  rw [hupd]
  exact congrArg (fun u : State 1 => some { u with background := patched (successor fg) bg 0 (i + 1) }) hset

lemma solo_computes (fg bg : Grid) (m : MainPc) (pending : Bool) (frames : List Grid) :
    (machine 1).exec (solo fg bg m (.computing 0) pending frames) (List.replicate 900 (.worker 0)) =
      some (solo fg (successor fg) m (.computing 900) pending frames) := by
  have hrun : ∀ i, i ≤ 900 → (machine 1).exec (solo fg bg m (.computing 0) pending frames)
      (List.replicate i (.worker 0)) =
      some (solo fg (patched (successor fg) bg 0 i) m (.computing i) pending frames) := by
    intro i
    induction i with
    | zero =>
      intro _
      rw [patched_self]
      rfl
    | succ i ih =>
      intro hi
      rw [List.replicate_succ', Machine.exec_append_of_eq (ih (by omega)), Machine.exec_singleton]
      exact solo_write fg bg m pending frames hi
  have hall := hrun 900 le_rfl
  rwa [show patched (successor fg) bg 0 900 = successor fg by
    funext k
    simp [patched, k.isLt]] at hall

lemma solo_pauses (fg bg : Grid) (m : MainPc) (pending : Bool) (frames : List Grid) :
    workerStep (solo fg bg m (.computing 900) pending frames) 0 =
      some (solo fg bg m .paused pending frames) := by
  have hend : end_index 1 0 = 900 := by rw [end_index, cells_per_thread_one]
  have hset := solo_setWorker fg bg m (.computing 900) pending frames ⟨.paused, pending⟩
  unfold workerStep
  simp only [solo, Fin.val_zero, hend, lt_self_iff_false, if_false] at hset ⊢
  exact congrArg some hset

end SystemyOperacyjne.Life
