import SystemyOperacyjne.LifeThreads

/-!
# The frames that Life draws

`main` exchanges the grids after a `usleep`, on the understanding that all workers are
then blocked in `pause`. A SIGUSR1 that reaches a worker outside `pause` is consumed by
an empty handler; the frames are successive generations as long as such a worker has
written nothing that differs from the generation it is asked for.
-/

namespace SystemyOperacyjne.Life
open Concurrency

variable {n : ℕ}

/-- `main` exchanges the grids only when all workers are blocked in `pause`. A worker with
a signal pending is not blocked. -/
def SwapsWhenPaused (s : State n) (a : Action n) : Prop :=
  ∀ rand, a = .main rand → s.main = .sleep → ∀ w, s.workers w = ⟨.paused, false⟩

/-- A signal finds its worker in `pause`, or the cells that the worker has written in its
unfinished pass are those of the next generation of the foreground. -/
def DeliveredInTime (s : State n) (a : Action n) : Prop :=
  ∀ w i, a = .deliver w → (s.workers w).pc = .computing i →
    ∀ k : Fin 900, start_index n w ≤ k.val → k.val < i → s.background k = successor s.foreground k

/-- The frames are successive generations of Life. -/
def Successive (frames : List Grid) : Prop :=
  frames.IsChain fun f g => ∀ dst, update_grid f dst = some g

/-- What a worker that got its signal has done: the cells it passed are new. -/
def Renewed (fg bg : Grid) (n w : ℕ) : WorkerPc → Prop
  | .computing i => ∀ k : Fin 900, start_index n w ≤ k.val → k.val < i → bg k = successor fg k
  | .paused => ∀ k : Fin 900, start_index n w ≤ k.val → k.val < end_index n w → bg k = successor fg k
  | .notCreated | .fault => True

/-- What holds at each place of `main`. Before the first frame nothing is known about the
background; once signals are sent, the workers that got theirs renew it. -/
def MainOk (s : State n) : MainPc → Prop
  | .create _ | .init _ => s.frames = [] ∧ ∀ w, (s.workers w).pending = false
  | .draw => (∀ f, s.frames.getLast? = some f → s.foreground = successor f) ∧
      ∀ w, (s.workers w).pending = false
  | .kill k => s.frames.getLast? = some s.foreground ∧
      (∀ w : Fin n, w.val < k → (s.workers w).pending = false →
        Renewed s.foreground s.background n w (s.workers w).pc) ∧
      ∀ w : Fin n, k ≤ w.val → (s.workers w).pending = false
  | .sleep => s.frames.getLast? = some s.foreground ∧
      ∀ w : Fin n, (s.workers w).pending = false →
        Renewed s.foreground s.background n w (s.workers w).pc

structure FramesOk (s : State n) : Prop where
  chain : Successive s.frames
  main : MainOk s s.main
  place : ∀ (w : Fin n) i, (s.workers w).pc = .computing i →
    start_index n w ≤ i ∧ i ≤ end_index n w

/-- A change of the workers and the background that keeps what renewed workers have done
keeps what `main` relies on. -/
lemma MainOk.of_workers {s t : State n} {m : MainPc} (h : MainOk s m)
    (hfg : t.foreground = s.foreground) (hframes : t.frames = s.frames)
    (hpending : ∀ w, (s.workers w).pending = false → (t.workers w).pending = false)
    (hrenewed : s.frames.getLast? = some s.foreground → ∀ w : Fin n, (t.workers w).pending = false →
      ((s.workers w).pending = false → Renewed s.foreground s.background n w (s.workers w).pc) →
      Renewed s.foreground t.background n w (t.workers w).pc) : MainOk t m := by
  cases m with
  | create k => exact ⟨hframes.trans h.1, fun w => hpending w (h.2 w)⟩
  | init k => exact ⟨hframes.trans h.1, fun w => hpending w (h.2 w)⟩
  | draw =>
    refine ⟨?_, fun w => hpending w (h.2 w)⟩
    rw [hframes, hfg]
    exact h.1
  | kill k =>
    obtain ⟨hlast, hdone, hrest⟩ := h
    refine ⟨?_, fun w hw hp => ?_, fun w hw => hpending w (hrest w hw)⟩
    · rw [hframes, hfg]
      exact hlast
    · rw [hfg]
      exact hrenewed hlast w hp (hdone w hw)
  | sleep =>
    obtain ⟨hlast, hdone⟩ := h
    refine ⟨?_, fun w hp => ?_⟩
    · rw [hframes, hfg]
      exact hlast
    · rw [hfg]
      exact hrenewed hlast w hp (hdone w)

lemma Renewed.write_other {fg bg : Grid} {w v : ℕ} {pc : WorkerPc} (h : Renewed fg bg n w pc)
    (hpc : ∀ i, pc = .computing i → i ≤ end_index n w)
    (hvw : v ≠ w) {i : ℕ} (hi : i < 900) (h₁ : start_index n v ≤ i) (h₂ : i < end_index n v) (cell : UInt8) :
    Renewed fg (Function.update bg ⟨i, hi⟩ cell) n w pc := by
  have hsame := write_foreign bg hvw hi h₁ h₂ cell
  cases pc with
  | computing j =>
    intro k hk₁ hk₂
    have := hpc j rfl
    rw [hsame k hk₁ (by omega)]
    exact h k hk₁ hk₂
  | paused =>
    intro k hk₁ hk₂
    rw [hsame k hk₁ hk₂]
    exact h k hk₁ hk₂
  | notCreated | fault => trivial

lemma place_setWorker {s : State n} {w : Fin n} {x : Worker}
    (h : ∀ (v : Fin n) i, (s.workers v).pc = .computing i → start_index n v ≤ i ∧ i ≤ end_index n v)
    (hx : ∀ i, x.pc = .computing i → start_index n w ≤ i ∧ i ≤ end_index n w) :
    ∀ (v : Fin n) i, ((s.setWorker w x).workers v).pc = .computing i →
      start_index n v ≤ i ∧ i ≤ end_index n v := by
  intro v i hv
  rw [setWorker_workers] at hv
  by_cases he : v = w
  · subst he
    rw [if_pos rfl] at hv
    exact hx i hv
  · rw [if_neg he] at hv
    exact h v i hv

lemma FramesOk.workerStep {s t : State n} (h : FramesOk s) {w : Fin n}
    (hs : Life.workerStep s w = some t) : FramesOk t := by
  obtain ⟨i, hpc, ⟨hi, hend, rfl⟩ | ⟨hend, rfl⟩⟩ := workerStep_cases hs
  · have hplace := h.place w i hpc
    refine ⟨h.chain, h.main.of_workers rfl rfl (fun v hv => ?_) (fun _ v hv hold => ?_), ?_⟩
    · simp only [setWorker_workers]
      split
      · next he => rw [← he]; exact hv
      · exact hv
    · simp only [setWorker_workers] at hv ⊢
      by_cases he : v = w
      · subst he
        rw [if_pos rfl] at hv ⊢
        have hren := hold hv
        rw [hpc] at hren
        intro k hk₁ hk₂
        by_cases hk : k = ⟨i, hi⟩
        · subst hk
          rw [Function.update_self]
        · have hne : k.val ≠ i := fun hki => hk (Fin.ext hki)
          rw [Function.update_of_ne hk]
          exact hren k hk₁ (by omega)
      · rw [if_neg he] at hv ⊢
        exact (hold hv).write_other (fun j hj => (h.place v j hj).2)
          (fun hvw => he (Fin.ext hvw.symm)) hi hplace.1 hend _
    · refine place_setWorker h.place fun j hj => ?_
      obtain rfl : i + 1 = j := by simpa using hj
      exact ⟨by omega, hend⟩
  · refine ⟨h.chain, h.main.of_workers rfl rfl (fun v hv => ?_) (fun _ v hv hold => ?_), ?_⟩
    · rw [setWorker_workers]
      split
      · next he => rw [← he]; exact hv
      · exact hv
    · rw [setWorker_workers] at hv ⊢
      by_cases he : v = w
      · subst he
        rw [if_pos rfl] at hv ⊢
        have hren := hold hv
        rw [hpc] at hren
        exact fun k hk₁ hk₂ => hren k hk₁ (by omega)
      · rw [if_neg he] at hv ⊢
        exact hold hv
    · exact place_setWorker h.place fun j hj => by cases hj

lemma FramesOk.deliverStep {s t : State n} (h : FramesOk s) {w : Fin n}
    (hP : DeliveredInTime s (.deliver w)) (hs : Life.deliverStep s w = some t) : FramesOk t := by
  have hset : ∀ pc, Renewed s.foreground s.background n w pc →
      (∀ i, pc = .computing i → start_index n w ≤ i ∧ i ≤ end_index n w) →
      FramesOk (s.setWorker w ⟨pc, false⟩) := by
    intro pc hren hplace
    refine ⟨h.chain, h.main.of_workers rfl rfl (fun v hv => ?_) (fun _ v hv hold => ?_),
      place_setWorker h.place hplace⟩
    · rw [setWorker_workers]
      split
      · rfl
      · exact hv
    · rw [setWorker_workers] at hv ⊢
      by_cases he : v = w
      · subst he
        rw [if_pos rfl]
        exact hren
      · rw [if_neg he] at hv ⊢
        exact hold hv
  obtain ⟨-, ⟨-, rfl⟩ | ⟨hpc, rfl⟩⟩ := deliverStep_cases hs
  · refine hset _ (fun k hk₁ hk₂ => absurd hk₂ (by omega)) fun i hi => ?_
    obtain rfl : start_index n w = i := by simpa using hi
    exact ⟨le_rfl, start_index_le_end_index n w⟩
  · refine hset _ ?_ (h.place w)
    cases hw : (s.workers w).pc with
    | computing i => exact hP w i rfl hw
    | paused => exact absurd hw hpc
    | notCreated | fault => trivial

/-- With every worker in `pause` and renewed, and ranges that cover the grid, the
background is the next generation. -/
lemma background_eq_successor (hn : n ∣ 900) {s : State n} (hpaused : ∀ w, s.workers w = ⟨.paused, false⟩)
    (hdone : ∀ w : Fin n, (s.workers w).pending = false →
      Renewed s.foreground s.background n w (s.workers w).pc) : s.background = successor s.foreground := by
  funext k
  have hk : k.val < n * cells_per_thread n := by
    rw [(mul_cells_per_thread_eq_iff n).mpr hn]
    exact k.isLt
  obtain ⟨i, hi, hmem⟩ := (exists_worker_iff n k).mpr hk
  rw [Finset.mem_Ico] at hmem
  have hren := hdone ⟨i, hi⟩ (by rw [hpaused])
  rw [hpaused] at hren
  exact hren k hmem.1 hmem.2

lemma FramesOk.mainStep (hn : n ∣ 900) {s t : State n} (h : FramesOk s) {rand : Bool}
    (hP : SwapsWhenPaused s (.main rand)) (hs : Life.mainStep s rand = some t) : FramesOk t := by
  have hmain := h.main
  cases hm : s.main with
  | create k =>
    rw [hm] at hmain
    by_cases hk : k < n
    · simp only [Life.mainStep, hm, hk, dite_true, Option.some.injEq] at hs
      subst hs
      refine ⟨h.chain, ⟨hmain.1, fun w => ?_⟩, place_setWorker h.place fun i hi => ?_⟩
      · simp only [setWorker_workers]
        split
        · rfl
        · exact hmain.2 w
      · obtain rfl : start_index n k = i := by simpa using hi
        exact ⟨le_rfl, start_index_le_end_index n k⟩
    · simp only [Life.mainStep, hm, hk, dite_false, Option.some.injEq] at hs
      subst hs
      exact ⟨h.chain, hmain, h.place⟩
  | init k =>
    rw [hm] at hmain
    by_cases hk : k < 900
    · have hwrite := s.foreground.write_eq_some ⟨k, hk⟩ (toChar rand)
      simp only at hwrite
      simp only [Life.mainStep, hm, hk, if_true, hwrite, Option.map_some, Option.some.injEq] at hs
      subst hs
      exact ⟨h.chain, hmain, h.place⟩
    · simp only [Life.mainStep, hm, hk, if_false, Option.some.injEq] at hs
      subst hs
      refine ⟨h.chain, ⟨fun f hf => ?_, hmain.2⟩, h.place⟩
      rw [hmain.1] at hf
      cases hf
  | draw =>
    rw [hm] at hmain
    simp only [Life.mainStep, hm, Option.some.injEq] at hs
    subst hs
    refine ⟨?_, ⟨by simp, fun w hw => absurd hw (Nat.not_lt_zero _), fun w _ => hmain.2 w⟩, h.place⟩
    refine List.isChain_append.mpr ⟨h.chain, List.isChain_singleton _, fun f hf g hg dst => ?_⟩
    obtain rfl : s.foreground = g := by simpa using hg
    rw [hmain.1 f hf]
    exact update_grid_eq f dst
  | kill k =>
    rw [hm] at hmain
    obtain ⟨hlast, hdone, hrest⟩ := hmain
    by_cases hk : k < n
    · simp only [Life.mainStep, hm, hk, dite_true, Option.some.injEq] at hs
      subst hs
      refine ⟨h.chain, ⟨hlast, fun w hw hp => ?_, fun w hw => ?_⟩, place_setWorker h.place (h.place _)⟩
      · simp only [setWorker_workers] at hp ⊢
        by_cases he : w = ⟨k, hk⟩
        · rw [if_pos he] at hp
          cases hp
        · rw [if_neg he] at hp ⊢
          have hne : w.val ≠ k := fun hv => he (Fin.ext hv)
          exact hdone w (by omega) hp
      · have he : w ≠ ⟨k, hk⟩ := by
          intro hv
          rw [hv] at hw
          exact absurd hw (Nat.not_succ_le_self k)
        simp only [setWorker_workers, if_neg he]
        exact hrest w (by omega)
    · simp only [Life.mainStep, hm, hk, dite_false, Option.some.injEq] at hs
      subst hs
      exact ⟨h.chain, ⟨hlast, fun w hp => hdone w (by omega) hp⟩, h.place⟩
  | sleep =>
    rw [hm] at hmain
    obtain ⟨hlast, hdone⟩ := hmain
    have hpaused := hP rand rfl hm
    simp only [Life.mainStep, hm, Option.some.injEq] at hs
    subst hs
    refine ⟨h.chain, ⟨fun f hf => ?_, fun w => by simp only [hpaused]⟩, h.place⟩
    obtain rfl : s.foreground = f := by simpa [hlast] using hf
    exact background_eq_successor hn hpaused hdone

/-- For every `n` that divides 900: if every signal is delivered in time and `main`
exchanges the grids only when all workers are blocked in `pause`, every frame after the
first is the Life successor of the frame before. -/
theorem frames_successive (hn : n ∣ 900) {s : State n}
    (h : (machine n).ReachableBy (fun u a => SwapsWhenPaused u a ∧ DeliveredInTime u a) s) :
    Successive s.frames := by
  suffices hok : FramesOk s from hok.chain
  refine h.invariant ?_ ?_
  · intro u hu
    refine ⟨?_, ?_, fun w i hw => ?_⟩
    · rw [hu.frames]
      exact List.isChain_nil
    · rw [hu.main]
      exact ⟨hu.frames, fun w => by rw [hu.workers w]⟩
    · rw [hu.workers w] at hw
      cases hw
  · rintro u a v hu ⟨hswap, hdel⟩ hn'
    cases a with
    | main rand => exact hu.mainStep hn hswap hn'
    | worker w => exact hu.workerStep hn'
    | deliver w => exact hu.deliverStep hdel hn'

/-! ### Two runs with one worker -/

section

variable {P : State 1 → Action 1 → Prop}

lemma solo_step {s : State 1} (t : State 1) (a : Action 1) (h : (machine 1).ReachableBy P s) (hP : P s a)
    (hs : step s a = some t) : (machine 1).ReachableBy P t :=
  h.step hP hs

lemma solo_init {fg bg : Grid} {pc : WorkerPc} {frames : List Grid}
    (hP : ∀ g i, P (solo g bg (.init i) pc false frames) (.main true))
    (h : (machine 1).ReachableBy P (solo fg bg (.init 0) pc false frames)) :
    (machine 1).ReachableBy P (solo (filled 1) bg (.init 900) pc false frames) := by
  have hrun : ∀ i, i ≤ 900 →
      (machine 1).ReachableBy P (solo (patched (filled 1) fg 0 i) bg (.init i) pc false frames) := by
    intro i
    induction i with
    | zero =>
      intro _
      rwa [patched_self]
    | succ i ih =>
      intro hi
      have hwrite := (patched (filled 1) fg 0 i).write_eq_some ⟨i, by omega⟩ (toChar true)
      have hupd := update_patched (filled 1) fg (Nat.zero_le i) (show i < 900 by omega)
      refine solo_step _ (.main true) (ih (by omega)) (hP _ _) ?_
      simp only [step, mainStep, solo, show i < 900 by omega, if_true]
      rw [hwrite, show toChar true = filled 1 ⟨i, by omega⟩ from rfl, hupd]
      rfl
  have hall := hrun 900 le_rfl
  rwa [show patched (filled 1) fg 0 900 = filled 1 by
    funext k
    simp [patched, k.isLt]] at hall

lemma solo_pass {fg bg : Grid} {m : MainPc} {frames : List Grid} (hP : ∀ s, P s (.worker 0))
    (h : (machine 1).ReachableBy P (solo fg bg m (.computing 0) false frames)) :
    (machine 1).ReachableBy P (solo fg (successor fg) m (.computing 900) false frames) := by
  refine h.exec (fun u a ha => ?_) (solo_computes fg bg m false frames)
  rw [List.eq_of_mem_replicate ha]
  exact hP u

lemma solo_create (fg bg : Grid) (pc : WorkerPc) (pending : Bool) (frames : List Grid) (rand : Bool) :
    step (solo fg bg (.create 0) pc pending frames) (.main rand) =
      some (solo fg bg (.create 1) (.computing 0) false frames) := by
  have hset := solo_setWorker fg bg (.create 0) pc pending frames ⟨.computing 0, false⟩
  have hstart : start_index 1 0 = 0 := Nat.zero_mul _
  simp only [step, mainStep, show (solo fg bg (.create 0) pc pending frames).main = .create 0 from rfl,
    Nat.zero_lt_one, dite_true, hstart]
  exact congrArg (fun u : State 1 => some { u with main := .create 1 }) hset

lemma solo_kill (fg bg : Grid) (pc : WorkerPc) (pending : Bool) (frames : List Grid) (rand : Bool) :
    step (solo fg bg (.kill 0) pc pending frames) (.main rand) =
      some (solo fg bg (.kill 1) pc true frames) := by
  have hset := solo_setWorker fg bg (.kill 0) pc pending frames ⟨pc, true⟩
  simp only [step, mainStep, show (solo fg bg (.kill 0) pc pending frames).main = .kill 0 from rfl,
    Nat.zero_lt_one, dite_true]
  exact congrArg (fun u : State 1 => some { u with main := .kill 1 }) hset

lemma solo_lost (fg bg : Grid) (m : MainPc) (i : ℕ) (frames : List Grid) :
    step (solo fg bg m (.computing i) true frames) (.deliver 0) =
      some (solo fg bg m (.computing i) false frames) :=
  congrArg some (solo_setWorker fg bg m (.computing i) true frames ⟨.computing i, false⟩)

lemma solo_started : Started (solo (filled 0) (filled 0) (.create 0) .notCreated false []) :=
  ⟨rfl, fun _ => rfl, rfl⟩

end

/-- The worker computes its pass before `init_grid` and gets the signal of the first frame
just before it calls `pause`: the second frame is the successor of what `malloc` left. -/
theorem not_frames_successive : ¬∀ n, n ∣ 900 → ∀ s : State n,
    (machine n).ReachableBy SwapsWhenPaused s → Successive s.frames := by
  intro h
  have awake : ∀ (g bg : Grid) (m : MainPc) (x : Bool), m ≠ .sleep →
      ∀ pc p fr, SwapsWhenPaused (solo g bg m pc p fr) (.main x) :=
    fun _ _ _ _ hm _ _ _ _ _ hs => absurd hs hm
  have quiet : ∀ (s : State 1) a, (∀ r, a ≠ .main r) → SwapsWhenPaused s a :=
    fun s a ha r hr => absurd hr (ha r)
  have h₀ : (machine 1).ReachableBy SwapsWhenPaused _ := .start solo_started
  have h₁ := solo_step _ (.main false) h₀ (awake _ _ _ _ (by simp) _ _ _) (solo_create _ _ _ _ _ _)
  have h₂ := solo_step (solo _ _ (.init 0) (.computing 0) false []) (.main false) h₁
    (awake _ _ _ _ (by simp) _ _ _) rfl
  have h₃ := solo_pass (fun s => quiet s _ (by simp)) h₂
  have h₄ := solo_init (fun g i => awake _ _ _ _ (by simp) _ _ _) h₃
  have h₅ := solo_step (solo _ _ .draw (.computing 900) false []) (.main false) h₄
    (awake _ _ _ _ (by simp) _ _ _) rfl
  have h₆ := solo_step (solo _ _ (.kill 0) (.computing 900) false [filled 1]) (.main false) h₅
    (awake _ _ _ _ (by simp) _ _ _) rfl
  have h₇ := solo_step _ (.main false) h₆ (awake _ _ _ _ (by simp) _ _ _) (solo_kill _ _ _ _ _ _)
  have h₈ := solo_step (solo _ _ .sleep (.computing 900) true [filled 1]) (.main false) h₇
    (awake _ _ _ _ (by simp) _ _ _) rfl
  have h₉ := solo_step _ (.deliver 0) h₈ (quiet _ _ (by simp)) (solo_lost _ _ _ _ _)
  have h₁₀ := solo_step _ (.worker 0) h₉ (quiet _ _ (by simp)) (solo_pauses _ _ _ _ _)
  have h₁₁ := solo_step (solo (successor (filled 0)) (filled 1) .draw .paused false [filled 1])
    (.main false) h₁₀ (fun _ _ _ _ => rfl) rfl
  have h₁₂ := solo_step (solo (successor (filled 0)) (filled 1) (.kill 0) .paused false
    [filled 1, successor (filled 0)]) (.main false) h₁₁ (awake _ _ _ _ (by simp) _ _ _) rfl
  have hchain : Successive [filled 1, successor (filled 0)] := h 1 (one_dvd _) _ h₁₂
  have hgen := (List.isChain_pair.mp hchain) (filled 0)
  rw [update_grid_eq] at hgen
  have hcell := congrFun (Option.some.inj hgen) 0
  revert hcell
  decide

/-- The same run with the signal of the first frame delivered before the worker starts. -/
theorem frames_successive_solo : ∃ s, (machine 1).ReachableBy
    (fun u a => SwapsWhenPaused u a ∧ DeliveredInTime u a) s ∧
      s.frames = [filled 1, successor (filled 1)] ∧ Successive s.frames := by
  have awake : ∀ (g bg : Grid) (m : MainPc) (x : Bool), m ≠ .sleep → ∀ pc p fr,
      SwapsWhenPaused (solo g bg m pc p fr) (.main x) ∧ DeliveredInTime (solo g bg m pc p fr) (.main x) :=
    fun _ _ _ _ hm _ _ _ => ⟨fun _ _ hs => absurd hs hm, fun _ _ ha => (by cases ha)⟩
  have quiet : ∀ s : State 1, SwapsWhenPaused s (.worker 0) ∧ DeliveredInTime s (.worker 0) :=
    fun s => ⟨fun _ ha => (by cases ha), fun _ _ ha => (by cases ha)⟩
  have h₀ : (machine 1).ReachableBy (fun u a => SwapsWhenPaused u a ∧ DeliveredInTime u a) _ :=
    .start solo_started
  have h₁ := solo_step _ (.main false) h₀ (awake _ _ _ _ (by simp) _ _ _) (solo_create _ _ _ _ _ _)
  have h₂ := solo_step (solo _ _ (.init 0) (.computing 0) false []) (.main false) h₁
    (awake _ _ _ _ (by simp) _ _ _) rfl
  have h₃ := solo_init (fun g i => awake _ _ _ _ (by simp) _ _ _) h₂
  have h₄ := solo_step (solo _ _ .draw (.computing 0) false []) (.main false) h₃
    (awake _ _ _ _ (by simp) _ _ _) rfl
  have h₅ := solo_step (solo _ _ (.kill 0) (.computing 0) false [filled 1]) (.main false) h₄
    (awake _ _ _ _ (by simp) _ _ _) rfl
  have h₆ := solo_step _ (.main false) h₅ (awake _ _ _ _ (by simp) _ _ _) (solo_kill _ _ _ _ _ _)
  have h₇ := solo_step (solo _ _ .sleep (.computing 0) true [filled 1]) (.main false) h₆
    (awake _ _ _ _ (by simp) _ _ _) rfl
  have h₈ := solo_step _ (.deliver 0) h₇ ⟨fun _ ha => (by cases ha), fun w i _ hi k _ hk => by
    obtain rfl : 0 = i := by simpa [solo] using hi
    exact absurd hk (Nat.not_lt_zero _)⟩ (solo_lost _ _ _ _ _)
  have h₉ := solo_pass quiet h₈
  have h₁₀ := solo_step _ (.worker 0) h₉ (quiet _) (solo_pauses _ _ _ _ _)
  have h₁₁ := solo_step (solo (successor (filled 1)) (filled 1) .draw .paused false [filled 1])
    (.main false) h₁₀ ⟨fun _ _ _ _ => rfl, fun _ _ ha => (by cases ha)⟩ rfl
  have h₁₂ := solo_step (solo (successor (filled 1)) (filled 1) (.kill 0) .paused false
    [filled 1, successor (filled 1)]) (.main false) h₁₁ (awake _ _ _ _ (by simp) _ _ _) rfl
  exact ⟨_, h₁₂, rfl, frames_successive (one_dvd _) h₁₂⟩

end SystemyOperacyjne.Life
