import SystemyOperacyjne.SantaSafety

/-!
# The rounds

A reindeer leaves the queue when it finds it empty. If another reindeer arrives for the
next round before a released one has looked, the released one stays, is not counted, and
Santa waits for it forever.
-/

namespace SystemyOperacyjne.Santa
open Concurrency

variable {s t : State}

def ReindeerPc.InLoop : ReindeerPc → Prop
  | .test | .waiting | .woken => True
  | .vacation | .locked | .counted | .signal | .leave => False

instance : DecidablePred ReindeerPc.InLoop
  | .test | .waiting | .woken => isTrue trivial
  | .vacation | .locked | .counted | .signal | .leave => isFalse id

/-- Santa and all reindeer sleep, and nobody is left to wake them. -/
def Deadlock (s : State) : Prop :=
  s.santa = .waiting ∧ ∀ r, s.reindeers r = .waiting

instance : DecidablePred Deadlock := fun s =>
  inferInstanceAs (Decidable (s.santa = .waiting ∧ ∀ r, s.reindeers r = .waiting))

/-- A reindeer that was released by a delivery, is still in its wait loop, and will find
the queue of the next round. -/
def Missed (s : State) (v : Reindeer) : Prop :=
  (s.reindeers v).InLoop ∧ s.arrivals v = 0 ∧ 0 < s.reindeers_in_queue

/-- A reindeer opens the next round while `v` is in its wait loop. -/
def Overtakes (s : State) (a : Action) (v : Reindeer) : Prop :=
  ∃ r, a = .reindeer r ∧ s.reindeers r = .locked ∧ s.reindeers_in_queue = 0 ∧ (s.reindeers v).InLoop

instance (s : State) (a : Action) (v : Reindeer) : Decidable (Overtakes s a v) :=
  inferInstanceAs (Decidable (∃ r, a = .reindeer r ∧ s.reindeers r = .locked ∧
    s.reindeers_in_queue = 0 ∧ (s.reindeers v).InLoop))

/-- Until the fourth delivery no reindeer is overtaken. -/
def NoOvertaking (s : State) (a : Action) : Prop :=
  s.delivered_presents < presents_delivery → ∀ v, ¬Overtakes s a v

instance (s : State) (a : Action) : Decidable (NoOvertaking s a) :=
  inferInstanceAs (Decidable (s.delivered_presents < presents_delivery → ∀ v, ¬Overtakes s a v))

@[simp] lemma ReindeerPc.inLoop_wake (pc : ReindeerPc) : pc.wake.InLoop ↔ pc.InLoop := by
  cases pc <;> exact Iff.rfl

lemma inLoop_setReindeer {r : Reindeer} {pc : ReindeerPc} (h : pc.InLoop ↔ (s.reindeers r).InLoop)
    (v : Reindeer) : ((s.setReindeer r pc).reindeers v).InLoop ↔ (s.reindeers v).InLoop := by
  by_cases hv : v = r
  · rw [hv, setReindeer_self]
    exact h
  · rw [setReindeer_of_ne hv]

lemma not_overtakes {r : Reindeer} (h : s.reindeers r ≠ .locked) (v : Reindeer) :
    ¬Overtakes s (.reindeer r) v := by
  rintro ⟨u, hu, hpc, -, -⟩
  obtain rfl : r = u := by simpa using hu
  exact h hpc

lemma missed_congr {v : Reindeer} (hloop : (t.reindeers v).InLoop ↔ (s.reindeers v).InLoop)
    (harr : t.arrivals v = s.arrivals v) (hq : t.reindeers_in_queue = s.reindeers_in_queue) :
    Missed t v ↔ Missed s v := by
  unfold Missed
  rw [hloop, harr, hq]

lemma missed_reindeer (h : Ok s) {r : Reindeer} (hs : ReindeerMove s r t) (v : Reindeer) :
    Missed t v ↔ Missed s v ∨ Overtakes s (.reindeer r) v := by
  have hset : ∀ pc, s.reindeers r ≠ .locked → (pc.InLoop ↔ (s.reindeers r).InLoop) →
      ∀ (x : Option Thread) (y : SantaPc), Missed { s.setReindeer r pc with mutex := x, santa := y } v ↔
        Missed s v ∨ Overtakes s (.reindeer r) v := by
    intro pc hlocked hloop x y
    rw [or_iff_left (not_overtakes hlocked v)]
    exact missed_congr (inLoop_setReindeer hloop v) rfl rfl
  cases hs with
  | enters hpc hm => exact hset .locked (by simp [hpc]) (by simp [hpc, ReindeerPc.InLoop]) _ _
  | isLast hpc => exact hset .signal (by simp [hpc]) (by simp [hpc, ReindeerPc.InLoop]) s.mutex s.santa
  | waits hpc hq => exact hset .waiting (by simp [hpc]) (by simp [hpc, ReindeerPc.InLoop]) _ _
  | relocks hpc hm => exact hset .test (by simp [hpc]) (by simp [hpc, ReindeerPc.InLoop]) _ _
  | leaves hpc => exact hset .vacation (by simp [hpc]) (by simp [hpc, ReindeerPc.InLoop]) _ _
  | arrives hpc =>
    have hr : ¬(s.reindeers r).InLoop := by simp [hpc, ReindeerPc.InLoop]
    by_cases hv : v = r
    · subst hv
      refine iff_of_false (fun hm => ?_) ?_
      · simpa [ReindeerPc.InLoop] using hm.1
      · rintro (hm | ⟨u, -, -, -, hloop⟩)
        · exact hr hm.1
        · exact hr hloop
    · have hnonneg := h.queue_nonneg
      constructor
      · rintro ⟨hloop, harr, -⟩
        simp only [setReindeer_of_ne hv, Function.update_of_ne hv] at hloop harr
        by_cases hq : s.reindeers_in_queue = 0
        · exact .inr ⟨r, rfl, hpc, hq, hloop⟩
        · exact .inl ⟨hloop, harr, by omega⟩
      · intro hm
        have hloop : (s.reindeers v).InLoop ∧ s.arrivals v = 0 := by
          rcases hm with hm | ⟨u, -, -, hq, hloop⟩
          · exact ⟨hm.1, hm.2.1⟩
          · exact ⟨hloop, h.arrivals_eq_zero hq v⟩
        refine ⟨?_, ?_, by simp only; omega⟩
        · simp only [setReindeer_of_ne hv]
          exact hloop.1
        · simp only [Function.update_of_ne hv]
          exact hloop.2
  | notLast hpc | signals hpc =>
    -- the reindeer enters the loop with its arrival counted
    rw [or_iff_left (not_overtakes (by simp [hpc]) v)]
    by_cases hv : v = r
    · subst hv
      have harr := h.arrived v
      simp only [hpc, Arrived] at harr
      refine iff_of_false (fun hm => ?_) fun hm => ?_
      · exact absurd (hm.2.1.symm.trans harr) (by simp)
      · exact absurd (hm.2.1.symm.trans harr) (by simp)
    · refine missed_congr ?_ rfl rfl
      simp only [setReindeer_of_ne hv]
  | released hpc hq =>
    -- nobody is missed while the queue is empty
    rw [or_iff_left (not_overtakes (by simp [hpc]) v)]
    exact iff_of_false (fun hm => absurd hm.2.2 (not_lt.mpr hq)) fun hm => absurd hm.2.2 (not_lt.mpr hq)

lemma missed_santa (h : Ok s) (hs : SantaMove s t) (v : Reindeer) : Missed t v ↔ Missed s v := by
  cases hs with
  | starts | ends | locks | waits | setsOff | delivers | counts | unlocks =>
    exact missed_congr Iff.rfl rfl rfl
  | resets hpc =>
    have hsanta := h.santa
    rw [hpc] at hsanta
    have hone := h.arrivals_eq_one hsanta v
    refine iff_of_false (fun hm => absurd hm.2.2 (lt_irrefl 0)) fun hm => ?_
    exact absurd (hm.2.1.symm.trans hone) (by simp)
  | broadcasts => exact missed_congr (ReindeerPc.inLoop_wake _) rfl rfl

/-- A reindeer becomes missed when it is overtaken, and in no other way; once missed it
stays so. -/
theorem missed_step_iff {a : Action} (h : Ok s) (hs : Santa.step s a = some t) (v : Reindeer) :
    Missed t v ↔ Missed s v ∨ Overtakes s a v := by
  cases a with
  | santa =>
    rw [missed_santa h (santa_cases hs) v, or_iff_left]
    rintro ⟨r, hr, -⟩
    cases hr
  | reindeer r => exact missed_reindeer h (reindeer_cases hs) v
  | wakeSanta =>
    obtain ⟨-, rfl⟩ : s.santa = .waiting ∧ { s with santa := .woken } = t := by
      simpa [Santa.step] using hs
    rw [or_iff_left]
    · exact missed_congr Iff.rfl rfl rfl
    · rintro ⟨r, hr, -⟩
      cases hr
  | wakeReindeer r =>
    obtain ⟨hw, rfl⟩ : s.reindeers r = .waiting ∧ s.setReindeer r .woken = t := by
      simpa [Santa.step] using hs
    rw [or_iff_left]
    · exact missed_congr (inLoop_setReindeer (by simp [hw, ReindeerPc.InLoop]) v) rfl rfl
    · rintro ⟨u, hu, -⟩
      cases hu

lemma delivered_step {a : Action} (hs : Santa.step s a = some t) :
    t.delivered_presents = s.delivered_presents ∨
      a = .santa ∧ s.santa = .count ∧ t.delivered_presents = s.delivered_presents + 1 := by
  cases a with
  | santa =>
    cases santa_cases hs with
    | counts hpc => exact .inr ⟨rfl, hpc, rfl⟩
    | starts | ends | locks | waits | setsOff | delivers | resets | broadcasts | unlocks => exact .inl rfl
  | reindeer r => cases reindeer_cases hs <;> exact .inl rfl
  | wakeSanta =>
    obtain ⟨-, rfl⟩ : s.santa = .waiting ∧ { s with santa := .woken } = t := by
      simpa [Santa.step] using hs
    exact .inl rfl
  | wakeReindeer r =>
    obtain ⟨-, rfl⟩ : s.reindeers r = .waiting ∧ s.setReindeer r .woken = t := by
      simpa [Santa.step] using hs
    exact .inl rfl

lemma not_deadlock (h : Ok s) (hmissed : ∀ v, ¬Missed s v) : ¬Deadlock s := by
  rintro ⟨hsanta, hall⟩
  by_cases hq : s.reindeers_in_queue = 0
  · have hb := h.asleep hq ⟨0, hall 0⟩
    rw [hsanta] at hb
    cases hb
  · have hnonneg := h.queue_nonneg
    have hone : ∀ r, s.arrivals r = 1 := by
      intro r
      have hle := (h.arrived r).le_one
      have hne : s.arrivals r ≠ 0 := by
        intro hz
        refine hmissed r ⟨?_, hz, by omega⟩
        simp [hall r, ReindeerPc.InLoop]
      omega
    have hfull : s.reindeers_in_queue = 9 := by
      rw [h.queue, tokens]
      simp [hone, REINDEERS_NUM]
    have hok := h.santa
    rw [hsanta] at hok
    rcases hok with hlt | ⟨r, hc⟩
    · omega
    · rw [State.Counts, hall r] at hc
      simp at hc

/-- As long as no released reindeer is overtaken, there is no deadlock before the fourth
delivery, and a reindeer in its wait loop that is not counted finds the queue empty. -/
theorem no_deadlock_across_rounds (h : machine.ReachableBy NoOvertaking s)
    (hd : s.delivered_presents < presents_delivery) :
    ¬Deadlock s ∧
      ∀ v, (s.reindeers v).InLoop → s.arrivals v = 0 → s.reindeers_in_queue = 0 := by
  have hinv : Ok s ∧ (s.delivered_presents < presents_delivery → ∀ v, ¬Missed s v) := by
    refine h.invariant (I := fun u => Ok u ∧ (u.delivered_presents < presents_delivery → ∀ v, ¬Missed u v))
      ?_ ?_
    · rintro u rfl
      exact ⟨ok_initial, fun _ v hm => absurd hm.2.2 (lt_irrefl 0)⟩
    · rintro u a w ⟨hok, hmissed⟩ hP hn
      refine ⟨hok.step hn, fun hlt v hm => ?_⟩
      have hbefore : u.delivered_presents < presents_delivery := by
        rcases delivered_step hn with he | ⟨-, -, he⟩
        · omega
        · omega
      rcases (missed_step_iff hok hn v).mp hm with hm | ho
      · exact hmissed hbefore v hm
      · exact hP hbefore v ho
  have hmissed := hinv.2 hd
  refine ⟨not_deadlock hinv.1 hmissed, fun v hloop harr => ?_⟩
  by_contra hne
  have hnonneg := hinv.1.queue_nonneg
  exact hmissed v ⟨hloop, harr, by omega⟩

/-- After a reindeer was missed Santa delivers no more. -/
theorem no_delivery_after_missed {as : List Action} (hs : machine.Reachable s) {v : Reindeer}
    (hm : Missed s v) (h : machine.exec s as = some t) :
    Missed t v ∧ t.delivered_presents = s.delivered_presents := by
  have hok := ok_of_reachable hs
  clear hs
  induction as generalizing s with
  | nil =>
    obtain rfl : s = t := by simpa using h
    exact ⟨hm, rfl⟩
  | cons a as ih =>
    obtain ⟨u, hn, hrest⟩ := Machine.exec_cons_eq_some.mp h
    have hstep : Santa.step s a = some u := hn
    obtain ⟨hmissed, heq⟩ := ih ((missed_step_iff hok hstep v).mpr (.inl hm)) hrest (hok.step hstep)
    refine ⟨hmissed, heq.trans ?_⟩
    rcases delivered_step hstep with he | ⟨-, hpc, -⟩
    · exact he
    · have hsanta := hok.santa
      rw [hpc] at hsanta
      have hone := hok.arrivals_eq_one hsanta v
      exact absurd (hm.2.1.symm.trans hone) (by simp)

/-! ### A reindeer that comes back -/

/-- Santa delivers, releases the reindeer and goes to sleep again. -/
def delivery : List Action :=
  List.replicate 10 .santa

/-- One reindeer leaves the queue, comes back and counts itself. -/
def comeback (r : Reindeer) : List Action :=
  List.replicate 7 (.reindeer r)

/-- The reindeer that wakes up first comes back before the other eight have looked at the
queue: they find it taken and sleep on, and so does Santa. -/
theorem not_no_deadlock : ¬∀ s, machine.Reachable s → s.delivered_presents < presents_delivery → ¬Deadlock s := by
  intro h
  have hrun : (machine.exec .initial (gathering ++ delivery ++ comeback 0 ++
      (List.finRange 9).tail.flatMap fun r => List.replicate 2 (.reindeer r))).map
      (fun s => (s.delivered_presents, decide (Deadlock s))) = some (1, true) := by
    decide +kernel
  obtain ⟨s, hs, he⟩ := Option.map_eq_some_iff.mp hrun
  obtain ⟨hd, hdead⟩ := Prod.mk.inj he
  refine h s (Machine.Reachable.exec (.start rfl) hs) ?_ (of_decide_eq_true hdead)
  rw [hd]
  decide

/-- All nine leave the queue before one of them comes back. -/
theorem no_deadlock_across_rounds_inTurn : ∃ s, machine.ReachableBy NoOvertaking s ∧
    s.delivered_presents = 1 ∧ s.reindeers_in_queue = 1 ∧ ¬Deadlock s := by
  have hrun : ((machine.guard NoOvertaking).exec .initial (gathering ++ delivery ++
      (List.finRange 9).flatMap (fun r => List.replicate 3 (.reindeer r)) ++ List.replicate 4 (.reindeer 0))).map
      (fun s => (s.delivered_presents, s.reindeers_in_queue)) = some (1, 1) := by
    decide +kernel
  obtain ⟨s, hs, he⟩ := Option.map_eq_some_iff.mp hrun
  obtain ⟨hd, hq⟩ := Prod.mk.inj he
  have hstart : (machine.guard NoOvertaking).Reachable .initial := .start rfl
  have hreach := Machine.reachableBy_of_guard (hstart.exec hs)
  refine ⟨s, hreach, hd, hq, (no_deadlock_across_rounds hreach ?_).1⟩
  rw [hd]
  decide

end SystemyOperacyjne.Santa
