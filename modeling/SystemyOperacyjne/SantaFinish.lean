import SystemyOperacyjne.SantaRounds

/-!
# The end of Santa's year

Santa ends after the fourth delivery. Whether he still can is decided by the reindeer: from a
state in which somebody was missed, or is about to be, no schedule leads to the end, and from
every other state some schedule does.
-/

namespace SystemyOperacyjne.Santa
open Concurrency

variable {s t : State}

/-- A reindeer that was missed, or that is about to be: the one that overtakes it holds the mutex and can do
nothing but count itself. -/
def Lost (s : State) (v : Reindeer) : Prop :=
  Missed s v ∨ ∃ a, Overtakes s a v

instance (s : State) (v : Reindeer) : Decidable (Missed s v) :=
  inferInstanceAs (Decidable ((s.reindeers v).InLoop ∧ s.arrivals v = 0 ∧ 0 < s.reindeers_in_queue))

/-- Santa's places from which he leaves the outer loop after the fourth delivery. -/
def SantaPc.Leaving : SantaPc → Prop
  | .reset | .broadcast | .unlock | .top | .done => True
  | .locking | .test | .waiting | .woken | .deliver | .count => False

/-- Who has the mutex is inside, and Santa counts his deliveries. -/
structure Live (s : State) : Prop where
  ok : Ok s
  held : ∀ th, s.mutex = some th → s.Inside th
  leaving : s.delivered_presents < presents_delivery ∨ s.santa.Leaving
  done : s.santa = .done → presents_delivery ≤ s.delivered_presents

@[simp] lemma SantaPc.leaving_wake (pc : SantaPc) : pc.wake.Leaving ↔ pc.Leaving := by
  cases pc <;> exact Iff.rfl

lemma SantaPc.wake_eq_done {pc : SantaPc} : pc.wake = .done ↔ pc = .done := by
  cases pc <;> simp [SantaPc.wake]

/-! ### The invariant -/

lemma held_of_owner {th : Thread} (hm : s.mutex = some th) (hin : s.Inside th) :
    ∀ u, s.mutex = some u → s.Inside u := by
  intro u hu
  obtain rfl : th = u := by simpa [hm] using hu
  exact hin

lemma held_reindeer (h : Live s) {r : Reindeer} (hs : ReindeerMove s r t) :
    ∀ th, t.mutex = some th → t.Inside th := by
  have howner : ∀ pc, s.reindeers r = pc → pc.Inside → s.mutex = some (.reindeer r) := by
    intro pc hpc hin
    refine h.ok.guards (.reindeer r) ?_
    rw [State.Inside, hpc]
    exact hin
  cases hs with
  | enters hpc hm | relocks hpc hm =>
    refine held_of_owner rfl ?_
    simp [State.Inside, ReindeerPc.Inside]
  | arrives hpc | isLast hpc | notLast hpc | signals hpc | released hpc =>
    refine held_of_owner (howner _ hpc trivial) ?_
    simp [State.Inside, ReindeerPc.Inside]
  | waits | leaves => exact fun th hth => absurd hth (by simp)

lemma held_santa (h : Live s) (hs : SantaMove s t) : ∀ th, t.mutex = some th → t.Inside th := by
  have howner : ∀ pc, s.santa = pc → pc.Inside → s.mutex = some .santa := by
    intro pc hpc hin
    refine h.ok.guards .santa ?_
    rw [State.Inside, hpc]
    exact hin
  cases hs with
  | starts hpc | ends hpc =>
    intro th hth
    have hin := h.held th hth
    cases th with
    | santa =>
      rw [State.Inside, hpc] at hin
      exact hin.elim
    | reindeer r => exact hin
  | locks => exact held_of_owner rfl trivial
  | waits | unlocks => exact fun th hth => absurd hth (by simp)
  | setsOff hpc | delivers hpc | counts hpc | resets hpc | broadcasts hpc =>
    exact held_of_owner (howner _ hpc trivial) trivial

lemma held_wake (h : Live s) (hm : t.mutex = s.mutex) (hin : ∀ th, s.Inside th → t.Inside th) :
    ∀ th, t.mutex = some th → t.Inside th := by
  intro th hth
  rw [hm] at hth
  exact hin th (h.held th hth)

lemma Live.step {a : Action} (h : Live s) (hs : Santa.step s a = some t) : Live t := by
  have hok := h.ok.step hs
  have hleaving := h.leaving
  cases a with
  | santa =>
    have hmove := santa_cases hs
    refine ⟨hok, held_santa h hmove, ?_, ?_⟩
    · cases hmove with
      | starts hpc hd => exact .inl hd
      | counts | resets | broadcasts | unlocks | ends => exact .inr trivial
      | locks hpc =>
        refine .inl (hleaving.resolve_right fun hl => ?_)
        rcases hpc with hpc | hpc
        · simp [hpc, SantaPc.Leaving] at hl
        · simp [hpc, SantaPc.Leaving] at hl
      | waits hpc | setsOff hpc | delivers hpc =>
        refine .inl (hleaving.resolve_right fun hl => ?_)
        simp [hpc, SantaPc.Leaving] at hl
    · cases hmove with
      | ends hpc hd => exact fun _ => not_lt.mp hd
      | starts | locks | waits | setsOff | delivers | counts | resets | broadcasts | unlocks =>
        intro hdone
        cases hdone
  | reindeer r =>
    have hmove := reindeer_cases hs
    refine ⟨hok, held_reindeer h hmove, ?_, ?_⟩
    · cases hmove with
      | signals => exact hleaving.imp_right (SantaPc.leaving_wake _).mpr
      | enters | arrives | isLast | notLast | waits | released | relocks | leaves => exact hleaving
    · cases hmove with
      | signals => exact fun hdone => h.done (SantaPc.wake_eq_done.mp hdone)
      | enters | arrives | isLast | notLast | waits | released | relocks | leaves => exact h.done
  | wakeSanta =>
    obtain ⟨hw, rfl⟩ : s.santa = .waiting ∧ { s with santa := .woken } = t := by
      simpa [Santa.step] using hs
    refine ⟨hok, held_wake h rfl fun th hin => ?_, ?_, fun hdone => by cases hdone⟩
    · cases th with
      | santa =>
        rw [State.Inside, hw] at hin
        exact hin.elim
      | reindeer r => exact hin
    · refine .inl (hleaving.resolve_right fun hl => ?_)
      simp [hw, SantaPc.Leaving] at hl
  | wakeReindeer r =>
    obtain ⟨hw, rfl⟩ : s.reindeers r = .waiting ∧ s.setReindeer r .woken = t := by
      simpa [Santa.step] using hs
    refine ⟨hok, held_wake h rfl fun th hin => ?_, hleaving, h.done⟩
    cases th with
    | santa => exact hin
    | reindeer v =>
      by_cases hv : v = r
      · subst hv
        rw [State.Inside, hw] at hin
        exact hin.elim
      · rw [State.Inside, setReindeer_of_ne hv]
        exact hin

lemma live_initial : Live .initial where
  ok := ok_initial
  held th hth := by cases hth
  leaving := .inl (by decide)
  done hdone := by cases hdone

lemma live_of_reachable (h : machine.Reachable s) : Live s :=
  h.invariant (fun _ hs => hs ▸ live_initial) fun _ _ _ hl hn => hl.step hn

/-! ### Nobody is found again -/

lemma lost_step {a : Action} {v : Reindeer} (h : Ok s) (hlost : Lost s v) (hs : Santa.step s a = some t) :
    Lost t v ∧ t.delivered_presents = s.delivered_presents := by
  have hdelivered : t.delivered_presents = s.delivered_presents := by
    rcases delivered_step hs with he | ⟨-, hpc, -⟩
    · exact he
    · have hq := h.santa
      rw [hpc] at hq
      have hq : s.reindeers_in_queue = 9 := hq
      rcases hlost with hm | ⟨b, r, -, -, hzero, -⟩
      · have hone := h.arrivals_eq_one hq v
        exact absurd (hm.2.1.symm.trans hone) (by simp)
      · omega
  refine ⟨?_, hdelivered⟩
  rcases hlost with hm | ⟨b, r, rfl, hpc, hq, hloop⟩
  · exact .inl ((missed_step_iff h hs v).mpr (.inl hm))
  by_cases ha : a = .reindeer r
  · exact .inl ((missed_step_iff h hs v).mpr (.inr ⟨r, ha, hpc, hq, hloop⟩))
  -- the overtaking reindeer has the mutex, so nobody else gets in
  have hin : s.Inside (.reindeer r) := by simp [State.Inside, hpc, ReindeerPc.Inside]
  have hm := h.guards _ hin
  have hother : ∀ th, th ≠ .reindeer r → ¬s.Inside th := fun th hth => h.guards.not_inside hin hth
  refine .inr ⟨.reindeer r, r, rfl, ?_⟩
  cases a with
  | reindeer u =>
    have hu : u ≠ r := fun he => ha (by rw [he])
    have hout := hother (.reindeer u) (by simpa using hu)
    cases reindeer_cases hs with
    | enters _ hfree | relocks _ hfree => simp [hm] at hfree
    | arrives hpc | isLast hpc | notLast hpc | signals hpc | waits hpc | released hpc | leaves hpc =>
      simp [State.Inside, hpc, ReindeerPc.Inside] at hout
  | santa =>
    have hout := hother .santa (by simp)
    cases santa_cases hs with
    | starts | ends => exact ⟨hpc, hq, hloop⟩
    | locks _ hfree => simp [hm] at hfree
    | waits hpc | setsOff hpc | delivers hpc | counts hpc | resets hpc | broadcasts hpc | unlocks hpc =>
      simp [State.Inside, hpc, SantaPc.Inside] at hout
  | wakeSanta =>
    obtain ⟨-, rfl⟩ : s.santa = .waiting ∧ { s with santa := .woken } = t := by
      simpa [Santa.step] using hs
    exact ⟨hpc, hq, hloop⟩
  | wakeReindeer u =>
    obtain ⟨hw, rfl⟩ : s.reindeers u = .waiting ∧ s.setReindeer u .woken = t := by
      simpa [Santa.step] using hs
    have hu : r ≠ u := by
      rintro rfl
      simp [hpc] at hw
    refine ⟨?_, hq, (inLoop_setReindeer (by simp [hw, ReindeerPc.InLoop]) v).mpr hloop⟩
    rw [setReindeer_of_ne hu, hpc]

lemma lost_exec {as : List Action} {v : Reindeer} (h : Ok s) (hlost : Lost s v)
    (hs : machine.exec s as = some t) : t.delivered_presents = s.delivered_presents := by
  have hkeep : Ok t ∧ Lost t v ∧ t.delivered_presents = s.delivered_presents := by
    refine Machine.exec_keeps (I := fun u => Ok u ∧ Lost u v ∧ u.delivered_presents = s.delivered_presents)
      ?_ hs ⟨h, hlost, rfl⟩
    rintro u a w hn ⟨hok, hu, hd⟩
    obtain ⟨hw, he⟩ := lost_step hok hu hn
    exact ⟨hok.step hn, hw, he.trans hd⟩
  exact hkeep.2.2

/-! ### The way to the end -/

/-- How far a reindeer is from having gone to sleep in the queue, by its place and its arrivals. Who wakes
up without having arrived goes on vacation first. -/
def reindeerRank : ReindeerPc × ℕ → ℕ
  | (.waiting, 0) | (.woken, 0) => 9
  | (.test, 0) => 8
  | (.leave, _) => 7
  | (.vacation, _) => 6
  | (.locked, _) => 5
  | (.counted, _) => 4
  | (.signal, _) => 3
  | (.woken, _) => 3
  | (.test, _) => 2
  | (.waiting, _) => 1

/-- How far Santa is from the increment, and after it from the outer loop. -/
def santaRank (s : State) : ℕ :=
  match s.santa with
  | .reset => 120
  | .broadcast => 10
  | .unlock => 9
  | .top => 8
  | .test => if s.reindeers_in_queue < 9 then 7 else 4
  | .waiting => 6
  | .locking | .woken => 5
  | .deliver => 3
  | .count => 2
  | .done => 0

def State.places (s : State) (r : Reindeer) : ReindeerPc × ℕ :=
  (s.reindeers r, s.arrivals r)

def rank (s : State) : ℕ :=
  300 * (presents_delivery - s.delivered_presents) + santaRank s + tokens reindeerRank s.places

lemma reindeerRank_le (p : ReindeerPc × ℕ) : reindeerRank p ≤ 9 := by
  unfold reindeerRank
  split <;> omega

lemma rank_le_of_places (s : State) : tokens reindeerRank s.places ≤ 81 := by
  have hle := tokens_le (f := s.places) (c := 9) fun r => reindeerRank_le (s.places r)
  simpa [REINDEERS_NUM] using hle

lemma santaRank_le (hs : t.santa = s.santa) (hout : ¬s.santa.Inside) : santaRank t ≤ santaRank s := by
  unfold santaRank
  rw [hs]
  cases hsanta : s.santa with
  | test => simp [hsanta, SantaPc.Inside] at hout
  | top | locking | waiting | woken | deliver | count | reset | broadcast | unlock | done => exact le_rfl

lemma rank_reindeer {r : Reindeer} (hd : t.delivered_presents = s.delivered_presents)
    (hsanta : santaRank t ≤ santaRank s) (hother : ∀ v, v ≠ r → t.places v = s.places v)
    (hlt : reindeerRank (t.places r) < reindeerRank (s.places r)) : rank t < rank s := by
  have htokens := tokens_lt r hother hlt
  unfold rank
  rw [hd]
  omega

lemma rank_santa (hd : t.delivered_presents = s.delivered_presents) (hsanta : santaRank t < santaRank s)
    (hplaces : t.places = s.places) : rank t < rank s := by
  unfold rank
  rw [hd, hplaces]
  omega

/-- Somebody is free to move, comes closer and loses nobody. -/
def Closer (s : State) : Prop :=
  ∃ a t, machine.next s a = some t ∧ rank t < rank s ∧
    (presents_delivery ≤ s.delivered_presents ∨ ∀ v, ¬Lost t v)

lemma not_lost_step {a : Action} (h : Ok s) (hs : Santa.step s a = some t) (hno : ∀ v, ¬Lost s v)
    (hlocked : ∀ r, t.reindeers r = .locked → t.reindeers_in_queue = 0 → ∀ v, ¬(t.reindeers v).InLoop) :
    ∀ v, ¬Lost t v := by
  rintro v (hm | ⟨b, r, -, hpc, hq, hloop⟩)
  · rcases (missed_step_iff h hs v).mp hm with hm | ho
    · exact hno v (.inl hm)
    · exact hno v (.inr ⟨a, ho⟩)
  · exact hlocked r hpc hq v hloop

/-- After a step of the owner of the mutex nobody is before the increment. -/
lemma not_lost_of_owner {a : Action} (h : Ok s) (hs : Santa.step s a = some t) (hno : ∀ v, ¬Lost s v)
    (howner : ∀ r, t.mutex = some (.reindeer r) → t.reindeers r ≠ .locked) : ∀ v, ¬Lost t v := by
  refine not_lost_step h hs hno fun r hpc => ?_
  have hin : t.Inside (.reindeer r) := by simp [State.Inside, hpc, ReindeerPc.Inside]
  exact absurd hpc (howner r ((h.step hs).guards _ hin))

lemma closer_reindeer (h : Live s) (hno : ∀ v, ¬Lost s v) {r : Reindeer} (hin : (s.reindeers r).Inside) :
    Closer s := by
  have hm : s.mutex = some (.reindeer r) := h.ok.guards (.reindeer r) hin
  have harr := h.ok.arrived r
  have hother : ∀ pc v, v ≠ r → ((s.setReindeer r pc).reindeers v, s.arrivals v) = s.places v := by
    intro pc v hv
    rw [setReindeer_of_ne hv, State.places]
  have howner : ∀ {u : State}, u.mutex = s.mutex → u.reindeers r ≠ .locked →
      ∀ v, u.mutex = some (.reindeer v) → u.reindeers v ≠ .locked := by
    intro u hu hpc v hv
    obtain rfl : r = v := by simpa [hu, hm] using hv
    exact hpc
  cases hpc : s.reindeers r with
  | vacation | waiting | woken => simp [hpc, ReindeerPc.Inside] at hin
  | locked =>
    have hs : Santa.step s (.reindeer r) = some { s.setReindeer r .counted with
        reindeers_in_queue := s.reindeers_in_queue + 1
        arrivals := Function.update s.arrivals r (s.arrivals r + 1) } := by
      simp [Santa.step, reindeer_mechanic, hpc]
    refine ⟨.reindeer r, _, hs, rank_reindeer (r := r) rfl ?_ (fun v hv => ?_) ?_, .inr ?_⟩
    · exact santaRank_le rfl (h.ok.santa_outside hin)
    · simp only [State.places, setReindeer_of_ne hv, Function.update_of_ne hv]
    · simp [State.places, hpc, reindeerRank]
    · exact not_lost_of_owner h.ok hs hno (howner rfl (by simp))
  | counted =>
    by_cases hq : s.reindeers_in_queue = 9
    · have hs : Santa.step s (.reindeer r) = some (s.setReindeer r .signal) := by
        simp [Santa.step, reindeer_mechanic, hpc, hq, MAX_REINDEERS_IN_QUEUE]
      refine ⟨.reindeer r, _, hs, rank_reindeer (r := r) rfl le_rfl (hother _) ?_, .inr ?_⟩
      · simp [State.places, hpc, reindeerRank, State.setReindeer]
      · exact not_lost_of_owner h.ok hs hno (howner rfl (by simp))
    · have hs : Santa.step s (.reindeer r) = some (s.setReindeer r .test) := by
        simp [Santa.step, reindeer_mechanic, hpc, hq, MAX_REINDEERS_IN_QUEUE]
      refine ⟨.reindeer r, _, hs, rank_reindeer (r := r) rfl le_rfl (hother _) ?_, .inr ?_⟩
      · rw [hpc] at harr
        simp only [Arrived] at harr
        simp [State.places, hpc, reindeerRank, State.setReindeer, harr]
      · exact not_lost_of_owner h.ok hs hno (howner rfl (by simp))
  | signal =>
    have hs : Santa.step s (.reindeer r) = some { s.setReindeer r .test with santa := s.santa.wake } := by
      simp [Santa.step, reindeer_mechanic, hpc]
    refine ⟨.reindeer r, _, hs, rank_reindeer (r := r) rfl ?_ (hother _) ?_, .inr ?_⟩
    · cases hsanta : s.santa <;> simp [santaRank, SantaPc.wake, State.setReindeer, hsanta]
    · rw [hpc] at harr
      simp only [Arrived] at harr
      simp [State.places, hpc, reindeerRank, State.setReindeer, harr]
    · exact not_lost_of_owner h.ok hs hno (howner rfl (by simp))
  | test =>
    by_cases hq : s.reindeers_in_queue > 0
    · have hs : Santa.step s (.reindeer r) = some (s.setReindeer r .waiting).unlock := by
        simp [Santa.step, reindeer_mechanic, hpc, hq]
      -- a queue that is not empty holds this reindeer, which would be missed otherwise
      have hone : s.arrivals r = 1 := by
        have hle := (h.ok.arrived r).le_one
        have hne : s.arrivals r ≠ 0 := fun hz => hno r (.inl ⟨by simp [hpc, ReindeerPc.InLoop], hz, hq⟩)
        omega
      refine ⟨.reindeer r, _, hs, rank_reindeer (r := r) rfl le_rfl (hother _) ?_, .inr ?_⟩
      · simp [State.places, hpc, reindeerRank, State.setReindeer, State.unlock, hone]
      · exact not_lost_of_owner h.ok hs hno fun v hv => by simp [State.unlock] at hv
    · have hs : Santa.step s (.reindeer r) = some (s.setReindeer r .leave) := by
        simp [Santa.step, reindeer_mechanic, hpc, hq]
      have hzero := h.ok.arrivals_eq_zero (le_antisymm (not_lt.mp hq) h.ok.queue_nonneg) r
      refine ⟨.reindeer r, _, hs, rank_reindeer (r := r) rfl le_rfl (hother _) ?_, .inr ?_⟩
      · simp [State.places, hpc, reindeerRank, State.setReindeer, hzero]
      · exact not_lost_of_owner h.ok hs hno (howner rfl (by simp))
  | leave =>
    have hs : Santa.step s (.reindeer r) = some (s.setReindeer r .vacation).unlock := by
      simp [Santa.step, reindeer_mechanic, hpc]
    refine ⟨.reindeer r, _, hs, rank_reindeer (r := r) rfl le_rfl (hother _) ?_, .inr ?_⟩
    · simp [State.places, hpc, reindeerRank, State.setReindeer, State.unlock]
    · exact not_lost_of_owner h.ok hs hno fun v hv => by simp [State.unlock] at hv

lemma reindeerRank_wake (pc : ReindeerPc) : reindeerRank (pc.wake, 0) = reindeerRank (pc, 0) := by
  cases pc <;> rfl

lemma closer_santa (h : Live s) (hlost : presents_delivery ≤ s.delivered_presents ∨ ∀ v, ¬Lost s v)
    (hpc : s.santa.Inside ∨ s.santa = .top) : Closer s := by
  have hkeep : ∀ {u : State}, Santa.step s .santa = some u → (∀ r, u.mutex ≠ some (.reindeer r)) →
      presents_delivery ≤ s.delivered_presents ∨ ∀ v, ¬Lost u v := by
    intro u hs hm
    exact hlost.imp_right fun hno => not_lost_of_owner h.ok hs hno fun r hr => absurd hr (hm r)
  -- from the top Santa changes nothing that the reindeer see
  have htop : ∀ {u : State}, Santa.step s .santa = some u → u.reindeers = s.reindeers →
      u.reindeers_in_queue = s.reindeers_in_queue → presents_delivery ≤ s.delivered_presents ∨ ∀ v, ¬Lost u v := by
    intro u hs hr hq
    refine hlost.imp_right fun hno => not_lost_step h.ok hs hno fun r hlocked hzero v hloop => ?_
    rw [hr] at hlocked hloop
    rw [hq] at hzero
    exact hno v (.inr ⟨.reindeer r, r, rfl, hlocked, hzero, hloop⟩)
  have howner : ∀ pc, s.santa = pc → pc.Inside → s.mutex = some .santa := by
    intro pc hpc hin
    refine h.ok.guards .santa ?_
    rw [State.Inside, hpc]
    exact hin
  have hok := h.ok.santa
  cases hsanta : s.santa with
  | locking | waiting | woken | done => simp [hsanta, SantaPc.Inside] at hpc
  | top =>
    by_cases hd : s.delivered_presents < presents_delivery
    · have hs : Santa.step s .santa = some { s with santa := .locking } := by
        simp [Santa.step, santa_mechanic, hsanta, hd]
      exact ⟨.santa, _, hs, rank_santa rfl (by simp [santaRank, hsanta]) rfl, htop hs rfl rfl⟩
    · have hs : Santa.step s .santa = some { s with santa := .done } := by
        simp [Santa.step, santa_mechanic, hsanta, hd]
      exact ⟨.santa, _, hs, rank_santa rfl (by simp [santaRank, hsanta]) rfl, htop hs rfl rfl⟩
  | test =>
    by_cases hq : s.reindeers_in_queue < 9
    · have hs : Santa.step s .santa = some { s with santa := .waiting, mutex := none } := by
        simp [Santa.step, santa_mechanic, hsanta, hq, MAX_REINDEERS_IN_QUEUE, State.unlock]
      exact ⟨.santa, _, hs, rank_santa rfl (by simp [santaRank, hsanta, hq]) rfl, hkeep hs (by simp)⟩
    · have hs : Santa.step s .santa = some { s with santa := .deliver } := by
        simp [Santa.step, santa_mechanic, hsanta, hq, MAX_REINDEERS_IN_QUEUE]
      refine ⟨.santa, _, hs, rank_santa rfl (by simp [santaRank, hsanta, hq]) rfl, hkeep hs ?_⟩
      simp [howner _ hsanta trivial]
  | deliver =>
    have hs : Santa.step s .santa = some { s with santa := .count } := by
      simp [Santa.step, santa_mechanic, hsanta]
    refine ⟨.santa, _, hs, rank_santa rfl (by simp [santaRank, hsanta]) rfl, hkeep hs ?_⟩
    simp [howner _ hsanta trivial]
  | count =>
    have hs : Santa.step s .santa =
        some { s with santa := .reset, delivered_presents := s.delivered_presents + 1 } := by
      simp [Santa.step, santa_mechanic, hsanta]
    refine ⟨.santa, _, hs, ?_, hkeep hs ?_⟩
    · have hd : s.delivered_presents < presents_delivery :=
        h.leaving.resolve_right (by simp [hsanta, SantaPc.Leaving])
      simp only [rank, santaRank, hsanta]
      change _ + _ + tokens reindeerRank s.places < _
      omega
    · simp [howner _ hsanta trivial]
  | reset =>
    have hs : Santa.step s .santa =
        some { s with santa := .broadcast, reindeers_in_queue := 0, arrivals := fun _ => 0 } := by
      simp [Santa.step, santa_mechanic, hsanta]
    refine ⟨.santa, _, hs, ?_, hkeep hs ?_⟩
    · have hle := rank_le_of_places
        { s with santa := .broadcast, reindeers_in_queue := 0, arrivals := fun _ => 0 }
      simp only [rank, santaRank, hsanta]
      omega
    · simp [howner _ hsanta trivial]
  | broadcast =>
    have hs : Santa.step s .santa = some { s with santa := .unlock, reindeers := fun r => (s.reindeers r).wake } := by
      simp [Santa.step, santa_mechanic, hsanta]
    refine ⟨.santa, _, hs, ?_, hkeep hs ?_⟩
    · rw [hsanta] at hok
      have hplaces : tokens reindeerRank
          (State.places { s with santa := .unlock, reindeers := fun r => (s.reindeers r).wake }) =
          tokens reindeerRank s.places := by
        refine Finset.sum_congr rfl fun r _ => ?_
        simp only [State.places, h.ok.arrivals_eq_zero hok r]
        exact reindeerRank_wake _
      simp only [rank, hplaces, santaRank, hsanta]
      omega
    · simp [howner _ hsanta trivial]
  | unlock =>
    have hs : Santa.step s .santa = some { s with santa := .top, mutex := none } := by
      simp [Santa.step, santa_mechanic, hsanta, State.unlock]
    exact ⟨.santa, _, hs, rank_santa rfl (by simp [santaRank, hsanta]) rfl, hkeep hs (by simp)⟩

lemma exists_arrivals_zero (h : Ok s) (hq : s.reindeers_in_queue ≠ 9) : ∃ r, s.arrivals r = 0 := by
  by_contra hall
  have hone : ∀ r, s.arrivals r = 1 := by
    intro r
    have hle := (h.arrived r).le_one
    have hne : s.arrivals r ≠ 0 := fun hz => hall ⟨r, hz⟩
    omega
  refine hq ?_
  rw [h.queue, tokens]
  simp [hone, REINDEERS_NUM]

/-- While nobody has the mutex and Santa is on his way to the wait loop, a reindeer or Santa takes it. -/
lemma closer_free (h : Live s) (hno : ∀ v, ¬Lost s v) (hfree : s.mutex = none) (htop : s.santa ≠ .top)
    (hdone : s.santa ≠ .done) : Closer s := by
  have hout : ∀ th, ¬s.Inside th := by
    have hg := h.ok.guards
    rw [hfree] at hg
    exact hg.not_inside_of_free
  have hasleep : s.reindeers_in_queue = 0 → ∀ r, s.reindeers r ≠ .waiting := by
    intro hq r hw
    refine hout .santa ?_
    rw [State.Inside, h.ok.asleep hq ⟨r, hw⟩]
    trivial
  by_cases hq : s.reindeers_in_queue = 9
  · -- the last reindeer has signalled, so Santa is awake
    have hpc : s.santa = .locking ∨ s.santa = .woken := by
      have hin := hout .santa
      have hok := h.ok.santa
      cases hsanta : s.santa with
      | locking => exact .inl rfl
      | woken => exact .inr rfl
      | top => exact absurd hsanta htop
      | done => exact absurd hsanta hdone
      | test | deliver | count | reset | broadcast | unlock => simp [State.Inside, hsanta, SantaPc.Inside] at hin
      | waiting =>
        rw [hsanta] at hok
        rcases hok with hlt | ⟨r, hr⟩
        · omega
        · refine absurd ?_ (hout (.reindeer r))
          rcases hr with hr | hr
          · simp [State.Inside, hr, ReindeerPc.Inside]
          · simp [State.Inside, hr, ReindeerPc.Inside]
    have hs : Santa.step s .santa = some { s with santa := .test, mutex := some .santa } := by
      rcases hpc with hpc | hpc
      · simp [Santa.step, santa_mechanic, hpc, State.lock, hfree]
      · simp [Santa.step, santa_mechanic, hpc, State.lock, hfree]
    refine ⟨.santa, _, hs, rank_santa rfl ?_ rfl, .inr (not_lost_of_owner h.ok hs hno fun r hr => by simp at hr)⟩
    rcases hpc with hpc | hpc
    · simp [santaRank, hpc, hq]
    · simp [santaRank, hpc, hq]
  by_cases hloop : ∃ v, (s.reindeers v).InLoop ∧ s.arrivals v = 0
  · -- who was released goes on vacation before anybody comes back
    obtain ⟨v, hv, hzero⟩ := hloop
    have hempty : s.reindeers_in_queue = 0 := by
      have hnonneg := h.ok.queue_nonneg
      by_contra hne
      exact hno v (.inl ⟨hv, hzero, by omega⟩)
    have hpc : s.reindeers v = .woken := by
      cases hpc : s.reindeers v with
      | woken => rfl
      | waiting => exact absurd hpc (hasleep hempty v)
      | test =>
        refine absurd ?_ (hout (.reindeer v))
        simp [State.Inside, hpc, ReindeerPc.Inside]
      | vacation | locked | counted | signal | leave => simp [hpc, ReindeerPc.InLoop] at hv
    have hs : Santa.step s (.reindeer v) = some { s.setReindeer v .test with mutex := some (.reindeer v) } := by
      simp [Santa.step, reindeer_mechanic, hpc, State.lock, hfree, State.setReindeer]
    refine ⟨.reindeer v, _, hs, rank_reindeer (r := v) rfl le_rfl (fun u hu => ?_) ?_, .inr ?_⟩
    · exact Prod.ext (setReindeer_of_ne hu _) rfl
    · simp [State.places, hpc, hzero, reindeerRank, State.setReindeer]
    · refine not_lost_of_owner h.ok hs hno fun r hr => ?_
      obtain rfl : v = r := by simpa using hr
      simp
  · obtain ⟨r, hzero⟩ := exists_arrivals_zero h.ok hq
    have hpc : s.reindeers r = .vacation := by
      have hin := hout (.reindeer r)
      have hr : ¬(s.reindeers r).InLoop := fun hr => hloop ⟨r, hr, hzero⟩
      cases hpc : s.reindeers r with
      | vacation => rfl
      | locked | counted | signal | test | leave => simp [State.Inside, hpc, ReindeerPc.Inside] at hin
      | waiting | woken => simp [hpc, ReindeerPc.InLoop] at hr
    have hs : Santa.step s (.reindeer r) = some { s.setReindeer r .locked with mutex := some (.reindeer r) } := by
      simp [Santa.step, reindeer_mechanic, hpc, State.lock, hfree, State.setReindeer]
    refine ⟨.reindeer r, _, hs, rank_reindeer (r := r) rfl le_rfl (fun u hu => ?_) ?_, .inr ?_⟩
    · exact Prod.ext (setReindeer_of_ne hu _) rfl
    · simp [State.places, hpc, reindeerRank, State.setReindeer]
    · refine not_lost_step h.ok hs hno fun u _ hempty v hv => ?_
      by_cases he : v = r
      · subst he
        simp [ReindeerPc.InLoop] at hv
      · simp only [setReindeer_of_ne he] at hv
        exact hloop ⟨v, hv, h.ok.arrivals_eq_zero hempty v⟩

lemma exists_closer (h : Live s) (hlost : presents_delivery ≤ s.delivered_presents ∨ ∀ v, ¬Lost s v)
    (hdone : s.santa ≠ .done) : Closer s := by
  by_cases hsanta : s.santa.Inside ∨ s.santa = .top
  · exact closer_santa h hlost hsanta
  -- Santa is before the increment, so there are presents left
  have hno : ∀ v, ¬Lost s v := by
    refine hlost.resolve_left fun hd => hsanta ?_
    have hleaving := h.leaving.resolve_left (not_lt.mpr hd)
    cases hpc : s.santa with
    | top => exact .inr rfl
    | done => exact absurd hpc hdone
    | reset | broadcast | unlock => exact .inl trivial
    | locking | test | waiting | woken | deliver | count => simp [hpc, SantaPc.Leaving] at hleaving
  cases hm : s.mutex with
  | none => exact closer_free h hno hm (fun hpc => hsanta (.inr hpc)) hdone
  | some th =>
    have hin := h.held th hm
    cases th with
    | santa => exact absurd (.inl hin) hsanta
    | reindeer r => exact closer_reindeer h hno hin

lemma delivered_mono {a : Action} (hs : Santa.step s a = some t) : s.delivered_presents ≤ t.delivered_presents := by
  rcases delivered_step hs with he | ⟨-, -, he⟩
  · exact he.ge
  · omega

/-- From a reachable state some schedule lets Santa end exactly if he has made his deliveries or nobody was
missed and nobody is about to be. -/
theorem can_finish_iff (h : machine.Reachable s) :
    (∃ as t, machine.exec s as = some t ∧ t.santa = .done) ↔
      presents_delivery ≤ s.delivered_presents ∨ ∀ v, ¬Missed s v ∧ ∀ a, ¬Overtakes s a v := by
  have hlive := live_of_reachable h
  constructor
  · rintro ⟨as, t, hs, hdone⟩
    by_contra hnot
    obtain ⟨hlt, hlost⟩ := not_or.mp hnot
    obtain ⟨v, hv⟩ := not_forall.mp hlost
    have hv : Lost s v := by
      by_contra hno
      exact hv ⟨fun hm => hno (.inl hm), fun a ho => hno (.inr ⟨a, ho⟩)⟩
    have hd := lost_exec hlive.ok hv hs
    have hend := (live_of_reachable (h.exec hs)).done hdone
    omega
  · intro hcan
    have hlost : presents_delivery ≤ s.delivered_presents ∨ ∀ v, ¬Lost s v := by
      refine hcan.imp_right fun hno v hv => ?_
      rcases hv with hm | ⟨a, ho⟩
      · exact (hno v).1 hm
      · exact (hno v).2 a ho
    have hcloser : ∀ u, Live u ∧ (presents_delivery ≤ u.delivered_presents ∨ ∀ v, ¬Lost u v) → ¬u.santa = .done →
        ∃ a w, True ∧ machine.next u a = some w ∧
          (Live w ∧ (presents_delivery ≤ w.delivered_presents ∨ ∀ v, ¬Lost w v)) ∧
          (w.santa = .done ∨ rank w < rank u) := by
      rintro u ⟨hu, hno⟩ hdone
      obtain ⟨a, w, hn, hlt, hnext⟩ := exists_closer hu hno hdone
      exact ⟨a, w, trivial, hn, ⟨hu.step hn, hnext.imp_left fun hd => hd.trans (delivered_mono hn)⟩, .inr hlt⟩
    obtain ⟨t, hleads, -, hdone⟩ := Machine.leads_of_rank (P := fun _ => True) rank hcloser ⟨hlive, hlost⟩
    obtain ⟨as, has⟩ := hleads.exists_exec
    exact ⟨as, t, has, hdone⟩

/-- Santa can end at the start, and in the state in which the first reindeer came back too early he cannot. -/
theorem can_finish_iff_comeback :
    (∃ as t, machine.exec .initial as = some t ∧ t.santa = .done) ∧
      ∃ s, machine.Reachable s ∧ ¬∃ as t, machine.exec s as = some t ∧ t.santa = .done := by
  constructor
  · refine (can_finish_iff (.start rfl)).mpr (.inr fun v => ⟨fun hm => ?_, ?_⟩)
    · exact absurd hm.2.2 (lt_irrefl 0)
    · rintro a ⟨r, -, hpc, -⟩
      cases hpc
  · have hrun : (machine.exec .initial (gathering ++ delivery ++ comeback 0)).map
        (fun s => (s.delivered_presents, decide (Missed s 1))) = some (1, true) := by
      decide +kernel
    obtain ⟨s, hs, he⟩ := Option.map_eq_some_iff.mp hrun
    obtain ⟨hd, hmissed⟩ := Prod.mk.inj he
    have hreach : machine.Reachable s := Machine.Reachable.exec (.start rfl) hs
    refine ⟨s, hreach, fun hcan => ?_⟩
    rcases (can_finish_iff hreach).mp hcan with hle | hno
    · rw [hd] at hle
      exact absurd hle (by decide)
    · exact (hno 1).1 (of_decide_eq_true hmissed)

end SystemyOperacyjne.Santa
