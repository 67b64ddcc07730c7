import SystemyOperacyjne.Library.Tokens
import SystemyOperacyjne.Santa

/-!
# The deliveries

The queue counts the reindeer that have arrived since Santa last emptied it, each at most
once, so Santa sets off with all nine.
-/

namespace SystemyOperacyjne.Santa
open Concurrency

variable {s t : State}

/-- What a step of a reindeer can be. -/
inductive ReindeerMove (s : State) (r : Reindeer) : State → Prop
  | enters (hpc : s.reindeers r = .vacation) (hm : s.mutex = none) :
      ReindeerMove s r { s.setReindeer r .locked with mutex := some (.reindeer r) }
  | arrives (hpc : s.reindeers r = .locked) :
      ReindeerMove s r { s.setReindeer r .counted with
        reindeers_in_queue := s.reindeers_in_queue + 1
        arrivals := Function.update s.arrivals r (s.arrivals r + 1) }
  | isLast (hpc : s.reindeers r = .counted) (hq : s.reindeers_in_queue = 9) :
      ReindeerMove s r (s.setReindeer r .signal)
  | notLast (hpc : s.reindeers r = .counted) (hq : s.reindeers_in_queue ≠ 9) :
      ReindeerMove s r (s.setReindeer r .test)
  | signals (hpc : s.reindeers r = .signal) :
      ReindeerMove s r { s.setReindeer r .test with santa := s.santa.wake }
  | waits (hpc : s.reindeers r = .test) (hq : 0 < s.reindeers_in_queue) :
      ReindeerMove s r { s.setReindeer r .waiting with mutex := none }
  | released (hpc : s.reindeers r = .test) (hq : s.reindeers_in_queue ≤ 0) :
      ReindeerMove s r (s.setReindeer r .leave)
  | relocks (hpc : s.reindeers r = .woken) (hm : s.mutex = none) :
      ReindeerMove s r { s.setReindeer r .test with mutex := some (.reindeer r) }
  | leaves (hpc : s.reindeers r = .leave) :
      ReindeerMove s r { s.setReindeer r .vacation with mutex := none }

lemma lock_eq_some {th : Thread} : s.lock th = some t ↔ s.mutex = none ∧ { s with mutex := some th } = t := by
  unfold State.lock
  by_cases h : s.mutex = none
  · simp [h]
  · simp [h]

lemma reindeer_cases {r : Reindeer} (h : reindeer_mechanic s r = some t) : ReindeerMove s r t := by
  unfold reindeer_mechanic at h
  cases hpc : s.reindeers r with
  | vacation =>
    simp only [hpc] at h
    obtain ⟨hm, rfl⟩ := lock_eq_some.mp h
    exact .enters hpc hm
  | locked =>
    simp only [hpc, Option.some.injEq] at h
    subst h
    exact .arrives hpc
  | counted =>
    simp only [hpc] at h
    split at h
    · next hq =>
      cases h
      exact .isLast hpc hq
    · next hq =>
      cases h
      exact .notLast hpc hq
  | signal =>
    simp only [hpc, Option.some.injEq] at h
    subst h
    exact .signals hpc
  | test =>
    simp only [hpc] at h
    split at h
    · next hq =>
      cases h
      exact .waits hpc hq
    · next hq =>
      cases h
      exact .released hpc (by omega)
  | waiting => simp [hpc] at h
  | woken =>
    simp only [hpc] at h
    obtain ⟨hm, rfl⟩ := lock_eq_some.mp h
    exact .relocks hpc hm
  | leave =>
    simp only [hpc, Option.some.injEq] at h
    subst h
    exact .leaves hpc

/-- What a step of Santa can be. -/
inductive SantaMove (s : State) : State → Prop
  | starts (hpc : s.santa = .top) (hd : s.delivered_presents < presents_delivery) :
      SantaMove s { s with santa := .locking }
  | ends (hpc : s.santa = .top) (hd : ¬s.delivered_presents < presents_delivery) :
      SantaMove s { s with santa := .done }
  | locks (hpc : s.santa = .locking ∨ s.santa = .woken) (hm : s.mutex = none) :
      SantaMove s { s with santa := .test, mutex := some .santa }
  | waits (hpc : s.santa = .test) (hq : s.reindeers_in_queue < 9) :
      SantaMove s { s with santa := .waiting, mutex := none }
  | setsOff (hpc : s.santa = .test) (hq : ¬s.reindeers_in_queue < 9) :
      SantaMove s { s with santa := .deliver }
  | delivers (hpc : s.santa = .deliver) : SantaMove s { s with santa := .count }
  | counts (hpc : s.santa = .count) :
      SantaMove s { s with santa := .reset, delivered_presents := s.delivered_presents + 1 }
  | resets (hpc : s.santa = .reset) :
      SantaMove s { s with santa := .broadcast, reindeers_in_queue := 0, arrivals := fun _ => 0 }
  | broadcasts (hpc : s.santa = .broadcast) :
      SantaMove s { s with santa := .unlock, reindeers := fun r => (s.reindeers r).wake }
  | unlocks (hpc : s.santa = .unlock) : SantaMove s { s with santa := .top, mutex := none }

lemma santa_cases (h : santa_mechanic s = some t) : SantaMove s t := by
  unfold santa_mechanic at h
  cases hpc : s.santa with
  | top =>
    simp only [hpc] at h
    split at h
    · next hd =>
      cases h
      exact .starts hpc hd
    · next hd =>
      cases h
      exact .ends hpc hd
  | locking =>
    simp only [hpc] at h
    obtain ⟨hm, rfl⟩ := lock_eq_some.mp h
    exact .locks (.inl hpc) hm
  | woken =>
    simp only [hpc] at h
    obtain ⟨hm, rfl⟩ := lock_eq_some.mp h
    exact .locks (.inr hpc) hm
  | test =>
    simp only [hpc] at h
    split at h
    · next hq =>
      cases h
      exact .waits hpc hq
    · next hq =>
      cases h
      exact .setsOff hpc hq
  | waiting | done => simp [hpc] at h
  | deliver =>
    simp only [hpc, Option.some.injEq] at h
    subst h
    exact .delivers hpc
  | count =>
    simp only [hpc, Option.some.injEq] at h
    subst h
    exact .counts hpc
  | reset =>
    simp only [hpc, Option.some.injEq] at h
    subst h
    exact .resets hpc
  | broadcast =>
    simp only [hpc, Option.some.injEq] at h
    subst h
    exact .broadcasts hpc
  | unlock =>
    simp only [hpc, Option.some.injEq] at h
    subst h
    exact .unlocks hpc

/-! ### The mutex -/

def ReindeerPc.Inside : ReindeerPc → Prop
  | .locked | .counted | .signal | .test | .leave => True
  | .vacation | .waiting | .woken => False

def SantaPc.Inside : SantaPc → Prop
  | .test | .deliver | .count | .reset | .broadcast | .unlock => True
  | .top | .locking | .waiting | .woken | .done => False

/-- The threads between `pthread_mutex_lock` and `pthread_mutex_unlock`. -/
def State.Inside (s : State) : Thread → Prop
  | .santa => s.santa.Inside
  | .reindeer r => (s.reindeers r).Inside

@[simp] lemma ReindeerPc.inside_wake (pc : ReindeerPc) : pc.wake.Inside ↔ pc.Inside := by
  cases pc <;> exact Iff.rfl

@[simp] lemma SantaPc.inside_wake (pc : SantaPc) : pc.wake.Inside ↔ pc.Inside := by
  cases pc <;> exact Iff.rfl

@[simp] lemma setReindeer_self (r : Reindeer) (pc : ReindeerPc) : (s.setReindeer r pc).reindeers r = pc :=
  Function.update_self _ _ _

lemma setReindeer_of_ne {r v : Reindeer} (h : v ≠ r) (pc : ReindeerPc) :
    (s.setReindeer r pc).reindeers v = s.reindeers v :=
  Function.update_of_ne h _ _

lemma inside_of_ne {r : Reindeer} (hother : ∀ v, v ≠ r → t.reindeers v = s.reindeers v)
    (hsanta : t.santa.Inside → s.santa.Inside) :
    ∀ th, th ≠ Thread.reindeer r → t.Inside th → s.Inside th := by
  intro th hth hin
  cases th with
  | santa => exact hsanta hin
  | reindeer v =>
    have hv : v ≠ r := fun he => hth (by rw [he])
    rw [State.Inside, hother v hv] at hin
    exact hin

lemma inside_of_same {r : Reindeer} (hself : (t.reindeers r).Inside → (s.reindeers r).Inside)
    (hother : ∀ v, v ≠ r → t.reindeers v = s.reindeers v) (hsanta : t.santa.Inside → s.santa.Inside) :
    ∀ th, t.Inside th → s.Inside th := by
  intro th hin
  by_cases hth : th = .reindeer r
  · subst hth
    exact hself hin
  · exact inside_of_ne hother hsanta th hth hin

lemma guards_reindeer {r : Reindeer} (h : Guards s.mutex s.Inside) (hs : ReindeerMove s r t) :
    Guards t.mutex t.Inside := by
  have hother : ∀ pc v, v ≠ r → (s.setReindeer r pc).reindeers v = s.reindeers v :=
    fun pc v hv => setReindeer_of_ne hv pc
  cases hs with
  | enters hpc hm | relocks hpc hm =>
    rw [hm] at h
    exact h.lock (inside_of_ne (hother _) id)
  | arrives hpc | isLast hpc | notLast hpc | released hpc =>
    refine h.keep (inside_of_same (r := r) ?_ (hother _) id)
    simp [hpc, ReindeerPc.Inside]
  | signals hpc =>
    refine h.keep (inside_of_same (r := r) ?_ (hother _) (SantaPc.inside_wake _).mp)
    simp [hpc, ReindeerPc.Inside]
  | waits hpc | leaves hpc =>
    refine h.unlock (i := .reindeer r) ?_ ?_ (inside_of_ne (hother _) id)
    · simp [State.Inside, hpc, ReindeerPc.Inside]
    · simp [State.Inside, ReindeerPc.Inside]

lemma inside_santa (hother : ∀ r, (t.reindeers r).Inside → (s.reindeers r).Inside) :
    ∀ th, th ≠ Thread.santa → t.Inside th → s.Inside th := by
  intro th hth hin
  cases th with
  | santa => exact absurd rfl hth
  | reindeer r => exact hother r hin

lemma guards_santa (h : Guards s.mutex s.Inside) (hs : SantaMove s t) : Guards t.mutex t.Inside := by
  have hkeep : ∀ u : State, u.mutex = s.mutex → (∀ r, (u.reindeers r).Inside → (s.reindeers r).Inside) →
      (u.santa.Inside → s.santa.Inside) → Guards u.mutex u.Inside := by
    intro u hm hr hsanta
    rw [hm]
    refine h.keep fun th hin => ?_
    cases th with
    | santa => exact hsanta hin
    | reindeer r => exact hr r hin
  cases hs with
  | starts hpc | ends hpc | setsOff hpc | delivers hpc | counts hpc | resets hpc =>
    refine hkeep _ rfl (fun _ => id) ?_
    simp [hpc, SantaPc.Inside]
  | broadcasts hpc =>
    refine hkeep _ rfl (fun r => (ReindeerPc.inside_wake _).mp) ?_
    simp [hpc, SantaPc.Inside]
  | locks hpc hm =>
    rw [hm] at h
    exact h.lock (inside_santa fun _ => id)
  | waits hpc | unlocks hpc =>
    refine h.unlock (i := .santa) ?_ (fun hin => hin) (inside_santa fun _ => id)
    simp [State.Inside, hpc, SantaPc.Inside]

/-! ### The arrivals -/

/-- How often a reindeer can have arrived in the current round, by its place. -/
def Arrived : ReindeerPc → ℕ → Prop
  | .vacation, k | .locked, k | .leave, k => k = 0
  | .counted, k | .signal, k => k = 1
  | .test, k | .waiting, k | .woken, k => k ≤ 1

lemma Arrived.le_one {pc : ReindeerPc} {k : ℕ} (h : Arrived pc k) : k ≤ 1 := by
  cases pc <;> simp only [Arrived] at h <;> omega

/-- A reindeer between its increment and its signal. -/
def State.Counts (s : State) (r : Reindeer) : Prop :=
  s.reindeers r = .counted ∨ s.reindeers r = .signal

/-- What Santa relies on. -/
def SantaOk (s : State) : SantaPc → Prop
  | .waiting => s.reindeers_in_queue < 9 ∨ ∃ r, s.Counts r
  | .deliver | .count | .reset => s.reindeers_in_queue = 9
  | .broadcast | .unlock => s.reindeers_in_queue = 0
  | _ => True

/-- The queue is the number of arrivals of the round, and nobody waits for an empty queue
except while Santa is about to broadcast. -/
structure Ok (s : State) : Prop where
  guards : Guards s.mutex s.Inside
  queue : s.reindeers_in_queue = (tokens id s.arrivals : ℕ)
  arrived : ∀ r, Arrived (s.reindeers r) (s.arrivals r)
  santa : SantaOk s s.santa
  asleep : s.reindeers_in_queue = 0 → (∃ r, s.reindeers r = .waiting) → s.santa = .broadcast

lemma Ok.queue_nonneg (h : Ok s) : 0 ≤ s.reindeers_in_queue := by
  rw [h.queue]
  exact Int.natCast_nonneg _

lemma tokens_le_nine (h : ∀ r, Arrived (s.reindeers r) (s.arrivals r)) : tokens id s.arrivals ≤ 9 := by
  have hle : tokens id s.arrivals ≤ ∑ _r : Reindeer, 1 := Finset.sum_le_sum fun r _ => (h r).le_one
  simpa [REINDEERS_NUM] using hle

lemma Ok.queue_le (h : Ok s) : s.reindeers_in_queue ≤ 9 := by
  have := tokens_le_nine h.arrived
  rw [h.queue]
  omega

lemma Ok.arrivals_eq_one (h : Ok s) (hq : s.reindeers_in_queue = 9) (r : Reindeer) : s.arrivals r = 1 := by
  by_contra hne
  have hzero : s.arrivals r = 0 := by
    have := (h.arrived r).le_one
    omega
  have hlt : tokens id s.arrivals < ∑ _r : Reindeer, 1 := by
    refine Finset.sum_lt_sum (fun v _ => (h.arrived v).le_one) ⟨r, Finset.mem_univ r, ?_⟩
    simp [hzero]
  have hqueue := h.queue
  simp only [Finset.sum_const, Finset.card_univ, Fintype.card_fin, REINDEERS_NUM, smul_eq_mul, mul_one] at hlt
  omega

lemma Ok.arrivals_eq_zero (h : Ok s) (hq : s.reindeers_in_queue = 0) (r : Reindeer) : s.arrivals r = 0 := by
  have hle := le_tokens id s.arrivals r
  have hqueue := h.queue
  simp only [id] at hle
  omega

lemma arrived_setReindeer (h : ∀ v, Arrived (s.reindeers v) (s.arrivals v)) {r : Reindeer} {pc : ReindeerPc}
    (hpc : Arrived pc (s.arrivals r)) :
    ∀ v, Arrived ((s.setReindeer r pc).reindeers v) (s.arrivals v) := by
  intro v
  by_cases hv : v = r
  · rw [hv, setReindeer_self]
    exact hpc
  · rw [setReindeer_of_ne hv]
    exact h v

lemma waiting_of_setReindeer {r : Reindeer} {pc : ReindeerPc} (hpc : pc ≠ .waiting)
    (h : ∃ v, (s.setReindeer r pc).reindeers v = .waiting) : ∃ v, s.reindeers v = .waiting := by
  obtain ⟨v, hv⟩ := h
  by_cases he : v = r
  · rw [he, setReindeer_self] at hv
    exact absurd hv hpc
  · rw [setReindeer_of_ne he] at hv
    exact ⟨v, hv⟩

lemma counts_of_setReindeer {r : Reindeer} {pc : ReindeerPc} (hr : ¬s.Counts r) (h : ∃ v, s.Counts v) :
    ∃ v, (s.setReindeer r pc).Counts v := by
  obtain ⟨v, hv⟩ := h
  have he : v ≠ r := fun he => hr (he ▸ hv)
  refine ⟨v, ?_⟩
  rw [State.Counts, setReindeer_of_ne he]
  exact hv

lemma SantaOk.setReindeer {pc : SantaPc} (h : SantaOk s pc) {r : Reindeer} {m : Option Thread}
    {rpc : ReindeerPc} (hr : ¬s.Counts r) :
    SantaOk { s.setReindeer r rpc with mutex := m } pc := by
  cases pc with
  | waiting => exact h.imp id fun hc => counts_of_setReindeer hr hc
  | top | locking | test | woken | done => trivial
  | deliver | count | reset | broadcast | unlock => exact h

lemma Ok.santa_outside (h : Ok s) {r : Reindeer} (hr : (s.reindeers r).Inside) : ¬s.santa.Inside :=
  h.guards.not_inside (i := Thread.reindeer r) (j := .santa) hr (by simp)

lemma SantaOk.of_outside {pc : SantaPc} (hpc : ¬pc.Inside)
    (hw : pc = .waiting → s.reindeers_in_queue < 9 ∨ ∃ r, s.Counts r) : SantaOk s pc := by
  cases pc with
  | waiting => exact hw rfl
  | top | locking | woken | done => trivial
  | test | deliver | count | reset | broadcast | unlock => exact absurd trivial hpc

lemma Ok.reindeer (h : Ok s) {r : Reindeer} (hs : ReindeerMove s r t) : Ok t := by
  have hguards := guards_reindeer h.guards hs
  have harr := h.arrived r
  cases hs with
  | enters hpc hm =>
    rw [hpc] at harr
    refine ⟨hguards, h.queue, arrived_setReindeer h.arrived harr, ?_, fun hq hw => ?_⟩
    · exact h.santa.setReindeer (by simp [State.Counts, hpc])
    · exact h.asleep hq (waiting_of_setReindeer (by simp) hw)
  | arrives hpc =>
    rw [hpc] at harr
    have hsanta := h.santa_outside (r := r) (by simp [hpc, ReindeerPc.Inside])
    refine ⟨hguards, ?_, fun v => ?_, ?_, fun hq _ => ?_⟩
    · have htok := tokens_update id s.arrivals r (s.arrivals r + 1)
      have hqueue := h.queue
      simp only [id] at htok ⊢
      omega
    · by_cases hv : v = r
      · subst hv
        have hone : s.arrivals v + 1 = 1 := by
          simp only [Arrived] at harr
          omega
        simpa [Arrived] using hone
      · simp only [setReindeer_of_ne hv, Function.update_of_ne hv]
        exact h.arrived v
    · refine .of_outside hsanta fun _ => .inr ⟨r, .inl ?_⟩
      simp
    · have := h.queue_nonneg
      simp only at hq
      omega
  | isLast hpc hq =>
    rw [hpc] at harr
    have hsanta := h.santa_outside (r := r) (by simp [hpc, ReindeerPc.Inside])
    refine ⟨hguards, h.queue, arrived_setReindeer h.arrived harr, ?_, fun hz hw => ?_⟩
    · exact .of_outside hsanta fun _ => .inr ⟨r, .inr (setReindeer_self r _)⟩
    · exact h.asleep hz (waiting_of_setReindeer (by simp) hw)
  | notLast hpc hq =>
    rw [hpc] at harr
    have hsanta := h.santa_outside (r := r) (by simp [hpc, ReindeerPc.Inside])
    refine ⟨hguards, h.queue, arrived_setReindeer h.arrived (Nat.le_of_eq harr), ?_, fun hz hw => ?_⟩
    · have hle := h.queue_le
      exact .of_outside hsanta fun _ => .inl (lt_of_le_of_ne hle hq)
    · exact h.asleep hz (waiting_of_setReindeer (by simp) hw)
  | signals hpc =>
    rw [hpc] at harr
    have hsanta := h.santa_outside (r := r) (by simp [hpc, ReindeerPc.Inside])
    refine ⟨hguards, h.queue, arrived_setReindeer h.arrived (Nat.le_of_eq harr), ?_, fun hz _ => ?_⟩
    · refine .of_outside (mt (SantaPc.inside_wake _).mp hsanta) fun hw => ?_
      cases hpc' : s.santa <;> simp [hpc', SantaPc.wake] at hw
    · -- the signalling reindeer is in the queue
      have := h.arrivals_eq_zero hz r
      simp only [Arrived] at harr
      omega
  | waits hpc hq =>
    rw [hpc] at harr
    refine ⟨hguards, h.queue, arrived_setReindeer h.arrived harr, ?_, fun hz _ => ?_⟩
    · exact h.santa.setReindeer (by simp [State.Counts, hpc])
    · simp only [State.setReindeer] at hz
      omega
  | released hpc hq =>
    have hzero := h.arrivals_eq_zero (le_antisymm hq h.queue_nonneg) r
    refine ⟨hguards, h.queue, arrived_setReindeer h.arrived hzero, ?_, fun hz hw => ?_⟩
    · exact h.santa.setReindeer (by simp [State.Counts, hpc])
    · exact h.asleep hz (waiting_of_setReindeer (by simp) hw)
  | relocks hpc hm =>
    rw [hpc] at harr
    refine ⟨hguards, h.queue, arrived_setReindeer h.arrived harr, ?_, fun hq hw => ?_⟩
    · exact h.santa.setReindeer (by simp [State.Counts, hpc])
    · exact h.asleep hq (waiting_of_setReindeer (by simp) hw)
  | leaves hpc =>
    rw [hpc] at harr
    refine ⟨hguards, h.queue, arrived_setReindeer h.arrived harr, ?_, fun hq hw => ?_⟩
    · exact h.santa.setReindeer (by simp [State.Counts, hpc])
    · exact h.asleep hq (waiting_of_setReindeer (by simp) hw)

lemma Ok.reindeer_outside (h : Ok s) (hs : s.santa.Inside) (r : Reindeer) : ¬(s.reindeers r).Inside :=
  h.guards.not_inside (i := Thread.santa) (j := .reindeer r) hs (by simp)

lemma Ok.santa_keeps (h : Ok s) {pc : SantaPc} {d : ℕ} (hne : s.santa ≠ .broadcast)
    (hguards : Guards s.mutex { s with santa := pc, delivered_presents := d }.Inside)
    (hpc : SantaOk s pc) : Ok { s with santa := pc, delivered_presents := d } := by
  refine ⟨hguards, h.queue, h.arrived, ?_, fun hq hw => absurd (h.asleep hq hw) hne⟩
  cases pc <;> exact hpc

lemma Ok.santa_step (h : Ok s) (hs : SantaMove s t) : Ok t := by
  have hguards := guards_santa h.guards hs
  have hsanta := h.santa
  cases hs with
  | starts hpc | ends hpc => exact h.santa_keeps (by simp [hpc]) hguards trivial
  | locks hpc hm =>
    refine ⟨hguards, h.queue, h.arrived, trivial, fun hq hw => ?_⟩
    have hb := h.asleep hq hw
    rcases hpc with hpc | hpc
    · rw [hpc] at hb
      cases hb
    · rw [hpc] at hb
      cases hb
  | waits hpc hq =>
    refine ⟨hguards, h.queue, h.arrived, .inl hq, fun hz hw => ?_⟩
    have hb := h.asleep hz hw
    rw [hpc] at hb
    cases hb
  | setsOff hpc hq =>
    exact h.santa_keeps (by simp [hpc]) hguards (le_antisymm h.queue_le (not_lt.mp hq))
  | delivers hpc | counts hpc =>
    rw [hpc] at hsanta
    exact h.santa_keeps (by simp [hpc]) hguards hsanta
  | resets hpc =>
    refine ⟨hguards, ?_, fun r => ?_, rfl, fun _ _ => rfl⟩
    · simp [tokens_eq_zero]
    · have hout := h.reindeer_outside (by simp [hpc, SantaPc.Inside]) r
      cases hr : s.reindeers r with
      | vacation | locked | leave | test | waiting | woken => simp [Arrived]
      | counted | signal => exact absurd (by simp [hr, ReindeerPc.Inside]) hout
  | broadcasts hpc =>
    rw [hpc] at hsanta
    refine ⟨hguards, h.queue, fun r => ?_, hsanta, fun _ hw => ?_⟩
    · have harr := h.arrived r
      cases hr : s.reindeers r <;> simpa [hr, ReindeerPc.wake, Arrived] using harr
    · obtain ⟨r, hr⟩ := hw
      cases hr' : s.reindeers r <;> simp [hr', ReindeerPc.wake] at hr
  | unlocks hpc =>
    refine ⟨hguards, h.queue, h.arrived, trivial, fun hz hw => ?_⟩
    have hb := h.asleep hz hw
    rw [hpc] at hb
    cases hb

lemma ok_initial : Ok .initial := by
  refine ⟨fun th hin => ?_, ?_, fun r => rfl, trivial, fun _ hw => ?_⟩
  · cases th <;> exact hin.elim
  · simp [State.initial, tokens_eq_zero]
  · obtain ⟨r, hr⟩ := hw
    cases hr

lemma Ok.wake_santa (h : Ok s) (hw : s.santa = .waiting) : Ok { s with santa := .woken } := by
  refine ⟨h.guards.keep fun th hin => ?_, h.queue, h.arrived, trivial, fun hq hr => ?_⟩
  · cases th with
    | santa => exact hin.elim
    | reindeer r => exact hin
  · have hb := h.asleep hq hr
    rw [hw] at hb
    cases hb

lemma Ok.wake_reindeer (h : Ok s) {r : Reindeer} (hw : s.reindeers r = .waiting) :
    Ok (s.setReindeer r .woken) := by
  have harr := h.arrived r
  rw [hw] at harr
  refine ⟨h.guards.keep (inside_of_same (r := r) ?_ (fun v hv => setReindeer_of_ne hv _) id), h.queue,
    arrived_setReindeer h.arrived harr, ?_, fun hq hr => ?_⟩
  · simp [hw, ReindeerPc.Inside]
  · exact h.santa.setReindeer (by simp [State.Counts, hw])
  · exact h.asleep hq (waiting_of_setReindeer (by simp) hr)

lemma Ok.step {a : Action} (h : Ok s) (hs : Santa.step s a = some t) : Ok t := by
  cases a with
  | santa => exact h.santa_step (santa_cases hs)
  | reindeer r => exact h.reindeer (reindeer_cases hs)
  | wakeSanta =>
    obtain ⟨hw, rfl⟩ : s.santa = .waiting ∧ { s with santa := .woken } = t := by
      simpa [Santa.step] using hs
    exact h.wake_santa hw
  | wakeReindeer r =>
    obtain ⟨hw, rfl⟩ : s.reindeers r = .waiting ∧ s.setReindeer r .woken = t := by
      simpa [Santa.step] using hs
    exact h.wake_reindeer hw

theorem ok_of_reachable (h : machine.Reachable s) : Ok s :=
  h.invariant (fun _ hs => hs ▸ ok_initial) fun _ _ _ hok hn => hok.step hn

/-- A reindeer that holds the mutex is about to signal Santa: alone it takes at most two
steps to wake him. -/
def SignalPending (s : State) : Prop :=
  ∃ r, s.mutex = some (.reindeer r) ∧ ∃ k t, k ≤ 2 ∧
    machine.exec s (List.replicate k (.reindeer r)) = some t ∧ t.santa = .woken

lemma signalPending_of_counts (h : Ok s) (hw : s.santa = .waiting) (hq : s.reindeers_in_queue = 9)
    {r : Reindeer} (hr : s.Counts r) : SignalPending s := by
  have hsignal : ∀ u : State, u.santa = .waiting → u.reindeers r = .signal →
      ∃ t, machine.next u (.reindeer r) = some t ∧ t.santa = .woken := by
    intro u hu hpc
    refine ⟨{ u.setReindeer r .test with santa := u.santa.wake }, ?_, by simp [hu, SantaPc.wake]⟩
    simp [machine, step, reindeer_mechanic, hpc]
  refine ⟨r, ?_, ?_⟩
  · refine h.guards (.reindeer r) ?_
    rcases hr with hpc | hpc
    · simp [State.Inside, hpc, ReindeerPc.Inside]
    · simp [State.Inside, hpc, ReindeerPc.Inside]
  · rcases hr with hpc | hpc
    · obtain ⟨t, ht, hwoken⟩ := hsignal (s.setReindeer r .signal) hw (setReindeer_self r _)
      refine ⟨2, t, le_rfl, ?_, hwoken⟩
      have hfirst : machine.next s (.reindeer r) = some (s.setReindeer r .signal) := by
        simp [machine, Santa.step, reindeer_mechanic, hpc, hq, MAX_REINDEERS_IN_QUEUE]
      exact Machine.exec_cons_eq_some.mpr ⟨_, hfirst, Machine.exec_cons_eq_some.mpr ⟨_, ht, rfl⟩⟩
    · obtain ⟨t, ht, hwoken⟩ := hsignal s hw hpc
      exact ⟨1, t, by omega, Machine.exec_cons_eq_some.mpr ⟨_, ht, rfl⟩, hwoken⟩

/-- In every reachable state the queue holds between 0 and 9 reindeer; when Santa has left
his wait loop it holds all nine, each of which has arrived once since the last reset; and
if the queue is full while Santa waits, the wake-up is on its way. -/
theorem delivery_safety (h : machine.Reachable s) :
    (0 ≤ s.reindeers_in_queue ∧ s.reindeers_in_queue ≤ 9) ∧
      (s.santa = .deliver → s.reindeers_in_queue = 9 ∧ ∀ r, s.arrivals r = 1) ∧
      (s.santa = .waiting → s.reindeers_in_queue = 9 → SignalPending s) := by
  have hok := ok_of_reachable h
  refine ⟨⟨hok.queue_nonneg, hok.queue_le⟩, fun hpc => ?_, fun hpc hq => ?_⟩
  · have hsanta := hok.santa
    rw [hpc] at hsanta
    exact ⟨hsanta, hok.arrivals_eq_one hsanta⟩
  · have hsanta := hok.santa
    rw [hpc] at hsanta
    rcases hsanta with hlt | ⟨r, hr⟩
    · omega
    · exact signalPending_of_counts hok hpc hq hr

/-- Santa goes to sleep, nine reindeer arrive one after the other, and the last wakes him. -/
def gathering : List Action :=
  List.replicate 3 .santa ++
    (List.finRange 9).flatMap (fun r => List.replicate 4 (.reindeer r)) ++ [.reindeer 8]

theorem delivery_safety_gathering : ∃ s, machine.Reachable s ∧ s.santa = .deliver ∧
    s.reindeers_in_queue = 9 ∧ ∀ r, s.arrivals r = 1 := by
  have hrun : (machine.exec .initial (gathering ++ List.replicate 2 .santa)).map State.santa = some .deliver := by
    decide +kernel
  obtain ⟨s, hs, hpc⟩ := Option.map_eq_some_iff.mp hrun
  have hreach : machine.Reachable s := Machine.Reachable.exec (.start rfl) hs
  exact ⟨s, hreach, hpc, (delivery_safety hreach).2.1 hpc⟩

end SystemyOperacyjne.Santa
