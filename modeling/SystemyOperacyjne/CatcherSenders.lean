import SystemyOperacyjne.Catcher
import SystemyOperacyjne.Library.Tokens
import Mathlib.Data.Fintype.Basic
import Mathlib.Logic.Embedding.Basic

/-!
# The senders of requests

`cw5/zadanie2/sender.c` queues SIGUSR1 to the catcher and suspends itself until a signal comes. It installs
no handler, so the acknowledgement ends it. At most one SIGUSR1 is pending for the catcher: a request that
is sent while another waits for delivery is merged into it, and its sender waits forever.
-/

namespace SystemyOperacyjne.Catcher.Senders
open Concurrency

variable {ι : Type} [DecidableEq ι]

/-- A sender is before `sigqueue`, or on its way to `sigsuspend` or in it, or it was ended by a signal. -/
inductive SenderPc
  | sigqueue
  | sigsuspend
  | killed
  deriving DecidableEq, Repr

/-- `installed` says that the catcher has called `sigaction`, `terminated` that a signal came before and
ended it; `pending` is what was queued with the signal that waits for delivery. -/
structure State (ι : Type) where
  catcher : Catcher.State
  installed : Bool
  terminated : Bool
  pending : Option siginfo_t
  senders : ι → SenderPc

def start : State ι where
  catcher := Catcher.start
  installed := false
  terminated := false
  pending := none
  senders _ := .sigqueue

/-- The catcher still runs. -/
def State.Alive (s : State ι) : Prop :=
  s.catcher.pc ≠ .exited ∧ s.terminated = false

instance (s : State ι) : Decidable s.Alive :=
  inferInstanceAs (Decidable (s.catcher.pc ≠ .exited ∧ s.terminated = false))

/-- `sigaction` of the catcher, and then its main loop. -/
def main (s : State ι) : Option (State ι) :=
  if s.terminated then none
  else if s.installed then (mainStep s.catcher).map fun c => { s with catcher := c }
  else some { s with installed := true }

/-- `kill` with SIGUSR1, of a sender. -/
def kill (pid : ι ↪ ℤ) (si_pid : ℤ) (senders : ι → SenderPc) : ι → SenderPc :=
  fun i => if pid i = si_pid then .killed else senders i

/-- The signal reaches the catcher, whose handler runs, if there is one. A signal sent meanwhile is pending
after it. -/
def deliver (pid : ι ↪ ℤ) (s : State ι) : Option (State ι) :=
  match s.pending with
  | none => none
  | some info =>
    if s.Alive then
      if s.installed then
        (actionFunction info s.catcher).map fun c =>
          { s with catcher := c, pending := none, senders := kill pid info.si_pid s.senders }
      else some { s with terminated := true, pending := none }
    else none

/-- `sigqueue` of a sender. The kernel drops a signal that is pending already. -/
def sigqueue (pid : ι ↪ ℤ) (asks : ι → ℤ) (s : State ι) (i : ι) : Option (State ι) :=
  if s.senders i = .sigqueue then some { s with
    pending := if s.pending = none ∧ s.Alive then some ⟨pid i, asks i⟩ else s.pending
    senders := Function.update s.senders i .sigsuspend }
  else none

inductive Action (ι : Type)
  | main
  | deliver
  | sigqueue (i : ι)

/-- Sender `i` has the process id `pid i` and asks for `asks i`. -/
def step (pid : ι ↪ ℤ) (asks : ι → ℤ) (s : State ι) : Action ι → Option (State ι)
  | .main => main s
  | .deliver => deliver pid s
  | .sigqueue i => sigqueue pid asks s i

def machine (pid : ι ↪ ℤ) (asks : ι → ℤ) : Machine (State ι) (Action ι) where
  init s := s = start
  next := step pid asks

/-- A request comes to a catcher that runs and has no other pending, and a signal to one that has its
handler. -/
def Heard (s : State ι) : Action ι → Prop
  | .main => True
  | .deliver => s.installed = true
  | .sigqueue _ => s.pending = none ∧ s.Alive

instance (s : State ι) : (a : Action ι) → Decidable (Heard s a)
  | .main => isTrue trivial
  | .deliver => inferInstanceAs (Decidable (s.installed = true))
  | .sigqueue _ => inferInstanceAs (Decidable (s.pending = none ∧ s.Alive))

/-- A sender that waits for a signal which is not going to be sent. -/
def Stuck (pid : ι ↪ ℤ) (s : State ι) (i : ι) : Prop :=
  s.senders i = .sigsuspend ∧ ∀ info, s.pending = some info → info.si_pid ≠ pid i

/-- How many senders were acknowledged. -/
def answered [Fintype ι] (s : State ι) : ℕ :=
  tokens (fun pc => if pc = .killed then 1 else 0) s.senders

/-! ### What a step does -/

section
variable {pid : ι ↪ ℤ} {asks : ι → ℤ} {s t : State ι}

/-- What a step can be. -/
inductive Move (pid : ι ↪ ℤ) (asks : ι → ℤ) (s : State ι) : Action ι → State ι → Prop
  | installs (hi : s.installed = false) : Move pid asks s .main { s with installed := true }
  | runs {c : Catcher.State} (hc : mainStep s.catcher = some c) : Move pid asks s .main { s with catcher := c }
  | handles {info : siginfo_t} {c : Catcher.State} (hp : s.pending = some info) (hi : s.installed = true)
      (hc : actionFunction info s.catcher = some c) : Move pid asks s .deliver
        { s with catcher := c, pending := none, senders := kill pid info.si_pid s.senders }
  | dies {info : siginfo_t} (hp : s.pending = some info) (hi : s.installed = false) :
      Move pid asks s .deliver { s with terminated := true, pending := none }
  | queued {i : ι} (hpc : s.senders i = .sigqueue) (hp : s.pending = none) (ha : s.Alive) :
      Move pid asks s (.sigqueue i)
        { s with pending := some ⟨pid i, asks i⟩, senders := Function.update s.senders i .sigsuspend }
  | merged {i : ι} (hpc : s.senders i = .sigqueue) (hp : ¬(s.pending = none ∧ s.Alive)) :
      Move pid asks s (.sigqueue i) { s with senders := Function.update s.senders i .sigsuspend }

lemma step_cases {a : Action ι} (h : step pid asks s a = some t) : Move pid asks s a t := by
  cases a with
  | main =>
    simp only [step, main] at h
    split at h
    · cases h
    split at h
    · obtain ⟨c, hc, rfl⟩ := Option.map_eq_some_iff.mp h
      exact .runs hc
    · next hi =>
      cases h
      exact .installs (by simpa using hi)
  | deliver =>
    simp only [step, deliver] at h
    cases hp : s.pending with
    | none => simp [hp] at h
    | some info =>
      simp only [hp] at h
      split at h
      · split at h
        · next hi =>
          obtain ⟨c, hc, rfl⟩ := Option.map_eq_some_iff.mp h
          exact .handles hp hi hc
        · next hi =>
          cases h
          exact .dies hp (by simpa using hi)
      · cases h
  | sigqueue i =>
    simp only [step, sigqueue] at h
    split at h
    · next hpc =>
      by_cases hp : s.pending = none ∧ s.Alive
      · rw [if_pos hp, Option.some.injEq] at h
        subst h
        exact .queued hpc hp.1 hp.2
      · rw [if_neg hp, Option.some.injEq] at h
        subst h
        exact .merged hpc hp
    · cases h

/-- The signal that waits for delivery was queued by a sender that waits. -/
structure Ok (pid : ι ↪ ℤ) [Fintype ι] (s : State ι) : Prop where
  pending : ∀ info, s.pending = some info → ∃ i, pid i = info.si_pid ∧ s.senders i = .sigsuspend
  counted : s.catcher.requestsNumber = answered s

/-- How many statements the main loop has left before it blocks. -/
def mainRank (c : Catcher.State) : ℕ :=
  match c.pc with
  | .switch => if c.workType = 1 then 106 else if c.workType = 2 then 5 else 2
  | .printNumber i => 4 + (101 - i)
  | .pinntRequestsNumber => 4
  | .reset => 3
  | .endProgram | .callPause => 1
  | .pause | .exited => 0

lemma mainRank_le (c : Catcher.State) : mainRank c ≤ 106 := by
  unfold mainRank
  split
  · split
    · exact le_rfl
    · split <;> omega
  all_goals omega

lemma mainRank_workCase {c : Catcher.State} (hpc : c.pc = .switch) :
    mainRank { c with pc := workCase c.workType } < mainRank c := by
  simp only [mainRank, hpc, workCase]
  by_cases h1 : c.workType = 1
  · simp [h1]
  by_cases h2 : c.workType = 2
  · simp [h2]
  by_cases h3 : c.workType = 3
  · simp [h3]
  · simp [h1, h2, h3]

lemma mainStep_spec {c d : Catcher.State} (h : mainStep c = some d) :
    d.requestsNumber = c.requestsNumber ∧ mainRank d < mainRank c := by
  cases hpc : c.pc with
  | switch =>
    simp only [mainStep, hpc, Option.some.injEq] at h
    subst h
    exact ⟨rfl, mainRank_workCase hpc⟩
  | printNumber i =>
    simp only [mainStep, hpc] at h
    split at h
    · next hi =>
      cases h
      refine ⟨rfl, ?_⟩
      simp only [mainRank, hpc]
      omega
    · cases h
      refine ⟨rfl, ?_⟩
      simp only [mainRank, hpc]
      omega
  | pinntRequestsNumber | endProgram | callPause =>
    simp only [mainStep, hpc, Option.some.injEq] at h
    subst h
    refine ⟨rfl, ?_⟩
    simp [mainRank, hpc]
  | reset =>
    simp only [mainStep, hpc, Option.some.injEq] at h
    subst h
    refine ⟨rfl, ?_⟩
    simp [mainRank, hpc]
  | pause | exited => simp [mainStep, hpc] at h

lemma requestsNumber_actionFunction {info : siginfo_t} {c d : Catcher.State} (h : actionFunction info c = some d) :
    d.requestsNumber = c.requestsNumber + 1 := by
  unfold actionFunction at h
  split at h
  · cases h
  · cases h
    rfl

lemma kill_eq (pid : ι ↪ ℤ) (i : ι) (senders : ι → SenderPc) :
    kill pid (pid i) senders = Function.update senders i .killed := by
  funext j
  by_cases hj : j = i
  · rw [hj, Function.update_self]
    exact if_pos rfl
  · rw [Function.update_of_ne hj]
    exact if_neg fun he => hj (pid.injective he)

variable [Fintype ι]

lemma answered_update (s : State ι) (i : ι) (pc : SenderPc) (hi : s.senders i ≠ .killed) {u : State ι}
    (hu : u.senders = Function.update s.senders i pc) :
    answered u = answered s + if pc = .killed then 1 else 0 := by
  have htokens := tokens_update (fun pc : SenderPc => if pc = .killed then 1 else 0) s.senders i pc
  simp only [if_neg hi, add_zero] at htokens
  unfold answered
  rw [hu]
  exact htokens

lemma Ok.step {a : Action ι} (h : Ok pid s) (hs : Senders.step pid asks s a = some t) : Ok pid t := by
  cases step_cases hs with
  | installs => exact ⟨h.pending, h.counted⟩
  | runs hc => exact ⟨h.pending, (mainStep_spec hc).1.trans h.counted⟩
  | handles hp hi hc =>
    obtain ⟨i, hpid, hpc⟩ := h.pending _ hp
    refine ⟨by simp, ?_⟩
    rw [answered_update s i .killed (by simp [hpc]) (by rw [← hpid, kill_eq])]
    exact (requestsNumber_actionFunction hc).trans (by rw [h.counted, if_pos rfl])
  | dies => exact ⟨by simp, h.counted⟩
  | @queued i hpc hp ha =>
    refine ⟨fun info hn => ⟨i, ?_, Function.update_self _ _ _⟩, ?_⟩
    · cases hn
      rfl
    · rw [answered_update s i .sigsuspend (by simp [hpc]) rfl]
      exact h.counted
  | @merged i hpc hp =>
    refine ⟨fun info hn => ?_, ?_⟩
    · obtain ⟨j, hpid, hj⟩ := h.pending info hn
      have hne : j ≠ i := by
        rintro rfl
        simp [hpc] at hj
      exact ⟨j, hpid, (Function.update_of_ne hne _ _).trans hj⟩
    · rw [answered_update s i .sigsuspend (by simp [hpc]) rfl]
      exact h.counted

omit [DecidableEq ι] in
lemma ok_start : Ok pid (start : State ι) where
  pending _ hn := by cases hn
  counted := by simp [start, Catcher.start, answered, tokens_eq_zero]

/-! ### The end -/

/-- What a run has left: the requests to be sent, the one to be delivered, and the main loop. -/
def rank (s : State ι) : ℕ :=
  108 * tokens (fun pc => if pc = .sigqueue then 1 else 0) s.senders + (if s.pending = none then 0 else 107) +
    mainRank s.catcher + if s.installed then 0 else 1

lemma tokens_update_sigqueue {i : ι} (pc : SenderPc) (hi : s.senders i = .sigqueue) (hpc : pc ≠ .sigqueue) :
    tokens (fun pc => if pc = .sigqueue then 1 else 0) (Function.update s.senders i pc) + 1 =
      tokens (fun pc => if pc = SenderPc.sigqueue then 1 else 0) s.senders := by
  have htokens := tokens_update (fun pc : SenderPc => if pc = .sigqueue then 1 else 0) s.senders i pc
  simpa only [if_pos hi, if_neg hpc, add_zero] using htokens

lemma rank_lt {a : Action ι} (h : Ok pid s) (hs : Senders.step pid asks s a = some t) : rank t < rank s := by
  cases step_cases hs with
  | installs hi => simp [rank, hi]
  | runs hc =>
    have hlt := (mainStep_spec hc).2
    simp only [rank]
    omega
  | @handles info c hp hi hc =>
    obtain ⟨i, hpid, hpc⟩ := h.pending _ hp
    have htokens := tokens_update (fun pc : SenderPc => if pc = .sigqueue then 1 else 0) s.senders i .killed
    simp only [hpc, reduceCtorEq, if_false, add_zero] at htokens
    have hle := mainRank_le c
    simp only [rank, ← hpid, kill_eq, htokens, hp, hi, reduceCtorEq, if_true, if_false]
    omega
  | dies hp hi =>
    simp only [rank, hp, hi, reduceCtorEq, if_true, if_false]
    omega
  | queued hpc hp ha =>
    have htokens := tokens_update_sigqueue .sigsuspend hpc (by simp)
    simp only [rank, hp, reduceCtorEq, if_true, if_false]
    omega
  | merged hpc hp =>
    have htokens := tokens_update_sigqueue .sigsuspend hpc (by simp)
    simp only [rank]
    omega

/-! ### Requests that are merged -/

lemma stuck_step {a : Action ι} (h : Ok pid s) (hs : Senders.step pid asks s a = some t)
    (hno : ¬∃ i, Stuck pid s i) : (¬∃ i, Stuck pid t i) ↔ Heard s a := by
  cases step_cases hs with
  | installs => exact iff_of_true hno trivial
  | runs => exact iff_of_true hno trivial
  | @handles info c hp hi hc =>
    refine iff_of_true ?_ hi
    rintro ⟨i, hpc, -⟩
    simp only [kill] at hpc
    split at hpc
    · cases hpc
    · next hne =>
      refine hno ⟨i, hpc, fun info' hp' => ?_⟩
      obtain rfl : info = info' := by simpa [hp] using hp'
      exact fun he => hne he.symm
  | dies hp hi =>
    obtain ⟨i, -, hpc⟩ := h.pending _ hp
    refine iff_of_false (fun hnot => hnot ⟨i, hpc, by simp⟩) ?_
    simp [Heard, hi]
  | @queued i hpc hp ha =>
    refine iff_of_true ?_ ⟨hp, ha⟩
    rintro ⟨j, hj, hpending⟩
    have hne : j ≠ i := by
      rintro rfl
      exact hpending _ rfl rfl
    simp only [Function.update_of_ne hne] at hj
    exact hno ⟨j, hj, by simp [hp]⟩
  | @merged i hpc hp =>
    refine iff_of_false (fun hnot => hnot ⟨i, Function.update_self _ _ _, fun info hinfo => ?_⟩) hp
    -- the request that waits is that of another sender
    obtain ⟨j, hpid, hj⟩ := h.pending info hinfo
    intro he
    obtain rfl : j = i := pid.injective (hpid.trans he)
    simp [hpc] at hj

omit [Fintype ι] in
lemma Stuck.step {a : Action ι} {i : ι} (h : Stuck pid s i) (hs : Senders.step pid asks s a = some t) :
    Stuck pid t i := by
  obtain ⟨hpc, hpending⟩ := h
  have hother : ∀ j, s.senders j = .sigqueue → i ≠ j := by
    rintro j hj rfl
    simp [hpc] at hj
  cases step_cases hs with
  | installs | runs => exact ⟨hpc, hpending⟩
  | dies => exact ⟨hpc, by simp⟩
  | handles hp =>
    refine ⟨?_, by simp⟩
    simp only [kill]
    rw [if_neg fun he => hpending _ hp he.symm, hpc]
  | queued hj =>
    refine ⟨(Function.update_of_ne (hother _ hj) _ _).trans hpc, fun info hinfo => ?_⟩
    cases hinfo
    exact fun he => hother _ hj (pid.injective he).symm
  | merged hj => exact ⟨(Function.update_of_ne (hother _ hj) _ _).trans hpc, hpending⟩

omit [Fintype ι] in
lemma sent_of_quiet (h : ∀ a, (machine pid asks).next t a = none) (i : ι) : t.senders i ≠ .sigqueue := by
  intro hpc
  have hnone := h (.sigqueue i)
  simp [machine, Senders.step, sigqueue, hpc] at hnone

/-- The catcher and its senders come to an end whatever the schedule. Then each sender was acknowledged,
which ends it, or waits forever; all were acknowledged exactly if no signal is left and every request came
to a catcher that was running, with its handler installed and no other request pending. -/
theorem senders_end {as : List (Action ι)} (h : (machine pid asks).exec start as = some t) :
    as.length ≤ 108 * Fintype.card ι + 3 ∧ t.catcher.requestsNumber = answered t ∧
      ((∀ a, (machine pid asks).next t a = none) → (∀ i, t.senders i ≠ .sigqueue) ∧
        ((∀ i, t.senders i = .killed) ↔ t.pending = none ∧ (machine pid asks).Along Heard start as)) := by
  have hkeep : ∀ u a v, Ok pid u → (machine pid asks).next u a = some v → Ok pid v :=
    fun u a v hu hn => hu.step hn
  have hok : Ok pid t := by
    refine (Machine.exec_keeps (I := fun u => Ok pid u) ?_ h ok_start)
    exact fun u a v hn hu => hu.step hn
  refine ⟨?_, hok.counted, fun hquiet => ?_⟩
  · have hle := Machine.length_le_of_rank (I := fun u => Ok pid u) rank
      (fun u a v hu hn => ⟨hu.step hn, rank_lt hu hn⟩) h ok_start
    have hstart : rank (start : State ι) = 108 * Fintype.card ι + 3 := by
      simp [rank, start, tokens, mainRank, Catcher.start]
    omega
  · have hsent := sent_of_quiet hquiet
    have hstuck : (¬∃ i, Stuck pid t i) ↔ (machine pid asks).Along Heard start as := by
      refine Machine.along_iff_of_invariant (I := fun u => Ok pid u) (B := fun u => ∃ i, Stuck pid u i) hkeep
        (fun u a v hu hn hno => stuck_step hu hn hno) ?_ h ok_start ?_
      · rintro u a v - hn ⟨i, hi⟩
        exact ⟨i, hi.step hn⟩
      · rintro ⟨i, hi, -⟩
        cases hi
    refine ⟨hsent, ?_⟩
    rw [← hstuck]
    constructor
    · intro hall
      constructor
      · cases hp : t.pending with
        | none => rfl
        | some info =>
          obtain ⟨i, -, hi⟩ := hok.pending info hp
          simp [hall i] at hi
      · rintro ⟨i, hi, -⟩
        simp [hall i] at hi
    · rintro ⟨hp, hno⟩ i
      cases hi : t.senders i with
      | killed => rfl
      | sigqueue => exact absurd hi (hsent i)
      | sigsuspend => exact absurd ⟨i, hi, by simp [hp]⟩ hno

end

/-- Two senders send before the catcher takes the first request: the second waits forever. -/
def twoAtOnce : List (Action (Fin 2)) :=
  List.replicate 3 .main ++ [.sigqueue 0, .sigqueue 1, .deliver] ++ List.replicate 5 .main

/-- Their process ids. -/
def twoPids : Fin 2 ↪ ℤ :=
  ⟨fun i => 7 + i, fun i j h => by simpa [Fin.ext_iff] using h⟩

theorem senders_end_twoAtOnce : ∃ t : State (Fin 2), (machine twoPids fun _ => 2).exec start twoAtOnce = some t ∧
    (∀ a, (machine twoPids fun _ => 2).next t a = none) ∧ t.catcher.requestsNumber = 1 ∧
    ¬(machine twoPids fun _ => 2).Along Heard start twoAtOnce := by
  have hrun : ((machine twoPids fun _ => 2).exec start twoAtOnce).map (fun t => (t.catcher.pc,
      t.catcher.requestsNumber, t.installed, t.pending.isNone, t.senders 0, t.senders 1)) =
        some (.pause, 1, true, true, .killed, .sigsuspend) := by
    decide +kernel
  obtain ⟨t, ht, he⟩ := Option.map_eq_some_iff.mp hrun
  simp only [Prod.mk.injEq] at he
  obtain ⟨hpc, hnumber, hinstalled, hnone, hfirst, hsecond⟩ := he
  have hpending : t.pending = none := Option.isNone_iff_eq_none.mp hnone
  have hquiet : ∀ a, (machine twoPids fun _ => 2).next t a = none := by
    intro a
    cases a with
    | main => simp [machine, step, main, mainStep, hinstalled, hpc]
    | deliver => simp [machine, step, deliver, hpending]
    | sigqueue i =>
      have hall : ∀ j, t.senders j ≠ .sigqueue := Fin.forall_fin_two.mpr ⟨by simp [hfirst], by simp [hsecond]⟩
      simp [machine, step, sigqueue, hall i]
  refine ⟨t, ht, hquiet, hnumber, fun halong => ?_⟩
  have hall := ((senders_end ht).2.2 hquiet).2.mpr ⟨hpending, halong⟩ 1
  rw [hsecond] at hall
  cases hall

end SystemyOperacyjne.Catcher.Senders
