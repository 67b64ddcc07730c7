import Mathlib.Data.Int.Notation
import SystemyOperacyjne.Library.Machine

/-!
# The catcher

The main loop of `cw5/zadanie2/catcher.c` and its handler of SIGUSR1 share `workType`. The handler stores
the type of a request there and acknowledges the request to its sender; the loop tests the variable, carries
the request out and sets the variable back.
-/

namespace SystemyOperacyjne.Catcher
open Concurrency

/-- The type of work that a sender asks for. -/
abbrev Work := {w : ℤ // 1 ≤ w ∧ w ≤ 3}

/-- What the handler reads: the sender, and the value that `sigqueue` carried. -/
structure siginfo_t where
  si_pid : ℤ
  si_status : ℤ
  deriving DecidableEq, Repr

/-- The next statement of the main loop: the test of `workType`, one inside a case, the assignment after
it, or `pause`, before the call or blocked in it. -/
inductive Pc
  | switch
  | printNumber (i : ℕ)
  | pinntRequestsNumber
  | endProgram
  | reset
  | callPause
  | pause
  | exited
  deriving DecidableEq, Repr

inductive Line
  | number (i : ℕ)
  | requests (n : ℕ)
  | caput
  deriving DecidableEq, Repr

/-- `acknowledged` are the requests whose sender got its signal, and `carried` the types of the actions
completed, both in order. -/
structure State where
  pc : Pc
  requestsNumber : ℕ
  workType : ℤ
  output : List Line
  acknowledged : List siginfo_t
  carried : List ℤ

/-- The `switch`. -/
def workCase (workType : ℤ) : Pc :=
  if workType = 1 then .printNumber 0
  else if workType = 2 then .pinntRequestsNumber
  else if workType = 3 then .endProgram
  else .callPause

/-- One statement of the main loop; in `pause` it is blocked. -/
def mainStep (s : State) : Option State :=
  match s.pc with
  | .switch => some { s with pc := workCase s.workType }
  | .printNumber i =>
    if i ≤ 100 then some { s with pc := .printNumber (i + 1), output := s.output ++ [.number i] }
    else some { s with pc := .reset, carried := s.carried ++ [1] }
  | .pinntRequestsNumber => some { s with
      pc := .reset
      output := s.output ++ [.requests s.requestsNumber]
      carried := s.carried ++ [2] }
  | .endProgram => some { s with
      pc := .exited
      output := s.output ++ [.caput]
      carried := s.carried ++ [3] }
  | .reset => some { s with pc := .switch, workType := 4 }
  | .callPause => some { s with pc := .pause }
  | .pause | .exited => none

/-- The handler. SIGUSR1 is blocked while it runs and the main loop stands still; a `pause` that it
interrupts returns. -/
def actionFunction (info : siginfo_t) (s : State) : Option State :=
  if s.pc = .exited then none
  else some { s with
    pc := if s.pc = .pause then .switch else s.pc
    requestsNumber := s.requestsNumber + 1
    workType := info.si_status
    acknowledged := s.acknowledged ++ [info] }

inductive Action
  | main
  | request (pid : ℤ) (w : Work)

def step (s : State) : Action → Option State
  | .main => mainStep s
  | .request pid w => actionFunction ⟨pid, w⟩ s

/-- The handler is installed, and no request has come. -/
def start : State where
  pc := .switch
  requestsNumber := 0
  workType := 4
  output := []
  acknowledged := []
  carried := []

def machine : Machine State Action where
  init s := s = start
  next := step

/-- While the main loop is blocked, the actions carried out are those of the acknowledged requests, one
for each. -/
def Served (s : State) : Prop :=
  s.pc = .pause → s.carried.Perm (s.acknowledged.map fun info => info.si_status)

/-- A request finds the main loop blocked, or before its test with no other request to be lost, or about
to end the program. -/
def InTime (s : State) : Action → Prop
  | .main => True
  | .request _ w => s.pc = .pause ∨ (s.pc = .switch ∧ (s.workType = 4 ∨ w.val = 3)) ∨ s.pc = .endProgram

instance (s : State) : (a : Action) → Decidable (InTime s a)
  | .main => isTrue trivial
  | .request _ w =>
    inferInstanceAs (Decidable (s.pc = .pause ∨ (s.pc = .switch ∧ (s.workType = 4 ∨ w.val = 3)) ∨ s.pc = .endProgram))

/-! ### Requests in time -/

section
variable {s t : State}

/-- The types of the requests acknowledged. -/
def State.asked (s : State) : List ℤ :=
  s.acknowledged.map fun info => info.si_status

/-- What has been carried out at each place of the main loop: all that was acknowledged, but for the
request that `workType` holds or that the loop is dealing with. -/
def Tracked (s : State) : Prop :=
  match s.pc with
  | .switch => s.workType = 4 ∧ s.asked = s.carried ∨
      (s.workType = 1 ∨ s.workType = 2) ∧ s.asked = s.carried ++ [s.workType] ∨
      s.workType = 3 ∧ s.carried.length < s.asked.length
  | .printNumber _ => s.asked = s.carried ++ [1]
  | .pinntRequestsNumber => s.asked = s.carried ++ [2]
  | .reset => s.asked = s.carried
  | .callPause | .pause => s.workType = 4 ∧ s.asked = s.carried
  | .endProgram | .exited => True

lemma tracked_workCase (hpc : s.pc = .switch) (h : Tracked s) : Tracked { s with pc := workCase s.workType } := by
  simp only [Tracked, hpc] at h
  rcases h with ⟨hwork, hasked⟩ | ⟨hwork | hwork, hasked⟩ | ⟨hwork, -⟩
  · have hcase : workCase s.workType = .callPause := by rw [hwork]; decide
    rw [hcase]
    exact ⟨hwork, hasked⟩
  · have hcase : workCase s.workType = .printNumber 0 := by rw [hwork]; decide
    rw [hcase]
    rw [hwork] at hasked
    exact hasked
  · have hcase : workCase s.workType = .pinntRequestsNumber := by rw [hwork]; decide
    rw [hcase]
    rw [hwork] at hasked
    exact hasked
  · have hcase : workCase s.workType = .endProgram := by rw [hwork]; decide
    rw [hcase]
    trivial

lemma tracked_main (h : Tracked s) (hs : mainStep s = some t) : Tracked t := by
  cases hpc : s.pc with
  | switch =>
    simp only [mainStep, hpc, Option.some.injEq] at hs
    subst hs
    exact tracked_workCase hpc h
  | printNumber i =>
    simp only [mainStep, hpc] at hs
    simp only [Tracked, hpc] at h
    split at hs
    · cases hs
      exact h
    · cases hs
      exact h
  | pinntRequestsNumber =>
    simp only [mainStep, hpc, Option.some.injEq] at hs
    subst hs
    simp only [Tracked, hpc] at h
    exact h
  | endProgram =>
    simp only [mainStep, hpc, Option.some.injEq] at hs
    subst hs
    trivial
  | reset =>
    simp only [mainStep, hpc, Option.some.injEq] at hs
    subst hs
    simp only [Tracked, hpc] at h
    exact .inl ⟨rfl, h⟩
  | callPause =>
    simp only [mainStep, hpc, Option.some.injEq] at hs
    subst hs
    simp only [Tracked, hpc] at h
    exact h
  | pause | exited => simp [mainStep, hpc] at hs

lemma tracked_of_idle {w : Work} (hpc : t.pc = .switch) (hwork : t.workType = w)
    (hasked : t.asked = t.carried ++ [w.val]) : Tracked t := by
  have hw := w.property
  simp only [Tracked, hpc]
  by_cases h3 : w.val = 3
  · refine .inr (.inr ⟨hwork.trans h3, ?_⟩)
    rw [hasked, List.length_append, List.length_singleton]
    omega
  · refine .inr (.inl ⟨?_, by rw [hwork]; exact hasked⟩)
    rw [hwork]
    omega

lemma actionFunction_eq_some {pid : ℤ} {w : Work} (hs : actionFunction ⟨pid, w⟩ s = some t) :
    t.asked = s.asked ++ [w.val] ∧ t.carried = s.carried ∧ t.workType = w ∧
      t.pc = if s.pc = .pause then .switch else s.pc := by
  simp only [actionFunction] at hs
  split at hs
  · cases hs
  · cases hs
    exact ⟨by simp [State.asked], rfl, rfl, rfl⟩

lemma tracked_request {pid : ℤ} {w : Work} (h : Tracked s) (htime : InTime s (.request pid w))
    (hs : actionFunction ⟨pid, w⟩ s = some t) : Tracked t := by
  obtain ⟨hasked, hcarried, hwork, hpc⟩ := actionFunction_eq_some hs
  rcases htime with hpause | ⟨hswitch, hidle | hend⟩ | hending
  · simp only [Tracked, hpause] at h
    rw [if_pos hpause] at hpc
    exact tracked_of_idle hpc hwork (by rw [hasked, hcarried, h.2])
  · rw [if_neg (by rw [hswitch]; decide), hswitch] at hpc
    simp only [Tracked, hswitch] at h
    rcases h with ⟨-, h⟩ | ⟨h, -⟩ | ⟨h, -⟩
    · exact tracked_of_idle hpc hwork (by rw [hasked, hcarried, h])
    · omega
    · omega
  · rw [if_neg (by rw [hswitch]; decide), hswitch] at hpc
    simp only [Tracked, hswitch] at h
    simp only [Tracked, hpc]
    refine .inr (.inr ⟨hwork.trans hend, ?_⟩)
    rw [hasked, hcarried, List.length_append, List.length_singleton]
    rcases h with ⟨-, h⟩ | ⟨-, h⟩ | ⟨-, h⟩
    · rw [h]
      omega
    · rw [h, List.length_append, List.length_singleton]
      omega
    · omega
  · rw [if_neg (by rw [hending]; decide), hending] at hpc
    simp only [Tracked, hpc]

lemma tracked_of_reachable (h : machine.ReachableBy InTime s) : Tracked s := by
  apply h.invariant (I := Tracked)
  · rintro u rfl
    exact .inl ⟨rfl, rfl⟩
  · intro u a w hu htime hs
    cases a with
    | main => exact tracked_main hu hs
    | request pid w => exact tracked_request hu htime hs

/-- In every run whose requests come in time, none of them is dropped. -/
theorem requests_served (h : machine.ReachableBy InTime s) : Served s := by
  intro hpc
  have htracked := tracked_of_reachable h
  simp only [Tracked, hpc] at htracked
  exact List.Perm.of_eq htracked.2.symm

end

/-! ### Requests that come too late -/

section
variable {s t u : State}

/-- The main loop runs on by itself. -/
def Continues (s t : State) : Prop :=
  machine.Leads (fun a => a = .main) s t

lemma continues_of_step (hs : mainStep s = some t) (h : Continues t u) : Continues s u :=
  Machine.Leads.step (a := .main) rfl hs h

/-- It comes to `pause`, with so many requests acknowledged and so many carried out. -/
def Pauses (s : State) (asked carried : ℕ) : Prop :=
  ∃ t, Continues s t ∧ t.pc = .pause ∧ t.asked.length = asked ∧ t.carried.length = carried

lemma Pauses.step {m n : ℕ} (hs : mainStep s = some t) (h : Pauses t m n) : Pauses s m n := by
  obtain ⟨u, hu, hrest⟩ := h
  exact ⟨u, continues_of_step hs hu, hrest⟩

lemma pauses_callPause (hpc : s.pc = .callPause) : Pauses s s.asked.length s.carried.length := by
  have hs : mainStep s = some { s with pc := .pause } := by simp only [mainStep, hpc]
  exact ⟨_, continues_of_step hs (.refl _), rfl, rfl, rfl⟩

lemma pauses_switch (hpc : s.pc = .switch) (hwork : s.workType = 4) : Pauses s s.asked.length s.carried.length := by
  have hs : mainStep s = some { s with pc := .callPause } := by
    simp only [mainStep, hpc, hwork]
    rfl
  exact .step hs (pauses_callPause rfl)

lemma pauses_reset (hpc : s.pc = .reset) : Pauses s s.asked.length s.carried.length := by
  have hs : mainStep s = some { s with pc := .switch, workType := 4 } := by simp only [mainStep, hpc]
  exact .step hs (pauses_switch rfl rfl)

lemma pauses_printNumber {i : ℕ} (hpc : s.pc = .printNumber i) : Pauses s s.asked.length (s.carried.length + 1) := by
  induction hn : 101 - i generalizing s i with
  | zero =>
    have hi : ¬i ≤ 100 := by omega
    have hs : mainStep s = some { s with pc := .reset, carried := s.carried ++ [1] } := by
      simp only [mainStep, hpc, if_neg hi]
    have hrest := pauses_reset (s := { s with pc := .reset, carried := s.carried ++ [1] }) rfl
    rw [List.length_append] at hrest
    exact .step hs hrest
  | succ n ih =>
    have hi : i ≤ 100 := by omega
    have hs : mainStep s = some { s with pc := .printNumber (i + 1), output := s.output ++ [.number i] } := by
      simp only [mainStep, hpc, if_pos hi]
    exact .step hs (ih (i := i + 1) rfl (by omega))

lemma pauses_pinntRequestsNumber (hpc : s.pc = .pinntRequestsNumber) :
    Pauses s s.asked.length (s.carried.length + 1) := by
  let t : State := { s with
    pc := .reset
    output := s.output ++ [.requests s.requestsNumber]
    carried := s.carried ++ [2] }
  have hs : mainStep s = some t := by simp only [mainStep, hpc, t]
  have hrest : Pauses t t.asked.length t.carried.length := pauses_reset rfl
  have hcarried : t.carried.length = s.carried.length + 1 := by simp [t]
  rw [hcarried] at hrest
  exact .step hs hrest

lemma pauses_of_request (hpc : s.pc = .switch) (hwork : s.workType = 1 ∨ s.workType = 2) :
    Pauses s s.asked.length (s.carried.length + 1) := by
  have hs : mainStep s = some { s with pc := workCase s.workType } := by simp only [mainStep, hpc]
  apply Pauses.step hs
  rcases hwork with hwork | hwork
  · exact pauses_printNumber (i := 0) (by rw [hwork]; rfl)
  · exact pauses_pinntRequestsNumber (by rw [hwork]; rfl)

lemma not_served_of_pauses {m n : ℕ} (h : Pauses s m n) (hlt : n < m) : ∃ t, Continues s t ∧ ¬Served t := by
  obtain ⟨t, ht, hpc, hasked, hcarried⟩ := h
  refine ⟨t, ht, fun hserved => ?_⟩
  have hlength : t.carried.length = t.asked.length := (hserved hpc).length_eq
  omega

/-- Before any other statement a request is dropped, or the one before it is. -/
theorem late_request_dropped {pid : ℤ} {w : Work} (h : machine.ReachableBy InTime s)
    (hlate : ¬InTime s (.request pid w)) (hs : actionFunction ⟨pid, w⟩ s = some t) :
    ∃ u, Continues t u ∧ ¬Served u := by
  have htracked := tracked_of_reachable h
  obtain ⟨hasked, hcarried, hwork, hpc⟩ := actionFunction_eq_some hs
  have hlength : t.asked.length = s.asked.length + 1 := by rw [hasked, List.length_append, List.length_singleton]
  have hw := w.property
  simp only [InTime, not_or, not_and] at hlate
  obtain ⟨hpause, hswitch, hending⟩ := hlate
  rw [if_neg hpause] at hpc
  cases hat : s.pc with
  | pause => exact absurd hat hpause
  | endProgram => exact absurd hat hending
  | exited => simp [actionFunction, hat] at hs
  | switch =>
    obtain ⟨hidle, hend⟩ := hswitch hat
    simp only [Tracked, hat] at htracked
    have hlt : s.carried.length < s.asked.length := by
      rcases htracked with ⟨h, -⟩ | ⟨-, h⟩ | ⟨-, h⟩
      · exact absurd h hidle
      · rw [h, List.length_append, List.length_singleton]
        omega
      · exact h
    apply not_served_of_pauses (pauses_of_request (hpc.trans hat) (by rw [hwork]; omega))
    rw [hlength, hcarried]
    omega
  | printNumber i =>
    simp only [Tracked, hat] at htracked
    apply not_served_of_pauses (pauses_printNumber (hpc.trans hat))
    rw [hlength, hcarried, htracked, List.length_append, List.length_singleton]
    omega
  | pinntRequestsNumber =>
    simp only [Tracked, hat] at htracked
    apply not_served_of_pauses (pauses_pinntRequestsNumber (hpc.trans hat))
    rw [hlength, hcarried, htracked, List.length_append, List.length_singleton]
    omega
  | reset =>
    simp only [Tracked, hat] at htracked
    apply not_served_of_pauses (pauses_reset (hpc.trans hat))
    rw [hlength, hcarried, htracked]
    omega
  | callPause =>
    simp only [Tracked, hat] at htracked
    apply not_served_of_pauses (pauses_callPause (hpc.trans hat))
    rw [hlength, hcarried, htracked.2]
    omega

end

/-- Two requests, each to a main loop that is blocked. -/
theorem requests_served_blocked : ∃ s, machine.ReachableBy InTime s ∧ s.pc = .pause ∧
    s.carried = [2, 2] ∧ Served s := by
  let rounds : List Action := [.main, .main, .request 7 ⟨2, by decide⟩, .main, .main, .main, .main, .main,
    .request 8 ⟨2, by decide⟩, .main, .main, .main, .main, .main]
  have hrun : ((machine.guard InTime).exec start rounds).map (fun s => (s.pc, s.carried)) = some (.pause, [2, 2]) := by
    decide +kernel
  obtain ⟨s, hs, heq⟩ := Option.map_eq_some_iff.mp hrun
  simp only [Prod.mk.injEq] at heq
  have hguard : (machine.guard InTime).Reachable s := Machine.Reachable.exec (.start rfl) hs
  have hreach := Machine.reachableBy_of_guard hguard
  exact ⟨s, hreach, heq.1, heq.2, requests_served hreach⟩

/-- A request falls between the test and `pause`. -/
theorem not_requests_served : ¬∀ s, machine.Reachable s → Served s := by
  intro hall
  have hrun : (machine.exec start [.main, .request 7 ⟨2, by decide⟩, .main]).map
      (fun s => (s.pc, s.carried, s.acknowledged)) = some (.pause, [], [⟨7, 2⟩]) := by
    decide
  obtain ⟨s, hs, heq⟩ := Option.map_eq_some_iff.mp hrun
  simp only [Prod.mk.injEq] at heq
  obtain ⟨hpc, hcarried, hacknowledged⟩ := heq
  have hreach : machine.Reachable s := Machine.Reachable.exec (.start rfl) hs
  have hperm := (hall s hreach hpc).length_eq
  rw [hcarried, hacknowledged] at hperm
  cases hperm

end SystemyOperacyjne.Catcher
