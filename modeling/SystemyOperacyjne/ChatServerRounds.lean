import SystemyOperacyjne.ChatServerDescriptors
import SystemyOperacyjne.ChatServerRelay

/-!
# The rounds of `alive_checker`

Between two sleeps `alive_checker` goes through the slots with `clients_mutex` and starts a thread
for each active one. Clients, handlers and the checks that are already there go on meanwhile.
-/

namespace SystemyOperacyjne.ChatServer
open Concurrency

variable {window : ℕ} {s t : State}

/-- The slot that a `check_alive` thread has got and the connection that it is about; nothing for a
handler. -/
def Thread.check (th : Thread) : Option (Slot × Conn) :=
  match th.code with
  | .check c => some (c.client_index, th.conn)
  | .handler _ => none

/-- The active ones of these slots, with the connections that were put into them. -/
def State.active (s : State) (slots : List Slot) : List (Slot × Conn) :=
  (slots.filter fun i => (s.clients i).active).map fun i => (i, (s.occupant i).getD 0)

/-- The checks that `alive_checker` has still to start in its round. -/
def State.due (s : State) : List (Slot × Conn) :=
  match s.checker with
  | .loop i => s.active ((List.finRange MAX_CLIENTS).drop i)
  | .create slot => (slot, (s.occupant slot).getD 0) :: s.active ((List.finRange MAX_CLIENTS).drop (slot + 1))
  | .sleep | .lock | .unlock => []

lemma State.due_congr (hactive : ∀ i, (t.clients i).active = (s.clients i).active) (hocc : t.occupant = s.occupant)
    (hchecker : t.checker = s.checker) : t.due = s.due := by
  have hsame : ∀ slots, t.active slots = s.active slots := by
    intro slots
    unfold State.active
    rw [hocc, funext hactive]
  unfold State.due
  rw [hchecker, hocc]
  cases s.checker with
  | loop i => exact hsame _
  | create slot => exact congrArg _ (hsame _)
  | sleep | lock | unlock => rfl

/-! ### What the other threads do meanwhile -/

lemma Move.check_eq {x : Input} {th : Thread} {code : Code} (h : Move s x th.code code) :
    Thread.check { th with code := code } = th.check := by
  obtain ⟨conn, slot, code'⟩ := th
  cases code' with
  | handler g =>
    cases code with
    | handler g' => rfl
    | check c => exact (h.kind.mpr trivial).elim
  | check c =>
    cases code with
    | handler g => exact (h.kind.mp trivial).elim
    | check c' =>
      obtain hindex | ⟨g, hg, -⟩ := h.index
      · have hsame : c'.client_index = c.client_index := hindex
        simp only [Thread.check, hsame]
      · cases hg

lemma checks_of_worker {k : ℕ} {th : Thread} {x : Input} (hth : s.threads[k]? = some th)
    (hs : WorkerStep s k th x t) : t.threads.map Thread.check = s.threads.map Thread.check := by
  obtain ⟨code, clients, num, mutex, fds, peers, rfl, -, -, hmove⟩ := hs
  obtain ⟨hlt, hget⟩ := List.getElem?_eq_some_iff.mp hth
  have hcheck := hmove.check_eq
  have hk : k < (s.threads.map Thread.check).length := by simpa using hlt
  calc (s.threads.set k { th with code := code }).map Thread.check
      = (s.threads.map Thread.check).set k th.check := by rw [List.map_set, hcheck]
    _ = (s.threads.map Thread.check).set k ((s.threads.map Thread.check)[k]) := by rw [List.getElem_map, hget]
    _ = s.threads.map Thread.check := List.set_getElem_self hk

/-- While `alive_checker` has the mutex, no other thread starts one, or changes a flag or an
occupant. -/
lemma others_wait {a : Action} (hguards : Guards s.clients_mutex s.Inside) (hin : s.checker.Inside)
    (ha : a ≠ .checker) (hs : step window s a = some t) :
    t.threads.map Thread.check = s.threads.map Thread.check ∧ t.due = s.due := by
  have hchecker : s.Inside .checker := hin
  have hmain : ¬s.Inside .main := hguards.not_inside hchecker (by simp)
  have hout : ¬s.main.Inside := hmain
  obtain ⟨x, -, hm⟩ | ⟨rfl, -⟩ | ⟨k, x, th, -, hth, hw⟩ | ⟨peers, rfl⟩ := step_cases hs
  · cases hm with
    | accepts | closes => exact ⟨rfl, rfl⟩
    | locks hpc hfree =>
      have howner := hguards .checker hchecker
      rw [hfree] at howner
      cases howner
    | full hpc | hasRoom hpc | refuses hpc | skips hpc | finds hpc | findsNone hpc | setsFd hpc | callsRecv hpc
    | receives hpc | activates hpc | initsMutex hpc | increments hpc | creates hpc | unlocks hpc =>
      rw [hpc] at hout
      exact absurd trivial hout
  · exact absurd rfl ha
  · refine ⟨checks_of_worker hth hw, ?_⟩
    have hactive := flags_of_worker hguards hchecker (by simp) hth hw
    obtain ⟨code, clients, num, mutex, fds, peers, rfl, -⟩ := hw
    exact State.due_congr hactive rfl rfl
  · exact ⟨rfl, rfl⟩

/-! ### The loop -/

lemma State.active_drop {i : ℕ} (hi : i < MAX_CLIENTS) : s.active ((List.finRange MAX_CLIENTS).drop i) =
    if (s.clients ⟨i, hi⟩).active then
      (⟨i, hi⟩, (s.occupant ⟨i, hi⟩).getD 0) :: s.active ((List.finRange MAX_CLIENTS).drop (i + 1))
    else s.active ((List.finRange MAX_CLIENTS).drop (i + 1)) := by
  rw [drop_finRange hi]
  unfold State.active
  by_cases hactive : (s.clients ⟨i, hi⟩).active = true
  · simp [hactive]
  · simp [hactive]

lemma checker_starts (hin : s.checker.Inside) (hin' : t.checker.Inside) (hs : alive_checker s = some t) :
    ∃ new, t.threads.map Thread.check = s.threads.map Thread.check ++ new.map some ∧ s.due = new ++ t.due := by
  cases hpc : s.checker with
  | sleep | lock =>
    rw [hpc] at hin
    exact hin.elim
  | loop i =>
    simp only [alive_checker, hpc] at hs
    have hdue : s.due = s.active ((List.finRange MAX_CLIENTS).drop i) := by rw [State.due, hpc]
    refine ⟨[], ?_, ?_⟩
    · split at hs
      · split at hs <;> cases hs <;> simp
      · cases hs
        simp
    · rw [hdue, List.nil_append]
      split at hs
      · next hi =>
        rw [State.active_drop hi]
        split at hs
        · next hactive =>
          cases hs
          rw [if_pos hactive]
          rfl
        · next hactive =>
          cases hs
          rw [if_neg hactive]
          rfl
      · next hi =>
        cases hs
        rw [List.drop_eq_nil_of_le (by simpa using hi)]
        rfl
  | create slot =>
    simp only [alive_checker, hpc, Option.some.injEq] at hs
    subst hs
    refine ⟨[(slot, (s.occupant slot).getD 0)], ?_, ?_⟩
    · rw [List.map_append]
      rfl
    · rw [State.due, hpc]
      rfl
  | unlock =>
    simp only [alive_checker, hpc, Option.some.injEq] at hs
    subst hs
    exact hin'.elim

instance : DecidablePred CheckerPc.Inside
  | .loop _ | .create _ | .unlock => isTrue trivial
  | .sleep | .lock => isFalse not_false

/-- The steps of all threads while `alive_checker` has the mutex. -/
def round (window : ℕ) : Machine State Action :=
  (machine window).guard fun u _ => u.checker.Inside

lemma round_cons {a : Action} {as : List Action} (h : (round window).exec s (a :: as) = some t) :
    s.checker.Inside ∧ ∃ u, step window s a = some u ∧ (round window).exec u as = some t := by
  obtain ⟨u, hs, hu⟩ := Machine.exec_cons_eq_some.mp h
  obtain ⟨hin, hs⟩ := Machine.guard_next_eq_some.mp hs
  exact ⟨hin, u, hs, hu⟩

lemma inside_of_round {as : List Action} (h : (round window).exec s as = some t) (hin : t.checker.Inside) :
    s.checker.Inside := by
  cases as with
  | nil =>
    obtain rfl : s = t := by simpa using h
    exact hin
  | cons a as => exact (round_cons h).1

/-- The checks that were due at the beginning of a part of the round are those that it has started
and those that are due behind it. -/
lemma round_runs {as : List Action} (hguards : Guards s.clients_mutex s.Inside)
    (hrun : (round window).exec s as = some t) (hin : t.checker.Inside) :
    ∃ new, t.threads.map Thread.check = s.threads.map Thread.check ++ new.map some ∧ s.due = new ++ t.due := by
  induction as generalizing s with
  | nil =>
    obtain rfl : s = t := by simpa using hrun
    exact ⟨[], by simp, rfl⟩
  | cons a as ih =>
    obtain ⟨hfirst, u, hs, hu⟩ := round_cons hrun
    obtain ⟨new, hnew, hdue⟩ := ih (guards_step hguards hs) hu
    by_cases ha : a = .checker
    · subst ha
      obtain ⟨started, hstarted, hstep⟩ := checker_starts hfirst (inside_of_round hu hin) hs
      refine ⟨started ++ new, ?_, ?_⟩
      · rw [hnew, hstarted, List.map_append, List.append_assoc]
      · rw [hstep, hdue, List.append_assoc]
    · obtain ⟨hsame, hstays⟩ := others_wait hguards hfirst ha hs
      exact ⟨new, hsame ▸ hnew, hstays ▸ hdue⟩

lemma stored_of_reachable (h : (machine window).Reachable s) : Stored s :=
  Machine.Reachable.invariant (I := Stored) (fun _ (hs : Started _) => hs.stored) (fun _ _ _ hs hn => hs.step hn) h

/-- Whatever the other threads do during a round of `alive_checker`, the threads that are new behind it
are one check for each slot that was active when the mutex was taken, in the order of the slots, for
the connection that had been put into the slot. -/
theorem round_checks (hreach : (machine window).Reachable s) {as : List Action} (hstart : s.checker = .loop 0)
    (hround : (round window).exec s as = some t) (hend : t.checker = .unlock) :
    (t.threads.drop s.threads.length).map (fun th => th.check.map fun c => (c.1, some c.2)) =
      ((List.finRange MAX_CLIENTS).filter fun i => (s.clients i).active).map fun i => some (i, s.occupant i) := by
  have hin : t.checker.Inside := by
    rw [hend]
    trivial
  obtain ⟨new, hnew, hdue⟩ := round_runs (guards_of_reachable hreach) hround hin
  have hall : new = s.active (List.finRange MAX_CLIENTS) := by
    rw [State.due, State.due, hstart, hend, List.append_nil] at hdue
    exact hdue.symm
  have hdrop : (t.threads.drop s.threads.length).map Thread.check = new.map some := by
    have hlength : (s.threads.map Thread.check).length = s.threads.length := List.length_map _
    rw [List.map_drop, hnew, ← hlength, List.drop_left]
  calc (t.threads.drop s.threads.length).map (fun th => th.check.map fun c => (c.1, some c.2))
      = ((t.threads.drop s.threads.length).map Thread.check).map (Option.map fun c => (c.1, some c.2)) := by
        rw [List.map_map]
        rfl
    _ = (s.active (List.finRange MAX_CLIENTS)).map fun c => some (c.1, some c.2) := by
        rw [hdrop, hall, List.map_map]
        rfl
    _ = _ := by
        unfold State.active
        rw [List.map_map]
        apply List.map_congr_left
        intro i hi
        obtain ⟨conn, hconn⟩ := Option.ne_none_iff_exists'.mp
          ((stored_of_reachable hreach).occupied.active i (List.mem_filter.mp hi).2)
        simp [hconn]

/-- A client has registered, and `alive_checker` has just taken the mutex. -/
def beforeRound : List Action :=
  registration 0 "ala" ++ [.checker, .checker]

/-- The handler starts, another client connects and the check goes on, while `alive_checker` goes through
the slots. -/
def busyRound : List Action :=
  .checker :: .worker 0 (receiving 0) :: .checker :: .main { receiving 0 with fd := 6 } :: .worker 1 (receiving 0) ::
    List.replicate 10 .checker

theorem round_checks_one : ∃ s t : State, (round 1).exec s busyRound = some t ∧
    (t.threads.drop s.threads.length).map (fun th => th.check.map fun c => (c.1, some c.2)) = [some (0, some 0)] := by
  have hbefore : ((machine 1).exec start beforeRound).map (fun s =>
      (((List.finRange MAX_CLIENTS).filter fun i => (s.clients i).active).map (fun i => some (i, s.occupant i)),
        decide (((round 1).exec s busyRound).map State.checker = some .unlock), s.checker)) =
      some ([some (0, some 0)], true, .loop 0) := by
    decide +kernel
  obtain ⟨s, hs, he⟩ := Option.map_eq_some_iff.mp hbefore
  obtain ⟨hactive, hround, hstart⟩ := by simpa only [Prod.mk.injEq] using he
  obtain ⟨t, ht, hend⟩ := Option.map_eq_some_iff.mp (of_decide_eq_true hround)
  have hreach : (machine 1).Reachable s := Machine.Reachable.exec (.start start_started) hs
  exact ⟨s, t, ht, (round_checks hreach hstart ht hend).trans hactive⟩

end SystemyOperacyjne.ChatServer
