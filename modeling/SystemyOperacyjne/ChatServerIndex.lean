import SystemyOperacyjne.ChatServerSlots

/-!
# The index that a handler gets

`main` passes the address of its loop variable to a new handler. The handler has the slot that
was filled for it if it reads the variable before `main` moves it to another one.
-/

namespace SystemyOperacyjne.ChatServer
open Concurrency CString

variable {window : ℕ} {s t : State}

/-- The value that the next step of `main` gives to its loop variable. -/
def State.nextIndex (s : State) : Option ℕ :=
  match s.main with
  | .testCapacity _ => if s.num_clients < MAX_CLIENTS then some 0 else none
  | .search _ =>
    if hi : s.i < MAX_CLIENTS then if (s.clients ⟨s.i, hi⟩).active then some (s.i + 1) else none else none
  | _ => none

/-- `main` moves its loop variable only to the slot of the handlers that have not read it. -/
def ReadFirst (s : State) : Action → Prop
  | .main _ => ∀ i ∈ s.nextIndex, ∀ th ∈ s.threads, th.code.Starts → th.slot.val = i
  | _ => True

/-- The handler runs with the index of the slot that `main` had filled when it created it. -/
def Thread.RightIndex (th : Thread) : Prop :=
  ∀ g : Handler, th.code = .handler g → g.pc ≠ .start → g.client_index = th.slot

/-- A handler for the connection in the slot `i`, which runs with the index `i`. -/
structure Thread.Serves (s : State) (th : Thread) (i : Slot) : Prop where
  handler : th.code.IsHandler
  slot : th.slot = i
  conn : s.occupant i = some th.conn
  index : th.RightIndex

/-- Each handler has the right index, and each active slot one handler as soon as `main` has
registered its connection. -/
structure RightSlots (s : State) : Prop where
  index : ∀ th ∈ s.threads, th.RightIndex
  one : ∀ i, (s.clients i).active = true → ¬s.main.Registering i →
    ∃ (k : ℕ) (th : Thread), s.threads[k]? = some th ∧ th.Serves s i ∧
      ∀ (j : ℕ) (u : Thread), s.threads[j]? = some u → u.code.IsHandler → s.occupant i = some u.conn → j = k

/-! ### What a worker does with its index -/

lemma hands_handler {k : ℕ} {th : Thread} {h : Handler} {x : Input} (hm : HandlerMove s k th h x t) :
    ∃ g : Handler, t.threads = s.threads.set k { th with code := .handler g } ∧ g.pc ≠ .start ∧
      (g.client_index = h.client_index ∨ h.pc = .start ∧ g.client_index.val = s.i) := by
  cases hm with
  | starts hpc hi => exact ⟨_, rfl, by simp, .inr ⟨hpc, rfl⟩⟩
  | receives hpc hr =>
    obtain ⟨peers, hpeers⟩ := recv_eq hr
    rw [hpeers]
    exact ⟨_, rfl, by simp, .inl rfl⟩
  | goes hgo =>
    refine ⟨_, rfl, ?_, .inl rfl⟩
    generalize h.pc = from_ at hgo
    cases hgo <;> simp
  | locks hlocks =>
    refine ⟨_, rfl, ?_, .inl rfl⟩
    generalize h.pc = from_ at hlocks
    cases hlocks <;> simp
  | unlocks hunlocks =>
    refine ⟨_, rfl, ?_, .inl rfl⟩
    generalize h.pc = from_ at hunlocks
    cases hunlocks <;> simp
  | dispatches hpc =>
    refine ⟨_, rfl, ?_, .inl rfl⟩
    generalize parse h.buffer x.garbage = command
    cases command <;> simp [dispatchPc]
  | _ => exact ⟨_, rfl, by simp, .inl rfl⟩

lemma hands_check {k : ℕ} {th : Thread} {c : CheckAlive} {x : Input} (hm : CheckMove s k th c x t) :
    ∃ c' : CheckAlive, t.threads = s.threads.set k { th with code := .check c' } := by
  cases hm with
  | reads hpc hr =>
    obtain ⟨peers, hpeers⟩ := recv_eq hr
    rw [hpeers]
    exact ⟨_, rfl⟩
  | _ => exact ⟨_, rfl⟩

lemma hands_of_worker {k : ℕ} {x : Input} {th : Thread} (hth : s.threads[k]? = some th)
    (hs : workerStep window s k x = some t) :
    ∃ code, t.threads = s.threads.set k { th with code := code } ∧ ¬code.Starts ∧ (code.IsHandler ↔ th.code.IsHandler) ∧
      (code.IsHandler → code.index = th.code.index ∨ th.code.Starts ∧ code.index.val = s.i) := by
  cases hcode : th.code with
  | handler h =>
    simp only [workerStep, hth, hcode] at hs
    obtain ⟨g, hthreads, hstart, hindex⟩ := hands_handler (handler_cases hs)
    exact ⟨_, hthreads, hstart, Iff.rfl, fun _ => hindex⟩
  | check c =>
    simp only [workerStep, hth, hcode] at hs
    obtain ⟨c', hthreads⟩ := hands_check (check_cases hs)
    exact ⟨_, hthreads, id, Iff.rfl, fun hf => hf.elim⟩

/-! ### The invariant -/

/-- Between the search and the start of the handler. -/
def MainPc.Places (pc : MainPc) (i : Slot) : Prop :=
  pc.Filling i ∨ pc.Registering i

structure Handed (s : State) : Prop where
  waiting : ∀ th ∈ s.threads, th.code.Starts → th.slot.val = s.i
  index : ∀ th ∈ s.threads, th.code.IsHandler → th.code.index = th.slot
  placed : ∀ i, s.main.Places i → i.val = s.i
  served : ∀ i, (s.clients i).active = true → ¬s.main.Registering i →
    ∃ th ∈ s.threads, th.code.IsHandler ∧ th.slot = i ∧ s.occupant i = some th.conn

lemma Handed.keep (h : Handed s) (hthreads : t.threads = s.threads) (hi : t.i = s.i)
    (hplaces : ∀ i, t.main.Places i → s.main.Places i)
    (hserved : ∀ i, (t.clients i).active = true → ¬t.main.Registering i →
      (s.clients i).active = true ∧ ¬s.main.Registering i ∧ t.occupant i = s.occupant i) : Handed t where
  waiting th hth hstarts := by
    rw [hthreads] at hth
    rw [hi]
    exact h.waiting th hth hstarts
  index := by
    rw [hthreads]
    exact h.index
  placed i hp := by
    rw [hi]
    exact h.placed i (hplaces i hp)
  served i ha hnot := by
    obtain ⟨hactive, hreg, hocc⟩ := hserved i ha hnot
    rw [hthreads, hocc]
    exact h.served i hactive hreg

lemma handed_main {x : Input} (h : Handed s) (hreg : Registered s) (hfills : FillsFree s)
    (hfirst : ReadFirst s (.main x)) (hs : MainMove s x t) : Handed t := by
  have hmoves : ∀ u : State, u.threads = s.threads → u.clients = s.clients → u.occupant = s.occupant →
      (∀ th ∈ s.threads, th.code.Starts → th.slot.val = u.i) → (∀ i, ¬u.main.Places i) →
      (∀ i, ¬s.main.Registering i) → Handed u := by
    intro u hthreads hclients hocc hwaiting hplaces hnot
    refine ⟨by rwa [hthreads], by rw [hthreads]; exact h.index, fun i hp => absurd hp (hplaces i), fun i ha _ => ?_⟩
    rw [hclients] at ha
    rw [hthreads, hocc]
    exact h.served i ha (hnot i)
  cases hs with
  | accepts hpc | locks hpc | full hpc | refuses hpc | closes hpc | findsNone hpc | unlocks hpc =>
    refine h.keep rfl rfl (fun i hp => (or_self_iff.mp hp).elim) fun i ha _ => ⟨ha, ?_, rfl⟩
    rw [hpc]
    exact id
  | @hasRoom fd hpc hnum =>
    have hnext : s.nextIndex = some 0 := by
      rw [State.nextIndex, hpc]
      exact if_pos hnum
    exact hmoves { s with main := .search fd, i := 0 } rfl rfl rfl (fun th hth => hfirst 0 hnext th hth)
      (fun i hp => (or_self_iff.mp hp).elim) fun i => by rw [hpc]; exact id
  | skips hpc hi hactive =>
    have hnext : s.nextIndex = some (s.i + 1) := by simp [State.nextIndex, hpc, hi, hactive]
    refine hmoves { s with i := s.i + 1 } rfl rfl rfl (fun th hth => hfirst _ hnext th hth) (fun i hp => ?_) fun i => ?_
    · rw [MainPc.Places, hpc] at hp
      exact (or_self_iff.mp hp).elim
    · rw [hpc]
      exact id
  | finds hpc hi hactive =>
    refine ⟨h.waiting, h.index, fun i hp => ?_, fun i ha _ => h.served i ha ?_⟩
    · obtain rfl : i = _ := hp.resolve_right id
      rfl
    · rw [hpc]
      exact id
  | @setsFd fd slot hpc =>
    have hfree := hfills slot (by rw [hpc]; rfl)
    refine h.keep rfl rfl (fun i hp => ?_) fun i ha _ => ?_
    · rw [hpc]
      exact .inl ((or_self_iff.mp hp))
    · rw [active_update (by rfl)] at ha
      have hne : i ≠ slot := by
        rintro rfl
        rw [hfree] at ha
        cases ha
      refine ⟨ha, ?_, Function.update_of_ne hne _ _⟩
      rw [hpc]
      exact id
  | callsRecv hpc =>
    refine h.keep rfl rfl (fun i hp => ?_) fun i ha hnot => ⟨ha, ?_, rfl⟩
    · rw [hpc]
      exact hp
    · rw [hpc]
      exact hnot
  | receives hpc =>
    refine h.keep rfl rfl (fun i hp => ?_) fun i ha hnot => ⟨?_, ?_, rfl⟩
    · rw [hpc]
      exact hp
    · rwa [active_update (by rfl)] at ha
    · rw [hpc]
      exact hnot
  | @activates slot hpc =>
    refine h.keep rfl rfl (fun i hp => ?_) fun i ha hnot => ?_
    · rw [hpc]
      exact .inr (hp.resolve_left id)
    · have hne : i ≠ slot := hnot
      simp only [Function.update_of_ne hne] at ha
      rw [hpc]
      exact ⟨ha, hnot, rfl⟩
  | initsMutex hpc =>
    refine h.keep rfl rfl (fun i hp => ?_) fun i ha hnot => ⟨?_, ?_, rfl⟩
    · rw [hpc]
      exact hp
    · rwa [active_update (by rfl)] at ha
    · rw [hpc]
      exact hnot
  | increments hpc =>
    refine h.keep rfl rfl (fun i hp => ?_) fun i ha hnot => ⟨ha, ?_, rfl⟩
    · rw [hpc]
      exact hp
    · rw [hpc]
      exact hnot
  | @creates slot hpc =>
    have hocc := hreg.registering slot (by rw [hpc]; rfl)
    refine ⟨fun th hth hstarts => ?_, fun th hth hh => ?_, fun i hp => (or_self_iff.mp hp).elim, fun i ha _ => ?_⟩
    · rcases List.mem_append.mp hth with hold | hnew
      · exact h.waiting th hold hstarts
      · obtain rfl := List.mem_singleton.mp hnew
        exact h.placed slot (by rw [hpc]; exact .inr rfl)
    · rcases List.mem_append.mp hth with hold | hnew
      · exact h.index th hold hh
      · obtain rfl := List.mem_singleton.mp hnew
        rfl
    · by_cases hi : i = slot
      · subst hi
        refine ⟨_, List.mem_append_right _ (List.mem_singleton_self _), trivial, rfl, ?_⟩
        show s.occupant i = some ((s.occupant i).getD 0)
        rw [hocc]
        rfl
      · obtain ⟨th, hth, hserves⟩ := h.served i ha (by rw [hpc]; exact hi)
        exact ⟨th, List.mem_append_left _ hth, hserves⟩

lemma handed_step {a : Action} (h : Handed s) (hreg : Registered s) (hfills : FillsFree s) (hfirst : ReadFirst s a)
    (hs : step window s a = some t) : Handed t := by
  obtain ⟨x, rfl, hm⟩ | ⟨-, hc⟩ | ⟨k, x, th, rfl, hth, hw⟩ | ⟨peers, rfl⟩ := step_cases hs
  · exact handed_main h hreg hfills hfirst hm
  · cases hc with
    | @creates slot hpc =>
      refine ⟨fun th hth hstarts => ?_, fun th hth hh => ?_, h.placed, fun i ha hnot => ?_⟩
      · rcases List.mem_append.mp hth with hold | hnew
        · exact h.waiting th hold hstarts
        · obtain rfl := List.mem_singleton.mp hnew
          exact hstarts.elim
      · rcases List.mem_append.mp hth with hold | hnew
        · exact h.index th hold hh
        · obtain rfl := List.mem_singleton.mp hnew
          exact hh.elim
      · obtain ⟨th, hth, hserves⟩ := h.served i ha hnot
        exact ⟨th, List.mem_append_left _ hth, hserves⟩
    | wakes | locks | finds | skips | ends | unlocks => exact ⟨h.waiting, h.index, h.placed, h.served⟩
  · obtain ⟨code, hthreads, hstart, hkind, hindex⟩ := hands_of_worker hth hs
    have hmem := List.mem_of_getElem? hth
    have hactive := fun i => active_of_worker (i := i) hw
    obtain ⟨hmain, hi⟩ := main_of_worker hw
    have hocc : t.occupant = s.occupant := by
      obtain ⟨_, _, _, _, _, _, rfl, -⟩ := hw
      rfl
    refine ⟨fun u hu hstarts => ?_, fun u hu hh => ?_, fun i hp => ?_, fun i ha hnot => ?_⟩
    · rw [hi]
      rw [hthreads] at hu
      rcases List.mem_or_eq_of_mem_set hu with hold | rfl
      · exact h.waiting u hold hstarts
      · exact absurd hstarts hstart
    · rw [hthreads] at hu
      rcases List.mem_or_eq_of_mem_set hu with hold | rfl
      · exact h.index u hold hh
      · rcases hindex hh with hsame | ⟨hstarts, hval⟩
        · exact hsame.trans (h.index th hmem (hkind.mp hh))
        · exact Fin.ext (hval.trans (h.waiting th hmem hstarts).symm)
    · rw [hmain] at hp
      rw [hi]
      exact h.placed i hp
    · rw [hmain] at hnot
      obtain ⟨u, hu, huh, hslot, hconn⟩ := h.served i (hactive i ha) hnot
      rw [hocc, hthreads]
      obtain ⟨j, hj⟩ := List.mem_iff_getElem?.mp hu
      by_cases hjk : j = k
      · subst hjk
        obtain rfl := Option.some.inj (hth.symm.trans hj)
        exact ⟨_, List.mem_set (List.getElem?_eq_some_iff.mp hth).1 _, hkind.mpr huh, hslot, hconn⟩
      · refine ⟨u, List.mem_iff_getElem?.mpr ⟨j, ?_⟩, huh, hslot, hconn⟩
        rw [List.getElem?_set_ne (Ne.symm hjk)]
        exact hj
  · exact ⟨h.waiting, h.index, h.placed, h.served⟩

lemma Started.handed (h : Started s) : Handed s where
  waiting th hth := by
    rw [h.threads] at hth
    cases hth
  index th hth := by
    rw [h.threads] at hth
    cases hth
  placed i hp := by
    rw [h.main] at hp
    exact (or_self_iff.mp hp).elim
  served i ha := by
    rw [h.clients] at ha
    cases ha

lemma Handed.rightIndex (h : Handed s) {th : Thread} (hth : th ∈ s.threads) : th.RightIndex := by
  intro g hcode _
  have hindex := h.index th hth (by simp [hcode])
  rwa [hcode] at hindex

lemma Handed.rightSlots (h : Handed s) (hreg : Registered s) : RightSlots s where
  index th hth := h.rightIndex hth
  one i ha hnot := by
    obtain ⟨th, hth, hh, hslot, hconn⟩ := h.served i ha hnot
    obtain ⟨k, hk⟩ := List.mem_iff_getElem?.mp hth
    refine ⟨k, th, hk, ⟨hh, hslot, hconn, h.rightIndex hth⟩, fun j u hj huh huc => ?_⟩
    rw [hconn] at huc
    exact hreg.distinct j k u th hj hk huh hh (Option.some.inj huc).symm

/-- In a run in which each handler reads its index before `main` moves on, the handlers have the
right slots. -/
theorem right_slots (h : (machine window).ReachableBy ReadFirst s) : RightSlots s := by
  have hinv : (Registered s ∧ FillsFree s) ∧ Handed s := by
    refine h.invariant (I := fun s => (Registered s ∧ FillsFree s) ∧ Handed s)
      (fun s (hs : Started s) => ⟨⟨hs.registered, hs.fillsFree⟩, hs.handed⟩) ?_
    intro s a t hs hfirst hn
    exact ⟨⟨registered_step hs.1.1 hn, fillsFree_step hs.1.2 hn⟩, handed_step hs.2 hs.1.1 hs.1.2 hfirst hn⟩
  exact hinv.2.rightSlots hinv.1.1

lemma moves_of_nextIndex {x : Input} {i : ℕ} (hi : s.nextIndex = some i) (hs : MainMove s x t) :
    t.i = i ∧ t.threads = s.threads := by
  cases hs with
  | hasRoom hpc hnum =>
    rw [State.nextIndex, hpc] at hi
    simp only [if_pos hnum, Option.some.injEq] at hi
    exact ⟨hi, rfl⟩
  | skips hpc hlt hactive =>
    rw [State.nextIndex, hpc] at hi
    simp only [dif_pos hlt, if_pos hactive, Option.some.injEq] at hi
    exact ⟨hi, rfl⟩
  | full hpc hnum =>
    rw [State.nextIndex, hpc] at hi
    simp only [if_neg (not_lt.mpr hnum), reduceCtorEq] at hi
  | finds hpc hlt hactive =>
    rw [State.nextIndex, hpc] at hi
    simp only [dif_pos hlt, hactive, Bool.false_eq_true, if_false, reduceCtorEq] at hi
  | findsNone hpc hlt =>
    rw [State.nextIndex, hpc] at hi
    simp only [dif_neg hlt, reduceCtorEq] at hi
  | _ => simp_all [State.nextIndex]

/-- When `main` moves its loop variable first, a handler can get another index, or one behind the
last slot. -/
theorem wrong_slot {x : Input} (hmoves : ¬ReadFirst s (.main x)) (hs : step window s (.main x) = some t) :
    ∃ k u th g, (machine window).exec t [.worker k x] = some u ∧ u.threads[k]? = some th ∧ th.code = .handler g ∧
      (g.pc = .fault ∨ ¬th.RightIndex) := by
  simp only [ReadFirst, not_forall] at hmoves
  obtain ⟨i, hi, th, hth, hstarts, hne⟩ := hmoves
  obtain ⟨hti, hthreads⟩ := moves_of_nextIndex hi (main_cases hs)
  obtain ⟨k, hk⟩ := List.mem_iff_getElem?.mp hth
  have hlt := (List.getElem?_eq_some_iff.mp hk).1
  rw [← hthreads] at hk hlt
  cases hcode : th.code with
  | handler g =>
    rw [hcode] at hstarts
    have hpc : g.pc = .start := hstarts
    have hbecomes : ∀ g' : Handler, workerStep window t k x = some (t.setThread k { th with code := .handler g' }) →
        (g'.pc = .fault ∨ ¬Thread.RightIndex { th with code := .handler g' }) →
        ∃ k u th g, (machine window).exec t [.worker k x] = some u ∧ u.threads[k]? = some th ∧ th.code = .handler g ∧
          (g.pc = .fault ∨ ¬th.RightIndex) := by
      intro g' hstep hwrong
      exact ⟨k, _, _, g', (Machine.exec_singleton _ _ _).trans hstep, List.getElem?_set_self hlt, rfl, hwrong⟩
    by_cases hmax : t.i < MAX_CLIENTS
    · refine hbecomes { g with pc := .copyName, client_index := ⟨t.i, hmax⟩ } ?_ (.inr fun hright => ?_)
      · simp only [workerStep, hk, hcode, client_handler, hpc, dif_pos hmax]
      · have hindex := congrArg Fin.val (hright _ rfl (by simp))
        exact hne (hindex.symm.trans hti)
    · refine hbecomes { g with pc := .fault } ?_ (.inl rfl)
      simp only [workerStep, hk, hcode, client_handler, hpc, dif_neg hmax]
  | check c =>
    rw [hcode] at hstarts
    exact hstarts.elim

/-! ### Two connections at once -/

/-- `main` goes on with the second connection before the first handler has read its index. -/
theorem not_right_slots : ¬∀ (window : ℕ) (s : State), (machine window).Reachable s → RightSlots s := by
  intro h
  have hrun : ((machine 1).exec start (registration 0 "ala" ++ second 6 "ola" ++ goOn 0 1)).map (fun s =>
      s.threads.head?.map fun th => (th.slot, th.code.index, decide th.code.Starts, decide th.code.InLoop)) =
      some (some (0, 1, false, true)) := by
    decide +kernel
  obtain ⟨s, hs, he⟩ := Option.map_eq_some_iff.mp hrun
  obtain ⟨th, hth, he⟩ := Option.map_eq_some_iff.mp he
  obtain ⟨hslot, hindex, hstarts, hloop⟩ := by simpa only [Prod.mk.injEq] using he
  have hright := (h 1 s (Machine.Reachable.exec (.start start_started) hs)).index th (List.mem_of_mem_head? hth)
  have hsame : th.code.index = th.slot := by
    cases hcode : th.code with
    | handler g =>
      rw [hcode] at hstarts
      exact hright g hcode (of_decide_eq_false hstarts)
    | check c =>
      rw [hcode] at hloop
      exact (of_decide_eq_true hloop).elim
  rw [hindex, hslot] at hsame
  exact absurd hsame (by decide)

instance (s : State) : DecidablePred (ReadFirst s)
  | .main _ => inferInstanceAs (Decidable (∀ i ∈ s.nextIndex, ∀ th ∈ s.threads, th.code.Starts → th.slot.val = i))
  | .worker _ _ | .checker | .peerSend _ _ | .peerRead _ | .peerClose _ => isTrue trivial

/-- The first handler starts, and then `main` accepts the second client. -/
theorem right_slots_two : ∃ s, (machine 1).ReachableBy ReadFirst s ∧ (s.clients 0).active = true ∧
    (s.clients 1).active = true ∧ RightSlots s := by
  have hrun : (((machine 1).guard ReadFirst).exec start (registration 0 "ala" ++ goOn 0 1 ++ second 6 "ola")).map
      (fun s => ((s.clients 0).active, (s.clients 1).active)) = some (true, true) := by
    decide +kernel
  obtain ⟨s, hs, he⟩ := Option.map_eq_some_iff.mp hrun
  obtain ⟨hfirst, hsecond⟩ := Prod.mk.inj he
  have hstart : ((machine 1).guard ReadFirst).Reachable start := .start start_started
  have hreach := Machine.reachableBy_of_guard (hstart.exec hs)
  exact ⟨s, hreach, hfirst, hsecond, right_slots hreach⟩

end SystemyOperacyjne.ChatServer
