import SystemyOperacyjne.ChatServerSlots

/-!
# The descriptors of the chat server's clients

A slot keeps the number of a descriptor. While no client is retired the number stands for the
connection that was put into the slot; a thread that retires a client closes the descriptor
before it locks `clients_mutex`, and `accept` may hand the number out again.
-/

namespace SystemyOperacyjne.ChatServer
open Concurrency CString

variable {window : ℕ} {s t : State}

/-- At `close` of the slot's descriptor. -/
def Code.Closes : Code → Prop
  | .handler h => h.pc = .stopClose
  | .check c => c.pc = .close

/-- No thread closes the descriptor of a client. -/
def KeepsOpen (s : State) : Action → Prop
  | .worker k _ => ∀ th ∈ s.threads[k]?, ¬th.code.Closes
  | _ => True

/-- Each active slot has an open descriptor, that of the connection which was put into it, and
no two have the same. -/
structure OwnDescriptors (s : State) : Prop where
  opened : ∀ i, (s.clients i).active = true → ∃ c, s.occupant i = some c ∧ s.fds (s.clients i).socket_fd = some c
  apart : ∀ i j, (s.clients i).active = true → (s.clients j).active = true →
    (s.clients i).socket_fd = (s.clients j).socket_fd → i = j

/-! ### What a worker does to the descriptors -/

/-- A worker never changes the number in a slot, and closes only its own. -/
structure Spares (s : State) (c : Code) (t : State) : Prop where
  socket_fd : ∀ i, (t.clients i).socket_fd = (s.clients i).socket_fd
  fds : t.fds = s.fds ∨ c.Closes ∧ t.fds = Function.update s.fds (s.clients c.index).socket_fd none

lemma spares_handler {k : ℕ} {th : Thread} {h : Handler} {x : Input} (hcode : th.code = .handler h)
    (hm : HandlerMove s k th h x t) : Spares s th.code t := by
  rw [hcode]
  cases hm with
  | receives hpc hr =>
    obtain ⟨peers, hpeers⟩ := recv_eq hr
    rw [hpeers]
    exact ⟨fun _ => rfl, .inl rfl⟩
  | locksRecv | unlocksRecv | deactivates => exact ⟨socket_fd_update (by rfl), .inl rfl⟩
  | closes hpc => exact ⟨fun _ => rfl, .inr ⟨hpc, rfl⟩⟩
  | _ => exact ⟨fun _ => rfl, .inl rfl⟩

lemma spares_check {k : ℕ} {th : Thread} {c : CheckAlive} {x : Input} (hcode : th.code = .check c)
    (hm : CheckMove s k th c x t) : Spares s th.code t := by
  rw [hcode]
  cases hm with
  | reads hpc hr =>
    obtain ⟨peers, hpeers⟩ := recv_eq hr
    rw [hpeers]
    exact ⟨fun _ => rfl, .inl rfl⟩
  | locksRecv | unlocksRecv | deactivates => exact ⟨socket_fd_update (by rfl), .inl rfl⟩
  | closes hpc => exact ⟨fun _ => rfl, .inr ⟨hpc, rfl⟩⟩
  | _ => exact ⟨fun _ => rfl, .inl rfl⟩

lemma spares_of_worker {k : ℕ} {x : Input} {th : Thread} (hth : s.threads[k]? = some th)
    (hs : workerStep window s k x = some t) : Spares s th.code t := by
  cases hcode : th.code with
  | handler h =>
    simp only [workerStep, hth, hcode] at hs
    rw [← hcode]
    exact spares_handler hcode (handler_cases hs)
  | check c =>
    simp only [workerStep, hth, hcode] at hs
    rw [← hcode]
    exact spares_check hcode (check_cases hs)

/-! ### The slots while nobody is retired -/

/-- The descriptor of the connection that `main` has accepted and not made active. -/
def State.Claims (s : State) : ℕ → Prop :=
  match s.main with
  | .lock fd | .testCapacity fd | .refuse fd | .refuseClose fd | .search fd | .setFd fd _ => fun f => f = fd
  | .recvName _ j | .receivingName _ _ j | .setActive j => fun f => f = (s.clients j).socket_fd
  | _ => fun _ => False

lemma claims_congr (hmain : t.main = s.main) (hfd : ∀ i, (t.clients i).socket_fd = (s.clients i).socket_fd) (f : ℕ) :
    t.Claims f ↔ s.Claims f := by
  unfold State.Claims
  rw [hmain]
  cases s.main <;> simp only [hfd]

/-- What holds of the descriptors as long as no thread has closed one. -/
structure Held (s : State) : Prop where
  owned : ∀ i, (s.clients i).active = true → ∃ c, s.occupant i = some c ∧ s.fds (s.clients i).socket_fd = some c
  distinct : ∀ i j c, s.occupant i = some c → s.occupant j = some c → i = j
  claims : ∀ f, s.Claims f → s.fds f = some (s.accepted - 1)

lemma Held.ownDescriptors (h : Held s) : OwnDescriptors s where
  opened := h.owned
  apart i j hi hj hfd := by
    obtain ⟨c, hic, hc⟩ := h.owned i hi
    obtain ⟨d, hjd, hd⟩ := h.owned j hj
    rw [hfd, hd] at hc
    obtain rfl := Option.some.inj hc
    exact h.distinct i j d hic hjd

lemma Held.keep (h : Held s) (hactive : ∀ i, (t.clients i).active = true → (s.clients i).active = true)
    (hsocket_fd : ∀ i, (t.clients i).active = true → (t.clients i).socket_fd = (s.clients i).socket_fd)
    (hfds : t.fds = s.fds) (hocc : t.occupant = s.occupant) (haccepted : t.accepted = s.accepted)
    (hclaims : ∀ f, t.Claims f → s.Claims f) : Held t where
  owned i hi := by
    obtain ⟨c, hc, hopen⟩ := h.owned i (hactive i hi)
    rw [hocc, hfds, hsocket_fd i hi]
    exact ⟨c, hc, hopen⟩
  distinct := by
    rw [hocc]
    exact h.distinct
  claims f hf := by
    rw [hfds, haccepted]
    exact h.claims f (hclaims f hf)

lemma held_main {x : Input} (h : Held s) (hreg : Registered s) (hfills : FillsFree s) (hplaced : Placed s)
    (hs : MainMove s x t) : Held t := by
  have hgoes : ∀ u : State, u.clients = s.clients → u.fds = s.fds → u.occupant = s.occupant → u.accepted = s.accepted →
      (∀ f, u.Claims f → s.Claims f) → Held u := by
    intro u hclients hfds hocc haccepted hclaims
    exact h.keep (by rw [hclients]; exact fun _ hi => hi) (by rw [hclients]; exact fun _ _ => rfl) hfds hocc haccepted hclaims
  cases hs with
  | accepts hpc hfd =>
    refine ⟨fun i hi => ?_, h.distinct, fun f hf => ?_⟩
    · obtain ⟨c, hc, hopen⟩ := h.owned i hi
      refine ⟨c, hc, ?_⟩
      have hne : (s.clients i).socket_fd ≠ x.fd := by
        intro he
        rw [he, hfd] at hopen
        cases hopen
      exact (Function.update_of_ne hne _ _).trans hopen
    · obtain rfl : f = x.fd := hf
      exact Function.update_self _ _ _
  | locks hpc | full hpc | hasRoom hpc | refuses hpc | finds hpc | callsRecv hpc =>
    refine hgoes _ rfl rfl rfl rfl fun f hf => ?_
    rw [State.Claims, hpc]
    exact hf
  | skips hpc => exact hgoes _ rfl rfl rfl rfl fun f hf => hf
  | findsNone hpc | increments hpc | creates hpc | unlocks hpc => exact hgoes _ rfl rfl rfl rfl fun f hf => hf.elim
  | @closes fd hpc =>
    have hplace : s.placed = s.accepted - 1 := by rw [State.placed, hpc]
    refine ⟨fun i hi => ?_, h.distinct, fun f hf => hf.elim⟩
    obtain ⟨c, hc, hopen⟩ := h.owned i hi
    refine ⟨c, hc, ?_⟩
    have hne : (s.clients i).socket_fd ≠ fd := by
      intro he
      have hclaim := h.claims fd (by rw [State.Claims, hpc])
      rw [he, hclaim] at hopen
      have hlt := hplaced.occupants i c hc
      rw [hplace, Option.some.inj hopen] at hlt
      exact absurd hlt (lt_irrefl _)
    exact (Function.update_of_ne hne _ _).trans hopen
  | @setsFd fd slot hpc =>
    have hclaim := h.claims fd (by rw [State.Claims, hpc])
    have hplace : s.placed = s.accepted - 1 := by rw [State.placed, hpc]
    have hfresh : ∀ i, s.occupant i ≠ some (s.accepted - 1) := by
      intro i ho
      have hlt := hplaced.occupants i _ ho
      rw [hplace] at hlt
      exact absurd hlt (lt_irrefl _)
    have hfree := hfills slot (by rw [hpc]; rfl)
    refine ⟨fun i hi => ?_, fun i j c hi hj => ?_, fun f hf => ?_⟩
    · have hne : i ≠ slot := by
        rintro rfl
        rw [active_update (by rfl), hfree] at hi
        cases hi
      rw [active_update (by rfl)] at hi
      simp only [Function.update_of_ne hne]
      exact h.owned i hi
    · by_cases hi' : i = slot
      · by_cases hj' : j = slot
        · rw [hi', hj']
        · simp only [hi', Function.update_self] at hi
          simp only [Function.update_of_ne hj'] at hj
          rw [← hi] at hj
          exact absurd hj (hfresh j)
      · simp only [Function.update_of_ne hi'] at hi
        by_cases hj' : j = slot
        · simp only [hj', Function.update_self] at hj
          rw [← hj] at hi
          exact absurd hi (hfresh i)
        · simp only [Function.update_of_ne hj'] at hj
          exact h.distinct i j c hi hj
    · have hf' : f = fd := by simpa [State.Claims] using hf
      rw [hf']
      exact hclaim
  | @receives conn timeout slot hpc name peers =>
    refine h.keep (fun i hi => ?_) (fun i _ => socket_fd_update (by rfl) i) rfl rfl rfl fun f hf => ?_
    · rwa [active_update (by rfl)] at hi
    · rw [State.Claims, hpc]
      simpa [State.Claims] using hf
  | @activates slot hpc =>
    have hocc := hreg.registering slot (by rw [hpc]; rfl)
    have hclaim := h.claims (s.clients slot).socket_fd (by rw [State.Claims, hpc])
    refine ⟨fun i hi => ?_, h.distinct, fun f hf => hf.elim⟩
    by_cases hi' : i = slot
    · subst hi'
      exact ⟨s.accepted - 1, hocc, by simpa using hclaim⟩
    · simp only [Function.update_of_ne hi'] at hi ⊢
      exact h.owned i hi
  | @initsMutex slot hpc =>
    refine h.keep (fun i hi => ?_) (fun i _ => socket_fd_update (by rfl) i) rfl rfl rfl fun f hf => hf.elim
    rwa [active_update (by rfl)] at hi

/-- The invariants that every step keeps, whatever is closed. -/
structure Stored (s : State) : Prop where
  registered : Registered s
  fills : FillsFree s
  occupied : Occupied s
  placed : Placed s

lemma Stored.step {a : Action} (h : Stored s) (hs : step window s a = some t) : Stored t where
  registered := registered_step h.registered hs
  fills := fillsFree_step h.fills hs
  occupied := occupied_step h.occupied h.registered hs
  placed := placed_step h.placed h.registered h.occupied hs

lemma Started.stored (h : Started s) : Stored s where
  registered := h.registered
  fills := h.fillsFree
  occupied := h.apart.occupied
  placed := h.apart.placed

lemma held_step {a : Action} (h : Held s) (hstored : Stored s) (hkeeps : KeepsOpen s a) (hs : step window s a = some t) :
    Held t := by
  obtain ⟨x, -, hm⟩ | ⟨-, hc⟩ | ⟨k, x, th, rfl, hth, hw⟩ | ⟨peers, rfl⟩ := step_cases hs
  · exact held_main h hstored.registered hstored.fills hstored.placed hm
  · cases hc <;> exact h.keep (fun _ hi => hi) (fun _ _ => rfl) rfl rfl rfl fun _ hf => hf
  · have hspares := spares_of_worker hth hs
    have hfds : t.fds = s.fds := hspares.fds.resolve_right fun hc => hkeeps th hth hc.1
    have hclaims := claims_congr (main_of_worker hw).1 hspares.socket_fd
    have hactive := fun i => active_of_worker (i := i) hw
    obtain ⟨code, clients, num, mutex, fds, peers, rfl, -⟩ := hw
    exact h.keep hactive (fun i _ => hspares.socket_fd i) hfds rfl rfl fun f => (hclaims f).mp
  · exact h.keep (fun _ hi => hi) (fun _ _ => rfl) rfl rfl rfl fun _ hf => hf

lemma Started.held (h : Started s) : Held s where
  owned i hi := by
    rw [h.clients] at hi
    cases hi
  distinct i j c hi _ := by
    rw [h.occupant] at hi
    cases hi
  claims f hf := by
    rw [State.Claims, h.main] at hf
    exact hf.elim

/-- In a run in which no thread closes a client's descriptor, each active slot has the
descriptor of its connection, and has it alone. -/
theorem own_descriptors (h : (machine window).ReachableBy KeepsOpen s) : OwnDescriptors s := by
  have hheld : Stored s ∧ Held s := by
    refine h.invariant (I := fun s => Stored s ∧ Held s) (fun s (hs : Started s) => ⟨hs.stored, hs.held⟩) ?_
    exact fun s a t hs hkeeps hn => ⟨hs.1.step hn, held_step hs.2 hs.1 hkeeps hn⟩
  exact hheld.2.ownDescriptors

/-! ### The first descriptor that is closed -/

/-- Between `close` and the end. -/
@[simp] def Code.Leaving : Code → Prop
  | .handler h => h.pc = .stopLock ∨ h.pc = .stopDeactivate ∨ h.pc = .stopDecrement ∨ h.pc = .stopUnlock
  | .check c => c.pc = .lock ∨ c.pc = .deactivate ∨ c.pc = .decrement ∨ c.pc = .unlock

/-- A thread that has found its slot active. -/
@[simp] def Code.Sure : Code → Prop
  | .handler h => h.pc = .testReceived ∨ h.pc = .dispatch ∨ h.pc = .stopClose
  | .check _ => True

/-- How a worker comes to retire its slot. -/
structure Leads (s : State) (c c' : Code) : Prop where
  leaving : c'.Leaving → c.Leaving ∨ c.Closes
  retires : c'.Retires → s.clients_mutex = none
  sure : c'.Sure → c'.index = c.index ∧ c.Sure ∨ (s.clients c'.index).active = true

lemma leads_handler {k : ℕ} {th : Thread} {h : Handler} {x : Input} (hcode : th.code = .handler h)
    (hm : HandlerMove s k th h x t) :
    ∃ code, t.threads = s.threads.set k { th with code := code } ∧ Leads s th.code code := by
  rw [hcode]
  cases hm with
  | receives hpc hr =>
    obtain ⟨peers, hpeers⟩ := recv_eq hr
    rw [hpeers]
    exact ⟨_, rfl, by simp, by simp [Code.Retires], by simp⟩
  | @goes pc hgo peers hpeers =>
    refine ⟨_, rfl, ?_⟩
    generalize hpc : h.pc = from_ at hgo
    cases hgo <;> exact ⟨by simp, by simp [Code.Retires], by simp⟩
  | locks hlocks hfree =>
    refine ⟨_, rfl, ?_⟩
    generalize hpc : h.pc = from_ at hlocks
    cases hlocks <;> exact ⟨by simp [hpc], fun _ => hfree, by simp⟩
  | unlocks hunlocks =>
    refine ⟨_, rfl, ?_⟩
    generalize hpc : h.pc = from_ at hunlocks
    cases hunlocks <;> exact ⟨by simp, by simp [Code.Retires], by simp⟩
  | dispatches hpc =>
    refine ⟨_, rfl, ?_⟩
    generalize parse h.buffer x.garbage = command
    cases command <;> exact ⟨by simp [dispatchPc], by simp [Code.Retires, dispatchPc], by simp [dispatchPc, hpc]⟩
  | closes hpc | deactivates hpc | decrements hpc =>
    exact ⟨_, rfl, by simp [Code.Closes, hpc], by simp [Code.Retires], by simp⟩
  | staysActive hpc hactive => exact ⟨_, rfl, by simp, by simp [Code.Retires], fun _ => .inr hactive⟩
  | terminates hpc => exact ⟨_, rfl, by simp, by simp [Code.Retires], by simp [hpc]⟩
  | _ => exact ⟨_, rfl, by simp, by simp [Code.Retires], by simp⟩

lemma leads_check {k : ℕ} {th : Thread} {c : CheckAlive} {x : Input} (hcode : th.code = .check c)
    (hm : CheckMove s k th c x t) :
    ∃ code, t.threads = s.threads.set k { th with code := code } ∧ Leads s th.code code := by
  rw [hcode]
  cases hm with
  | reads hpc hr =>
    obtain ⟨peers, hpeers⟩ := recv_eq hr
    rw [hpeers]
    exact ⟨_, rfl, by simp, by simp [Code.Retires], by simp⟩
  | closes hpc | deactivates hpc | decrements hpc =>
    exact ⟨_, rfl, by simp [Code.Closes, hpc], by simp [Code.Retires], by simp⟩
  | locks hpc hfree => exact ⟨_, rfl, by simp [hpc], fun _ => hfree, by simp⟩
  | _ => exact ⟨_, rfl, by simp, by simp [Code.Retires], by simp⟩

lemma leads_of_worker {k : ℕ} {x : Input} {th : Thread} (hth : s.threads[k]? = some th)
    (hs : workerStep window s k x = some t) :
    ∃ code, t.threads = s.threads.set k { th with code := code } ∧ Leads s th.code code := by
  cases hcode : th.code with
  | handler h =>
    simp only [workerStep, hth, hcode] at hs
    rw [← hcode]
    exact leads_handler hcode (handler_cases hs)
  | check c =>
    simp only [workerStep, hth, hcode] at hs
    rw [← hcode]
    exact leads_check hcode (check_cases hs)

/-- Nobody has closed a descriptor, and who is going to has an active slot. -/
structure Serving (s : State) : Prop where
  sure : ∀ th ∈ s.threads, th.code.Sure → (s.clients th.code.index).active = true
  stays : ∀ th ∈ s.threads, ¬th.code.Leaving
  checker : ∀ slot, s.checker = .create slot → (s.clients slot).active = true

lemma mem_set {k : ℕ} {th u : Thread} {threads : List Thread} (h : u ∈ threads.set k th) : u = th ∨ u ∈ threads :=
  (List.mem_or_eq_of_mem_set h).symm

lemma active_of_worker_eq {k : ℕ} {th : Thread} {x : Input} {i : Slot} (hw : WorkerStep s k th x t)
    (hnot : th.code.Retires → th.code.index ≠ i) : (t.clients i).active = (s.clients i).active := by
  obtain ⟨code, clients, num, mutex, fds, peers, rfl, heffect, -⟩ := hw
  cases heffect with
  | keep hactive => exact hactive i
  | lock | unlock | decrement => rfl
  | deactivate hretires =>
    exact congrArg ClientInfo.active (Function.update_of_ne (Ne.symm (hnot hretires)) _ _)

lemma leaving_of_retires {c : Code} (h : c.Retires) : c.Leaving := by
  cases c with
  | handler g => exact .inr (.inl h)
  | check c => exact .inr (.inl h)

lemma threads_of_main {x : Input} (hs : MainMove s x t) : ∀ u ∈ t.threads, u ∈ s.threads ∨
    ∃ g : Handler, u.code = .handler g ∧ g.pc = .start := by
  intro u hu
  cases hs with
  | creates hpc =>
    rcases List.mem_append.mp hu with hold | hnew
    · exact .inl hold
    · obtain rfl := List.mem_singleton.mp hnew
      exact .inr ⟨_, rfl, rfl⟩
  | _ => exact .inl hu

lemma threads_of_checker (hs : CheckerMove s t) : ∀ u ∈ t.threads, u ∈ s.threads ∨
    ∃ c : CheckAlive, u.code = .check c ∧ c.pc = .setTimeout ∧ s.checker = .create c.client_index := by
  intro u hu
  cases hs with
  | creates hpc =>
    rcases List.mem_append.mp hu with hold | hnew
    · exact .inl hold
    · obtain rfl := List.mem_singleton.mp hnew
      exact .inr ⟨_, rfl, rfl, hpc⟩
  | _ => exact .inl hu

lemma serving_step {a : Action} (h : Serving s) (hkeeps : KeepsOpen s a) (hs : step window s a = some t) :
    Serving t := by
  obtain ⟨x, -, hm⟩ | ⟨-, hc⟩ | ⟨k, x, th, rfl, hth, hw⟩ | ⟨peers, rfl⟩ := step_cases hs
  · have hactive : ∀ i, (s.clients i).active = true → (t.clients i).active = true := by
      intro i hi
      by_cases hpc : s.main = .setActive i
      · cases hm <;> simp_all
      · rwa [active_of_main hm hpc]
    have hchecker : t.checker = s.checker := by cases hm <;> rfl
    refine ⟨fun u hu hsure => ?_, fun u hu => ?_, fun slot hpc => hactive slot (h.checker slot (hchecker ▸ hpc))⟩
    · rcases threads_of_main hm u hu with hold | ⟨g, hcode, hpc⟩
      · exact hactive _ (h.sure u hold hsure)
      · simp [hcode, hpc] at hsure
    · rcases threads_of_main hm u hu with hold | ⟨g, hcode, hpc⟩
      · exact h.stays u hold
      · simp [hcode, hpc]
  · have hclients : t.clients = s.clients := (checker_keeps hc).1
    refine ⟨fun u hu hsure => ?_, fun u hu => ?_, fun slot hpc => ?_⟩
    · rw [hclients]
      rcases threads_of_checker hc u hu with hold | ⟨c, hcode, -, hcreate⟩
      · exact h.sure u hold hsure
      · rw [hcode]
        exact h.checker _ hcreate
    · rcases threads_of_checker hc u hu with hold | ⟨c, hcode, hpc, -⟩
      · exact h.stays u hold
      · simp [hcode, hpc]
    · rw [hclients]
      cases hc with
      | finds _ _ hactive =>
        cases hpc
        exact hactive
      | wakes | locks | skips | ends | creates | unlocks => cases hpc
  · obtain ⟨code, hthreads, hleads⟩ := leads_of_worker hth hs
    have hmem := List.mem_of_getElem? hth
    have hactive : ∀ i, (t.clients i).active = (s.clients i).active := by
      intro i
      exact active_of_worker_eq hw fun hretires => absurd (leaving_of_retires hretires) (h.stays th hmem)
    have hchecker : t.checker = s.checker := by
      obtain ⟨_, _, _, _, _, _, rfl, -⟩ := hw
      rfl
    refine ⟨fun u hu hsure => ?_, fun u hu => ?_, fun slot hpc => ?_⟩
    · rw [hactive]
      rw [hthreads] at hu
      rcases mem_set hu with rfl | hold
      · rcases hleads.sure hsure with ⟨hindex, hold⟩ | hactive
        · have hserved := h.sure th hmem hold
          rwa [← hindex] at hserved
        · exact hactive
      · exact h.sure u hold hsure
    · rw [hthreads] at hu
      rcases mem_set hu with rfl | hold
      · intro hl
        rcases hleads.leaving hl with hold | hcloses
        · exact h.stays th hmem hold
        · exact hkeeps th hth hcloses
      · exact h.stays u hold
    · rw [hactive]
      rw [hchecker] at hpc
      exact h.checker slot hpc
  · exact ⟨h.sure, h.stays, h.checker⟩

lemma Started.serving (h : Started s) : Serving s where
  sure th hth := by
    rw [h.threads] at hth
    cases hth
  stays th hth := by
    rw [h.threads] at hth
    cases hth
  checker slot hpc := by
    rw [h.checker] at hpc
    cases hpc

/-- The slot is active, and its descriptor does not stand for its connection any more. -/
structure Lost (s : State) (i : Slot) : Prop where
  active : (s.clients i).active = true
  closed : ∀ c, s.occupant i = some c → s.fds (s.clients i).socket_fd ≠ some c
  kept : ∀ th ∈ s.threads, th.code.index = i → ¬th.code.Retires

lemma Lost.not_own {i : Slot} (h : Lost s i) : ¬OwnDescriptors s := by
  intro hown
  obtain ⟨c, hocc, hopen⟩ := hown.opened i h.active
  exact h.closed c hocc hopen

lemma Lost.keep {i : Slot} (h : Lost s i) (hactive : (t.clients i).active = true)
    (hsocket_fd : (t.clients i).socket_fd = (s.clients i).socket_fd) (hocc : t.occupant i = s.occupant i)
    (hfds : ∀ f c, s.occupant i = some c → t.fds f = some c → s.fds f = some c)
    (hkept : ∀ th ∈ t.threads, th ∈ s.threads ∨ ¬th.code.Retires) : Lost t i where
  active := hactive
  closed c hc hopen := by
    rw [hocc] at hc
    rw [hsocket_fd] at hopen
    exact h.closed c hc (hfds _ c hc hopen)
  kept th hth := by
    rcases hkept th hth with hold | hnot
    · exact h.kept th hold
    · exact fun _ => hnot

lemma lost_main {i : Slot} {x : Input} (h : Lost s i) (hstored : Stored s) (hs : MainMove s x t) : Lost t i := by
  have hthreads : ∀ u ∈ t.threads, u ∈ s.threads ∨ ¬u.code.Retires := by
    intro u hu
    rcases threads_of_main hs u hu with hold | ⟨g, hcode, hpc⟩
    · exact .inl hold
    · exact .inr (by simp [hcode, Code.Retires, hpc])
  have hne : ∀ slot, s.main.Filling slot → i ≠ slot := by
    rintro slot hfilling rfl
    have hfree := hstored.fills i hfilling
    rw [h.active] at hfree
    cases hfree
  cases hs with
  | accepts hpc hfd =>
    refine h.keep h.active rfl rfl (fun f c hc hf => ?_) hthreads
    have hget : Function.update s.fds x.fd (some s.accepted) f = some c := hf
    by_cases he : f = x.fd
    · rw [he, Function.update_self] at hget
      have hlt := hstored.placed.occupants i c hc
      rw [State.placed, hpc, ← Option.some.inj hget] at hlt
      exact absurd hlt (lt_irrefl _)
    · rwa [Function.update_of_ne he] at hget
  | closes => exact h.keep h.active rfl rfl (fun _ _ _ => open_of_close) hthreads
  | setsFd hpc =>
    have hi := hne _ (by rw [hpc]; rfl)
    exact h.keep (by simpa [Function.update_of_ne hi] using h.active) (by simp [Function.update_of_ne hi])
      (by simp [Function.update_of_ne hi]) (fun _ _ _ hf => hf) hthreads
  | activates hpc =>
    have hi := hne _ (by rw [hpc]; rfl)
    exact h.keep (by simpa [Function.update_of_ne hi] using h.active) (by simp [Function.update_of_ne hi]) rfl
      (fun _ _ _ hf => hf) hthreads
  | receives | initsMutex =>
    refine h.keep ?_ (socket_fd_update (by rfl) i) rfl (fun _ _ _ hf => hf) hthreads
    rw [active_update (by rfl)]
    exact h.active
  | locks | full | hasRoom | refuses | skips | finds | findsNone | callsRecv | increments | creates | unlocks =>
    exact h.keep h.active rfl rfl (fun _ _ _ hf => hf) hthreads

/-- As long as `clients_mutex` is not free, nobody retires the slot. -/
lemma lost_step {i : Slot} {a : Action} (h : Lost s i) (hstored : Stored s) (hheld : s.clients_mutex ≠ none)
    (hs : step window s a = some t) : Lost t i := by
  obtain ⟨x, -, hm⟩ | ⟨-, hc⟩ | ⟨k, x, th, rfl, hth, hw⟩ | ⟨peers, rfl⟩ := step_cases hs
  · exact lost_main h hstored hm
  · have hthreads : ∀ u ∈ t.threads, u ∈ s.threads ∨ ¬u.code.Retires := by
      intro u hu
      rcases threads_of_checker hc u hu with hold | ⟨c, hcode, hpc, -⟩
      · exact .inl hold
      · exact .inr (by simp [hcode, Code.Retires, hpc])
    cases hc <;> exact h.keep h.active rfl rfl (fun _ _ _ hf => hf) hthreads
  · obtain ⟨code, hthreads, hleads⟩ := leads_of_worker hth hs
    have hspares := spares_of_worker hth hs
    have hactive := active_of_worker_eq (i := i) hw fun hretires hindex =>
      h.kept th (List.mem_of_getElem? hth) hindex hretires
    have hocc : t.occupant = s.occupant := by
      obtain ⟨_, _, _, _, _, _, rfl, -⟩ := hw
      rfl
    refine h.keep (hactive.trans h.active) (hspares.socket_fd i) (by rw [hocc]) (fun f c _ hf => ?_) fun u hu => ?_
    · rcases hspares.fds with hsame | ⟨-, hclosed⟩
      · rwa [hsame] at hf
      · rw [hclosed] at hf
        exact open_of_close hf
    · rw [hthreads] at hu
      rcases mem_set hu with rfl | hold
      · exact .inr fun hretires => hheld (hleads.retires hretires)
      · exact .inl hold
  · exact h.keep h.active rfl rfl (fun _ _ _ hf => hf) fun _ hth => .inl hth

lemma lost_until_free {i : Slot} {as : List Action} {u : State} (h : Lost s i) (hstored : Stored s)
    (hrun : (machine window).exec s as = some u) (hfree : u.clients_mutex = none) :
    ∃ bs v, bs <+: as ∧ (machine window).exec s bs = some v ∧ v.clients_mutex = none ∧ ¬OwnDescriptors v := by
  induction as generalizing s with
  | nil =>
    obtain rfl : s = u := by simpa using hrun
    exact ⟨[], s, List.prefix_rfl, rfl, hfree, h.not_own⟩
  | cons a as ih =>
    by_cases hheld : s.clients_mutex = none
    · exact ⟨[], s, List.nil_prefix, rfl, hheld, h.not_own⟩
    · obtain ⟨t, hn, ht⟩ := Machine.exec_cons_eq_some.mp hrun
      obtain ⟨bs, v, hpre, hbs, hv⟩ := ih (lost_step h hstored hheld hn) (hstored.step hn) ht
      exact ⟨a :: bs, v, List.cons_prefix_cons.mpr ⟨rfl, hpre⟩, Machine.exec_cons_eq_some.mpr ⟨t, hn, hbs⟩, hv⟩

lemma lost_of_close {k : ℕ} {x : Input} {th : Thread} (hserving : Serving s) (hth : s.threads[k]? = some th)
    (hcloses : th.code.Closes) (hs : workerStep window s k x = some t) : Lost t th.code.index := by
  have hmem := List.mem_of_getElem? hth
  have hlost : ∀ (code : Code), th.code.Sure → ¬code.Retires →
      Lost ((s.setThread k { th with code := code }).close (s.clients th.code.index).socket_fd) th.code.index := by
    intro code hsure hnot
    refine ⟨hserving.sure th hmem hsure, fun c _ hopen => ?_, fun u hu _ => ?_⟩
    · have hnone : Function.update s.fds (s.clients th.code.index).socket_fd none (s.clients th.code.index).socket_fd =
          some c := hopen
      rw [Function.update_self] at hnone
      cases hnone
    · rcases mem_set hu with rfl | hold
      · exact hnot
      · exact fun hretires => hserving.stays u hold (leaving_of_retires hretires)
  cases hcode : th.code with
  | handler h =>
    rw [hcode] at hcloses hlost
    have hpc : h.pc = .stopClose := hcloses
    simp only [workerStep, hth, hcode, client_handler, hpc, Option.some.injEq] at hs
    rw [← hs]
    exact hlost (.handler { h with pc := .stopLock }) (by simp [hpc]) (by simp [Code.Retires])
  | check c =>
    rw [hcode] at hcloses hlost
    have hpc : c.pc = .close := hcloses
    simp only [workerStep, hth, hcode, check_alive, hpc, Option.some.injEq] at hs
    rw [← hs]
    exact hlost (.check { c with pc := .lock }) (by simp) (by simp [Code.Retires])

/-- After the first step that closes a client's descriptor, a run that comes to a state in which
`clients_mutex` is free has come through one in which an active slot has lost its descriptor. -/
theorem lost_at_close {a : Action} {as : List Action} {u : State} (h : (machine window).ReachableBy KeepsOpen s)
    (hcloses : ¬KeepsOpen s a) (hs : step window s a = some t) (hrun : (machine window).exec t as = some u)
    (hfree : u.clients_mutex = none) :
    ∃ bs v, bs <+: as ∧ (machine window).exec t bs = some v ∧ v.clients_mutex = none ∧ ¬OwnDescriptors v := by
  have hinv : Stored s ∧ Serving s := by
    refine h.invariant (I := fun s => Stored s ∧ Serving s) (fun s (hs : Started s) => ⟨hs.stored, hs.serving⟩) ?_
    exact fun s a t hs hkeeps hn => ⟨hs.1.step hn, serving_step hs.2 hkeeps hn⟩
  obtain ⟨hstored, hserving⟩ := hinv
  cases a with
  | worker k x =>
    obtain ⟨th, hth, hclose⟩ : ∃ th, s.threads[k]? = some th ∧ th.code.Closes := by
      simp only [KeepsOpen, not_forall, not_not] at hcloses
      obtain ⟨th, hth, hclose⟩ := hcloses
      exact ⟨th, hth, hclose⟩
    exact lost_until_free (lost_of_close hserving hth hclose hs) (hstored.step hs) hrun hfree
  | main | checker | peerSend | peerRead | peerClose => exact absurd trivial hcloses

/-! ### A descriptor that is handed out again -/

/-- A client has said STOP; before its slot is free, the next one gets its descriptor. -/
theorem not_own_descriptors : ¬∀ (window : ℕ) (s : State), (machine window).Reachable s → s.clients_mutex = none →
    OwnDescriptors s := by
  intro h
  have hrun : ((machine 1).exec start (registration 0 "ala" ++ command 0 0 "STOP" ++ goOn 0 5 ++ second 5 "ola")).map
      (fun s => (s.clients_mutex, (s.clients 0).active, (s.clients 1).active,
        decide ((s.clients 0).socket_fd = (s.clients 1).socket_fd))) = some (none, true, true, true) := by
    decide +kernel
  obtain ⟨s, hs, he⟩ := Option.map_eq_some_iff.mp hrun
  obtain ⟨hfree, hfirst, hsecond, hfd⟩ := by simpa only [Prod.mk.injEq] using he
  have hown := h 1 s (Machine.Reachable.exec (.start start_started) hs) hfree
  exact absurd (hown.apart 0 1 hfirst hsecond (of_decide_eq_true hfd)) (by decide)

instance : DecidablePred Code.Closes
  | .handler h => inferInstanceAs (Decidable (h.pc = .stopClose))
  | .check c => inferInstanceAs (Decidable (c.pc = .close))

instance (s : State) : DecidablePred (KeepsOpen s)
  | .worker k _ => inferInstanceAs (Decidable (∀ th ∈ s.threads[k]?, ¬th.code.Closes))
  | .main _ | .checker | .peerSend _ _ | .peerRead _ | .peerClose _ => isTrue trivial

/-- Two clients, of which the first has asked for the list. -/
theorem own_descriptors_two : ∃ s, (machine 1).ReachableBy KeepsOpen s ∧ (s.clients 0).active = true ∧
    (s.clients 1).active = true ∧ OwnDescriptors s := by
  have hrun : (((machine 1).guard KeepsOpen).exec start (registration 0 "ala" ++ command 0 0 "LIST" ++ goOn 0 18 ++
      second 6 "ola")).map (fun s => ((s.clients 0).active, (s.clients 1).active)) = some (true, true) := by
    decide +kernel
  obtain ⟨s, hs, he⟩ := Option.map_eq_some_iff.mp hrun
  obtain ⟨hfirst, hsecond⟩ := Prod.mk.inj he
  have hstart : ((machine 1).guard KeepsOpen).Reachable start := .start start_started
  have hreach := Machine.reachableBy_of_guard (hstart.exec hs)
  exact ⟨s, hreach, hfirst, hsecond, own_descriptors hreach⟩

end SystemyOperacyjne.ChatServer
