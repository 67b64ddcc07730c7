import SystemyOperacyjne.Library.Tokens
import SystemyOperacyjne.ChatServerRegistration

/-!
# The count of the chat server's clients

`num_clients` against the flags `active`. The three sections that change the two keep their
difference, except that a client can be retired when its slot is not active any more: by its
handler after STOP and by a `check_alive` that got no answer.
-/

namespace SystemyOperacyjne.ChatServer
open Concurrency CString

variable {window : ℕ} {s t : State}

def numActive (clients : Slot → ClientInfo) : ℕ :=
  (Finset.univ.filter fun i => (clients i).active = true).card

/-- A slot that `main` has marked as active and not yet counted. -/
def MainPc.owes : MainPc → ℕ
  | .initMutex _ | .increment _ => 1
  | _ => 0

/-- By how much `num_clients` is too low, but for the threads that have changed a flag and
not yet the count. -/
def State.deficit (s : State) : ℤ :=
  (numActive s.clients + (s.threads.map fun th => th.code.owes).sum : ℕ) - s.main.owes - s.num_clients

/-- A thread that retires a client finds its slot active. -/
def RetiresActive (s : State) : Action → Prop
  | .worker k _ => ∀ th ∈ s.threads[k]?, th.code.Retires → (s.clients th.code.index).active = true
  | _ => True

instance (c : Code) : Decidable c.Retires :=
  match c with
  | .handler h => inferInstanceAs (Decidable (h.pc = .stopDeactivate))
  | .check c => inferInstanceAs (Decidable (c.pc = .deactivate))

instance (s : State) (a : Action) : Decidable (RetiresActive s a) :=
  match a with
  | .worker k _ => inferInstanceAs (Decidable (∀ th ∈ s.threads[k]?, th.code.Retires →
      (s.clients th.code.index).active = true))
  | .main _ | .checker | .peerSend _ _ | .peerRead _ | .peerClose _ => isTrue trivial

/-! ### Active slots -/

lemma numActive_eq_tokens (clients : Slot → ClientInfo) :
    numActive clients = tokens (fun c => c.active.toNat) clients := by
  unfold numActive tokens
  rw [Finset.card_filter]
  refine Finset.sum_congr rfl fun i _ => ?_
  change _ = (clients i).active.toNat
  cases (clients i).active with
  | false => rfl
  | true => rfl

lemma numActive_update (clients : Slot → ClientInfo) (i : Slot) (c : ClientInfo) :
    numActive (Function.update clients i c) + (clients i).active.toNat = numActive clients + c.active.toNat := by
  rw [numActive_eq_tokens, numActive_eq_tokens]
  exact tokens_update (fun c : ClientInfo => c.active.toNat) clients i c

lemma numActive_congr {clients clients' : Slot → ClientInfo} (h : ∀ i, (clients' i).active = (clients i).active) :
    numActive clients' = numActive clients := by
  unfold numActive
  simp only [h]

lemma numActive_activate {clients : Slot → ClientInfo} {i : Slot} {c : ClientInfo} (hi : (clients i).active = false)
    (hc : c.active = true) : numActive (Function.update clients i c) = numActive clients + 1 := by
  have hupdate := numActive_update clients i c
  rwa [hi, hc] at hupdate

lemma numActive_deactivate {clients : Slot → ClientInfo} {i : Slot} {c : ClientInfo} (hi : (clients i).active = true)
    (hc : c.active = false) : numActive (Function.update clients i c) + 1 = numActive clients := by
  have hupdate := numActive_update clients i c
  rwa [hi, hc] at hupdate

lemma numActive_eq_zero {clients : Slot → ClientInfo} (h : ∀ i, (clients i).active = false) :
    numActive clients = 0 := by
  unfold numActive
  simp [h]

lemma exists_inactive {clients : Slot → ClientInfo} (h : numActive clients < MAX_CLIENTS) :
    ∃ j, (clients j).active = false := by
  by_contra hall
  have hactive : ∀ j, (clients j).active = true := by
    intro j
    by_contra hj
    exact hall ⟨j, by simpa using hj⟩
  have hcard : numActive clients = MAX_CLIENTS := by
    unfold numActive
    simp only [hactive, Finset.filter_true]
    exact Finset.card_fin MAX_CLIENTS
  omega

/-! ### The deficit -/

lemma deficit_worker {k : ℕ} {th : Thread} {x : Input} (hth : s.threads[k]? = some th) (hs : WorkerStep s k th x t)
    (hactive : th.code.Retires → (s.clients th.code.index).active = true) : t.deficit = s.deficit := by
  obtain ⟨code, clients, num, mutex, fds, peers, rfl, heffect, -, -⟩ := hs
  have howed := sum_map_set (fun u : Thread => u.code.owes) hth { th with code := code }
  simp only at howed
  simp only [State.deficit, State.after]
  cases heffect with
  | keep hsame hin howes =>
    have hnum := numActive_congr hsame
    omega
  | lock hfree howes | unlock hin hout howes => omega
  | deactivate hretires hin howes howes' =>
    have hnum := numActive_deactivate (c := { s.clients th.code.index with active := false }) (hactive hretires) rfl
    omega
  | decrement hin howes howes' => omega

lemma deficit_main {x : Input} (h : FillsFree s) (hs : MainMove s x t) : t.deficit = s.deficit := by
  unfold State.deficit
  cases hs with
  | accepts hpc | locks hpc | full hpc | hasRoom hpc | refuses hpc | closes hpc | finds hpc | findsNone hpc
  | callsRecv hpc | unlocks hpc =>
    rw [hpc]
    rfl
  | skips hpc => rfl
  | setsFd hpc | receives hpc | initsMutex hpc =>
    rw [hpc, numActive_congr (active_update (by rfl))]
    rfl
  | @activates slot hpc =>
    have hfree : (s.clients slot).active = false := by
      apply h
      rw [hpc]
      rfl
    rw [hpc, numActive_activate hfree rfl]
    simp only [MainPc.owes]
    omega
  | increments hpc =>
    rw [hpc]
    simp only [MainPc.owes]
    omega
  | creates hpc =>
    rw [hpc, List.map_append, List.sum_append]
    simp [MainPc.owes, Code.owes]

lemma deficit_checker (hs : CheckerMove s t) : t.deficit = s.deficit := by
  unfold State.deficit
  cases hs with
  | creates hpc =>
    rw [List.map_append, List.sum_append]
    simp [Code.owes]
  | wakes | locks | finds | skips | ends | unlocks => rfl

lemma deficit_retires {k : ℕ} {th : Thread} {x : Input} (hth : s.threads[k]? = some th) (hretires : th.code.Retires)
    (hinactive : (s.clients th.code.index).active = false) (hs : workerStep window s k x = some t) :
    t.deficit = s.deficit + 1 := by
  have hsum : ∀ code : Code, code.owes = 1 → th.code.owes = 0 →
      (s.setThread k { th with code := code } |>.setClient th.code.index
        { s.clients th.code.index with active := false }).deficit = s.deficit + 1 := by
    intro code howes' howes
    have howed := sum_map_set (fun u : Thread => u.code.owes) hth { th with code := code }
    simp only [howes, howes'] at howed
    simp only [State.deficit, State.setThread, State.setClient]
    rw [numActive_congr (active_update hinactive.symm)]
    omega
  simp only [workerStep, hth] at hs
  cases hcode : th.code with
  | handler h =>
    have hpc : h.pc = .stopDeactivate := by
      rw [hcode] at hretires
      exact hretires
    simp only [hcode, client_handler, hpc, Option.some.injEq] at hs
    subst hs
    have hd := hsum (.handler { h with pc := .stopDecrement }) rfl (by simp [hcode, Code.owes, hpc])
    rw [hcode] at hd
    exact hd
  | check c =>
    have hpc : c.pc = .deactivate := by
      rw [hcode] at hretires
      exact hretires
    simp only [hcode, check_alive, hpc, Option.some.injEq] at hs
    subst hs
    have hd := hsum (.check { c with pc := .decrement }) rfl (by simp [hcode, Code.owes, hpc])
    rw [hcode] at hd
    exact hd

/-- What a step does to the deficit, by whether it retires a client twice. -/
theorem deficit_step {a : Action} (h : FillsFree s) (hs : step window s a = some t) :
    (RetiresActive s a → t.deficit = s.deficit) ∧ (¬RetiresActive s a → t.deficit = s.deficit + 1) := by
  constructor
  · intro hactive
    obtain ⟨x, -, hm⟩ | ⟨-, hc⟩ | ⟨k, x, th, rfl, hth, hw⟩ | ⟨peers, rfl⟩ := step_cases hs
    · exact deficit_main h hm
    · exact deficit_checker hc
    · exact deficit_worker hth hw (hactive th hth)
    · rfl
  · intro hnot
    cases a with
    | worker k x =>
      simp only [RetiresActive, not_forall] at hnot
      obtain ⟨th, hth, hretires, hinactive⟩ := hnot
      exact deficit_retires hth hretires (by simpa using hinactive) hs
    | main | checker | peerSend | peerRead | peerClose => exact absurd trivial hnot

/-! ### The free slot -/

lemma inside_of_owes {code : Code} (h : code.owes ≠ 0) : code.Inside := by
  cases code with
  | handler a =>
    have hpc : a.pc = .stopDecrement := by
      by_contra hne
      simp [Code.owes, hne] at h
    rw [Code.Inside, hpc]
    trivial
  | check c =>
    have hpc : c.pc = .decrement := by
      by_contra hne
      simp [Code.owes, hne] at h
    rw [Code.Inside, hpc]
    trivial

/-- While no worker is inside, only `main` can owe a change of the count. -/
lemma deficit_of_not_inside (h : ∀ k, ¬s.Inside (.worker k)) :
    s.deficit = numActive s.clients - s.main.owes - s.num_clients := by
  have hsum : (s.threads.map fun th => th.code.owes).sum = 0 := by
    apply List.sum_eq_zero
    intro n hn
    obtain ⟨th, hmem, rfl⟩ := List.mem_map.mp hn
    obtain ⟨k, hk⟩ := List.mem_iff_getElem?.mp hmem
    by_contra howes
    exact h k ⟨th, hk, inside_of_owes howes⟩
  rw [State.deficit, hsum, Nat.add_zero]

/-- The search for a slot has one ahead. -/
def HasRoom (s : State) : Prop :=
  ∀ fd, s.main = .search fd → ∃ j : Slot, s.i ≤ j ∧ (s.clients j).active = false

lemma hasRoom_main {x : Input} (h : HasRoom s) (hguards : Guards s.clients_mutex s.Inside) (hd : s.deficit = 0)
    (hs : MainMove s x t) : HasRoom t := by
  cases hs with
  | hasRoom hpc hnum =>
    intro fd hsearch
    have hin : s.Inside .main := by
      rw [State.Inside, hpc]
      trivial
    have hdeficit := deficit_of_not_inside fun k => hguards.not_inside hin (j := .worker k) (by simp)
    have howes : s.main.owes = 0 := by rw [hpc]; rfl
    have hlt : numActive s.clients < MAX_CLIENTS := by omega
    obtain ⟨j, hj⟩ := exists_inactive hlt
    exact ⟨j, Nat.zero_le _, hj⟩
  | @skips fd hpc hi hactive =>
    intro fd' hsearch
    obtain ⟨j, hle, hj⟩ := h fd' hsearch
    refine ⟨j, ?_, hj⟩
    have hne : s.i ≠ j := by
      rintro he
      have hslot : (⟨s.i, hi⟩ : Slot) = j := Fin.ext he
      rw [hslot, hj] at hactive
      cases hactive
    exact Nat.lt_of_le_of_ne hle hne
  | accepts | locks | full | refuses | closes | finds | findsNone | setsFd | callsRecv | receives | activates
  | initsMutex | increments | creates | unlocks =>
    intro fd hsearch
    cases hsearch

lemma hasRoom_step {a : Action} (h : HasRoom s) (hguards : Guards s.clients_mutex s.Inside) (hd : s.deficit = 0)
    (hs : step window s a = some t) : HasRoom t := by
  obtain ⟨x, -, hm⟩ | ⟨-, hc⟩ | ⟨k, x, th, -, -, hw⟩ | ⟨peers, rfl⟩ := step_cases hs
  · exact hasRoom_main h hguards hd hm
  · obtain ⟨hclients, -, hmain, hi⟩ := checker_keeps hc
    intro fd hsearch
    rw [hclients, hi]
    exact h fd (hmain ▸ hsearch)
  · obtain ⟨hmain, hi⟩ := main_of_worker hw
    intro fd hsearch
    obtain ⟨j, hle, hj⟩ := h fd (hmain ▸ hsearch)
    exact ⟨j, by rwa [hi], inactive_of_worker hw hj⟩
  · exact h

/-! ### No connection is left over -/

/-- The connection has got a handler, or no descriptor stands for it any more. -/
def State.Settled (s : State) (c : Conn) : Prop :=
  (∃ th ∈ s.threads, th.code.IsHandler ∧ th.conn = c) ∨ ∀ f, s.fds f ≠ some c

/-- All accepted connections are settled, but for the one that `main` is busy with. -/
def AllSettled (s : State) : Prop :=
  ∀ c, c < s.accepted → s.Settled c ∨ (s.main.Pending ∧ c + 1 = s.accepted)

/-- Each handler goes on. -/
def HandlersStay (s t : State) : Prop :=
  ∀ th ∈ s.threads, th.code.IsHandler → ∃ u ∈ t.threads, u.code.IsHandler ∧ u.conn = th.conn

lemma handlersStay_append (new : List Thread) (h : t.threads = s.threads ++ new) : HandlersStay s t := by
  intro th hth hh
  rw [h]
  exact ⟨th, List.mem_append_left _ hth, hh, rfl⟩

lemma handlersStay_of_eq (h : t.threads = s.threads) : HandlersStay s t :=
  handlersStay_append [] (by rw [h, List.append_nil])

lemma handlersStay_worker {k : ℕ} {th : Thread} {x : Input} (hth : s.threads[k]? = some th)
    (hs : WorkerStep s k th x t) : HandlersStay s t := by
  obtain ⟨code, clients, num, mutex, fds, peers, rfl, -, -, hmove⟩ := hs
  intro u hu hh
  obtain ⟨j, hj⟩ := List.mem_iff_getElem?.mp hu
  by_cases hjk : j = k
  · subst hjk
    obtain rfl : th = u := Option.some.inj (hth.symm.trans hj)
    obtain ⟨hlt, -⟩ := List.getElem?_eq_some_iff.mp hth
    refine ⟨{ th with code := code }, List.mem_iff_getElem?.mpr ⟨j, ?_⟩, hmove.kind.mpr hh, rfl⟩
    exact List.getElem?_set_self hlt
  · refine ⟨u, List.mem_iff_getElem?.mpr ⟨j, ?_⟩, hh, rfl⟩
    rw [← hj]
    exact List.getElem?_set_ne (Ne.symm hjk)

lemma State.Settled.keep {c : Conn} (h : s.Settled c) (hstay : HandlersStay s t)
    (hfds : ∀ f, t.fds f = some c → s.fds f = some c) : t.Settled c := by
  rcases h with ⟨th, hmem, hh, hconn⟩ | hclosed
  · obtain ⟨u, hu, huh, hc⟩ := hstay th hmem hh
    exact .inl ⟨u, hu, huh, hc.trans hconn⟩
  · exact .inr fun f hf => hclosed f (hfds f hf)

lemma AllSettled.keep (h : AllSettled s) (haccepted : t.accepted = s.accepted) (hstay : HandlersStay s t)
    (hfds : ∀ f c, t.fds f = some c → s.fds f = some c) (hpending : s.main.Pending → t.main.Pending) :
    AllSettled t := by
  intro c hc
  rw [haccepted] at hc ⊢
  rcases h c hc with hsettled | ⟨hp, hlast⟩
  · exact .inl (hsettled.keep hstay fun f => hfds f c)
  · exact .inr ⟨hpending hp, hlast⟩

lemma allSettled_main {x : Input} (h : AllSettled s) (hreg : Registered s) (hroom : HasRoom s) (hs : MainMove s x t) :
    AllSettled t := by
  cases hs with
  | accepts hpc hfd =>
    intro c hc
    rcases Nat.lt_succ_iff_lt_or_eq.mp hc with hlt | rfl
    · rcases h c hlt with hsettled | ⟨hp, -⟩
      · refine .inl (hsettled.keep (handlersStay_of_eq rfl) fun f hf => ?_)
        have hget : Function.update s.fds x.fd (some s.accepted) f = some c := hf
        by_cases he : f = x.fd
        · rw [he, Function.update_self] at hget
          exact absurd (Option.some.inj hget) (Nat.ne_of_gt hlt)
        · rwa [Function.update_of_ne he] at hget
      · rw [hpc] at hp
        exact hp.elim
    · exact .inr ⟨trivial, rfl⟩
  | locks hpc | full hpc | hasRoom hpc | refuses hpc | finds hpc | setsFd hpc | callsRecv hpc | receives hpc
  | activates hpc | initsMutex hpc | increments hpc =>
    exact h.keep rfl (handlersStay_of_eq rfl) (fun _ _ hf => hf) fun _ => trivial
  | skips hpc => exact h
  | @closes fd hpc =>
    intro c hc
    rcases h c hc with hsettled | ⟨-, hlast⟩
    · exact .inl (hsettled.keep (handlersStay_of_eq rfl) fun _ => open_of_close)
    · refine .inl (.inr fun f hf => ?_)
      have hget : Function.update s.fds fd none f = some c := hf
      have hheld : f = fd := by
        apply hreg.holds fd (by rw [hpc]; rfl)
        rw [← hlast]
        exact open_of_close hget
      rw [hheld, Function.update_self] at hget
      cases hget
  | findsNone hpc hi =>
    obtain ⟨j, hle, -⟩ := hroom _ hpc
    exact absurd (lt_of_le_of_lt hle j.isLt) hi
  | @creates slot hpc =>
    intro c hc
    refine .inl ?_
    rcases h c hc with hsettled | ⟨-, hlast⟩
    · exact hsettled.keep (handlersStay_append _ rfl) fun _ hf => hf
    · refine .inl ⟨_, List.mem_append_right _ (List.mem_singleton.mpr rfl), trivial, ?_⟩
      rw [hreg.registering slot (by rw [hpc]; rfl), Option.getD_some, ← hlast]
      rfl
  | unlocks hpc =>
    refine h.keep rfl (handlersStay_of_eq rfl) (fun _ _ hf => hf) ?_
    rw [hpc]
    exact id

lemma allSettled_step {a : Action} (h : AllSettled s) (hreg : Registered s) (hroom : HasRoom s)
    (hs : step window s a = some t) : AllSettled t := by
  obtain ⟨x, -, hm⟩ | ⟨-, hc⟩ | ⟨k, x, th, -, hth, hw⟩ | ⟨peers, rfl⟩ := step_cases hs
  · exact allSettled_main h hreg hroom hm
  · cases hc with
    | creates hpc => exact h.keep rfl (handlersStay_append _ rfl) (fun _ _ hf => hf) id
    | wakes | locks | finds | skips | ends | unlocks =>
      exact h.keep rfl (handlersStay_of_eq rfl) (fun _ _ hf => hf) id
  · have hstay := handlersStay_worker hth hw
    obtain ⟨code, clients, num, mutex, fds, peers, rfl, -, hfds, -⟩ := hw
    exact h.keep rfl hstay hfds id
  · exact h.keep rfl (handlersStay_of_eq rfl) (fun _ _ hf => hf) id

/-! ### Whole runs -/

/-- What the server promises about its count: it is exact while `clients_mutex` is free, a
search finds a slot, and every connection is registered or closed. -/
structure CountExact (s : State) : Prop where
  count : s.clients_mutex = none → s.num_clients = numActive s.clients
  room : HasRoom s
  settled : s.main = .accept → ∀ c, c < s.accepted → s.Settled c

/-- The invariant of the runs in which nobody retires a client twice. -/
structure Counted (s : State) : Prop where
  guards : Guards s.clients_mutex s.Inside
  registered : Registered s
  fills : FillsFree s
  deficit : s.deficit = 0
  room : HasRoom s
  settled : AllSettled s

lemma Started.counted (h : Started s) : Counted s where
  guards := h.guards
  registered := h.registered
  fills := h.fillsFree
  deficit := by
    have hnum : numActive s.clients = 0 := numActive_eq_zero fun i => by rw [h.clients]
    rw [State.deficit, hnum, h.threads, h.main, h.num_clients]
    rfl
  room fd hsearch := by
    rw [h.main] at hsearch
    cases hsearch
  settled c hc := by
    rw [h.accepted] at hc
    exact absurd hc (Nat.not_lt_zero c)

lemma Counted.step {a : Action} (h : Counted s) (hretires : RetiresActive s a) (hs : step window s a = some t) :
    Counted t where
  guards := guards_step h.guards hs
  registered := registered_step h.registered hs
  fills := fillsFree_step h.fills hs
  deficit := ((deficit_step h.fills hs).1 hretires).trans h.deficit
  room := hasRoom_step h.room h.guards h.deficit hs
  settled := allSettled_step h.settled h.registered h.room hs

lemma deficit_of_free (h : Guards s.clients_mutex s.Inside) (hfree : s.clients_mutex = none) :
    s.deficit = numActive s.clients - s.num_clients := by
  rw [hfree] at h
  have hmain := h.not_inside_of_free .main
  have howes : s.main.owes = 0 := by
    rw [State.Inside] at hmain
    cases hpc : s.main with
    | initMutex | increment =>
      rw [hpc] at hmain
      exact absurd trivial hmain
    | _ => rfl
  have hdeficit := deficit_of_not_inside fun k => h.not_inside_of_free (.worker k)
  rw [hdeficit, howes]
  omega

lemma Counted.exact (h : Counted s) : CountExact s where
  count hfree := by
    have hdeficit := deficit_of_free h.guards hfree
    have hzero := h.deficit
    omega
  room := h.room
  settled hpc c hc := by
    rcases h.settled c hc with hsettled | ⟨hp, -⟩
    · exact hsettled
    · rw [hpc] at hp
      exact hp.elim

/-- In a run in which no client is retired when its slot is not active, the count is exact,
every connection that passes the test finds a free slot, and none is left over. -/
theorem count_exact (h : (machine window).ReachableBy RetiresActive s) : CountExact s := by
  apply Counted.exact
  apply h.invariant (I := Counted)
  · exact fun s hs => hs.counted
  · exact fun s a t hok hP hs => hok.step hP hs

/-- `num_clients` is too low by `n` or more. -/
structure Low (n : ℤ) (s : State) : Prop where
  guards : Guards s.clients_mutex s.Inside
  fills : FillsFree s
  deficit : n ≤ s.deficit

lemma Low.step {n : ℤ} {a : Action} (h : Low n s) (hs : step window s a = some t) : Low n t where
  guards := guards_step h.guards hs
  fills := fillsFree_step h.fills hs
  deficit := by
    obtain ⟨hsame, hmore⟩ := deficit_step h.fills hs
    have hle := h.deficit
    by_cases hretires : RetiresActive s a
    · rwa [hsame hretires]
    · rw [hmore hretires]
      omega

lemma low_of_reachable (h : (machine window).Reachable s) : Low 0 s := by
  apply h.invariant (I := Low 0)
  · exact fun s hs => ⟨hs.counted.guards, hs.counted.fills, hs.counted.deficit.ge⟩
  · exact fun s a t hlow hs => hlow.step hs

/-- A client that was retired when its slot was not active is missing in the count for good. -/
theorem count_low {a : Action} {as : List Action} {u : State} (hreach : (machine window).Reachable s)
    (hretires : ¬RetiresActive s a) (hs : step window s a = some t) (hrun : (machine window).exec t as = some u)
    (hfree : u.clients_mutex = none) : u.num_clients < numActive u.clients := by
  have hlow := low_of_reachable hreach
  have hmore := (deficit_step hlow.fills hs).2 hretires
  have hnonneg := hlow.deficit
  have ht : Low 1 t := ⟨guards_step hlow.guards hs, fillsFree_step hlow.fills hs, by omega⟩
  have hu : Low 1 u := by
    clear hs hmore
    induction as generalizing t with
    | nil =>
      obtain rfl : t = u := by simpa using hrun
      exact ht
    | cons b as ih =>
      obtain ⟨v, hn, hv⟩ := Machine.exec_cons_eq_some.mp hrun
      exact ih hv (ht.step hn)
  have hdeficit := deficit_of_free hu.guards hfree
  have hle := hu.deficit
  omega

/-! ### A client that is retired twice -/

/-- The client says STOP when `check_alive` has just asked whether it is alive. -/
theorem not_count_exact : ¬∀ (window : ℕ) (s : State), (machine window).Reachable s → CountExact s := by
  intro h
  have hrun : ((machine 1).exec start (registration 0 "ala" ++ command 0 0 "STOP" ++ goOn 0 1 ++ probe ++ goOn 1 4 ++
      goOn 0 8 ++ goOn 1 8)).map (fun s => (s.clients_mutex, s.num_clients, numActive s.clients)) =
      some (none, -1, 0) := by
    decide +kernel
  obtain ⟨s, hs, he⟩ := Option.map_eq_some_iff.mp hrun
  obtain ⟨hfree, hnum, hactive⟩ := by simpa only [Prod.mk.injEq] using he
  have hcount := (h 1 s (Machine.Reachable.exec (.start start_started) hs)).count hfree
  rw [hnum, hactive] at hcount
  exact absurd hcount (by decide)

/-- A client says STOP, and another takes its slot. -/
theorem count_exact_stop : ∃ s, (machine 1).ReachableBy RetiresActive s ∧ s.accepted = 2 ∧ s.num_clients = 1 ∧
    numActive s.clients = 1 ∧ CountExact s := by
  have hrun : (((machine 1).guard RetiresActive).exec start (registration 0 "ala" ++ command 0 0 "STOP" ++ goOn 0 9 ++
      registration 1 "ola")).map (fun s => (s.accepted, s.num_clients, numActive s.clients)) = some (2, 1, 1) := by
    decide +kernel
  obtain ⟨s, hs, he⟩ := Option.map_eq_some_iff.mp hrun
  obtain ⟨haccepted, hnum, hactive⟩ := by simpa only [Prod.mk.injEq] using he
  have hstart : ((machine 1).guard RetiresActive).Reachable start := .start start_started
  have hreach := Machine.reachableBy_of_guard (hstart.exec hs)
  exact ⟨s, hreach, haccepted, hnum, hactive, count_exact hreach⟩

/-! ### A connection that is refused -/

lemma active_of_numActive {clients : Slot → ClientInfo} (h : MAX_CLIENTS ≤ numActive clients) (i : Slot) :
    (clients i).active = true := by
  by_contra hi
  have hlt : numActive clients < MAX_CLIENTS := by
    rw [← Finset.card_fin MAX_CLIENTS]
    apply Finset.card_lt_card
    rw [Finset.filter_ssubset]
    exact ⟨i, Finset.mem_univ i, hi⟩
  omega

/-- Where `main` refuses a connection, all slots are active: when it finds the count too high, and
until it unlocks. -/
structure RefusesFull (s : State) : Prop where
  test : ∀ fd, s.main = .testCapacity fd → MAX_CLIENTS ≤ s.num_clients → ∀ i, (s.clients i).active = true
  refused : ∀ fd, s.main = .refuse fd → ∀ i, (s.clients i).active = true

lemma Low.test (h : Low 0 s) {fd : ℕ} (hpc : s.main = .testCapacity fd) (hfull : MAX_CLIENTS ≤ s.num_clients) (i : Slot) :
    (s.clients i).active = true := by
  have hin : s.Inside .main := by
    rw [State.Inside, hpc]
    trivial
  have hdeficit := deficit_of_not_inside fun k => h.guards.not_inside hin (j := .worker k) (by simp)
  have howes : s.main.owes = 0 := by rw [hpc]; rfl
  have hnonneg := h.deficit
  apply active_of_numActive
  omega

lemma refuses_step {a : Action} (h : Low 0 s) (hfull : ∀ fd, s.main = .refuse fd → ∀ i, (s.clients i).active = true)
    (hs : step window s a = some t) : ∀ fd, t.main = .refuse fd → ∀ i, (t.clients i).active = true := by
  intro fd ht i
  obtain ⟨x, -, hm⟩ | ⟨-, hc⟩ | ⟨k, x, th, -, hth, hw⟩ | ⟨peers, rfl⟩ := step_cases hs
  · cases hm with
    | full hpc hnum => exact h.test hpc hnum i
    | skips hpc =>
      rw [show s.main = .refuse fd from ht] at hpc
      cases hpc
    | accepts | locks | hasRoom | refuses | closes | finds | findsNone | setsFd | callsRecv | receives | activates
    | initsMutex | increments | creates | unlocks => cases ht
  · obtain ⟨hclients, -, hmain, -⟩ := checker_keeps hc
    rw [hclients]
    exact hfull fd (hmain ▸ ht) i
  · have hmain := (main_of_worker hw).1 ▸ ht
    have hin : s.Inside .main := by
      rw [State.Inside, hmain]
      trivial
    rw [flags_of_worker h.guards hin (by simp) hth hw]
    exact hfull fd hmain i
  · exact hfull fd ht i

/-- `main` refuses a connection only when all ten slots are active, although the count may be wrong. -/
theorem refuses_full (h : (machine window).Reachable s) : RefusesFull s := by
  refine ⟨fun fd => (low_of_reachable h).test, ?_⟩
  have hboth : Low 0 s ∧ ∀ fd, s.main = .refuse fd → ∀ i, (s.clients i).active = true := by
    apply h.invariant (I := fun u => Low 0 u ∧ ∀ fd, u.main = .refuse fd → ∀ i, (u.clients i).active = true)
    · intro u (hu : Started u)
      have hstart : (machine window).Reachable u := .start hu
      refine ⟨low_of_reachable hstart, fun fd hpc => ?_⟩
      rw [hu.main] at hpc
      cases hpc
    · exact fun u a v hu hs => ⟨hu.1.step hs, refuses_step hu.1 hu.2 hs⟩
  exact hboth.2

/-- Ten clients, and one more that `main` tests. -/
def crowd : List Action :=
  (List.range 10).flatMap (fun c => .main { receiving 0 with fd := c } :: .peerSend c (bytesOf "ala") ::
    List.replicate (11 + c) (.main (receiving 3))) ++ [.main { receiving 0 with fd := 10 }, .main (receiving 0),
    .main (receiving 0)]

/-- An eleventh client is refused. -/
theorem refuses_full_crowd : ∃ s, (machine 1).Reachable s ∧ s.main = .refuse 10 ∧ RefusesFull s := by
  have hrun : ((machine 1).exec start crowd).map State.main = some (.refuse 10) := by
    decide +kernel
  obtain ⟨s, hs, hmain⟩ := Option.map_eq_some_iff.mp hrun
  have hreach : (machine 1).Reachable s := Machine.Reachable.exec (.start start_started) hs
  exact ⟨s, hreach, hmain, refuses_full hreach⟩

end SystemyOperacyjne.ChatServer
