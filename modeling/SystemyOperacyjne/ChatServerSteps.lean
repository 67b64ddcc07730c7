import SystemyOperacyjne.ChatServerMoves

/-!
# The steps of the chat server's worker threads

What a step of a `client_handler` or `check_alive` thread can do to the slots, the count
and `clients_mutex`, and how far it goes on with its own slot without testing it again.
-/

namespace SystemyOperacyjne.ChatServer
open Concurrency CString

variable {s t : State}

@[simp] def HandlerPc.Inside : HandlerPc → Prop
  | .relay _ _ _ | .relayUnlock | .listing _ _ | .listUnlock _ | .stopDeactivate | .stopDecrement | .stopUnlock => True
  | _ => False

@[simp] def CheckPc.Inside : CheckPc → Prop
  | .deactivate | .decrement | .unlock => True
  | _ => False

/-- A thread that holds `clients_mutex`. -/
@[simp] def Code.Inside : Code → Prop
  | .handler h => h.pc.Inside
  | .check c => c.pc.Inside

/-- A slot that the thread has marked as free and not yet subtracted. -/
@[simp] def Code.owes : Code → ℕ
  | .handler h => if h.pc = .stopDecrement then 1 else 0
  | .check c => if c.pc = .decrement then 1 else 0

/-- At `active = 0`. -/
def Code.Retires : Code → Prop
  | .handler h => h.pc = .stopDeactivate
  | .check c => c.pc = .deactivate

/-- A handler that will use its slot again without testing `active` before. -/
@[simp] def HandlerPc.Committed : HandlerPc → Prop
  | .receiving _ _ | .unlockRecv | .testActive | .stopDecrement | .stopUnlock | .ended | .fault => False
  | _ => True

/-- A thread that will set options on, receive from, send to, close or retire its slot, or
relay in its name, without testing it before. -/
@[simp] def Code.Committed : Code → Prop
  | .handler h => h.pc.Committed
  | .check c =>
    match c.pc with
    | .setTimeout | .lockRecv | .sendAlive | .read | .close | .lock | .deactivate => True
    | .unlockRecv | .testReceived => c.bytes_received ≤ 0
    | .reading _ _ | .decrement | .unlock | .ended => False

/-- A thread that waits in `recv` on this connection. -/
@[simp] def Code.Receives : Code → Conn → Prop
  | .handler h => fun conn => ∃ timeout, h.pc = .receiving (some conn) timeout
  | .check c => fun conn => ∃ timeout, c.pc = .reading (some conn) timeout

/-- A handler that has not left its loop. -/
def Code.InLoop : Code → Prop
  | .handler h => h.pc ≠ .ended ∧ h.pc ≠ .fault
  | .check _ => False

@[simp] def Code.index : Code → Slot
  | .handler h => h.client_index
  | .check c => c.client_index

@[simp] def Code.IsHandler : Code → Prop
  | .handler _ => True
  | .check _ => False

/-- What a step of the worker `k` that leads from `c` to `c'` does to the state that the
threads share. -/
inductive Effect (s : State) (k : ℕ) (c c' : Code) : (Slot → ClientInfo) → ℤ → Option Owner → Prop
  | keep {clients : Slot → ClientInfo} (hactive : ∀ i, (clients i).active = (s.clients i).active)
      (hin : c'.Inside → c.Inside) (howes : c'.owes = c.owes) :
      Effect s k c c' clients s.num_clients s.clients_mutex
  | lock (hfree : s.clients_mutex = none) (howes : c'.owes = c.owes) :
      Effect s k c c' s.clients s.num_clients (some (.worker k))
  | unlock (hin : c.Inside) (hout : ¬c'.Inside) (howes : c'.owes = c.owes) :
      Effect s k c c' s.clients s.num_clients none
  | deactivate (hretires : c.Retires) (hin : c.Inside) (howes : c.owes = 0) (howes' : c'.owes = 1) :
      Effect s k c c' (Function.update s.clients c.index { s.clients c.index with active := false })
        s.num_clients s.clients_mutex
  | decrement (hin : c.Inside) (howes : c.owes = 1) (howes' : c'.owes = 0) :
      Effect s k c c' s.clients (s.num_clients - 1) s.clients_mutex

/-- A thread goes on with its slot because it was going to, because it found it active, or
because its probe got no answer. -/
structure Move (s : State) (x : Input) (c c' : Code) : Prop where
  kind : c'.IsHandler ↔ c.IsHandler
  index : c'.index = c.index ∨ ∃ h, c = .handler h ∧ h.pc = .start ∧ c'.index.val = s.i
  commit : c'.Committed → c.Committed ∨
    (∃ h, c = .handler h ∧ h.pc = .testActive ∧ (s.clients h.client_index).active = true) ∨
    ∃ h conn timeout r, c = .check h ∧ h.pc = .reading conn timeout ∧
      s.recv conn timeout BUFFER_SIZE x.count = some r ∧ r.1 ≤ 0
  receives : ∀ conn, c'.Receives conn → c.Committed

/-- The state after a step of the worker `k`. -/
def State.after (s : State) (k : ℕ) (th : Thread) (code : Code) (clients : Slot → ClientInfo) (num : ℤ)
    (mutex : Option Owner) (fds : ℕ → Option Conn) (peers : Conn → Peer) : State :=
  { s with
    threads := s.threads.set k { th with code := code }
    clients := clients
    num_clients := num
    clients_mutex := mutex
    fds := fds
    peers := peers }

/-- What a step of the worker `k` does; it can close descriptors. -/
def WorkerStep (s : State) (k : ℕ) (th : Thread) (x : Input) (t : State) : Prop :=
  ∃ code clients num mutex fds peers, t = s.after k th code clients num mutex fds peers ∧
    Effect s k th.code code clients num mutex ∧ (∀ f c, fds f = some c → s.fds f = some c) ∧
    Move s x th.code code

lemma open_of_close {fd f : ℕ} {c : Conn} (h : Function.update s.fds fd none f = some c) : s.fds f = some c := by
  by_cases hf : f = fd
  · rw [hf, Function.update_self] at h
    cases h
  · rwa [Function.update_of_ne hf] at h

/-- A thread goes on from `c` to `c'` with its own slot as before, or done with it. -/
@[mk_iff] structure Code.Follows (c c' : Code) : Prop where
  kind : c'.IsHandler ↔ c.IsHandler
  index : c'.index = c.index
  commit : c'.Committed → c.Committed
  receives : ∀ conn, ¬c'.Receives conn

lemma Code.Follows.move {c c' : Code} {x : Input} (h : c.Follows c') : Move s x c c' where
  kind := h.kind
  index := .inl h.index
  commit hc := .inl (h.commit hc)
  receives conn hr := absurd hr (h.receives conn)

section
variable {k : ℕ} {th : Thread} {x : Input}

lemma quiet (code : Code) (hfollows : th.code.Follows code)
    (hsame : (code.Inside → th.code.Inside) ∧ code.owes = th.code.owes)
    {clients : Slot → ClientInfo} (hactive : ∀ i, (clients i).active = (s.clients i).active)
    {fds : ℕ → Option Conn} (hfds : ∀ f c, fds f = some c → s.fds f = some c) (peers : Conn → Peer) :
    WorkerStep s k th x (s.after k th code clients s.num_clients s.clients_mutex fds peers) :=
  ⟨_, _, _, _, _, _, rfl, .keep hactive hsame.1 hsame.2, hfds, hfollows.move⟩

lemma locks (code : Code) (hfollows : th.code.Follows code) (howes : code.owes = th.code.owes)
    (hs : (s.setThread k { th with code := code }).lock (.worker k) = some t) : WorkerStep s k th x t := by
  obtain ⟨hfree, rfl⟩ := lock_eq_some.mp hs
  exact ⟨_, _, _, _, _, _, rfl, .lock hfree howes, fun _ _ hf => hf, hfollows.move⟩

lemma unlocks (code : Code) (hfollows : th.code.Follows code) (hin : th.code.Inside ∧ ¬code.Inside)
    (howes : code.owes = th.code.owes) : WorkerStep s k th x (s.setThread k { th with code := code }).unlock :=
  ⟨_, _, _, _, _, _, rfl, .unlock hin.1 hin.2 howes, fun _ _ hf => hf, hfollows.move⟩

lemma deactivates (code : Code) (hfollows : th.code.Follows code) (hretires : th.code.Retires)
    (hin : th.code.Inside) (howes : th.code.owes = 0 ∧ code.owes = 1) :
    WorkerStep s k th x ((s.setThread k { th with code := code }).setClient th.code.index
      { s.clients th.code.index with active := false }) :=
  ⟨_, _, _, _, s.fds, s.peers, rfl, .deactivate hretires hin howes.1 howes.2, fun _ _ hf => hf, hfollows.move⟩

lemma decrements (code : Code) (hfollows : th.code.Follows code) (hin : th.code.Inside)
    (howes : th.code.owes = 1 ∧ code.owes = 0) :
    WorkerStep s k th x { s.setThread k { th with code := code } with num_clients := s.num_clients - 1 } :=
  ⟨_, _, _, _, s.fds, s.peers, rfl, .decrement hin howes.1 howes.2, fun _ _ hf => hf, hfollows.move⟩

end

lemma active_update {clients : Slot → ClientInfo} {i : Slot} {c : ClientInfo}
    (h : c.active = (clients i).active) (j : Slot) :
    (Function.update clients i c j).active = (clients j).active := by
  by_cases hj : j = i
  · rw [hj, Function.update_self, h]
  · rw [Function.update_of_ne hj]

lemma socket_fd_update {clients : Slot → ClientInfo} {i : Slot} {c : ClientInfo}
    (h : c.socket_fd = (clients i).socket_fd) (j : Slot) :
    (Function.update clients i c j).socket_fd = (clients j).socket_fd := by
  by_cases hj : j = i
  · rw [hj, Function.update_self, h]
  · rw [Function.update_of_ne hj]

lemma HandlerPc.Goes.follows {h : Handler} {pc : HandlerPc} (hgoes : h.pc.Goes pc) :
    (Code.handler h).Follows (.handler { h with pc := pc }) ∧
      ((Code.handler { h with pc := pc }).Inside → (Code.handler h).Inside) ∧
      (Code.handler { h with pc := pc }).owes = (Code.handler h).owes := by
  generalize hpc : h.pc = from_ at hgoes
  cases hgoes <;> simp [Code.follows_iff, hpc]

lemma HandlerPc.Locks.follows {h : Handler} {pc : HandlerPc} (hlocks : h.pc.Locks pc) :
    (Code.handler h).Follows (.handler { h with pc := pc }) ∧
      (Code.handler { h with pc := pc }).owes = (Code.handler h).owes := by
  generalize hpc : h.pc = from_ at hlocks
  cases hlocks <;> simp [Code.follows_iff, hpc]

lemma HandlerPc.Unlocks.follows {h : Handler} {pc : HandlerPc} (hunlocks : h.pc.Unlocks pc) :
    (Code.handler h).Follows (.handler { h with pc := pc }) ∧
      ((Code.handler h).Inside ∧ ¬(Code.handler { h with pc := pc }).Inside) ∧
      (Code.handler { h with pc := pc }).owes = (Code.handler h).owes := by
  generalize hpc : h.pc = from_ at hunlocks
  cases hunlocks <;> simp [Code.follows_iff, hpc]

lemma handler_step {window k : ℕ} {th : Thread} {x : Input} {h : Handler} (hcode : th.code = .handler h)
    (hs : client_handler window s k th h x = some t) : WorkerStep s k th x t := by
  cases handler_cases hs with
  | starts hpc hi =>
    refine ⟨_, _, _, _, _, _, rfl, .keep (fun _ => rfl) ?_ ?_, fun _ _ hf => hf, ?_, ?_, ?_, ?_⟩
    · simp [Code.Inside, HandlerPc.Inside]
    · simp [hcode, hpc, Code.owes]
    · rw [hcode]
      exact Iff.rfl
    · exact .inr ⟨h, hcode, hpc, rfl⟩
    · simp [hcode, hpc, Code.Committed, HandlerPc.Committed]
    · simp [Code.Receives]
  | copiesName hpc hname =>
    exact quiet _ (by simp [Code.follows_iff, hcode, hpc]) (by simp [hcode, hpc]) (fun _ => rfl) (fun _ _ hf => hf)
      s.peers
  | goes hgoes =>
    obtain ⟨hfollows, hin, howes⟩ := hgoes.follows
    rw [← hcode] at hfollows hin howes
    exact quiet _ hfollows ⟨hin, howes⟩ (fun _ => rfl) (fun _ _ hf => hf) _
  | locksRecv hpc =>
    exact quiet (.handler { h with pc := .recv }) (by simp [Code.follows_iff, hcode, hpc]) (by simp [hcode, hpc])
      (active_update (by rfl)) (fun _ _ hf => hf) s.peers
  | callsRecv hpc =>
    let fd := (s.clients h.client_index).socket_fd
    refine ⟨.handler { h with pc := .receiving (s.fds fd) (s.timeout fd) }, s.clients, s.num_clients,
      s.clients_mutex, s.fds, s.peers, rfl, .keep (fun _ => rfl) ?_ ?_, fun _ _ hf => hf, ?_, ?_, ?_, ?_⟩
    · simp [Code.Inside, HandlerPc.Inside]
    · simp [hcode, hpc, Code.owes]
    · rw [hcode]
      exact Iff.rfl
    · rw [hcode]
      exact .inl rfl
    · simp [Code.Committed, HandlerPc.Committed]
    · simp [hcode, hpc, Code.Committed, HandlerPc.Committed]
  | receives hpc hr =>
    obtain ⟨peers, hpeers⟩ := recv_eq hr
    rw [hpeers]
    exact quiet (.handler { h with pc := .unlockRecv, bytes_received := _, buffer := _ })
      (by simp [Code.follows_iff, hcode, hpc]) (by simp [hcode, hpc]) (fun _ => rfl) (fun _ _ hf => hf) peers
  | unlocksRecv hpc =>
    exact quiet (.handler { h with pc := .testActive }) (by simp [Code.follows_iff, hcode, hpc]) (by simp [hcode, hpc])
      (active_update (by rfl)) (fun _ _ hf => hf) s.peers
  | staysActive hpc hactive =>
    refine ⟨_, _, _, _, _, _, rfl, .keep (fun _ => rfl) ?_ ?_, fun _ _ hf => hf, ?_, ?_, ?_, ?_⟩
    · simp [Code.Inside, HandlerPc.Inside]
    · simp [hcode, hpc, Code.owes]
    · rw [hcode]
      exact Iff.rfl
    · rw [hcode]
      exact .inl rfl
    · exact fun _ => .inr (.inl ⟨h, hcode, hpc, hactive⟩)
    · simp [Code.Receives]
  | leaves hpc | retries hpc | terminates hpc | overruns hpc =>
    exact quiet _ (by simp [Code.follows_iff, hcode, hpc]) (by simp [hcode, hpc]) (fun _ => rfl) (fun _ _ hf => hf)
      s.peers
  | dispatches hpc =>
    have hdispatch : ∀ c : Command, (Code.handler h).Follows (.handler { h with pc := dispatchPc c }) ∧
        ¬(dispatchPc c).Inside ∧ dispatchPc c ≠ .stopDecrement := by
      intro c
      cases c <;> simp [Code.follows_iff, hpc, dispatchPc]
    rw [← hcode] at hdispatch
    obtain ⟨hfollows, hin, hne⟩ := hdispatch (parse h.buffer x.garbage)
    exact quiet _ hfollows ⟨fun hi => absurd hi hin, by simp [hcode, hpc, hne]⟩ (fun _ => rfl)
      (fun _ _ hf => hf) s.peers
  | locks hlocks hfree =>
    obtain ⟨hfollows, howes⟩ := hlocks.follows
    rw [← hcode] at hfollows howes
    exact locks _ hfollows howes (lock_eq_some.mpr ⟨hfree, rfl⟩)
  | unlocks hunlocks =>
    obtain ⟨hfollows, hin, howes⟩ := hunlocks.follows
    rw [← hcode] at hfollows hin howes
    exact unlocks _ hfollows hin howes
  | closes hpc =>
    exact quiet (.handler { h with pc := .stopLock }) (by simp [Code.follows_iff, hcode, hpc]) (by simp [hcode, hpc])
      (fun _ => rfl) (fun _ _ => open_of_close) s.peers
  | deactivates hpc =>
    have hstep : WorkerStep s k th x _ := deactivates (.handler { h with pc := .stopDecrement })
      (by simp [Code.follows_iff, hcode, hpc]) (by rw [hcode]; exact hpc)
      (by simp [hcode, hpc]) (by simp [hcode, hpc])
    rw [hcode] at hstep
    exact hstep
  | decrements hpc =>
    exact decrements _ (by simp [Code.follows_iff, hcode, hpc]) (by simp [hcode, hpc]) (by simp [hcode, hpc])

lemma check_step {window k : ℕ} {th : Thread} {x : Input} {c : CheckAlive} (hcode : th.code = .check c)
    (hs : check_alive window s k th c x = some t) : WorkerStep s k th x t := by
  cases check_cases hs with
  | setsTimeout hpc | asks hpc =>
    exact quiet _ (by simp [Code.follows_iff, hcode, hpc]) (by simp [hcode, hpc]) (fun _ => rfl) (fun _ _ hf => hf) _
  | locksRecv hpc =>
    exact quiet (.check { c with pc := .sendAlive }) (by simp [Code.follows_iff, hcode, hpc]) (by simp [hcode, hpc])
      (active_update (by rfl)) (fun _ _ hf => hf) s.peers
  | callsRead hpc =>
    let fd := (s.clients c.client_index).socket_fd
    refine ⟨.check { c with pc := .reading (s.fds fd) (s.timeout fd) }, s.clients, s.num_clients,
      s.clients_mutex, s.fds, s.peers, rfl, .keep (fun _ => rfl) ?_ ?_, fun _ _ hf => hf, ?_, ?_, ?_, ?_⟩
    · simp [Code.Inside, CheckPc.Inside]
    · simp [hcode, hpc, Code.owes]
    · rw [hcode]
      exact Iff.rfl
    · rw [hcode]
      exact .inl rfl
    · simp [Code.Committed]
    · simp [hcode, hpc, Code.Committed]
  | @reads conn timeout hpc r hr =>
    obtain ⟨peers, hpeers⟩ := recv_eq hr
    rw [hpeers]
    refine ⟨_, _, _, _, _, _, rfl, .keep (fun _ => rfl) ?_ ?_, fun _ _ hf => hf, ?_, ?_, ?_, ?_⟩
    · simp [Code.Inside, CheckPc.Inside]
    · simp [hcode, hpc, Code.owes]
    · rw [hcode]
      exact Iff.rfl
    · rw [hcode]
      exact .inl rfl
    · exact fun hc => .inr (.inr ⟨c, conn, timeout, r, hcode, hpc, hr, hc⟩)
    · simp [Code.Receives]
  | unlocksRecv hpc =>
    exact quiet (.check { c with pc := .testReceived }) (by simp [Code.follows_iff, hcode, hpc])
      (by simp [hcode, hpc]) (active_update (by rfl)) (fun _ _ hf => hf) s.peers
  | findsDead hpc hle =>
    exact quiet _ (by simp [Code.follows_iff, hcode, hpc, hle]) (by simp [hcode, hpc]) (fun _ => rfl)
      (fun _ _ hf => hf) s.peers
  | findsAlive hpc =>
    exact quiet _ (by simp [Code.follows_iff, hcode, hpc]) (by simp [hcode, hpc]) (fun _ => rfl) (fun _ _ hf => hf)
      s.peers
  | closes hpc =>
    exact quiet (.check { c with pc := .lock }) (by simp [Code.follows_iff, hcode, hpc]) (by simp [hcode, hpc])
      (fun _ => rfl) (fun _ _ => open_of_close) s.peers
  | locks hpc hfree =>
    exact locks _ (by simp [Code.follows_iff, hcode, hpc]) (by simp [hcode, hpc]) (lock_eq_some.mpr ⟨hfree, rfl⟩)
  | deactivates hpc =>
    have hstep : WorkerStep s k th x _ := deactivates (.check { c with pc := .decrement })
      (by simp [Code.follows_iff, hcode, hpc]) (by rw [hcode]; exact hpc)
      (by simp [hcode, hpc]) (by simp [hcode, hpc])
    rw [hcode] at hstep
    exact hstep
  | decrements hpc =>
    exact decrements _ (by simp [Code.follows_iff, hcode, hpc]) (by simp [hcode, hpc]) (by simp [hcode, hpc])
  | unlocks hpc =>
    exact unlocks _ (by simp [Code.follows_iff, hcode, hpc]) (by simp [hcode, hpc]) (by simp [hcode, hpc])

/-- What a step of any worker does. -/
theorem worker_cases {window k : ℕ} {x : Input} (hs : workerStep window s k x = some t) :
    ∃ th, s.threads[k]? = some th ∧ WorkerStep s k th x t := by
  unfold workerStep at hs
  cases hth : s.threads[k]? with
  | none => simp [hth] at hs
  | some th =>
    simp only [hth] at hs
    refine ⟨th, rfl, ?_⟩
    cases hcode : th.code with
    | handler h =>
      simp only [hcode] at hs
      exact handler_step hcode hs
    | check c =>
      simp only [hcode] at hs
      exact check_step hcode hs

lemma get_of_worker {k j : ℕ} {th u : Thread} {x : Input} (hth : s.threads[k]? = some th)
    (hs : WorkerStep s k th x t) (hu : t.threads[j]? = some u) :
    (j = k ∧ ∃ code, u = { th with code := code } ∧ Move s x th.code code) ∨
    (j ≠ k ∧ s.threads[j]? = some u) := by
  obtain ⟨code, clients, num, mutex, fds, peers, rfl, -, -, hmove⟩ := hs
  have hget : (s.threads.set k { th with code := code })[j]? = some u := hu
  by_cases hj : j = k
  · subst hj
    obtain ⟨hlt, -⟩ := List.getElem?_eq_some_iff.mp hth
    rw [List.getElem?_set_self hlt] at hget
    exact .inl ⟨rfl, code, (Option.some.inj hget).symm, hmove⟩
  · rw [List.getElem?_set_ne (Ne.symm hj)] at hget
    exact .inr ⟨hj, hget⟩

/-! ### The mutex -/

def MainPc.Inside : MainPc → Prop
  | .accept | .lock _ | .refuseClose _ => False
  | _ => True

def CheckerPc.Inside : CheckerPc → Prop
  | .loop _ | .create _ | .unlock => True
  | .sleep | .lock => False

/-- The threads between the lock and the unlock of `clients_mutex`. -/
def State.Inside (s : State) : Owner → Prop
  | .main => s.main.Inside
  | .checker => s.checker.Inside
  | .worker k => ∃ th, s.threads[k]? = some th ∧ th.code.Inside

lemma inside_after {k : ℕ} {th : Thread} {code : Code} {clients : Slot → ClientInfo} {num : ℤ}
    {mutex : Option Owner} {fds : ℕ → Option Conn} {peers : Conn → Peer} {o : Owner} (ho : o ≠ .worker k)
    (hin : (s.after k th code clients num mutex fds peers).Inside o) : s.Inside o := by
  cases o with
  | main => exact hin
  | checker => exact hin
  | worker j =>
    have hj : k ≠ j := fun he => ho (by rw [he])
    obtain ⟨u, hu, hin⟩ := hin
    have hget : (s.threads.set k { th with code := code })[j]? = some u := hu
    rw [List.getElem?_set_ne hj] at hget
    exact ⟨u, hget, hin⟩

lemma inside_after_self {k : ℕ} {th : Thread} {code : Code} {clients : Slot → ClientInfo} {num : ℤ}
    {mutex : Option Owner} {fds : ℕ → Option Conn} {peers : Conn → Peer} (hth : s.threads[k]? = some th)
    (hin : (s.after k th code clients num mutex fds peers).Inside (.worker k)) : code.Inside := by
  obtain ⟨u, hu, hin⟩ := hin
  have hget : (s.threads.set k { th with code := code })[k]? = some u := hu
  obtain ⟨hlt, -⟩ := List.getElem?_eq_some_iff.mp hth
  rw [List.getElem?_set_self hlt] at hget
  obtain rfl := Option.some.inj hget
  exact hin

lemma guards_worker {k : ℕ} {th : Thread} {x : Input} (h : Guards s.clients_mutex s.Inside)
    (hth : s.threads[k]? = some th) (hs : WorkerStep s k th x t) : Guards t.clients_mutex t.Inside := by
  obtain ⟨code, clients, num, mutex, fds, peers, rfl, heffect, -, -⟩ := hs
  have hsame : (code.Inside → th.code.Inside) →
      ∀ o, (s.after k th code clients num mutex fds peers).Inside o → s.Inside o := by
    intro himp o hin
    by_cases ho : o = .worker k
    · subst ho
      exact ⟨th, hth, himp (inside_after_self hth hin)⟩
    · exact inside_after ho hin
  cases heffect with
  | keep hactive hin howes => exact h.keep (hsame hin)
  | deactivate hretires hin howes => exact h.keep (hsame fun _ => hin)
  | decrement hin howes => exact h.keep (hsame fun _ => hin)
  | lock hfree howes =>
    rw [hfree] at h
    exact h.lock fun o ho hin => inside_after ho hin
  | unlock hin hout howes =>
    exact h.unlock (i := Owner.worker k) ⟨th, hth, hin⟩ (fun hin' => hout (inside_after_self hth hin'))
      fun o ho hin' => inside_after ho hin'

/-! ### The steps of `main` and `alive_checker` -/

/-- What a step of `main` can be. -/
inductive MainMove (s : State) (x : Input) : State → Prop
  | accepts (hpc : s.main = .accept) (hfd : s.fds x.fd = none) : MainMove s x { s with
      main := .lock x.fd
      fds := Function.update s.fds x.fd (some s.accepted)
      peers := Function.update s.peers s.accepted ⟨[], [], 0, false, false⟩
      accepted := s.accepted + 1 }
  | locks {fd : ℕ} (hpc : s.main = .lock fd) (hfree : s.clients_mutex = none) :
      MainMove s x { s with main := .testCapacity fd, clients_mutex := some .main }
  | full {fd : ℕ} (hpc : s.main = .testCapacity fd) (hnum : (MAX_CLIENTS : ℤ) ≤ s.num_clients) :
      MainMove s x { s with main := .refuse fd }
  | hasRoom {fd : ℕ} (hpc : s.main = .testCapacity fd) (hnum : s.num_clients < MAX_CLIENTS) :
      MainMove s x { s with main := .search fd, i := 0 }
  | refuses {fd : ℕ} (hpc : s.main = .refuse fd) :
      MainMove s x { s with main := .refuseClose fd, clients_mutex := none }
  | closes {fd : ℕ} (hpc : s.main = .refuseClose fd) :
      MainMove s x { s with main := .accept, fds := Function.update s.fds fd none }
  | skips {fd : ℕ} (hpc : s.main = .search fd) (hi : s.i < MAX_CLIENTS)
      (hactive : (s.clients ⟨s.i, hi⟩).active = true) : MainMove s x { s with i := s.i + 1 }
  | finds {fd : ℕ} (hpc : s.main = .search fd) (hi : s.i < MAX_CLIENTS)
      (hactive : (s.clients ⟨s.i, hi⟩).active = false) : MainMove s x { s with main := .setFd fd ⟨s.i, hi⟩ }
  | findsNone {fd : ℕ} (hpc : s.main = .search fd) (hi : ¬s.i < MAX_CLIENTS) :
      MainMove s x { s with main := .unlock }
  | setsFd {fd : ℕ} {slot : Slot} (hpc : s.main = .setFd fd slot) : MainMove s x { s with
      main := .recvName fd slot
      clients := Function.update s.clients slot { s.clients slot with socket_fd := fd }
      occupant := Function.update s.occupant slot (some (s.accepted - 1)) }
  | callsRecv {fd : ℕ} {slot : Slot} (hpc : s.main = .recvName fd slot) :
      MainMove s x { s with main := .receivingName (s.fds fd) (s.timeout fd) slot }
  | receives {conn : Option Conn} {timeout : Bool} {slot : Slot} (hpc : s.main = .receivingName conn timeout slot)
      (name : Name) (peers : Conn → Peer) : MainMove s x { s with
      main := .setActive slot
      clients := Function.update s.clients slot { s.clients slot with name := name }
      peers := peers }
  | activates {slot : Slot} (hpc : s.main = .setActive slot) : MainMove s x { s with
      main := .initMutex slot
      clients := Function.update s.clients slot { s.clients slot with active := true } }
  | initsMutex {slot : Slot} (hpc : s.main = .initMutex slot) : MainMove s x { s with
      main := .increment slot
      clients := Function.update s.clients slot { s.clients slot with recv_mutex := none } }
  | increments {slot : Slot} (hpc : s.main = .increment slot) :
      MainMove s x { s with main := .create slot, num_clients := s.num_clients + 1 }
  | creates {slot : Slot} (hpc : s.main = .create slot) : MainMove s x { s with
      main := .unlock
      threads := s.threads ++
        [⟨(s.occupant slot).getD 0, slot, .handler ⟨.start, slot, [], x.memory, 0⟩⟩] }
  | unlocks (hpc : s.main = .unlock) : MainMove s x { s with main := .accept, clients_mutex := none }

lemma main_cases {x : Input} (hs : mainStep s x = some t) : MainMove s x t := by
  cases hpc : s.main with
  | accept =>
    simp only [mainStep, hpc] at hs
    split at hs
    · next hfd =>
      cases hs
      exact .accepts hpc hfd
    · cases hs
  | lock fd =>
    simp only [mainStep, hpc] at hs
    obtain ⟨hfree, rfl⟩ := lock_eq_some.mp hs
    exact .locks hpc hfree
  | testCapacity fd =>
    simp only [mainStep, hpc] at hs
    split at hs
    · next hnum =>
      cases hs
      exact .full hpc hnum
    · next hnum =>
      cases hs
      exact .hasRoom hpc (not_le.mp hnum)
  | refuse fd =>
    simp only [mainStep, hpc, Option.some.injEq] at hs
    subst hs
    exact .refuses hpc
  | refuseClose fd =>
    simp only [mainStep, hpc, Option.some.injEq] at hs
    subst hs
    exact .closes hpc
  | search fd =>
    simp only [mainStep, hpc] at hs
    split at hs
    · next hi =>
      split at hs
      · next hactive =>
        cases hs
        have hmove := MainMove.skips (x := x) hpc hi hactive
        rw [← hpc]
        exact hmove
      · next hactive =>
        cases hs
        exact .finds hpc hi (by simpa using hactive)
    · next hi =>
      cases hs
      exact .findsNone hpc hi
  | setFd fd slot =>
    simp only [mainStep, hpc, Option.some.injEq] at hs
    subst hs
    exact .setsFd hpc
  | recvName fd slot =>
    simp only [mainStep, hpc, Option.some.injEq] at hs
    subst hs
    exact .callsRecv hpc
  | receivingName conn timeout slot =>
    simp only [mainStep, hpc, Option.map_eq_some_iff] at hs
    obtain ⟨r, hr, rfl⟩ := hs
    obtain ⟨peers, hpeers⟩ := recv_eq hr
    rw [hpeers]
    exact .receives hpc _ peers
  | setActive slot =>
    simp only [mainStep, hpc, Option.some.injEq] at hs
    subst hs
    exact .activates hpc
  | initMutex slot =>
    simp only [mainStep, hpc, Option.some.injEq] at hs
    subst hs
    exact .initsMutex hpc
  | increment slot =>
    simp only [mainStep, hpc, Option.some.injEq] at hs
    subst hs
    exact .increments hpc
  | create slot =>
    simp only [mainStep, hpc, Option.some.injEq] at hs
    subst hs
    exact .creates hpc
  | unlock =>
    simp only [mainStep, hpc, Option.some.injEq] at hs
    subst hs
    exact .unlocks hpc

/-- What a step of `alive_checker` can be. -/
inductive CheckerMove (s : State) : State → Prop
  | wakes (hpc : s.checker = .sleep) : CheckerMove s { s with checker := .lock }
  | locks (hpc : s.checker = .lock) (hfree : s.clients_mutex = none) :
      CheckerMove s { s with checker := .loop 0, clients_mutex := some .checker }
  | finds {i : ℕ} (hpc : s.checker = .loop i) (hi : i < MAX_CLIENTS)
      (hactive : (s.clients ⟨i, hi⟩).active = true) :
      CheckerMove s { s with checker := .create ⟨i, hi⟩ }
  | skips {i : ℕ} (hpc : s.checker = .loop i) : CheckerMove s { s with checker := .loop (i + 1) }
  | ends {i : ℕ} (hpc : s.checker = .loop i) : CheckerMove s { s with checker := .unlock }
  | creates {slot : Slot} (hpc : s.checker = .create slot) : CheckerMove s { s with
      checker := .loop (slot + 1)
      threads := s.threads ++ [⟨(s.occupant slot).getD 0, slot, .check ⟨.setTimeout, slot, 0⟩⟩] }
  | unlocks (hpc : s.checker = .unlock) : CheckerMove s { s with checker := .sleep, clients_mutex := none }

lemma checker_cases (hs : alive_checker s = some t) : CheckerMove s t := by
  cases hpc : s.checker with
  | sleep =>
    simp only [alive_checker, hpc, Option.some.injEq] at hs
    subst hs
    exact .wakes hpc
  | lock =>
    simp only [alive_checker, hpc] at hs
    obtain ⟨hfree, rfl⟩ := lock_eq_some.mp hs
    exact .locks hpc hfree
  | loop i =>
    simp only [alive_checker, hpc] at hs
    split at hs
    · next hi =>
      split at hs
      · next hactive =>
        cases hs
        exact .finds hpc hi hactive
      · cases hs
        exact .skips hpc
    · cases hs
      exact .ends hpc
  | create slot =>
    simp only [alive_checker, hpc, Option.some.injEq] at hs
    subst hs
    exact .creates hpc
  | unlock =>
    simp only [alive_checker, hpc, Option.some.injEq] at hs
    subst hs
    exact .unlocks hpc

/-- What a step can be; a peer touches its own end only. -/
theorem step_cases {window : ℕ} {a : Action} (hs : step window s a = some t) :
    (∃ x, a = .main x ∧ MainMove s x t) ∨ (a = .checker ∧ CheckerMove s t) ∨
    (∃ k x th, a = .worker k x ∧ s.threads[k]? = some th ∧ WorkerStep s k th x t) ∨
    ∃ peers, t = { s with peers := peers } := by
  cases a with
  | main x => exact .inl ⟨x, rfl, main_cases hs⟩
  | checker => exact .inr (.inl ⟨rfl, checker_cases hs⟩)
  | worker k x =>
    obtain ⟨th, hth, hw⟩ := worker_cases hs
    exact .inr (.inr (.inl ⟨k, x, th, rfl, hth, hw⟩))
  | peerSend c bytes =>
    simp only [step] at hs
    split at hs
    · cases hs
    · cases hs
      exact .inr (.inr (.inr ⟨_, rfl⟩))
  | peerRead c | peerClose c =>
    simp only [step, Option.some.injEq] at hs
    subst hs
    exact .inr (.inr (.inr ⟨_, rfl⟩))

lemma get_append {th u : Thread} {threads : List Thread} {k : ℕ} (h : (threads ++ [th])[k]? = some u) :
    threads[k]? = some u ∨ (k = threads.length ∧ u = th) := by
  by_cases hk : k < threads.length
  · rw [List.getElem?_append_left hk] at h
    exact .inl h
  · have hlast := h
    rw [List.getElem?_append_right (by omega)] at hlast
    have hlt := (List.getElem?_eq_some_iff.mp h).1
    rw [List.length_append, List.length_singleton] at hlt
    exact .inr ⟨by omega, List.mem_singleton.mp (List.mem_of_getElem? hlast)⟩

lemma inside_append {th : Thread} (hth : ¬th.code.Inside) {k : ℕ}
    (hin : ∃ u, (s.threads ++ [th])[k]? = some u ∧ u.code.Inside) :
    ∃ u, s.threads[k]? = some u ∧ u.code.Inside := by
  obtain ⟨u, hu, hin⟩ := hin
  rcases get_append hu with hold | ⟨-, rfl⟩
  · exact ⟨u, hold, hin⟩
  · exact absurd hin hth

lemma guards_main {x : Input} (h : Guards s.clients_mutex s.Inside) (hs : MainMove s x t) :
    Guards t.clients_mutex t.Inside := by
  have hkeep : ∀ u : State, u.clients_mutex = s.clients_mutex → u.checker = s.checker → u.threads = s.threads →
      (u.main.Inside → s.main.Inside) → Guards u.clients_mutex u.Inside := by
    intro u hmutex hchecker hthreads hmain
    rw [hmutex]
    refine h.keep fun o hin => ?_
    cases o with
    | main => exact hmain hin
    | checker =>
      rw [State.Inside, hchecker] at hin
      exact hin
    | worker k =>
      rw [State.Inside, hthreads] at hin
      exact hin
  have hother : ∀ u : State, u.checker = s.checker → u.threads = s.threads →
      ∀ o, o ≠ Owner.main → u.Inside o → s.Inside o := by
    intro u hchecker hthreads o ho hin
    cases o with
    | main => exact absurd rfl ho
    | checker =>
      rw [State.Inside, hchecker] at hin
      exact hin
    | worker k =>
      rw [State.Inside, hthreads] at hin
      exact hin
  cases hs with
  | accepts hpc | closes hpc => exact hkeep _ rfl rfl rfl fun hin => hin.elim
  | full hpc | hasRoom hpc | finds hpc | findsNone hpc | setsFd hpc | callsRecv hpc | receives hpc | activates hpc
  | initsMutex hpc | increments hpc =>
    refine hkeep _ rfl rfl rfl fun _ => ?_
    rw [hpc]
    trivial
  | skips hpc => exact hkeep _ rfl rfl rfl id
  | locks hpc hfree =>
    rw [hfree] at h
    exact h.lock (hother _ rfl rfl)
  | refuses hpc | unlocks hpc =>
    refine h.unlock (i := Owner.main) ?_ (fun hin => hin) (hother _ rfl rfl)
    rw [State.Inside, hpc]
    trivial
  | creates hpc =>
    refine h.keep fun o hin => ?_
    cases o with
    | main =>
      rw [State.Inside, hpc]
      trivial
    | checker => exact hin
    | worker k =>
      refine inside_append ?_ hin
      exact fun hin => hin

lemma guards_checker (h : Guards s.clients_mutex s.Inside) (hs : CheckerMove s t) :
    Guards t.clients_mutex t.Inside := by
  have hkeep : ∀ pc : CheckerPc, (pc.Inside → s.checker.Inside) →
      Guards s.clients_mutex { s with checker := pc }.Inside := by
    intro pc hpc
    refine h.keep fun o hin => ?_
    cases o with
    | main => exact hin
    | checker => exact hpc hin
    | worker k => exact hin
  have hother : ∀ (pc : CheckerPc) (m : Option Owner), ∀ o, o ≠ Owner.checker →
      State.Inside { s with checker := pc, clients_mutex := m } o → s.Inside o := by
    intro pc m o ho hin
    cases o with
    | main => exact hin
    | checker => exact absurd rfl ho
    | worker k => exact hin
  cases hs with
  | wakes hpc => exact hkeep _ fun hin => hin.elim
  | finds hpc | skips hpc | ends hpc =>
    refine hkeep _ fun _ => ?_
    rw [hpc]
    trivial
  | locks hpc hfree =>
    rw [hfree] at h
    exact h.lock (hother _ _)
  | unlocks hpc =>
    refine h.unlock (i := Owner.checker) ?_ (fun hin => hin) (hother _ _)
    rw [State.Inside, hpc]
    trivial
  | creates hpc =>
    refine h.keep fun o hin => ?_
    cases o with
    | main => exact hin
    | checker =>
      rw [State.Inside, hpc]
      trivial
    | worker k =>
      refine inside_append ?_ hin
      exact fun hin => hin

lemma Started.guards (h : Started s) : Guards s.clients_mutex s.Inside := by
  intro o hin
  cases o with
  | main =>
    rw [State.Inside, h.main] at hin
    exact hin.elim
  | checker =>
    rw [State.Inside, h.checker] at hin
    exact hin.elim
  | worker k =>
    obtain ⟨th, hth, -⟩ := hin
    rw [h.threads] at hth
    cases hth

theorem guards_step {window : ℕ} {a : Action} (h : Guards s.clients_mutex s.Inside) (hs : step window s a = some t) :
    Guards t.clients_mutex t.Inside := by
  obtain ⟨x, -, hm⟩ | ⟨-, hc⟩ | ⟨k, x, th, -, hth, hw⟩ | ⟨peers, rfl⟩ := step_cases hs
  · exact guards_main h hm
  · exact guards_checker h hc
  · exact guards_worker h hth hw
  · refine h.keep fun o hin => ?_
    cases o with
    | main | checker | worker => exact hin

end SystemyOperacyjne.ChatServer
