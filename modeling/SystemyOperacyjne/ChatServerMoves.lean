import SystemyOperacyjne.ChatServer

/-!
# The statements of the chat server's worker threads

What a step of a `client_handler` or a `check_alive` thread can be.
-/

namespace SystemyOperacyjne.ChatServer
open Concurrency CString

variable {s t : State}

/-- What the peers have sent stays, and so does who has closed. -/
def SameIncoming (peers peers' : Conn → Peer) : Prop :=
  ∀ c, (peers' c).inbox = (peers c).inbox ∧ (peers' c).closed = (peers c).closed

lemma SameIncoming.refl (peers : Conn → Peer) : SameIncoming peers peers :=
  fun _ => ⟨rfl, rfl⟩

lemma sameIncoming_update {peers : Conn → Peer} {c : Conn} {p : Peer} (hinbox : p.inbox = (peers c).inbox)
    (hclosed : p.closed = (peers c).closed) : SameIncoming peers (Function.update peers c p) := by
  intro d
  by_cases hd : d = c
  · subst hd
    simp [hinbox, hclosed]
  · simp [Function.update_of_ne hd]

lemma setsockopt_eq (s : State) (fd : ℕ) :
    ∃ peers, s.setsockopt fd = { s with peers := peers } ∧ SameIncoming s.peers peers := by
  unfold State.setsockopt
  split
  · exact ⟨_, rfl, sameIncoming_update rfl rfl⟩
  · exact ⟨s.peers, rfl, .refl _⟩

lemma send_eq {window : ℕ} {sigpipe : Bool} {fd : ℕ} {text : List UInt8} (h : s.send window sigpipe fd text = some t) :
    ∃ peers, t = { s with peers := peers } ∧ SameIncoming s.peers peers := by
  simp only [State.send] at h
  split at h
  · cases h
    exact ⟨s.peers, rfl, .refl _⟩
  · split at h
    · split at h
      · cases h
      · cases h
        exact ⟨s.peers, rfl, .refl _⟩
    · split at h
      · cases h
        exact ⟨_, rfl, sameIncoming_update rfl rfl⟩
      · cases h

lemma recv_cases {conn : Option Conn} {timeout : Bool} {size count : ℕ} {r : ℤ × List UInt8 × State}
    (h : s.recv conn timeout size count = some r) : (r = (-1, [], s) ∨ r = (0, [], s)) ∨
      ∃ c, conn = some c ∧ count ≠ 0 ∧ count ≤ (s.peers c).inbox.length ∧ r = ((count : ℤ), (s.peers c).inbox.take count,
        s.setPeer c { s.peers c with inbox := (s.peers c).inbox.drop count }) := by
  simp only [State.recv] at h
  split at h
  · cases h
    exact .inl (.inl rfl)
  · next c =>
    split at h
    · split at h
      · cases h
      · split at h
        · cases h
          exact .inl (.inr rfl)
        · split at h
          · cases h
            exact .inl (.inl rfl)
          · cases h
    · next hcount =>
      split at h
      · next hfits =>
        cases h
        exact .inr ⟨c, rfl, hcount, hfits.2, rfl⟩
      · cases h

lemma recv_eq {conn : Option Conn} {timeout : Bool} {size count : ℕ} {r : ℤ × List UInt8 × State}
    (h : s.recv conn timeout size count = some r) : ∃ peers, r.2.2 = { s with peers := peers } := by
  obtain (rfl | rfl) | ⟨c, -, -, -, rfl⟩ := recv_cases h
  · exact ⟨s.peers, rfl⟩
  · exact ⟨s.peers, rfl⟩
  · exact ⟨_, rfl⟩

lemma lock_eq_some {o : Owner} :
    s.lock o = some t ↔ s.clients_mutex = none ∧ { s with clients_mutex := some o } = t := by
  unfold State.lock
  by_cases h : s.clients_mutex = none
  · simp [h]
  · simp [h]

/-! ### The handler -/

/-- Where a handler goes when it takes `clients_mutex`. -/
inductive HandlerPc.Locks : HandlerPc → HandlerPc → Prop
  | relay {r : Option (List UInt8)} {message : List UInt8} : Locks (.relayLock r message) (.relay r message 0)
  | list : Locks .listLock (.listing listHeader 0)
  | stop : Locks .stopLock .stopDeactivate

/-- Where a handler goes when it gives `clients_mutex` back. -/
inductive HandlerPc.Unlocks : HandlerPc → HandlerPc → Prop
  | relay : Unlocks .relayUnlock .setTimeout
  | list {text : List UInt8} : Unlocks (.listUnlock text) (.listSend text)
  | stop : Unlocks .stopUnlock .ended

/-- Where a handler goes that touches neither the slots nor a mutex, and receives nothing. -/
inductive HandlerPc.Goes : HandlerPc → HandlerPc → Prop
  | timeout : Goes .setTimeout .lockRecv
  | relay {r r' : Option (List UInt8)} {message : List UInt8} {i : ℕ} : Goes (.relay r message i) (.relay r' message (i + 1))
  | relayed {r : Option (List UInt8)} {message : List UInt8} {i : ℕ} : Goes (.relay r message i) .relayUnlock
  | relayFault {r : Option (List UInt8)} {message : List UInt8} {i : ℕ} : Goes (.relay r message i) .fault
  | list {text text' : List UInt8} {i : ℕ} : Goes (.listing text i) (.listing text' (i + 1))
  | listed {text : List UInt8} {i : ℕ} : Goes (.listing text i) (.listUnlock text)
  | listFault {text : List UInt8} {i : ℕ} : Goes (.listing text i) .fault
  | answered {text : List UInt8} : Goes (.listSend text) .setTimeout
  | startFault : Goes .start .fault
  | nameFault : Goes .copyName .fault

def State.handlerAt (s : State) (k : ℕ) (th : Thread) (h : Handler) (pc : HandlerPc) : State :=
  s.setThread k { th with code := .handler { h with pc := pc } }

/-- What a step of a handler can be. -/
inductive HandlerMove (s : State) (k : ℕ) (th : Thread) (h : Handler) (x : Input) : State → Prop
  | starts (hpc : h.pc = .start) (hi : s.i < MAX_CLIENTS) : HandlerMove s k th h x
      (s.setThread k { th with code := .handler { h with pc := .copyName, client_index := ⟨s.i, hi⟩ } })
  | copiesName (hpc : h.pc = .copyName) {name : List UInt8} (hname : stringAt (s.clients h.client_index).name 0 = some name) :
      HandlerMove s k th h x (s.setThread k { th with code := .handler { h with pc := .setTimeout, client_name := name } })
  | goes {pc : HandlerPc} (hgoes : h.pc.Goes pc) {peers : Conn → Peer} (hpeers : SameIncoming s.peers peers) :
      HandlerMove s k th h x { s.handlerAt k th h pc with peers := peers }
  | locksRecv (hpc : h.pc = .lockRecv) (hfree : (s.clients h.client_index).recv_mutex = none) : HandlerMove s k th h x
      ((s.handlerAt k th h .recv).setClient h.client_index { s.clients h.client_index with recv_mutex := some k })
  | callsRecv (hpc : h.pc = .recv) :
      HandlerMove s k th h x (s.handlerAt k th h (.receiving (s.fds (s.clients h.client_index).socket_fd)
        (s.timeout (s.clients h.client_index).socket_fd)))
  | receives {conn : Option Conn} {timeout : Bool} (hpc : h.pc = .receiving conn timeout) {r : ℤ × List UInt8 × State}
      (hr : s.recv conn timeout BUFFER_SIZE x.count = some r) : HandlerMove s k th h x (r.2.2.setThread k { th with
        code := .handler { h with pc := .unlockRecv, bytes_received := r.1, buffer := overwrite h.buffer r.2.1 } })
  | unlocksRecv (hpc : h.pc = .unlockRecv) : HandlerMove s k th h x
      ((s.handlerAt k th h .testActive).setClient h.client_index { s.clients h.client_index with recv_mutex := none })
  | staysActive (hpc : h.pc = .testActive) (hactive : (s.clients h.client_index).active = true) :
      HandlerMove s k th h x (s.handlerAt k th h .testReceived)
  | leaves (hpc : h.pc = .testActive) (hactive : (s.clients h.client_index).active = false) :
      HandlerMove s k th h x (s.handlerAt k th h .ended)
  | retries (hpc : h.pc = .testReceived) (hnone : h.bytes_received = -1) :
      HandlerMove s k th h x (s.handlerAt k th h .setTimeout)
  | terminates (hpc : h.pc = .testReceived) (hsome : h.bytes_received ≠ -1) {buffer : Buffer}
      (hbuffer : terminate h.buffer h.bytes_received = some buffer) : HandlerMove s k th h x
      (s.setThread k { th with code := .handler { h with pc := .dispatch, buffer := buffer } })
  | overruns (hpc : h.pc = .testReceived) (hsome : h.bytes_received ≠ -1)
      (hbuffer : terminate h.buffer h.bytes_received = none) : HandlerMove s k th h x (s.handlerAt k th h .fault)
  | dispatches (hpc : h.pc = .dispatch) :
      HandlerMove s k th h x (s.handlerAt k th h (dispatchPc (parse h.buffer x.garbage)))
  | locks {pc : HandlerPc} (hlocks : h.pc.Locks pc) (hfree : s.clients_mutex = none) :
      HandlerMove s k th h x { s.handlerAt k th h pc with clients_mutex := some (.worker k) }
  | unlocks {pc : HandlerPc} (hunlocks : h.pc.Unlocks pc) :
      HandlerMove s k th h x { s.handlerAt k th h pc with clients_mutex := none }
  | closes (hpc : h.pc = .stopClose) :
      HandlerMove s k th h x ((s.handlerAt k th h .stopLock).close (s.clients h.client_index).socket_fd)
  | deactivates (hpc : h.pc = .stopDeactivate) : HandlerMove s k th h x
      ((s.handlerAt k th h .stopDecrement).setClient h.client_index { s.clients h.client_index with active := false })
  | decrements (hpc : h.pc = .stopDecrement) :
      HandlerMove s k th h x { s.handlerAt k th h .stopUnlock with num_clients := s.num_clients - 1 }

variable {window k : ℕ} {th : Thread} {x : Input}

lemma HandlerMove.goesQuietly {h : Handler} {pc : HandlerPc} (hgoes : h.pc.Goes pc) :
    HandlerMove s k th h x (s.handlerAt k th h pc) :=
  .goes hgoes (.refl s.peers)

lemma relay_cases {h : Handler} {r : Option (List UInt8)} {message : List UInt8} {i : ℕ}
    (hpc : h.pc = .relay r message i) (hs : relayStep window s (s.handlerAt k th h) r h.client_name message x i = some t) :
    HandlerMove s k th h x t := by
  have hnext : HandlerMove s k th h x (s.handlerAt k th h (.relay r message (i + 1))) :=
    .goesQuietly (by rw [hpc]; exact .relay)
  have hfault : HandlerMove s k th h x (s.handlerAt k th h .fault) :=
    .goesQuietly (by rw [hpc]; exact .relayFault)
  have hends : HandlerMove s k th h x (s.handlerAt k th h .relayUnlock) :=
    .goesQuietly (by rw [hpc]; exact .relayed)
  simp only [relayStep] at hs
  split at hs
  · split at hs
    · split at hs
      · cases hs
        exact hfault
      · split at hs
        · split at hs
          · cases hs
            exact hfault
          · obtain ⟨peers, rfl, hpeers⟩ := send_eq hs
            refine .goes ?_ hpeers
            rw [hpc]
            split
            · exact .relay
            · exact .relayed
        · cases hs
          exact hnext
    · cases hs
      exact hnext
  · cases hs
    exact hends

lemma list_cases {h : Handler} {text : List UInt8} {i : ℕ} (hpc : h.pc = .listing text i) :
    HandlerMove s k th h x (listStep s (s.handlerAt k th h) text i) := by
  simp only [listStep]
  split
  · split
    · split
      · exact .goesQuietly (by rw [hpc]; exact .listFault)
      · exact .goesQuietly (by rw [hpc]; exact .list)
    · exact .goesQuietly (by rw [hpc]; exact .list)
  · exact .goesQuietly (by rw [hpc]; exact .listed)

theorem handler_cases {h : Handler} (hs : client_handler window s k th h x = some t) : HandlerMove s k th h x t := by
  have hlock : ∀ {pc : HandlerPc}, h.pc.Locks pc → (s.handlerAt k th h pc).lock (.worker k) = some t →
      HandlerMove s k th h x t := by
    intro pc hlocks hl
    obtain ⟨hfree, rfl⟩ := lock_eq_some.mp hl
    exact .locks hlocks hfree
  cases hpc : h.pc with
  | start =>
    simp only [client_handler, hpc] at hs
    split at hs
    · next hi =>
      cases hs
      exact .starts hpc hi
    · cases hs
      exact .goesQuietly (by rw [hpc]; exact .startFault)
  | copyName =>
    simp only [client_handler, hpc] at hs
    split at hs
    · next hname =>
      cases hs
      exact .copiesName hpc hname
    · cases hs
      exact .goesQuietly (by rw [hpc]; exact .nameFault)
  | setTimeout =>
    simp only [client_handler, hpc, Option.some.injEq] at hs
    obtain ⟨peers, hset, hpeers⟩ := setsockopt_eq (s.handlerAt k th h .lockRecv) (s.clients h.client_index).socket_fd
    have ht : { s.handlerAt k th h .lockRecv with peers := peers } = t := hset.symm.trans hs
    subst ht
    exact .goes (by rw [hpc]; exact .timeout) hpeers
  | lockRecv =>
    simp only [client_handler, hpc] at hs
    split at hs
    · next hfree =>
      cases hs
      exact .locksRecv hpc hfree
    · cases hs
  | recv =>
    simp only [client_handler, hpc, Option.some.injEq] at hs
    subst hs
    exact .callsRecv hpc
  | receiving conn timeout =>
    simp only [client_handler, hpc, Option.map_eq_some_iff] at hs
    obtain ⟨r, hr, rfl⟩ := hs
    exact .receives hpc hr
  | unlockRecv =>
    simp only [client_handler, hpc, Option.some.injEq] at hs
    subst hs
    exact .unlocksRecv hpc
  | testActive =>
    simp only [client_handler, hpc] at hs
    split at hs
    · next hactive =>
      cases hs
      exact .staysActive hpc hactive
    · next hactive =>
      cases hs
      exact .leaves hpc (Bool.eq_false_of_not_eq_true hactive)
  | testReceived =>
    simp only [client_handler, hpc] at hs
    split at hs
    · next hnone =>
      cases hs
      exact .retries hpc hnone
    · next hsome =>
      split at hs
      · next hbuffer =>
        cases hs
        exact .terminates hpc hsome hbuffer
      · next hbuffer =>
        cases hs
        exact .overruns hpc hsome hbuffer
  | dispatch =>
    simp only [client_handler, hpc, Option.some.injEq] at hs
    subst hs
    exact .dispatches hpc
  | relayLock r message =>
    simp only [client_handler, hpc] at hs
    exact hlock (by rw [hpc]; exact .relay) hs
  | relay r message i =>
    simp only [client_handler, hpc] at hs
    exact relay_cases hpc hs
  | relayUnlock =>
    simp only [client_handler, hpc, Option.some.injEq] at hs
    subst hs
    exact .unlocks (by rw [hpc]; exact .relay)
  | listLock =>
    simp only [client_handler, hpc] at hs
    exact hlock (by rw [hpc]; exact .list) hs
  | listing list_message i =>
    simp only [client_handler, hpc, Option.some.injEq] at hs
    subst hs
    exact list_cases hpc
  | listUnlock list_message =>
    simp only [client_handler, hpc, Option.some.injEq] at hs
    subst hs
    exact .unlocks (by rw [hpc]; exact .list)
  | listSend list_message =>
    simp only [client_handler, hpc] at hs
    obtain ⟨peers, rfl, hpeers⟩ := send_eq hs
    exact .goes (by rw [hpc]; exact .answered) hpeers
  | stopClose =>
    simp only [client_handler, hpc, Option.some.injEq] at hs
    subst hs
    exact .closes hpc
  | stopLock =>
    simp only [client_handler, hpc] at hs
    exact hlock (by rw [hpc]; exact .stop) hs
  | stopDeactivate =>
    simp only [client_handler, hpc, Option.some.injEq] at hs
    subst hs
    exact .deactivates hpc
  | stopDecrement =>
    simp only [client_handler, hpc, Option.some.injEq] at hs
    subst hs
    exact .decrements hpc
  | stopUnlock =>
    simp only [client_handler, hpc, Option.some.injEq] at hs
    subst hs
    exact .unlocks (by rw [hpc]; exact .stop)
  | ended | fault => simp [client_handler, hpc] at hs

/-! ### The liveness check -/

def State.checkAt (s : State) (k : ℕ) (th : Thread) (c : CheckAlive) (pc : CheckPc) : State :=
  s.setThread k { th with code := .check { c with pc := pc } }

/-- What a step of a liveness check can be. -/
inductive CheckMove (s : State) (k : ℕ) (th : Thread) (c : CheckAlive) (x : Input) : State → Prop
  | setsTimeout (hpc : c.pc = .setTimeout) {peers : Conn → Peer} (hpeers : SameIncoming s.peers peers) :
      CheckMove s k th c x { s.checkAt k th c .lockRecv with peers := peers }
  | locksRecv (hpc : c.pc = .lockRecv) (hfree : (s.clients c.client_index).recv_mutex = none) : CheckMove s k th c x
      ((s.checkAt k th c .sendAlive).setClient c.client_index { s.clients c.client_index with recv_mutex := some k })
  | asks (hpc : c.pc = .sendAlive) {peers : Conn → Peer} (hpeers : SameIncoming s.peers peers) :
      CheckMove s k th c x { s.checkAt k th c .read with peers := peers }
  | callsRead (hpc : c.pc = .read) :
      CheckMove s k th c x (s.checkAt k th c (.reading (s.fds (s.clients c.client_index).socket_fd)
        (s.timeout (s.clients c.client_index).socket_fd)))
  | reads {conn : Option Conn} {timeout : Bool} (hpc : c.pc = .reading conn timeout) {r : ℤ × List UInt8 × State}
      (hr : s.recv conn timeout BUFFER_SIZE x.count = some r) : CheckMove s k th c x
      (r.2.2.setThread k { th with code := .check { c with pc := .unlockRecv, bytes_received := r.1 } })
  | unlocksRecv (hpc : c.pc = .unlockRecv) : CheckMove s k th c x
      ((s.checkAt k th c .testReceived).setClient c.client_index { s.clients c.client_index with recv_mutex := none })
  | findsDead (hpc : c.pc = .testReceived) (hle : c.bytes_received ≤ 0) : CheckMove s k th c x (s.checkAt k th c .close)
  | findsAlive (hpc : c.pc = .testReceived) (hpos : 0 < c.bytes_received) : CheckMove s k th c x (s.checkAt k th c .ended)
  | closes (hpc : c.pc = .close) :
      CheckMove s k th c x ((s.checkAt k th c .lock).close (s.clients c.client_index).socket_fd)
  | locks (hpc : c.pc = .lock) (hfree : s.clients_mutex = none) :
      CheckMove s k th c x { s.checkAt k th c .deactivate with clients_mutex := some (.worker k) }
  | deactivates (hpc : c.pc = .deactivate) : CheckMove s k th c x
      ((s.checkAt k th c .decrement).setClient c.client_index { s.clients c.client_index with active := false })
  | decrements (hpc : c.pc = .decrement) :
      CheckMove s k th c x { s.checkAt k th c .unlock with num_clients := s.num_clients - 1 }
  | unlocks (hpc : c.pc = .unlock) : CheckMove s k th c x { s.checkAt k th c .ended with clients_mutex := none }

theorem check_cases {c : CheckAlive} (hs : check_alive window s k th c x = some t) : CheckMove s k th c x t := by
  cases hpc : c.pc with
  | setTimeout =>
    simp only [check_alive, hpc, Option.some.injEq] at hs
    obtain ⟨peers, hset, hpeers⟩ := setsockopt_eq (s.checkAt k th c .lockRecv) (s.clients c.client_index).socket_fd
    have ht : { s.checkAt k th c .lockRecv with peers := peers } = t := hset.symm.trans hs
    subst ht
    exact .setsTimeout hpc hpeers
  | lockRecv =>
    simp only [check_alive, hpc] at hs
    split at hs
    · next hfree =>
      cases hs
      exact .locksRecv hpc hfree
    · cases hs
  | sendAlive =>
    simp only [check_alive, hpc] at hs
    obtain ⟨peers, rfl, hpeers⟩ := send_eq hs
    exact .asks hpc hpeers
  | read =>
    simp only [check_alive, hpc, Option.some.injEq] at hs
    subst hs
    exact .callsRead hpc
  | reading conn timeout =>
    simp only [check_alive, hpc, Option.map_eq_some_iff] at hs
    obtain ⟨r, hr, rfl⟩ := hs
    exact .reads hpc hr
  | unlockRecv =>
    simp only [check_alive, hpc, Option.some.injEq] at hs
    subst hs
    exact .unlocksRecv hpc
  | testReceived =>
    simp only [check_alive, hpc] at hs
    split at hs
    · next hle =>
      cases hs
      exact .findsDead hpc hle
    · next hpos =>
      cases hs
      exact .findsAlive hpc (not_le.mp hpos)
  | close =>
    simp only [check_alive, hpc, Option.some.injEq] at hs
    subst hs
    exact .closes hpc
  | lock =>
    simp only [check_alive, hpc] at hs
    obtain ⟨hfree, rfl⟩ := lock_eq_some.mp hs
    exact .locks hpc hfree
  | deactivate =>
    simp only [check_alive, hpc, Option.some.injEq] at hs
    subst hs
    exact .deactivates hpc
  | decrement =>
    simp only [check_alive, hpc, Option.some.injEq] at hs
    subst hs
    exact .decrements hpc
  | unlock =>
    simp only [check_alive, hpc, Option.some.injEq] at hs
    subst hs
    exact .unlocks hpc
  | ended => simp [check_alive, hpc] at hs

end SystemyOperacyjne.ChatServer
