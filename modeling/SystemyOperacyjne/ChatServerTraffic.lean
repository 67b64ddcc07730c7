import SystemyOperacyjne.ChatServerRegistration

/-!
# The order of the relays

Every 2ALL and 2ONE is relayed in a section of `clients_mutex`. The sections are numbered as the
mutex is taken, and each text that is sent is marked with the number of its section. On every
connection the marks are in order.
-/

namespace SystemyOperacyjne.ChatServer
open Concurrency CString

variable {window : ℕ} {s t : State}

/-- A section of `clients_mutex` in which a message is relayed. -/
structure Relay where
  thread : ℕ
  sender_name : List UInt8
  message : List UInt8

/-- A text that was sent, and the number of the relay it belongs to, if it belongs to one. -/
structure Sent where
  relay : Option ℕ
  text : List UInt8

/-- The server with a record of its relays: all that have begun, in the order in which they took
`clients_mutex`, the number of the last one of each thread, and what was sent to each peer. -/
structure Traffic where
  state : State
  relays : List Relay
  number : ℕ → ℕ
  sent : Conn → List Sent

/-- The relay that begins when this action takes `clients_mutex`. -/
def State.begins (s : State) : Action → Option Relay
  | .worker k _ =>
    match s.threads[k]? with
    | some ⟨_, _, .handler h⟩ =>
      match h.pc with
      | .relayLock _ message => some ⟨k, h.client_name, message⟩
      | _ => none
    | _ => none
  | _ => none

/-- The action is a step of `send_to_all` or `send_to_one` between the lock and the unlock. -/
def State.relays (s : State) : Action → Bool
  | .worker k _ =>
    match s.threads[k]? with
    | some ⟨_, _, .handler h⟩ =>
      match h.pc with
      | .relay _ _ _ => true
      | _ => false
    | _ => false
  | _ => false

/-- The number of the relay that the action belongs to. -/
def Traffic.mark (u : Traffic) (a : Action) : Option ℕ :=
  match a with
  | .worker k _ => if u.state.relays a then some (u.number k) else none
  | _ => none

/-- The texts behind those that were sent before. -/
def newTexts (s t : State) (c : Conn) : List (List UInt8) :=
  (t.peers c).outbox.drop (s.peers c).outbox.length

def Traffic.record (u : Traffic) (a : Action) (t : State) (c : Conn) : List Sent :=
  u.sent c ++ (newTexts u.state t c).map fun text => ⟨u.mark a, text⟩

def trafficStep (window : ℕ) (u : Traffic) (a : Action) : Option Traffic :=
  (step window u.state a).map fun t =>
    match u.state.begins a with
    | some r => ⟨t, u.relays ++ [r], Function.update u.number r.thread u.relays.length, u.record a t⟩
    | none => ⟨t, u.relays, u.number, u.record a t⟩

/-- Nothing was sent yet. -/
structure Silent (u : Traffic) : Prop where
  started : Started u.state
  relays : u.relays = []
  sent : ∀ c, u.sent c = []

def traffic (window : ℕ) : Machine Traffic Action where
  init := Silent
  next := trafficStep window

/-- Every text of the relay `a` was sent before every text of the relay `b`. -/
def Before (l : List Sent) (a b : ℕ) : Prop :=
  ∀ (i j : ℕ) (x y : Sent), l[i]? = some x → l[j]? = some y → x.relay = some a → y.relay = some b → i < j

/-- Some text of the relay was sent. -/
def Gets (l : List Sent) (a : ℕ) : Prop :=
  ∃ x ∈ l, x.relay = some a

/-- What the peers get is what was recorded, each text with the relay that it is the message of;
the relays come to every peer in the order of their sections, and so to any two peers in the same
order. -/
structure TotalOrder (u : Traffic) : Prop where
  written : ∀ c, c < u.state.accepted → (u.sent c).map Sent.text = (u.state.peers c).outbox
  texts : ∀ c, ∀ x ∈ u.sent c, ∀ n, x.relay = some n → ∃ r date, u.relays[n]? = some r ∧
    compose date r.sender_name r.message = some x.text
  sections : ∀ c a b, a < b → Before (u.sent c) a b
  same : ∀ c d a b, a ≠ b → Gets (u.sent c) a → Gets (u.sent c) b → Gets (u.sent d) a → Gets (u.sent d) b →
    (Before (u.sent c) a b ↔ Before (u.sent d) a b)

/-! ### What a step sends -/

/-- What was sent before stays, and the texts that are new meet `P` and go to open connections. -/
def Appends (s t : State) (P : List UInt8 → Prop) : Prop :=
  ∀ c, ∃ texts, (t.peers c).outbox = (s.peers c).outbox ++ texts ∧ (∀ text ∈ texts, P text) ∧
    (texts ≠ [] → ∃ fd, s.fds fd = some c)

section
variable {P : List UInt8 → Prop}

lemma appends_nothing (h : ∀ c, (t.peers c).outbox = (s.peers c).outbox) : Appends s t P := by
  intro c
  exact ⟨[], by rw [h, List.append_nil], by simp, fun hne => absurd rfl hne⟩

lemma outbox_setPeer {d : Conn} {p : Peer} (h : p.outbox = (s.peers d).outbox) (c : Conn) :
    ((s.setPeer d p).peers c).outbox = (s.peers c).outbox := by
  by_cases hc : c = d
  · subst hc
    simp [State.setPeer, h]
  · simp [State.setPeer, Function.update_of_ne hc]

lemma outbox_of_recv {conn : Option Conn} {timeout : Bool} {size count : ℕ} {r : ℤ × List UInt8 × State}
    (hr : s.recv conn timeout size count = some r) (c : Conn) : (r.2.2.peers c).outbox = (s.peers c).outbox := by
  obtain (rfl | rfl) | ⟨d, -, -, -, rfl⟩ := recv_cases hr
  · rfl
  · rfl
  · apply outbox_setPeer
    rfl

lemma outbox_setsockopt (s : State) (fd : ℕ) (c : Conn) :
    ((s.setsockopt fd).peers c).outbox = (s.peers c).outbox := by
  unfold State.setsockopt
  split
  · apply outbox_setPeer
    rfl
  · rfl

lemma appends_send {sigpipe : Bool} {fd : ℕ} {text : List UInt8} (hs : s.send window sigpipe fd text = some t)
    (htext : P text) : Appends s t P := by
  simp only [State.send] at hs
  split at hs
  · cases hs
    exact appends_nothing fun _ => rfl
  · next d hd =>
    split at hs
    · split at hs
      · cases hs
      · cases hs
        exact appends_nothing fun _ => rfl
    · split at hs
      · cases hs
        intro c
        by_cases hc : c = d
        · subst hc
          exact ⟨[text], by simp [State.setPeer], by simpa using htext, fun _ => ⟨fd, hd⟩⟩
        · exact ⟨[], by simp [State.setPeer, Function.update_of_ne hc], by simp, fun hne => absurd rfl hne⟩
      · cases hs

end

section
variable {k : ℕ} {th : Thread} {x : Input}

/-- Where a handler relays, the text is the message of its relay. -/
def Handler.Composes (h : Handler) (text : List UInt8) : Prop :=
  ∀ r message i, h.pc = .relay r message i → ∃ date, compose date h.client_name message = some text

lemma relay_appends {P : List UInt8 → Prop} {h : Handler} {r : Option (List UInt8)} {message : List UInt8} {i : ℕ}
    (hP : ∀ text, compose x.date h.client_name message = some text → P text)
    (hs : relayStep window s (s.handlerAt k th h) r h.client_name message x i = some t) : Appends s t P := by
  simp only [relayStep] at hs
  split at hs
  · split at hs
    · split at hs
      · cases hs
        exact appends_nothing fun _ => rfl
      · split at hs
        · split at hs
          · cases hs
            exact appends_nothing fun _ => rfl
          · next text htext => exact appends_send (s := s.handlerAt k th h _) hs (hP text htext)
        · cases hs
          exact appends_nothing fun _ => rfl
    · cases hs
      exact appends_nothing fun _ => rfl
  · cases hs
    exact appends_nothing fun _ => rfl

lemma handler_appends_of {P : List UInt8 → Prop} {h : Handler}
    (hrelay : ∀ r message i text, h.pc = .relay r message i → compose x.date h.client_name message = some text → P text)
    (hlist : ∀ list_message, h.pc = .listSend list_message → P list_message)
    (hs : client_handler window s k th h x = some t) : Appends s t P := by
  cases hpc : h.pc with
  | start | copyName | lockRecv | testActive =>
    simp only [client_handler, hpc] at hs
    split at hs <;> cases hs <;> exact appends_nothing fun _ => rfl
  | setTimeout =>
    simp only [client_handler, hpc, Option.some.injEq] at hs
    subst hs
    exact appends_nothing fun c => outbox_setsockopt (s.handlerAt k th h .lockRecv) _ c
  | recv | unlockRecv | dispatch | relayUnlock | listUnlock list_message | stopClose | stopDeactivate | stopDecrement
  | stopUnlock =>
    simp only [client_handler, hpc, Option.some.injEq] at hs
    subst hs
    exact appends_nothing fun _ => rfl
  | receiving conn =>
    simp only [client_handler, hpc, Option.map_eq_some_iff] at hs
    obtain ⟨r, hr, rfl⟩ := hs
    exact appends_nothing (outbox_of_recv hr)
  | testReceived =>
    simp only [client_handler, hpc] at hs
    split at hs
    · cases hs
      exact appends_nothing fun _ => rfl
    · split at hs <;> cases hs <;> exact appends_nothing fun _ => rfl
  | relayLock r message | listLock | stopLock =>
    simp only [client_handler, hpc] at hs
    obtain ⟨-, rfl⟩ := lock_eq_some.mp hs
    exact appends_nothing fun _ => rfl
  | relay r message i =>
    simp only [client_handler, hpc] at hs
    exact relay_appends (fun text htext => hrelay r message i text hpc htext) hs
  | listing list_message i =>
    simp only [client_handler, hpc, Option.some.injEq] at hs
    subst hs
    apply appends_nothing
    intro c
    simp only [listStep]
    split
    · split
      · split <;> rfl
      · rfl
    · rfl
  | listSend list_message =>
    simp only [client_handler, hpc] at hs
    exact appends_send (s := s.handlerAt k th h .setTimeout) hs (hlist list_message hpc)
  | ended | fault => simp [client_handler, hpc] at hs

lemma handler_appends {h : Handler} (hs : client_handler window s k th h x = some t) : Appends s t h.Composes := by
  refine handler_appends_of ?_ ?_ hs
  · intro r message i text hpc htext r' message' i' hpc'
    rw [hpc] at hpc'
    cases hpc'
    exact ⟨x.date, htext⟩
  · intro list_message hpc r message i hr
    rw [hpc] at hr
    cases hr

lemma check_appends {P : List UInt8 → Prop} (hP : P (bytesOf "ALIVE")) {c : CheckAlive}
    (hs : check_alive window s k th c x = some t) : Appends s t P := by
  by_cases hpc : c.pc = .sendAlive
  · simp only [check_alive, hpc] at hs
    exact appends_send (s := s.checkAt k th c .read) hs hP
  · apply appends_nothing
    intro d
    cases hc : c.pc with
    | sendAlive => exact absurd hc hpc
    | setTimeout =>
      simp only [check_alive, hc, Option.some.injEq] at hs
      subst hs
      exact outbox_setsockopt (s.checkAt k th c .lockRecv) _ d
    | reading conn =>
      simp only [check_alive, hc, Option.map_eq_some_iff] at hs
      obtain ⟨r, hr, rfl⟩ := hs
      exact outbox_of_recv hr d
    | lockRecv | testReceived =>
      simp only [check_alive, hc] at hs
      split at hs <;> cases hs <;> rfl
    | lock =>
      simp only [check_alive, hc] at hs
      obtain ⟨-, rfl⟩ := lock_eq_some.mp hs
      rfl
    | read | unlockRecv | close | deactivate | decrement | unlock =>
      simp only [check_alive, hc, Option.some.injEq] at hs
      subst hs
      rfl
    | ended => simp [check_alive, hc] at hs

end

/-- A worker's text is one of its relay, where it relays. -/
def State.Composes (s : State) (a : Action) (text : List UInt8) : Prop :=
  ∀ (k : ℕ) (x : Input) (th : Thread) (h : Handler), a = .worker k x → s.threads[k]? = some th →
    th.code = .handler h → h.Composes text

/-- What a step sends to the connection `c`. -/
structure Sends (s : State) (a : Action) (t : State) (c : Conn) : Prop where
  kept : c < s.accepted → (t.peers c).outbox = (s.peers c).outbox ++ newTexts s t c
  closed : s.accepted ≤ c → newTexts s t c = []
  opened : s.accepted ≤ c → c < t.accepted → (t.peers c).outbox = []
  texts : ∀ text ∈ newTexts s t c, s.Composes a text

lemma Appends.sends {a : Action} (h : Appends s t (s.Composes a)) (hreg : Registered s) (hacc : t.accepted = s.accepted)
    (c : Conn) : Sends s a t c := by
  obtain ⟨texts, hkept, htexts, hopen⟩ := h c
  have hnew : newTexts s t c = texts := by
    rw [newTexts, hkept, List.drop_left]
  refine ⟨fun _ => by rw [hnew, hkept], fun hc => ?_, fun hc hlt => absurd (hacc ▸ hlt) (not_lt.mpr hc), ?_⟩
  · rw [hnew]
    by_contra hne
    obtain ⟨fd, hfd⟩ := hopen hne
    exact absurd (hreg.opened fd c hfd) (not_lt.mpr hc)
  · rw [hnew]
    exact htexts

lemma worker_appends {k : ℕ} {x : Input} (hs : workerStep window s k x = some t) :
    Appends s t (s.Composes (.worker k x)) := by
  cases hth : s.threads[k]? with
  | none => simp [workerStep, hth] at hs
  | some th =>
    simp only [workerStep, hth] at hs
    cases hcode : th.code with
    | handler h =>
      simp only [hcode] at hs
      intro c
      obtain ⟨texts, hkept, htexts, hopen⟩ := handler_appends hs c
      refine ⟨texts, hkept, fun text htext => ?_, hopen⟩
      intro k' x' th' h' ha hth' hcode'
      cases ha
      obtain rfl := Option.some.inj (hth.symm.trans hth')
      obtain rfl := Code.handler.inj (hcode.symm.trans hcode')
      exact htexts text htext
    | check c =>
      simp only [hcode] at hs
      apply check_appends ?_ hs
      intro k' x' th' h' ha hth' hcode'
      cases ha
      obtain rfl := Option.some.inj (hth.symm.trans hth')
      rw [hcode] at hcode'
      cases hcode'

lemma main_sends {x : Input} (hreg : Registered s) (hs : mainStep s x = some t) (c : Conn) :
    Sends s (.main x) t c := by
  have hsame : (∀ d, (t.peers d).outbox = (s.peers d).outbox) → t.accepted = s.accepted → Sends s (.main x) t c :=
    fun h hacc => (appends_nothing h).sends hreg hacc c
  cases main_cases hs with
  | accepts =>
    by_cases hc : c = s.accepted
    · subst hc
      exact ⟨fun hlt => absurd hlt (lt_irrefl _), fun _ => by simp [newTexts], fun _ _ => by simp, by simp [newTexts]⟩
    · exact ⟨fun _ => by simp [newTexts, Function.update_of_ne hc], fun _ => by simp [newTexts, Function.update_of_ne hc],
        fun hle hlt => absurd (le_antisymm (Nat.lt_succ_iff.mp hlt) hle) hc, by simp [newTexts, Function.update_of_ne hc]⟩
  | receives hpc name peers =>
    simp only [mainStep, hpc, Option.map_eq_some_iff] at hs
    obtain ⟨r, hr, ht⟩ := hs
    have hpeers : r.2.2.peers = peers := congrArg State.peers ht
    apply hsame
    · intro d
      rw [← outbox_of_recv hr d, hpeers]
    · rfl
  | locks | full | hasRoom | refuses | closes | skips | finds | findsNone | setsFd | callsRecv | activates | initsMutex
  | increments | creates | unlocks => exact hsame (fun _ => rfl) rfl

theorem step_sends {a : Action} (hreg : Registered s) (hs : step window s a = some t) (c : Conn) : Sends s a t c := by
  have hpeer : ∀ {d : Conn} {p : Peer}, p.outbox = (s.peers d).outbox → Sends s a (s.setPeer d p) c :=
    fun hp => (appends_nothing (outbox_setPeer hp)).sends hreg rfl c
  cases a with
  | main x => exact main_sends hreg hs c
  | checker =>
    apply (appends_nothing ?_).sends hreg
    · cases checker_cases hs <;> rfl
    · intro d
      cases checker_cases hs <;> rfl
  | worker k x =>
    apply (worker_appends hs).sends hreg
    obtain ⟨th, -, code, clients, num, mutex, fds, peers, rfl, -⟩ := worker_cases hs
    rfl
  | peerSend d bytes =>
    simp only [step] at hs
    split at hs
    · cases hs
    · cases hs
      exact hpeer rfl
  | peerRead d | peerClose d =>
    simp only [step, Option.some.injEq] at hs
    subst hs
    exact hpeer rfl

/-! ### The sections -/

lemma begins_eq_some {a : Action} {r : Relay} (hb : s.begins a = some r) : ∃ k x th h name message,
    a = .worker k x ∧ s.threads[k]? = some th ∧ th.code = .handler h ∧ h.pc = .relayLock name message ∧
      r = ⟨k, h.client_name, message⟩ := by
  unfold State.begins at hb
  split at hb
  · next k x =>
    split at hb
    · next conn slot h hth =>
      split at hb
      · next name message hpc => exact ⟨k, x, _, h, name, message, rfl, hth, rfl, hpc, (Option.some.inj hb).symm⟩
      · cases hb
    · cases hb
  · cases hb

lemma begins_of_relayLock {k : ℕ} {x : Input} {th : Thread} {h : Handler} {name : Option (List UInt8)}
    {message : List UInt8} (hth : s.threads[k]? = some th) (hcode : th.code = .handler h)
    (hpc : h.pc = .relayLock name message) : s.begins (.worker k x) = some ⟨k, h.client_name, message⟩ := by
  obtain ⟨conn, slot, code⟩ := th
  obtain rfl : code = .handler h := hcode
  simp only [State.begins, hth, hpc]

lemma begins_of_relay {k : ℕ} {x : Input} {th : Thread} {h : Handler} {name : Option (List UInt8)}
    {message : List UInt8} {i : ℕ} (hth : s.threads[k]? = some th) (hcode : th.code = .handler h)
    (hpc : h.pc = .relay name message i) : s.begins (.worker k x) = none := by
  obtain ⟨conn, slot, code⟩ := th
  obtain rfl : code = .handler h := hcode
  simp only [State.begins, hth, hpc]

lemma free_of_begins {a : Action} {r : Relay} (hs : step window s a = some t) (hb : s.begins a = some r) :
    s.clients_mutex = none := by
  obtain ⟨k, x, th, h, name, message, rfl, hth, hcode, hpc, -⟩ := begins_eq_some hb
  simp only [step, workerStep, hth, hcode, client_handler, hpc] at hs
  exact (lock_eq_some.mp hs).1

lemma mark_eq_some {u : Traffic} {a : Action} {n : ℕ} (hmark : u.mark a = some n) : ∃ k x th h name message i,
    a = .worker k x ∧ u.state.threads[k]? = some th ∧ th.code = .handler h ∧ h.pc = .relay name message i ∧
      n = u.number k := by
  unfold Traffic.mark at hmark
  split at hmark
  · next k x =>
    split at hmark
    · next hrelays =>
      unfold State.relays at hrelays
      simp only at hrelays
      split at hrelays
      · next conn slot h hth =>
        split at hrelays
        · next name message i hpc =>
          exact ⟨k, x, _, h, name, message, i, rfl, hth, rfl, hpc, (Option.some.inj hmark).symm⟩
        · cases hrelays
      · cases hrelays
    · cases hmark
  · cases hmark

lemma HandlerMove.relays {k : ℕ} {th : Thread} {h : Handler} {x : Input} (hm : HandlerMove s k th h x t) :
    ∃ h', t.threads = s.threads.set k { th with code := .handler h' } ∧ ∀ name message i,
      h'.pc = .relay name message i → h'.client_name = h.client_name ∧
        ((∃ name', h.pc = .relayLock name' message) ∨ ∃ name' j, h.pc = .relay name' message j) := by
  have hnot : ∀ {h' : Handler}, (∀ name message i, h'.pc ≠ .relay name message i) → ∀ name message i,
      h'.pc = .relay name message i → h'.client_name = h.client_name ∧
        ((∃ name', h.pc = .relayLock name' message) ∨ ∃ name' j, h.pc = .relay name' message j) :=
    fun hne name message i hpc => absurd hpc (hne name message i)
  cases hm with
  | goes hgoes =>
    refine ⟨_, rfl, fun name message i hpc => ⟨rfl, .inr ?_⟩⟩
    generalize h.pc = pc at hgoes
    cases hgoes with
    | relay =>
      cases hpc
      exact ⟨_, _, rfl⟩
    | timeout | relayed | relayFault | list | listed | listFault | answered | startFault | nameFault => cases hpc
  | locks hlocks =>
    refine ⟨_, rfl, fun name message i hpc => ⟨rfl, .inl ?_⟩⟩
    generalize h.pc = pc at hlocks
    cases hlocks with
    | relay =>
      cases hpc
      exact ⟨_, rfl⟩
    | list | stop => cases hpc
  | unlocks hunlocks =>
    refine ⟨_, rfl, hnot fun name message i => ?_⟩
    generalize h.pc = pc at hunlocks
    cases hunlocks <;> simp
  | dispatches =>
    refine ⟨_, rfl, hnot fun name message i => ?_⟩
    cases parse h.buffer x.garbage <;> simp [dispatchPc]
  | receives hpc hr =>
    obtain ⟨peers, hpeers⟩ := recv_eq hr
    rw [hpeers]
    exact ⟨_, rfl, hnot (by simp)⟩
  | starts | copiesName | locksRecv | callsRecv | unlocksRecv | staysActive | leaves | retries | terminates | overruns
  | closes | deactivates | decrements => exact ⟨_, rfl, hnot (by simp)⟩

lemma thread_of_step {a : Action} {k : ℕ} {th : Thread} {h : Handler} (hs : step window s a = some t)
    (hth : t.threads[k]? = some th) (hcode : th.code = .handler h) (hstart : h.pc ≠ .start) :
    s.threads[k]? = some th ∨ ∃ x, a = .worker k x := by
  obtain ⟨x, -, hm⟩ | ⟨-, hc⟩ | ⟨j, x, u, rfl, hu, hw⟩ | ⟨peers, rfl⟩ := step_cases hs
  · cases hm with
    | creates hpc =>
      rcases get_append hth with hold | ⟨-, rfl⟩
      · exact .inl hold
      · cases hcode
        exact absurd rfl hstart
    | accepts | locks | full | hasRoom | refuses | closes | skips | finds | findsNone | setsFd | callsRecv | receives
    | activates | initsMutex | increments | unlocks => exact .inl hth
  · cases hc with
    | creates hpc =>
      rcases get_append hth with hold | ⟨-, rfl⟩
      · exact .inl hold
      · cases hcode
    | wakes | locks | finds | skips | ends | unlocks => exact .inl hth
  · rcases get_of_worker hu hw hth with ⟨rfl, -⟩ | ⟨-, hold⟩
    · exact .inr ⟨x, rfl⟩
    · exact .inl hold
  · exact .inl hth

lemma relay_of_step {k : ℕ} {x : Input} {th : Thread} {h : Handler} {name : Option (List UInt8)}
    {message : List UInt8} {i : ℕ} (hs : step window s (.worker k x) = some t) (hth : t.threads[k]? = some th)
    (hcode : th.code = .handler h) (hpc : h.pc = .relay name message i) : ∃ th' h', s.threads[k]? = some th' ∧
      th'.code = .handler h' ∧ h.client_name = h'.client_name ∧
        ((∃ name', h'.pc = .relayLock name' message) ∨ ∃ name' j, h'.pc = .relay name' message j) := by
  obtain ⟨u, hu, hw⟩ := worker_cases hs
  simp only [step, workerStep, hu] at hs
  cases huc : u.code with
  | handler g =>
    simp only [huc] at hs
    obtain ⟨g', hthreads, hrelays⟩ := (handler_cases hs).relays
    have hlt := (List.getElem?_eq_some_iff.mp hu).1
    rw [hthreads, List.getElem?_set_self hlt] at hth
    obtain rfl := Option.some.inj hth
    obtain rfl := Code.handler.inj hcode
    exact ⟨u, g, hu, huc, hrelays name message i hpc⟩
  | check c =>
    rcases get_of_worker hu hw hth with ⟨-, code, rfl, hmove⟩ | ⟨hne, -⟩
    · have hkind := hmove.kind
      rw [show code = .handler h from hcode, huc] at hkind
      exact absurd trivial hkind.mp
    · exact absurd rfl hne

/-- What was sent is marked in the order of the sections, and a thread that relays is in the last
one. -/
structure Ordered (u : Traffic) : Prop where
  guards : Guards u.state.clients_mutex u.state.Inside
  registered : Registered u.state
  written : ∀ c, c < u.state.accepted → (u.sent c).map Sent.text = (u.state.peers c).outbox
  closed : ∀ c, u.state.accepted ≤ c → u.sent c = []
  current : ∀ (k : ℕ) (th : Thread) (h : Handler) (name : Option (List UInt8)) (message : List UInt8) (i : ℕ),
    u.state.threads[k]? = some th → th.code = .handler h → h.pc = .relay name message i →
      u.number k + 1 = u.relays.length ∧ u.relays[u.number k]? = some ⟨k, h.client_name, message⟩
  texts : ∀ c, ∀ x ∈ u.sent c, ∀ n, x.relay = some n → ∃ r date, u.relays[n]? = some r ∧
    compose date r.sender_name r.message = some x.text
  sorted : ∀ c, (u.sent c).Pairwise fun x y => ∀ a b, x.relay = some a → y.relay = some b → a ≤ b

lemma accepted_le {a : Action} (hs : step window s a = some t) : s.accepted ≤ t.accepted := by
  obtain ⟨x, -, hm⟩ | ⟨-, hc⟩ | ⟨k, x, th, -, -, code, clients, num, mutex, fds, peers, rfl, -⟩ | ⟨peers, rfl⟩ :=
    step_cases hs
  · cases hm with
    | accepts => exact Nat.le_succ _
    | locks | full | hasRoom | refuses | closes | skips | finds | findsNone | setsFd | callsRecv | receives | activates
    | initsMutex | increments | creates | unlocks => exact le_rfl
  · cases hc <;> exact le_rfl
  · exact le_rfl
  · exact le_rfl

lemma trafficStep_cases {u v : Traffic} {a : Action} (hs : trafficStep window u a = some v) :
    step window u.state a = some v.state ∧ v.sent = u.record a v.state ∧
      ((u.state.begins a = none ∧ v.relays = u.relays ∧ v.number = u.number) ∨ ∃ r, u.state.begins a = some r ∧
        v.relays = u.relays ++ [r] ∧ v.number = Function.update u.number r.thread u.relays.length) := by
  obtain ⟨t, ht, hv⟩ := Option.map_eq_some_iff.mp hs
  split at hv
  · next r hb =>
    subst hv
    exact ⟨ht, rfl, .inr ⟨r, hb, rfl, rfl⟩⟩
  · next hb =>
    subst hv
    exact ⟨ht, rfl, .inl ⟨hb, rfl, rfl⟩⟩

section
variable {u v : Traffic} {a : Action}

lemma Ordered.marks (h : Ordered u) {n : ℕ} (hmark : u.mark a = some n) {text : List UInt8}
    (htext : u.state.Composes a text) : n + 1 = u.relays.length ∧ ∃ r date, u.relays[n]? = some r ∧
      compose date r.sender_name r.message = some text := by
  obtain ⟨k, x, th, g, name, message, i, rfl, hth, hcode, hpc, rfl⟩ := mark_eq_some hmark
  obtain ⟨hlast, hrelay⟩ := h.current k th g name message i hth hcode hpc
  obtain ⟨date, hdate⟩ := htext k x th g rfl hth hcode name message i hpc
  exact ⟨hlast, _, date, hrelay, hdate⟩

lemma Ordered.lt_of_sent (h : Ordered u) {c : Conn} {x : Sent} (hx : x ∈ u.sent c) {n : ℕ} (hn : x.relay = some n) :
    n < u.relays.length := by
  obtain ⟨r, date, hr, -⟩ := h.texts c x hx n hn
  exact (List.getElem?_eq_some_iff.mp hr).1

lemma Ordered.current_step (h : Ordered u) (hs : trafficStep window u a = some v) {k : ℕ} {th : Thread} {g : Handler}
    {name : Option (List UInt8)} {message : List UInt8} {i : ℕ} (hth : v.state.threads[k]? = some th)
    (hcode : th.code = .handler g) (hpc : g.pc = .relay name message i) :
    v.number k + 1 = v.relays.length ∧ v.relays[v.number k]? = some ⟨k, g.client_name, message⟩ := by
  obtain ⟨ht, -, hrecord⟩ := trafficStep_cases hs
  by_cases ha : ∃ x, a = .worker k x
  · obtain ⟨x, rfl⟩ := ha
    obtain ⟨th', g', hth', hcode', hname, hbefore⟩ := relay_of_step ht hth hcode hpc
    rw [hname]
    rcases hbefore with ⟨name', hlock⟩ | ⟨name', j, hrelay⟩
    · have hbegins := begins_of_relayLock (x := x) hth' hcode' hlock
      rcases hrecord with ⟨hnone, -⟩ | ⟨r, hr, hrelays, hnumber⟩
      · rw [hbegins] at hnone
        cases hnone
      · obtain rfl := Option.some.inj (hbegins.symm.trans hr)
        rw [hrelays, hnumber, Function.update_self]
        simp
    · have hbegins := begins_of_relay (x := x) hth' hcode' hrelay
      rcases hrecord with ⟨-, hrelays, hnumber⟩ | ⟨r, hr, -⟩
      · rw [hrelays, hnumber]
        exact h.current k th' g' name' message j hth' hcode' hrelay
      · rw [hbegins] at hr
        cases hr
  · have hold : u.state.threads[k]? = some th := (thread_of_step ht hth hcode (by simp [hpc])).resolve_right ha
    rcases hrecord with ⟨-, hrelays, hnumber⟩ | ⟨r, hr, -⟩
    · rw [hrelays, hnumber]
      exact h.current k th g name message i hold hcode hpc
    · have hin : u.state.Inside (.worker k) := ⟨th, hold, by simp [hcode, hpc]⟩
      have howner := h.guards _ hin
      rw [free_of_begins ht hr] at howner
      cases howner

theorem Ordered.step (h : Ordered u) (hs : trafficStep window u a = some v) : Ordered v := by
  obtain ⟨ht, hsent, hrecord⟩ := trafficStep_cases hs
  have hsends := step_sends h.registered ht
  have hgrows : ∀ (n : ℕ) (r : Relay), u.relays[n]? = some r → v.relays[n]? = some r := by
    intro n r hr
    rcases hrecord with ⟨-, hrelays, -⟩ | ⟨r', -, hrelays, -⟩
    · rwa [hrelays]
    · rw [hrelays, List.getElem?_append_left (List.getElem?_eq_some_iff.mp hr).1]
      exact hr
  refine ⟨guards_step h.guards ht, registered_step h.registered ht, ?_, ?_, ?_, ?_, ?_⟩
  · intro c hc
    rw [hsent, Traffic.record, List.map_append, List.map_map]
    by_cases hold : c < u.state.accepted
    · have hid : (Sent.text ∘ fun text => ⟨u.mark a, text⟩) = id := rfl
      rw [(hsends c).kept hold, h.written c hold, hid, List.map_id]
    · have hle := not_lt.mp hold
      rw [(hsends c).opened hle hc, (hsends c).closed hle, h.closed c hle]
      rfl
  · intro c hc
    have hle := (accepted_le ht).trans hc
    rw [hsent, Traffic.record, (hsends c).closed hle, h.closed c hle]
    rfl
  · intro k th g name message i hth hcode hpc
    exact h.current_step hs hth hcode hpc
  · intro c x hx n hn
    rw [hsent, Traffic.record, List.mem_append, List.mem_map] at hx
    rcases hx with hold | ⟨text, htext, rfl⟩
    · obtain ⟨r, date, hr, hdate⟩ := h.texts c x hold n hn
      exact ⟨r, date, hgrows n r hr, hdate⟩
    · obtain ⟨-, r, date, hr, hdate⟩ := h.marks hn ((hsends c).texts text htext)
      exact ⟨r, date, hgrows n r hr, hdate⟩
  · intro c
    rw [hsent, Traffic.record, List.pairwise_append]
    refine ⟨h.sorted c, ?_, ?_⟩
    · rw [List.pairwise_map]
      apply List.pairwise_of_forall
      intro x y a b ha hb
      rw [Option.some.inj (ha.symm.trans hb)]
    · intro x hx y hy a b ha hb
      obtain ⟨text, htext, rfl⟩ := List.mem_map.mp hy
      have hlt := h.lt_of_sent hx ha
      have hlast := (h.marks hb ((hsends c).texts text htext)).1
      omega

lemma Silent.ordered (h : Silent u) : Ordered u where
  guards := h.started.guards
  registered := h.started.registered
  written c hc := by
    rw [h.started.accepted] at hc
    exact absurd hc (Nat.not_lt_zero c)
  closed c _ := h.sent c
  current k th g name message i hth := by
    rw [h.started.threads] at hth
    cases hth
  texts c x hx := by
    rw [h.sent c] at hx
    cases hx
  sorted c := by
    rw [h.sent c]
    exact .nil

end

lemma before_of_sorted {l : List Sent} (h : l.Pairwise fun x y => ∀ a b, x.relay = some a → y.relay = some b → a ≤ b)
    {a b : ℕ} (hab : a < b) : Before l a b := by
  intro i j x y hx hy ha hb
  obtain ⟨hi, rfl⟩ := List.getElem?_eq_some_iff.mp hx
  obtain ⟨hj, rfl⟩ := List.getElem?_eq_some_iff.mp hy
  by_contra hle
  rcases (not_lt.mp hle).lt_or_eq with hlt | heq
  · have hba := List.pairwise_iff_getElem.mp h j i hj hi hlt b a hb ha
    omega
  · subst heq
    have heq := Option.some.inj (ha.symm.trans hb)
    omega

/-- Two relays that a connection gets come in one order only. -/
lemma Before.not_swapped {l : List Sent} {a b : ℕ} (h : Before l b a) (ha : Gets l a) (hb : Gets l b) :
    ¬Before l a b := by
  intro hab
  obtain ⟨x, hx, hxa⟩ := ha
  obtain ⟨y, hy, hyb⟩ := hb
  obtain ⟨i, hi⟩ := List.mem_iff_getElem?.mp hx
  obtain ⟨j, hj⟩ := List.mem_iff_getElem?.mp hy
  have hij := hab i j x y hi hj hxa hyb
  have hji := h j i y x hj hi hyb hxa
  omega

/-- Whatever the threads do, all connections get the relays in the order in which these took
`clients_mutex`. -/
theorem relays_totally_ordered {u : Traffic} (h : (traffic window).Reachable u) : TotalOrder u := by
  have hordered : Ordered u := by
    apply h.invariant (I := Ordered)
    · exact fun v (hv : Silent v) => hv.ordered
    · exact fun v a w hv hs => hv.step hs
  have hsections : ∀ c a b, a < b → Before (u.sent c) a b := fun c a b => before_of_sorted (hordered.sorted c)
  refine ⟨hordered.written, hordered.texts, hsections, ?_⟩
  intro c d a b hne hca hcb hda hdb
  rcases Nat.lt_or_gt_of_ne hne with hlt | hgt
  · exact iff_of_true (hsections c a b hlt) (hsections d a b hlt)
  · exact iff_of_false ((hsections c b a hgt).not_swapped hca hcb) ((hsections d b a hgt).not_swapped hda hdb)

/-- Three clients, of which the first sends two messages to all. -/
def twoMessages : List Action :=
  registration 0 "ala" ++ goOn 0 2 ++ (List.range 2).flatMap (fun c => .main { receiving 0 with fd := c + 6 } ::
    .peerSend (c + 1) (bytesOf "ola") :: List.replicate (12 + c) (.main (receiving 3))) ++
  (goOn 0 3 ++ [.peerSend 0 (bytesOf "2ALL x"), .worker 0 (receiving 6)] ++ goOn 0 17) ++
  (goOn 0 3 ++ [.peerSend 0 (bytesOf "2ALL y"), .worker 0 (receiving 6)] ++ goOn 0 17)

/-- Both messages reach both of the other clients. -/
theorem relays_ordered_two : ∃ u, (traffic 100).Reachable u ∧ (u.sent 1).map Sent.relay = [some 0, some 1] ∧
    (u.sent 2).map Sent.relay = [some 0, some 1] ∧ TotalOrder u := by
  have hrun : ((traffic 100).exec ⟨start, [], fun _ => 0, fun _ => []⟩ twoMessages).map
      (fun u => ((u.sent 1).map Sent.relay, (u.sent 2).map Sent.relay)) = some ([some 0, some 1], [some 0, some 1]) := by
    decide +kernel
  obtain ⟨u, hu, hsent⟩ := Option.map_eq_some_iff.mp hrun
  obtain ⟨h1, h2⟩ := Prod.mk.inj hsent
  have hreach : (traffic 100).Reachable u := Machine.Reachable.exec (.start ⟨start_started, rfl, fun _ => rfl⟩) hu
  exact ⟨u, hreach, h1, h2, relays_totally_ordered hreach⟩

end SystemyOperacyjne.ChatServer
