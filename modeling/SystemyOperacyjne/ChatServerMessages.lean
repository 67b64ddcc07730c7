import SystemyOperacyjne.ChatClient
import SystemyOperacyjne.ChatServerTraffic

/-!
# From the chat server to its clients

Whatever the threads of the server do, each text that it writes to a connection is a probe, a relayed
message or the reply to LIST, a string that fits in a buffer. So what holds of a client that gets such
messages holds of every client of the server.
-/

namespace SystemyOperacyjne.ChatServer
open Concurrency CString ChatClient

variable {window : ℕ} {s t : State}

/-- What `ctime` returns is a string. -/
def Dated (_ : State) : Action → Prop
  | .worker _ x => 0 ∉ x.date
  | .main _ | .checker | .peerSend _ _ | .peerRead _ | .peerClose _ => True

instance (s : State) : DecidablePred (Dated s)
  | .worker _ x => inferInstanceAs (Decidable (0 ∉ x.date))
  | .main _ | .checker | .peerSend _ _ | .peerRead _ | .peerClose _ => isTrue trivial

/-- The text is one of the server's messages, a string with room for its terminator. -/
def Written (text : List UInt8) : Prop :=
  ∃ m : ServerMessage, m.text = text ∧ 0 ∉ text ∧ text.length < BUFFER_SIZE

/-- The beginning of a LIST reply. -/
def IsList (text : List UInt8) : Prop :=
  ∃ names, (ServerMessage.list names).text = text ∧ 0 ∉ text ∧ text.length < BUFFER_SIZE

lemma IsList.written {text : List UInt8} (h : IsList text) : Written text := by
  obtain ⟨names, htext, hrest⟩ := h
  exact ⟨.list names, htext, hrest⟩

/-- The texts that a handler has at hand at this place are strings. -/
def HandlerPc.Clean : HandlerPc → Prop
  | .relayLock _ message | .relay _ message _ => 0 ∉ message
  | .listing text _ | .listUnlock text | .listSend text => IsList text
  | _ => True

structure Handler.Clean (h : Handler) : Prop where
  name : 0 ∉ h.client_name
  pc : h.pc.Clean

def AllHandlers (P : Handler → Prop) (s : State) : Prop :=
  ∀ (k : ℕ) (th : Thread) (h : Handler), s.threads[k]? = some th → th.code = .handler h → P h

/-! ### Strings -/

lemma zero_not_mem_stringAt {n k : ℕ} {a : Fin n → UInt8} {l : List UInt8} (h : stringAt a k = some l) : 0 ∉ l := by
  unfold stringAt at h
  split at h
  · cases h
    intro h0
    simpa using List.mem_takeWhile_imp h0
  · cases h

lemma isList_header : IsList listHeader :=
  ⟨[], by simp [ServerMessage.text], by decide +kernel, by decide +kernel⟩

lemma isList_appendName {text name text' : List UInt8} (h : IsList text) (hname : 0 ∉ name)
    (happend : appendName text name = some text') : IsList text' := by
  obtain ⟨names, rfl, hzero, -⟩ := h
  unfold appendName at happend
  simp only at happend
  split at happend
  · next hlt =>
    obtain rfl := Option.some.inj happend
    refine ⟨names ++ [name], by simp [ServerMessage.text], ?_, hlt⟩
    have hnewline : 0 ∉ bytesOf "\n" := by decide
    simp only [List.mem_append, not_or]
    exact ⟨⟨hzero, hname⟩, hnewline⟩
  · cases happend

lemma written_compose {date name message text : List UInt8} (hdate : 0 ∉ date) (hname : 0 ∉ name) (hmessage : 0 ∉ message)
    (h : compose date name message = some text) : Written text := by
  unfold compose at h
  simp only at h
  split at h
  · next hlt =>
    obtain rfl := Option.some.inj h
    refine ⟨.relay date name message, rfl, ?_, hlt⟩
    have hblank : 0 ∉ bytesOf " " := by decide
    have hcolon : 0 ∉ bytesOf ": " := by decide
    simp only [List.mem_append, not_or]
    exact ⟨⟨⟨⟨hdate, hblank⟩, hname⟩, hcolon⟩, hmessage⟩
  · cases h

lemma clean_dispatch (buffer : Buffer) (garbage : List UInt8) : (dispatchPc (parse buffer garbage)).Clean := by
  unfold parse
  split
  · trivial
  · next command hcommand =>
    have hzero := zero_not_mem_stringAt hcommand
    split
    · exact fun h0 => hzero (List.mem_of_mem_drop h0)
    · split
      · simp only
        split
        · split
          · next message hmessage => exact zero_not_mem_stringAt hmessage
          · trivial
        · trivial
      · split
        · trivial
        · split
          · trivial
          · trivial

/-! ### The handlers -/

section
variable {k : ℕ} {th : Thread} {x : Input}

lemma clean_listing {h : Handler} {text : List UInt8} {i : ℕ} (hclean : h.Clean) (hpc : h.pc = .listing text i)
    (hs : client_handler window s k th h x = some t) :
    ∃ h', t.threads = s.threads.set k { th with code := .handler h' } ∧ h'.Clean := by
  have hlist : IsList text := by
    have hclean := hclean.pc
    rwa [hpc] at hclean
  have hgoto : ∀ {pc : HandlerPc}, pc.Clean → ∃ h', (s.handlerAt k th h pc).threads =
      s.threads.set k { th with code := .handler h' } ∧ h'.Clean :=
    fun hpc => ⟨_, rfl, hclean.name, hpc⟩
  simp only [client_handler, hpc, Option.some.injEq] at hs
  subst hs
  unfold listStep
  split
  · simp only
    split
    · split
      · exact hgoto trivial
      · next text' htext =>
        obtain ⟨name, hname, happend⟩ := Option.bind_eq_some_iff.mp htext
        exact hgoto (isList_appendName hlist (zero_not_mem_stringAt hname) happend)
    · exact hgoto hlist
  · exact hgoto hlist

lemma clean_handler {h : Handler} (hclean : h.Clean) (hs : client_handler window s k th h x = some t) :
    ∃ h', t.threads = s.threads.set k { th with code := .handler h' } ∧ h'.Clean := by
  by_cases hlisting : ∃ text i, h.pc = .listing text i
  · obtain ⟨text, i, hpc⟩ := hlisting
    exact clean_listing hclean hpc hs
  have hpc := hclean.pc
  cases handler_cases hs with
  | goes hgoes =>
    refine ⟨_, rfl, hclean.name, ?_⟩
    generalize h.pc = pc at hgoes hpc hlisting
    cases hgoes with
    | relay => exact hpc
    | list | listed | listFault => exact absurd ⟨_, _, rfl⟩ hlisting
    | timeout | relayed | relayFault | answered | startFault | nameFault => trivial
  | copiesName _ hname => exact ⟨_, rfl, zero_not_mem_stringAt hname, trivial⟩
  | receives _ hr =>
    obtain ⟨peers, hpeers⟩ := recv_eq hr
    rw [hpeers]
    exact ⟨_, rfl, hclean.name, trivial⟩
  | dispatches => exact ⟨_, rfl, hclean.name, clean_dispatch h.buffer x.garbage⟩
  | locks hlocks =>
    refine ⟨_, rfl, hclean.name, ?_⟩
    generalize h.pc = pc at hlocks hpc
    cases hlocks with
    | relay => exact hpc
    | list => exact isList_header
    | stop => trivial
  | unlocks hunlocks =>
    refine ⟨_, rfl, hclean.name, ?_⟩
    generalize h.pc = pc at hunlocks hpc
    cases hunlocks with
    | list => exact hpc
    | relay | stop => trivial
  | starts | locksRecv | callsRecv | unlocksRecv | staysActive | leaves | retries | terminates | overruns | closes
  | deactivates | decrements => exact ⟨_, rfl, hclean.name, trivial⟩

lemma handler_writes {h : Handler} (hclean : h.Clean) (hdate : 0 ∉ x.date)
    (hs : client_handler window s k th h x = some t) : Appends s t Written := by
  have hpc := hclean.pc
  refine handler_appends_of ?_ ?_ hs
  · intro r message i text hat htext
    rw [hat] at hpc
    exact written_compose hdate hclean.name hpc htext
  · intro text hat
    rw [hat] at hpc
    exact hpc.written

lemma written_alive : Written (bytesOf "ALIVE") :=
  ⟨.alive, rfl, by decide, by decide⟩

lemma worker_appends_of {P : List UInt8 → Prop} (halive : P (bytesOf "ALIVE"))
    (hhandler : ∀ (th : Thread) (h : Handler), s.threads[k]? = some th → th.code = .handler h →
      client_handler window s k th h x = some t → Appends s t P)
    (hs : workerStep window s k x = some t) : Appends s t P := by
  cases hth : s.threads[k]? with
  | none => simp [workerStep, hth] at hs
  | some th =>
    simp only [workerStep, hth] at hs
    cases hcode : th.code with
    | handler h =>
      simp only [hcode] at hs
      exact hhandler th h hth hcode hs
    | check c =>
      simp only [hcode] at hs
      exact check_appends halive hs

end

/-! ### The server -/

lemma AllHandlers.step {P : Handler → Prop} {a : Action} (h : AllHandlers P s)
    (hnew : ∀ slot memory, P ⟨.start, slot, [], memory, 0⟩)
    (hhandler : ∀ (k : ℕ) (x : Input) (th : Thread) (g : Handler), a = .worker k x → s.threads[k]? = some th →
      th.code = .handler g → client_handler window s k th g x = some t →
      ∃ g', t.threads = s.threads.set k { th with code := .handler g' } ∧ P g')
    (hs : step window s a = some t) : AllHandlers P t := by
  intro k th g hth hcode
  obtain ⟨x, -, hm⟩ | ⟨-, hc⟩ | ⟨j, x, u, rfl, hu, hw⟩ | ⟨peers, rfl⟩ := step_cases hs
  · cases hm with
    | creates =>
      rcases get_append hth with hold | ⟨-, rfl⟩
      · exact h k th g hold hcode
      · cases hcode
        exact hnew _ _
    | accepts | locks | full | hasRoom | refuses | closes | skips | finds | findsNone | setsFd | callsRecv | receives
    | activates | initsMutex | increments | unlocks => exact h k th g hth hcode
  · cases hc with
    | creates =>
      rcases get_append hth with hold | ⟨-, rfl⟩
      · exact h k th g hold hcode
      · cases hcode
    | wakes | locks | finds | skips | ends | unlocks => exact h k th g hth hcode
  · by_cases hk : k = j
    · subst hk
      simp only [ChatServer.step, workerStep, hu] at hs
      cases huc : u.code with
      | handler g' =>
        simp only [huc] at hs
        obtain ⟨h', hthreads, hP⟩ := hhandler k x u g' rfl hu huc hs
        rw [hthreads, List.getElem?_set_self (List.getElem?_eq_some_iff.mp hu).1] at hth
        obtain rfl := Option.some.inj hth
        obtain rfl := Code.handler.inj hcode
        exact hP
      | check c =>
        rcases get_of_worker hu hw hth with ⟨-, code, rfl, hmove⟩ | ⟨hne, -⟩
        · have hkind := hmove.kind
          rw [show code = .handler g from hcode, huc] at hkind
          exact absurd trivial hkind.mp
        · exact absurd rfl hne
    · rcases get_of_worker hu hw hth with ⟨rfl, -⟩ | ⟨-, hold⟩
      · exact absurd rfl hk
      · exact h k th g hold hcode
  · exact h k th g hth hcode

lemma clean_step {a : Action} (h : AllHandlers Handler.Clean s) (hs : step window s a = some t) :
    AllHandlers Handler.Clean t := by
  refine h.step (fun slot memory => ⟨List.not_mem_nil, trivial⟩) ?_ hs
  exact fun k x th g _ hth hcode hg => clean_handler (h k th g hth hcode) hg

/-- Every text on an accepted connection meets `P`. -/
def AllTexts (P : List UInt8 → Prop) (s : State) : Prop :=
  ∀ c, c < s.accepted → ∀ text ∈ (s.peers c).outbox, P text

section
variable {P : List UInt8 → Prop}

lemma AllTexts.appends (h : AllTexts P s) (hacc : t.accepted = s.accepted) (happends : Appends s t P) : AllTexts P t := by
  intro c hc text htext
  obtain ⟨texts, hkept, htexts, -⟩ := happends c
  rw [hkept, List.mem_append] at htext
  rcases htext with hold | hnew
  · exact h c (hacc ▸ hc) text hold
  · exact htexts text hnew

lemma AllTexts.main {x : Input} (h : AllTexts P s) (hs : mainStep s x = some t) : AllTexts P t := by
  have hsame : (∀ d, (t.peers d).outbox = (s.peers d).outbox) → t.accepted = s.accepted → AllTexts P t :=
    fun hpeers hacc => h.appends hacc (appends_nothing hpeers)
  cases main_cases hs with
  | accepts =>
    intro c hc text htext
    by_cases hnew : c = s.accepted
    · subst hnew
      simp at htext
    · simp only [Function.update_of_ne hnew] at htext
      exact h c (lt_of_le_of_ne (Nat.lt_succ_iff.mp hc) hnew) text htext
  | receives hpc name peers =>
    simp only [mainStep, hpc, Option.map_eq_some_iff] at hs
    obtain ⟨r, hr, ht⟩ := hs
    have hpeers : r.2.2.peers = peers := congrArg State.peers ht
    refine hsame (fun d => ?_) rfl
    rw [← outbox_of_recv hr d, hpeers]
  | locks | full | hasRoom | refuses | closes | skips | finds | findsNone | setsFd | callsRecv | activates | initsMutex
  | increments | creates | unlocks => exact hsame (fun _ => rfl) rfl

lemma AllTexts.step {a : Action} (h : AllTexts P s) (hworker : ∀ k x, a = .worker k x → Appends s t P)
    (hs : step window s a = some t) : AllTexts P t := by
  have hpeer : ∀ {d : Conn} {p : Peer}, p.outbox = (s.peers d).outbox → AllTexts P (s.setPeer d p) :=
    fun hp => h.appends rfl (appends_nothing (outbox_setPeer hp))
  cases a with
  | main x => exact h.main hs
  | checker =>
    refine h.appends ?_ (appends_nothing ?_)
    · cases checker_cases hs <;> rfl
    · cases checker_cases hs <;> exact fun _ => rfl
  | worker k x =>
    refine h.appends ?_ (hworker k x rfl)
    obtain ⟨th, -, code, clients, num, mutex, fds, peers, rfl, -⟩ := worker_cases hs
    rfl
  | peerSend d bytes =>
    simp only [ChatServer.step] at hs
    split at hs
    · cases hs
    · cases hs
      exact hpeer rfl
  | peerRead d | peerClose d =>
    simp only [ChatServer.step, Option.some.injEq] at hs
    subst hs
    exact hpeer rfl

end

lemma written_step {a : Action} (h : AllTexts Written s) (hclean : AllHandlers Handler.Clean s) (hdated : Dated s a)
    (hs : step window s a = some t) : AllTexts Written t := by
  refine h.step (fun k x ha => ?_) hs
  subst ha
  exact worker_appends_of written_alive
    (fun th g hth hcode hg => handler_writes (hclean k th g hth hcode) hdated hg) hs

/-- In every run everything that the server writes to a connection is one of its messages. -/
theorem written_of_reachable (h : (machine window).ReachableBy Dated s) : AllHandlers Handler.Clean s ∧ AllTexts Written s := by
  refine h.invariant (I := fun u => AllHandlers Handler.Clean u ∧ AllTexts Written u) ?_ ?_
  · intro u hu
    refine ⟨fun k th g hth => ?_, fun c hc => ?_⟩
    · rw [hu.threads] at hth
      cases hth
    · rw [hu.accepted] at hc
      exact absurd hc (Nat.not_lt_zero c)
  · rintro u a v ⟨hclean, hwritten⟩ hdated hs
    exact ⟨clean_step hclean hs, written_step hwritten hclean hdated hs⟩

/-! ### The clients -/

lemma exists_messages {texts : List (List UInt8)} (h : ∀ text ∈ texts, Written text) :
    ∃ messages : List ServerMessage, messages.map ServerMessage.text = texts ∧
      ∀ m ∈ messages, 0 ∉ m.text ∧ m.text.length < BUFFER_SIZE := by
  induction texts with
  | nil => exact ⟨[], rfl, by simp⟩
  | cons text texts ih =>
    obtain ⟨m, rfl, hm⟩ := h text (by simp)
    obtain ⟨messages, rfl, hmessages⟩ := ih fun text' htext' => h text' (by simp [htext'])
    exact ⟨m :: messages, rfl, List.forall_mem_cons.mpr ⟨hm, hmessages⟩⟩

lemma raw_stream (messages : List ServerMessage) :
    raw (stream messages) = (messages.map ServerMessage.text).flatten := by
  induction messages with
  | nil => rfl
  | cons m messages ih =>
    rw [stream, List.flatMap_cons, raw, List.map_append, List.map_cons, List.flatten_cons, ← raw_bytes m, ← ih]
    rfl

/-- The bytes of a list, cut in the places where its image was cut. -/
lemma exists_cut {α β : Type} (f : α → β) {l : List α} {pieces : List (List β)} (h : pieces.flatten <+: l.map f) :
    ∃ cut : List (List α), cut.map (List.map f) = pieces ∧ cut.flatten <+: l := by
  induction pieces generalizing l with
  | nil => exact ⟨[], rfl, List.nil_prefix⟩
  | cons piece pieces ih =>
    rw [List.flatten_cons] at h
    have hpiece : (l.take piece.length).map f = piece := by
      rw [List.map_take]
      exact (List.prefix_iff_eq_take.mp ((List.prefix_append _ _).trans h)).symm
    have hrest : pieces.flatten <+: (l.drop piece.length).map f := by
      obtain ⟨tail, htail⟩ := h
      rw [List.map_drop, ← htail, List.append_assoc, List.drop_left]
      exact List.prefix_append _ _
    obtain ⟨cut, hcut, hprefix⟩ := ih hrest
    refine ⟨l.take piece.length :: cut, by rw [List.map_cons, hpiece, hcut], ?_⟩
    rw [List.flatten_cons]
    conv_rhs => rw [← List.take_append_drop piece.length l]
    exact List.prefix_append_right_inj _ |>.mpr hprefix

/-- Whatever the server has sent to a client, and in whatever pieces TCP has delivered it so far, these are
pieces of a stream of the messages that the client expects. -/
theorem delivery_of_run (h : (machine window).ReachableBy Dated s) {c : Conn} (hc : c < s.accepted)
    {pieces : List (List UInt8)} (hpieces : pieces.flatten <+: (s.peers c).outbox.flatten)
    (hsized : ∀ piece ∈ pieces, piece ≠ [] ∧ piece.length ≤ BUFFER_SIZE) :
    ∃ (messages : List ServerMessage) (delivered : List (List Byte)),
      messages.map ServerMessage.text = (s.peers c).outbox ∧ (∀ m ∈ messages, m.text.length < BUFFER_SIZE) ∧
        delivered.map raw = pieces ∧ ChatClient.Delivery messages delivered := by
  obtain ⟨messages, hmessages, hstrings⟩ := exists_messages ((written_of_reachable h).2 c hc)
  rw [← hmessages, ← raw_stream] at hpieces
  obtain ⟨delivered, hdelivered, hprefix⟩ := exists_cut Prod.fst hpieces
  refine ⟨messages, delivered, hmessages, fun m hm => (hstrings m hm).2, hdelivered, hprefix, fun piece hpiece => ?_,
    fun m hm b hb he => (hstrings m hm).1 (he ▸ hb)⟩
  have hsize := hsized (raw piece) (hdelivered ▸ List.mem_map_of_mem hpiece)
  simpa [raw] using hsize

lemma exists_twoMessages : ∃ s, (machine 100).ReachableBy Dated s ∧ 1 < s.accepted ∧
    (s.peers 1).outbox = [bytesOf " ala: x", bytesOf " ala: y"] := by
  have hrun : (((machine 100).guard Dated).exec start twoMessages).map (fun s => (s.accepted, (s.peers 1).outbox)) =
      some (3, [bytesOf " ala: x", bytesOf " ala: y"]) := by
    decide +kernel
  obtain ⟨s, hs, he⟩ := Option.map_eq_some_iff.mp hrun
  obtain ⟨haccepted, houtbox⟩ := Prod.mk.inj he
  have hguard : ((machine 100).guard Dated).Reachable s := Machine.Reachable.exec (.start start_started) hs
  exact ⟨s, Machine.reachableBy_of_guard hguard, by omega, houtbox⟩

/-- TCP delivers both messages together. -/
theorem delivery_of_run_together : ∃ (messages : List ServerMessage) (delivered : List (List Byte)),
    messages.map ServerMessage.text = [bytesOf " ala: x", bytesOf " ala: y"] ∧
      delivered.map raw = [bytesOf " ala: x ala: y"] ∧ ChatClient.Delivery messages delivered := by
  obtain ⟨s, hreach, haccepted, houtbox⟩ := exists_twoMessages
  have hpieces : [bytesOf " ala: x ala: y"].flatten <+: (s.peers 1).outbox.flatten := by
    rw [houtbox]
    decide +kernel
  obtain ⟨messages, delivered, hmessages, -, hdelivered, hdelivery⟩ :=
    delivery_of_run hreach haccepted hpieces (by decide +kernel)
  exact ⟨messages, delivered, hmessages.trans houtbox, hdelivered, hdelivery⟩

/-! ### One message at a time -/

def isAlive : ServerMessage → Bool
  | .alive => true
  | .relay _ _ _ | .list _ => false

/-- Every other message has a blank. -/
lemma text_eq_alive (m : ServerMessage) : m.text = bytesOf "ALIVE" ↔ isAlive m = true := by
  have hblank : 32 ∉ bytesOf "ALIVE" := by decide
  cases m with
  | alive => exact iff_of_true rfl rfl
  | relay date sender_name message =>
    refine iff_of_false (fun he => hblank ?_) (by simp [isAlive])
    rw [← he]
    have hmem : 32 ∈ bytesOf " " := by decide
    simp [ServerMessage.text, hmem]
  | list names =>
    refine iff_of_false (fun he => hblank ?_) (by simp [isAlive])
    rw [← he]
    have hmem : 32 ∈ listHeader := by decide
    simp [ServerMessage.text, hmem]

lemma text_ne_nil (m : ServerMessage) : m.text ≠ [] := by
  cases m with
  | alive => decide
  | relay date sender_name message =>
    have hne : bytesOf " " ≠ [] := by decide
    simp [ServerMessage.text, hne]
  | list names =>
    have hne : listHeader ≠ [] := by decide
    simp [ServerMessage.text, hne]

lemma receive_whole {messages : List ServerMessage} (h : ∀ m ∈ messages, 0 ∉ m.text ∧ m.text.length < BUFFER_SIZE)
    (client : Client) (hrunning : client.running = true) :
    ∃ client', receive_messages client (messages.map ServerMessage.text) = some client' ∧
      client'.sent = client.sent ++ List.replicate (messages.countP isAlive) (bytesOf "ALIVE_response") ∧
      client'.printed = client.printed ++ (messages.filter fun m => !isAlive m).map ServerMessage.text := by
  induction messages generalizing client with
  | nil => exact ⟨client, rfl, by simp, by simp⟩
  | cons m messages ih =>
    have hm := h m (by simp)
    have hrest : ∀ m ∈ messages, 0 ∉ m.text ∧ m.text.length < BUFFER_SIZE := fun m hm => h m (by simp [hm])
    have hreceive := receive_eq client (text_ne_nil m) fun b hb he => hm.1 (he ▸ hb)
    rw [if_pos hm.2] at hreceive
    simp only [List.map_cons, receive_messages, hreceive]
    by_cases halive : isAlive m = true
    · rw [if_pos ((text_eq_alive m).mpr halive), Option.bind_some, if_pos hrunning]
      obtain ⟨client', hclient, hsent, hprinted⟩ := ih hrest { client with
        buffer := overwrite client.buffer (m.text ++ [0]), sent := client.sent ++ [bytesOf "ALIVE_response"] } hrunning
      refine ⟨client', hclient, ?_, ?_⟩
      · rw [hsent, List.countP_cons_of_pos halive, List.replicate_succ, List.append_assoc, List.singleton_append]
      · rw [hprinted, List.filter_cons_of_neg (by simpa using halive)]
    · rw [if_neg (mt (text_eq_alive m).mp halive), Option.bind_some, if_pos hrunning]
      obtain ⟨client', hclient, hsent, hprinted⟩ := ih hrest { client with
        buffer := overwrite client.buffer (m.text ++ [0]), printed := client.printed ++ [m.text] } hrunning
      refine ⟨client', hclient, ?_, ?_⟩
      · rw [hsent, List.countP_cons_of_neg halive]
      · rw [hprinted, List.filter_cons_of_pos (by simpa using halive), List.map_cons, List.append_assoc,
          List.singleton_append]

/-- Where TCP delivers each message of the server in one piece, a client has answered each probe and printed
each relayed message and each LIST reply as it was sent, in order, at any time and in every run. -/
theorem clients_in_step (h : (machine window).ReachableBy Dated s) {c : Conn} (hc : c < s.accepted) (buffer : Buffer) :
    ∃ messages : List ServerMessage, messages.map ServerMessage.text = (s.peers c).outbox ∧
      ∀ n, ∃ client, receive_messages (created buffer) ((s.peers c).outbox.take n) = some client ∧
        client.sent = List.replicate ((messages.take n).countP isAlive) (bytesOf "ALIVE_response") ∧
        client.printed = ((messages.take n).filter fun m => !isAlive m).map ServerMessage.text := by
  obtain ⟨messages, hmessages, hstrings⟩ := exists_messages ((written_of_reachable h).2 c hc)
  refine ⟨messages, hmessages, fun n => ?_⟩
  have htaken : ∀ m ∈ messages.take n, 0 ∉ m.text ∧ m.text.length < BUFFER_SIZE :=
    fun m hm => hstrings m (List.mem_of_mem_take hm)
  have hreceive := receive_whole htaken (created buffer) rfl
  rw [List.map_take, hmessages] at hreceive
  simpa [created] using hreceive

theorem clients_in_step_two : ∃ messages : List ServerMessage,
    messages.map ServerMessage.text = [bytesOf " ala: x", bytesOf " ala: y"] ∧ ∃ client,
      receive_messages (created fun _ => 0) [bytesOf " ala: x", bytesOf " ala: y"] = some client ∧
        client.printed = (messages.filter fun m => !isAlive m).map ServerMessage.text := by
  obtain ⟨s, hreach, haccepted, houtbox⟩ := exists_twoMessages
  obtain ⟨messages, hmessages, hclient⟩ := clients_in_step hreach haccepted fun _ => 0
  rw [houtbox] at hmessages hclient
  have hlength : messages.length ≤ 2 := by
    have hlength := congrArg List.length hmessages
    rw [List.length_map] at hlength
    exact hlength.le
  obtain ⟨client, hreceive, -, hprinted⟩ := hclient 2
  rw [List.take_of_length_le hlength] at hprinted
  exact ⟨messages, hmessages, client, hreceive, hprinted⟩

end SystemyOperacyjne.ChatServer
