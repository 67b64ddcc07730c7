import SystemyOperacyjne.ChatServerAddress
import SystemyOperacyjne.ChatServerMessages

/-!
# Where the relayed texts come from

The server is taken with a record of what its handlers receive and of what the peers send. Each text
that it relays is traced to a command that a handler has received in one piece, and so to the bytes
of a peer.
-/

namespace SystemyOperacyjne.ChatServer
open Concurrency CString

variable {window : ℕ} {s t : State}

/-- What one `recv` of a handler has delivered: the name in which the handler relays, the connection,
and the bytes. -/
structure Hearing where
  client_name : List UInt8
  conn : Conn
  bytes : List UInt8

/-- The command, up to the first zero byte. -/
def Hearing.command (e : Hearing) : List UInt8 :=
  e.bytes.takeWhile (· ≠ 0)

/-- The server with all that its handlers have heard, and all that was sent to it. -/
structure Origins where
  state : State
  heard : List Hearing
  sent : Conn → List UInt8

/-- What a handler hears in this step. -/
def State.hears (s : State) : Action → Option Hearing
  | .worker k x =>
    match s.threads[k]? with
    | some ⟨_, _, .handler h⟩ =>
      match h.pc with
      | .receiving (some c) timeout => (s.recv (some c) timeout BUFFER_SIZE x.count).map fun r => ⟨h.client_name, c, r.2.1⟩
      | _ => none
    | _ => none
  | _ => none

def originsStep (window : ℕ) (u : Origins) (a : Action) : Option Origins :=
  (step window u.state a).map fun t => ⟨t, u.heard ++ (u.state.hears a).toList,
    match a with
    | .peerSend c bytes => Function.update u.sent c (u.sent c ++ bytes)
    | _ => u.sent⟩

def origins (window : ℕ) : Machine Origins Action where
  init u := Started u.state ∧ u.heard = [] ∧ ∀ c, u.sent c = (u.state.peers c).inbox
  next := originsStep window

/-- The command asks that the message be relayed. `garbage` is what `recipient_name` holds where the command
names no recipient. The text of a 2ONE can begin behind the command. -/
inductive Asks : List UInt8 → List UInt8 → Prop
  | toAll (message : List UInt8) : Asks (bytesOf "2ALL " ++ message) message
  | toOne {command recipient_name garbage : List UInt8} (hone : bytesOf "2ONE " <+: command)
      (hrecipient : (scanToken (command.drop 5)).getD garbage = recipient_name)
      (hin : textStart recipient_name ≤ command.length) : Asks command (command.drop (textStart recipient_name))
  | behind {command recipient_name garbage : List UInt8} (hone : bytesOf "2ONE " <+: command)
      (hrecipient : (scanToken (command.drop 5)).getD garbage = recipient_name)
      (hout : command.length < textStart recipient_name) (message : List UInt8) : Asks command message

/-- The text is a probe, a LIST reply, or a message with the name of a handler that was asked to relay it. -/
def Explained (heard : List Hearing) (text : List UInt8) : Prop :=
  text = bytesOf "ALIVE" ∨ listHeader <+: text ∨
    ∃ e ∈ heard, ∃ date message, Asks e.command message ∧ compose date e.client_name message = some text

/-- What a handler has at hand was heard, as far as it has come with it. -/
def Handler.Accounted (heard : List Hearing) (h : Handler) : Prop :=
  match h.pc with
  | .unlockRecv | .testActive | .testReceived => h.bytes_received = -1 ∨
    ∃ e ∈ heard, e.client_name = h.client_name ∧ h.bytes_received = e.bytes.length ∧
      ∃ before, h.buffer = overwrite before e.bytes
  | .dispatch => ∃ e ∈ heard, e.client_name = h.client_name ∧ stringAt h.buffer 0 = some e.command
  | .relayLock _ message | .relay _ message _ =>
    ∃ e ∈ heard, e.client_name = h.client_name ∧ Asks e.command message
  | _ => True

section
variable {heard heard' : List Hearing}

lemma Explained.mono {text : List UInt8} (h : Explained heard text) (hsub : heard ⊆ heard') :
    Explained heard' text := by
  apply h.imp_right
  apply Or.imp_right
  rintro ⟨e, he, hrest⟩
  exact ⟨e, hsub he, hrest⟩

lemma Handler.Accounted.mono {h : Handler} (ha : h.Accounted heard) (hsub : heard ⊆ heard') : h.Accounted heard' := by
  unfold Handler.Accounted at ha ⊢
  split at ha
  · exact ha.imp_right fun ⟨e, he, hrest⟩ => ⟨e, hsub he, hrest⟩
  · exact ha.imp_right fun ⟨e, he, hrest⟩ => ⟨e, hsub he, hrest⟩
  · exact ha.imp_right fun ⟨e, he, hrest⟩ => ⟨e, hsub he, hrest⟩
  · obtain ⟨e, he, hrest⟩ := ha
    exact ⟨e, hsub he, hrest⟩
  · obtain ⟨e, he, hrest⟩ := ha
    exact ⟨e, hsub he, hrest⟩
  · obtain ⟨e, he, hrest⟩ := ha
    exact ⟨e, hsub he, hrest⟩
  · trivial

end

/-! ### What is read from the buffer -/

lemma stringAt_terminated {before buffer : Buffer} {e : Hearing}
    (h : terminate (overwrite before e.bytes) e.bytes.length = some buffer) : stringAt buffer 0 = some e.command := by
  rw [terminate_overwrite] at h
  split at h
  · next hsize =>
    obtain rfl := Option.some.inj h
    have hfits : (e.bytes ++ [0]).length ≤ BUFFER_SIZE := by
      rw [List.length_append]
      exact hsize
    unfold stringAt
    rw [List.drop_zero, ofFn_overwrite _ hfits, List.append_assoc, if_pos (by simp)]
    have hcut : ∀ rest, (e.bytes ++ ([0] ++ rest)).takeWhile (· ≠ 0) = e.command := by
      intro rest
      unfold Hearing.command
      rw [List.takeWhile_append]
      split
      · next hall =>
        have hself := (List.takeWhile_prefix fun b : UInt8 => decide (b ≠ 0)).eq_of_length hall
        rw [hself]
        simp
      · rfl
    rw [hcut]
  · cases h

/-- The message that is relayed for a command. -/
def Command.message : Command → Option (List UInt8)
  | .toAll message | .toOne _ message => some message
  | .list | .stop | .other | .fault => none

lemma asks_of_parse {buffer : Buffer} {garbage command message : List UInt8}
    (hcommand : stringAt buffer 0 = some command) (h : (parse buffer garbage).message = some message) :
    Asks command message := by
  by_cases hone : bytesOf "2ONE " <+: command
  · rw [parse_one hcommand hone] at h
    simp only at h
    split at h
    · split at h
      · next text htext =>
        obtain rfl := Option.some.inj h
        by_cases hin : textStart ((scanToken (command.drop 5)).getD garbage) ≤ command.length
        · obtain ⟨rest, hofFn, hz⟩ := ofFn_of_stringAt hcommand
          rw [stringAt_of_ofFn hofFn hz hin] at htext
          obtain rfl := Option.some.inj htext
          exact .toOne hone rfl hin
        · exact .behind hone rfl (not_le.mp hin) _
      · cases h
    · cases h
  · have hone' : ¬(bytesOf "2ONE ").isPrefixOf command = true := mt List.isPrefixOf_iff_prefix.mp hone
    simp only [parse, hcommand, if_neg hone'] at h
    split at h
    · next hall =>
      obtain rfl := Option.some.inj h
      obtain ⟨text, rfl⟩ := List.isPrefixOf_iff_prefix.mp hall
      exact .toAll text
    · split at h
      · cases h
      · split at h <;> cases h

/-! ### The handlers -/

section
variable {k : ℕ} {th : Thread} {x : Input} {heard : List Hearing}

lemma hears_receiving {h : Handler} {conn : Conn} {timeout : Bool} {r : ℤ × List UInt8 × State} (hth : s.threads[k]? = some th)
    (hcode : th.code = .handler h) (hpc : h.pc = .receiving (some conn) timeout)
    (hr : s.recv (some conn) timeout BUFFER_SIZE x.count = some r) :
    s.hears (.worker k x) = some ⟨h.client_name, conn, r.2.1⟩ := by
  obtain ⟨c, slot, code⟩ := th
  obtain rfl : code = .handler h := hcode
  simp only [State.hears, hth, hpc, hr, Option.map_some]

lemma recv_count {conn : Option Conn} {timeout : Bool} {size count : ℕ} {r : ℤ × List UInt8 × State}
    (hr : s.recv conn timeout size count = some r) : r.1 = -1 ∨ (∃ c, conn = some c) ∧ r.1 = r.2.1.length := by
  cases conn with
  | none =>
    obtain rfl := Option.some.inj hr
    exact .inl rfl
  | some d =>
    obtain (rfl | rfl) | ⟨c, hc, -, hle, rfl⟩ := recv_cases hr
    · exact .inl rfl
    · exact .inr ⟨⟨d, rfl⟩, rfl⟩
    · refine .inr ⟨⟨d, rfl⟩, ?_⟩
      simp [Nat.min_eq_left hle]

lemma accounted_handler {h : Handler} (hth : s.threads[k]? = some th) (hcode : th.code = .handler h)
    (haccounted : h.Accounted heard) (hs : client_handler window s k th h x = some t) :
    ∃ h', t.threads = s.threads.set k { th with code := .handler h' } ∧
      h'.Accounted (heard ++ (s.hears (.worker k x)).toList) := by
  have hsub : heard ⊆ heard ++ (s.hears (.worker k x)).toList := List.subset_append_left _ _
  -- a handler that goes on with the same texts
  have hstays : ∀ h' : Handler, h'.Accounted heard →
      ∃ g, s.threads.set k { th with code := .handler h' } = s.threads.set k { th with code := .handler g } ∧
        g.Accounted (heard ++ (s.hears (.worker k x)).toList) := fun h' hh => ⟨h', rfl, hh.mono hsub⟩
  cases handler_cases hs with
  | goes hgoes =>
    apply hstays
    unfold Handler.Accounted at haccounted
    generalize h.pc = pc at hgoes haccounted
    cases hgoes with
    | relay => exact haccounted
    | relayed | relayFault | timeout | list | listed | listFault | answered | startFault | nameFault => trivial
  | receives hpc hr =>
    obtain ⟨peers, hpeers⟩ := recv_eq hr
    rw [hpeers]
    refine ⟨_, rfl, ?_⟩
    obtain hnone | ⟨⟨c, rfl⟩, hcount⟩ := recv_count hr
    · exact .inl hnone
    · rw [hears_receiving hth hcode hpc hr]
      exact .inr ⟨_, List.mem_append_right _ (List.mem_singleton.mpr rfl), rfl, hcount, h.buffer, rfl⟩
  | unlocksRecv hpc | staysActive hpc =>
    apply hstays
    simp only [Handler.Accounted, hpc] at haccounted
    exact haccounted
  | terminates hpc hsome hbuffer =>
    apply hstays
    simp only [Handler.Accounted, hpc] at haccounted
    obtain ⟨e, he, hname, hcount, before, hbefore⟩ := haccounted.resolve_left hsome
    rw [hbefore, hcount] at hbuffer
    exact ⟨e, he, hname, stringAt_terminated hbuffer⟩
  | dispatches hpc =>
    apply hstays
    simp only [Handler.Accounted, hpc] at haccounted
    obtain ⟨e, he, hname, hcommand⟩ := haccounted
    have hasks : ∀ message, (parse h.buffer x.garbage).message = some message →
        ∃ e ∈ heard, e.client_name = h.client_name ∧ Asks e.command message :=
      fun message hmessage => ⟨e, he, hname, asks_of_parse hcommand hmessage⟩
    cases hparse : parse h.buffer x.garbage with
    | toAll message | toOne recipient_name message => exact hasks message (by rw [hparse]; rfl)
    | list | stop | other | fault => trivial
  | locks hlocks =>
    apply hstays
    unfold Handler.Accounted at haccounted
    generalize h.pc = pc at hlocks haccounted
    cases hlocks with
    | relay => exact haccounted
    | list | stop => trivial
  | unlocks hunlocks =>
    apply hstays
    generalize h.pc = pc at hunlocks
    cases hunlocks <;> trivial
  | starts | copiesName | locksRecv | callsRecv | leaves | retries | overruns | closes | deactivates | decrements =>
    exact hstays _ trivial

lemma handler_explains {h : Handler} (hclean : h.Clean) (haccounted : h.Accounted heard)
    (hs : client_handler window s k th h x = some t) : Appends s t (Explained heard) := by
  refine handler_appends_of ?_ ?_ hs
  · intro recipient_name message i text hpc htext
    simp only [Handler.Accounted, hpc] at haccounted
    obtain ⟨e, he, hname, hasks⟩ := haccounted
    exact .inr (.inr ⟨e, he, x.date, message, hasks, by rw [hname]; exact htext⟩)
  · intro text hpc
    have hlist := hclean.pc
    rw [hpc] at hlist
    obtain ⟨names, rfl, -⟩ := hlist
    exact .inr (.inl (List.prefix_append _ _))

end

/-! ### The peers -/

lemma inbox_suffix_of_recv {conn : Option Conn} {timeout : Bool} {size count : ℕ} {r : ℤ × List UInt8 × State}
    (hr : s.recv conn timeout size count = some r) (c : Conn) : (r.2.2.peers c).inbox <:+ (s.peers c).inbox := by
  obtain (rfl | rfl) | ⟨d, -, -, -, rfl⟩ := recv_cases hr
  · exact List.suffix_rfl
  · exact List.suffix_rfl
  · by_cases hc : c = d
    · subst hc
      simpa [State.setPeer] using List.drop_suffix _ _
    · simp [State.setPeer, Function.update_of_ne hc]

lemma inbox_suffix_of_main {x : Input} (hs : mainStep s x = some t) (c : Conn) :
    (t.peers c).inbox <:+ (s.peers c).inbox := by
  cases main_cases hs with
  | accepts =>
    by_cases hc : c = s.accepted
    · subst hc
      simp
    · simp [Function.update_of_ne hc]
  | receives hpc name peers =>
    simp only [mainStep, hpc, Option.map_eq_some_iff] at hs
    obtain ⟨r, hr, ht⟩ := hs
    have hpeers : r.2.2.peers = peers := congrArg State.peers ht
    rw [← hpeers]
    exact inbox_suffix_of_recv hr c
  | locks | full | hasRoom | refuses | closes | skips | finds | findsNone | setsFd | callsRecv | activates | initsMutex
  | increments | creates | unlocks => exact List.suffix_rfl

lemma inbox_suffix_of_worker {k : ℕ} {x : Input} (hs : workerStep window s k x = some t) (c : Conn) :
    (t.peers c).inbox <:+ (s.peers c).inbox := by
  have hsame : ∀ peers, SameIncoming s.peers peers → (peers c).inbox <:+ (s.peers c).inbox := by
    intro peers hpeers
    exact ⟨[], (hpeers c).1⟩
  cases hth : s.threads[k]? with
  | none => simp [workerStep, hth] at hs
  | some th =>
    simp only [workerStep, hth] at hs
    cases hcode : th.code with
    | handler h =>
      simp only [hcode] at hs
      cases handler_cases hs with
      | goes _ hpeers => exact hsame _ hpeers
      | receives _ hr => exact inbox_suffix_of_recv hr c
      | starts | copiesName | locksRecv | callsRecv | unlocksRecv | staysActive | leaves | retries | terminates | overruns
      | dispatches | locks | unlocks | closes | deactivates | decrements => exact List.suffix_rfl
    | check g =>
      simp only [hcode] at hs
      cases check_cases hs with
      | setsTimeout _ hpeers | asks _ hpeers => exact hsame _ hpeers
      | reads _ hr => exact inbox_suffix_of_recv hr c
      | locksRecv | callsRead | unlocksRecv | findsDead | findsAlive | closes | locks | deactivates | decrements
      | unlocks => exact List.suffix_rfl

lemma inbox_step {u v : Origins} {a : Action} (h : ∀ c, (u.state.peers c).inbox <:+ u.sent c)
    (hs : originsStep window u a = some v) : ∀ c, (v.state.peers c).inbox <:+ v.sent c := by
  obtain ⟨t, ht, rfl⟩ := Option.map_eq_some_iff.mp hs
  intro c
  cases a with
  | main x => exact (inbox_suffix_of_main ht c).trans (h c)
  | checker =>
    have hpeers : t.peers = u.state.peers := by
      cases checker_cases ht <;> rfl
    rw [hpeers]
    exact h c
  | worker k x => exact (inbox_suffix_of_worker ht c).trans (h c)
  | peerSend d bytes =>
    simp only [step] at ht
    split at ht
    · cases ht
    · cases ht
      by_cases hc : c = d
      · subst hc
        obtain ⟨before, hbefore⟩ := h c
        simp [State.setPeer, ← hbefore]
      · simpa [State.setPeer, Function.update_of_ne hc] using h c
  | peerRead d | peerClose d =>
    simp only [step, Option.some.injEq] at ht
    subst ht
    by_cases hc : c = d
    · subst hc
      simpa [State.setPeer] using h c
    · simpa [State.setPeer, Function.update_of_ne hc] using h c

lemma hears_inbox {a : Action} {e : Hearing} (he : s.hears a = some e) : e.bytes <+: (s.peers e.conn).inbox := by
  unfold State.hears at he
  split at he
  · split at he
    · split at he
      · obtain ⟨r, hr, rfl⟩ := Option.map_eq_some_iff.mp he
        obtain (rfl | rfl) | ⟨d, hd, -, -, rfl⟩ := recv_cases hr
        · exact List.nil_prefix
        · exact List.nil_prefix
        · obtain rfl := Option.some.inj hd
          exact List.take_prefix _ _
      · cases he
    · cases he
  · cases he

/-! ### The runs -/

structure Sourced (u : Origins) : Prop where
  clean : AllHandlers Handler.Clean u.state
  accounted : AllHandlers (Handler.Accounted u.heard) u.state
  explained : AllTexts (Explained u.heard) u.state
  inbox : ∀ c, (u.state.peers c).inbox <:+ u.sent c
  sent : ∀ e ∈ u.heard, e.bytes <:+: u.sent e.conn

lemma sent_step {u v : Origins} {a : Action} (hs : originsStep window u a = some v) (c : Conn) :
    u.sent c <+: v.sent c := by
  obtain ⟨t, -, rfl⟩ := Option.map_eq_some_iff.mp hs
  cases a with
  | peerSend d bytes =>
    by_cases hc : c = d
    · subst hc
      simp
    · simp [Function.update_of_ne hc]
  | _ => exact List.prefix_rfl

lemma Sourced.step {u v : Origins} {a : Action} (h : Sourced u) (hs : originsStep window u a = some v) : Sourced v := by
  have hinbox := inbox_step h.inbox hs
  have hsent : ∀ e ∈ u.heard ++ (u.state.hears a).toList, e.bytes <:+: v.sent e.conn := by
    intro e he
    apply List.IsInfix.trans ?_ (sent_step hs e.conn).isInfix
    rcases List.mem_append.mp he with hold | hnew
    · exact h.sent e hold
    · have hprefix := hears_inbox (Option.mem_toList.mp hnew)
      exact hprefix.isInfix.trans (h.inbox e.conn).isInfix
  obtain ⟨t, ht, rfl⟩ := Option.map_eq_some_iff.mp hs
  have hsub : u.heard ⊆ u.heard ++ (u.state.hears a).toList := List.subset_append_left _ _
  have haccounted : AllHandlers (Handler.Accounted (u.heard ++ (u.state.hears a).toList)) u.state :=
    fun k th g hth hcode => (h.accounted k th g hth hcode).mono hsub
  refine ⟨clean_step h.clean ht, ?_, ?_, hinbox, hsent⟩
  · refine haccounted.step (fun _ _ => trivial) ?_ ht
    rintro k x th g rfl hth hcode hg
    exact accounted_handler hth hcode (h.accounted k th g hth hcode) hg
  · have hexplained : AllTexts (Explained (u.heard ++ (u.state.hears a).toList)) u.state :=
      fun c hc text htext => (h.explained c hc text htext).mono hsub
    refine hexplained.step (fun k x ha => ?_) ht
    subst ha
    refine worker_appends_of (.inl rfl) (fun th g hth hcode hg => ?_) ht
    exact handler_explains (h.clean k th g hth hcode) (haccounted k th g hth hcode) hg

/-- Whatever the clients do and in whatever order the threads go on: each text that the server has written to a
connection is a probe, a LIST reply, or a message with a date and the name of a handler, and a handler of
this name has received, in one piece of what some peer has sent, a command that asks for this message. -/
theorem relayed_was_sent {u : Origins} (h : (origins window).Reachable u) {c : Conn} (hc : c < u.state.accepted)
    {text : List UInt8} (htext : text ∈ (u.state.peers c).outbox) :
    text = bytesOf "ALIVE" ∨ listHeader <+: text ∨ ∃ e ∈ u.heard, e.bytes <:+: u.sent e.conn ∧
      ∃ date message, Asks e.command message ∧ compose date e.client_name message = some text := by
  have hsourced : Sourced u := by
    refine h.invariant (I := Sourced) ?_ fun v a w hv hs => hv.step hs
    rintro v ⟨hstarted, hheard, hsent⟩
    refine ⟨fun k th g hth => ?_, fun k th g hth => ?_, fun d hd => ?_, fun d => ?_, fun e he => ?_⟩
    · rw [hstarted.threads] at hth
      cases hth
    · rw [hstarted.threads] at hth
      cases hth
    · rw [hstarted.accepted] at hd
      exact absurd hd (Nat.not_lt_zero d)
    · exact ⟨[], (hsent d).symm⟩
    · rw [hheard] at he
      cases he
  obtain halive | hlist | ⟨e, he, hrest⟩ := hsourced.explained c hc text htext
  · exact .inl halive
  · exact .inr (.inl hlist)
  · exact .inr (.inr ⟨e, he, hsourced.sent e he, hrest⟩)

/-- The second client gets what the first has asked for. -/
theorem relayed_was_sent_two : ∃ u : Origins, bytesOf " ala: y" ∈ (u.state.peers 1).outbox ∧
    ∃ e ∈ u.heard, e.bytes <:+: u.sent e.conn ∧
      ∃ date message, Asks e.command message ∧ compose date e.client_name message = some (bytesOf " ala: y") := by
  have hrun : ((origins 100).exec ⟨start, [], fun _ => []⟩ twoMessages).map
      (fun u => (u.state.accepted, (u.state.peers 1).outbox)) = some (3, [bytesOf " ala: x", bytesOf " ala: y"]) := by
    decide +kernel
  obtain ⟨u, hu, he⟩ := Option.map_eq_some_iff.mp hrun
  obtain ⟨haccepted, houtbox⟩ := Prod.mk.inj he
  have hreach : (origins 100).Reachable u := Machine.Reachable.exec (.start ⟨start_started, rfl, fun _ => rfl⟩) hu
  have htext : bytesOf " ala: y" ∈ (u.state.peers 1).outbox := by
    rw [houtbox]
    exact List.mem_cons_of_mem _ (List.mem_singleton.mpr rfl)
  have halive : bytesOf " ala: y" ≠ bytesOf "ALIVE" := by decide
  have hlist : ¬listHeader <+: bytesOf " ala: y" := by decide
  have hcases := relayed_was_sent hreach (haccepted ▸ Nat.succ_lt_succ Nat.zero_lt_two) htext
  exact ⟨u, htext, (hcases.resolve_left halive).resolve_left hlist⟩

end SystemyOperacyjne.ChatServer
