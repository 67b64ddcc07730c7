import Mathlib.Data.Fintype.Basic
import Mathlib.Data.Finset.Card
import SystemyOperacyjne.ChatServerSteps

/-!
# A handler at work

A handler that has received a command goes on to its end as long as it gets `clients_mutex` and
nobody it sends to has closed, or has too much to read.
-/

namespace SystemyOperacyjne.ChatServer
open Concurrency CString
open scoped List

variable {window : ℕ} {s t : State}

/-! ### Steps of the server alone -/

/-- The date has the length that `ctime` gives it, `recipient_name` holds a string, and a send to a
peer that has closed ends the process. -/
def Input.Proper (x : Input) : Prop :=
  x.date.length = 25 ∧ x.garbage.length < NAME_SIZE ∧ x.sigpipe = true

/-- A step of one of the server's threads. -/
def Action.ByServer : Action → Prop
  | .main _ | .checker => True
  | .worker _ x => x.Proper
  | .peerSend _ _ | .peerRead _ | .peerClose _ => False

/-- A step gets `count` bytes, and finds the date. -/
def proper (count : ℕ) : Input :=
  ⟨0, count, List.replicate 25 32, [], fun _ => 0, true⟩

/-- Texts of these lengths go out one after the other to a peer that reads nothing. -/
def GoOut (window : ℕ) : ℕ → List ℕ → Prop
  | _, [] => True
  | unread, n :: texts => unread < window ∧ GoOut window (unread + n) texts

/-- The peer can get texts of these lengths: it has not closed, and has not too much to read. -/
def State.Room (window : ℕ) (s : State) (c : Conn) (texts : List ℕ) : Prop :=
  texts = [] ∨ (s.peers c).closed = false ∧ GoOut window (s.peers c).unread texts

lemma GoOut.less {texts : List ℕ} : ∀ {m n : ℕ}, GoOut window n texts → m ≤ n → GoOut window m texts := by
  induction texts with
  | nil => exact fun _ _ => trivial
  | cons x texts ih =>
    rintro m n ⟨hlt, hrest⟩ hle
    exact ⟨hle.trans_lt hlt, ih hrest (Nat.add_le_add_right hle x)⟩

lemma GoOut.sublist {texts texts' : List ℕ} (hsub : texts' <+ texts) :
    ∀ {n : ℕ}, GoOut window n texts → GoOut window n texts' := by
  induction hsub with
  | slnil => exact id
  | cons x _ ih => exact fun h => ih (h.2.less (Nat.le_add_right _ x))
  | cons_cons x _ ih => exact fun h => ⟨h.1, ih h.2⟩

lemma State.Room.sublist {c : Conn} {texts texts' : List ℕ} (h : s.Room window c texts) (hsub : texts' <+ texts) :
    s.Room window c texts' := by
  rcases h with rfl | ⟨hclosed, hgo⟩
  · exact .inl (List.sublist_nil.mp hsub)
  · exact .inr ⟨hclosed, hgo.sublist hsub⟩

lemma Room.congr {c : Conn} {texts texts' : List ℕ} (h : s.Room window c texts) (hsub : texts' <+ texts)
    (hclosed : (t.peers c).closed = (s.peers c).closed) (hunread : (t.peers c).unread = (s.peers c).unread) :
    t.Room window c texts' := by
  have hs := h.sublist hsub
  rwa [State.Room, hclosed, hunread]

lemma room_nil (c : Conn) : s.Room window c [] :=
  .inl rfl

lemma State.Room.head {c : Conn} {n : ℕ} {texts : List ℕ} (h : s.Room window c (n :: texts)) :
    (s.peers c).closed = false ∧ (s.peers c).unread < window := by
  obtain ⟨hclosed, hlt, -⟩ := h.resolve_left (List.cons_ne_nil _ _)
  exact ⟨hclosed, hlt⟩

/-- `main` is going to put the connection into the slot, the first free one. -/
def MainPc.Seats (s : State) (c : Conn) (j : Slot) : MainPc → Prop
  | .testCapacity fd => s.num_clients < MAX_CLIENTS ∧ s.fds fd = some c ∧ (s.clients j).active = false ∧
      ∀ i < j, (s.clients i).active = true
  | .search fd => s.i ≤ j ∧ s.fds fd = some c ∧ (s.clients j).active = false ∧
      ∀ i < j, s.i ≤ i → (s.clients i).active = true
  | .setFd fd slot => j = slot ∧ s.fds fd = some c
  | _ => False

/-- The slot has its descriptor, and `main` is going to activate it. -/
def MainPc.Admits (j : Slot) : MainPc → Prop
  | .recvName _ slot | .receivingName _ _ slot | .setActive slot => j = slot
  | _ => False

instance (s : State) (c : Conn) (j : Slot) : DecidablePred (MainPc.Seats s c j)
  | .testCapacity fd => inferInstanceAs (Decidable (s.num_clients < MAX_CLIENTS ∧ s.fds fd = some c ∧
      (s.clients j).active = false ∧ ∀ i < j, (s.clients i).active = true))
  | .search fd => inferInstanceAs (Decidable (s.i ≤ j ∧ s.fds fd = some c ∧ (s.clients j).active = false ∧
      ∀ i < j, s.i ≤ i → (s.clients i).active = true))
  | .setFd fd slot => inferInstanceAs (Decidable (j = slot ∧ s.fds fd = some c))
  | .accept | .lock _ | .refuse _ | .refuseClose _ | .recvName _ _ | .receivingName _ _ _ | .setActive _ | .initMutex _
  | .increment _ | .create _ | .unlock => isFalse id

instance (j : Slot) : DecidablePred (MainPc.Admits j)
  | .recvName _ slot | .receivingName _ _ slot | .setActive slot => inferInstanceAs (Decidable (j = slot))
  | .accept | .lock _ | .testCapacity _ | .refuse _ | .refuseClose _ | .search _ | .setFd _ _ | .initMutex _
  | .increment _ | .create _ | .unlock => isFalse id

/-- A relay that comes to the slot may send to the connection: the slot has its descriptor and a name
that is picked, or `main` is going to let a client in there. -/
def State.MayGet (s : State) (r : Option (List UInt8)) (client_name : List UInt8) (c : Conn) (j : Slot) : Prop :=
  s.main.Seats s c j ∨ s.fds (s.clients j).socket_fd = some c ∧ (s.main.Admits j ∨ (s.clients j).active = true ∧
    (stringAt (s.clients j).name 0).any (picks r client_name) = true)

instance (s : State) (r : Option (List UInt8)) (client_name : List UInt8) (c : Conn) :
    DecidablePred (s.MayGet r client_name c) :=
  fun j => inferInstanceAs (Decidable (s.main.Seats s c j ∨ s.fds (s.clients j).socket_fd = some c ∧
    (s.main.Admits j ∨ (s.clients j).active = true ∧ (stringAt (s.clients j).name 0).any (picks r client_name) = true)))

/-- How many texts a relay from the slot `i` on may send to the connection. -/
def State.recipients (s : State) (r : Option (List UInt8)) (client_name : List UInt8) (i : ℕ) (c : Conn) : ℕ :=
  (Finset.univ.filter fun j : Slot => i ≤ j ∧ s.MayGet r client_name c j).card

/-- Where the bytes that a handler has received lead it. -/
def Handler.heading (h : Handler) (garbage : List UInt8) : HandlerPc :=
  match h.pc with
  | .unlockRecv | .testActive | .testReceived =>
    if h.bytes_received = -1 then .setTimeout
    else match terminate h.buffer h.bytes_received with
      | some buffer => dispatchPc (parse buffer garbage)
      | none => .fault
  | .dispatch => dispatchPc (parse h.buffer garbage)
  | pc => pc

/-- The lengths of the texts that the relay is still going to send to the connection: the date has
25 bytes, and a blank, a colon and a blank come to it. -/
def HandlerPc.relayTexts (s : State) (client_name : List UInt8) (c : Conn) : HandlerPc → List ℕ
  | .relayLock r message => List.replicate (s.recipients r client_name 0 c) (28 + client_name.length + message.length)
  | .relay r message i => List.replicate (s.recipients r client_name i c) (28 + client_name.length + message.length)
  | _ => []

/-- The length of the reply to LIST, at most, if it is still going to be sent to the connection. -/
def HandlerPc.reply (s : State) (index : Slot) (c : Conn) : HandlerPc → List ℕ
  | .listLock | .listing _ _ | .listUnlock _ | .listSend _ =>
    if s.main.Seats s c index ∨ s.fds (s.clients index).socket_fd = some c then [BUFFER_SIZE - 1] else []
  | _ => []

/-- The lengths of the texts that the handler is still going to send to the connection for its
command. -/
def Handler.texts (s : State) (c : Conn) (h : Handler) (garbage : List UInt8) : List ℕ :=
  (h.heading garbage).relayTexts s h.client_name c ++ (h.heading garbage).reply s h.client_index c

/-- Nobody may get a text that could not get it before. -/
structure Shrinks (s t : State) : Prop where
  mayGet : ∀ r client_name c j, t.MayGet r client_name c j → s.MayGet r client_name c j
  own : ∀ c j, t.main.Seats t c j ∨ t.fds (t.clients j).socket_fd = some c →
    s.main.Seats s c j ∨ s.fds (s.clients j).socket_fd = some c

lemma Shrinks.recipients (h : Shrinks s t) (r : Option (List UInt8)) (client_name : List UInt8) (i : ℕ) (c : Conn) :
    t.recipients r client_name i c ≤ s.recipients r client_name i c := by
  apply Finset.card_le_card
  intro j hj
  obtain ⟨hle, hget⟩ := (Finset.mem_filter.mp hj).2
  exact Finset.mem_filter.mpr ⟨Finset.mem_univ _, hle, h.mayGet r client_name c j hget⟩

lemma Shrinks.relayTexts (h : Shrinks s t) (pc : HandlerPc) (client_name : List UInt8) (c : Conn) :
    pc.relayTexts t client_name c <+ pc.relayTexts s client_name c := by
  cases pc with
  | relayLock | relay => exact List.replicate_sublist_replicate _ |>.mpr (h.recipients _ _ _ _)
  | _ => exact List.Sublist.refl _

lemma Shrinks.reply (h : Shrinks s t) (pc : HandlerPc) (index : Slot) (c : Conn) :
    pc.reply t index c <+ pc.reply s index c := by
  cases pc with
  | listLock | listing | listUnlock | listSend =>
    simp only [HandlerPc.reply]
    split
    · next ht => rw [if_pos (h.own c index ht)]
    · exact List.nil_sublist _
  | _ => exact List.Sublist.refl _

lemma Shrinks.texts (h : Shrinks s t) (g : Handler) (garbage : List UInt8) (c : Conn) :
    g.texts t c garbage <+ g.texts s c garbage :=
  (h.relayTexts _ _ c).append (h.reply _ _ c)

lemma shrinks_of_same (hmain : t.main = s.main) (hout : ¬s.main.Inside) (hfds : t.fds = s.fds)
    (hfd : ∀ i, (t.clients i).socket_fd = (s.clients i).socket_fd) (hname : ∀ i, (t.clients i).name = (s.clients i).name)
    (hactive : ∀ i, (t.clients i).active = true → (s.clients i).active = true) : Shrinks s t := by
  have hseats : ∀ c j, ¬t.main.Seats t c j := by
    intro c j hp
    rw [hmain] at hp
    cases hpc : s.main with
    | testCapacity | search | setFd =>
      rw [hpc] at hout
      exact hout trivial
    | _ =>
      rw [hpc] at hp
      exact hp
  constructor
  · rintro r client_name c j (hp | ⟨hopen, hadmits⟩)
    · exact absurd hp (hseats c j)
    · rw [hfds, hfd] at hopen
      rw [hmain, hname] at hadmits
      exact .inr ⟨hopen, hadmits.imp id fun ha => ⟨hactive j ha.1, ha.2⟩⟩
  · rintro c j (hp | hopen)
    · exact absurd hp (hseats c j)
    · rw [hfds, hfd] at hopen
      exact .inr hopen

lemma shrinks_of_clients (hmain : t.main = s.main) (hout : ¬s.main.Inside) (hfds : t.fds = s.fds)
    (hclients : t.clients = s.clients) : Shrinks s t := by
  refine shrinks_of_same hmain hout hfds (fun i => ?_) (fun i => ?_) fun i => ?_
  · rw [hclients]
  · rw [hclients]
  · rw [hclients]
    exact id

/-- Between the `recv` of a command and its end. -/
@[simp] def HandlerPc.Busy : HandlerPc → Prop
  | .unlockRecv | .testActive | .testReceived | .dispatch | .relayLock _ _ | .relay _ _ _ | .relayUnlock | .listLock
  | .listing _ _ | .listUnlock _ | .listSend _ | .stopClose | .stopLock | .stopDeactivate | .stopDecrement
  | .stopUnlock => True
  | .start | .copyName | .setTimeout | .lockRecv | .recv | .receiving _ _ | .ended | .fault => False

/-- Back at the head of the loop, or out of it. -/
@[simp] def HandlerPc.Done : HandlerPc → Prop
  | .setTimeout | .ended => True
  | _ => False

/-- Before `pthread_mutex_lock(&clients_mutex)`. -/
@[simp] def HandlerPc.AtLock : HandlerPc → Prop
  | .relayLock _ _ | .listLock | .stopLock => True
  | _ => False

/-- A bound on the steps to the end of the command. -/
@[simp] def HandlerPc.rest : HandlerPc → ℕ
  | .unlockRecv => 30
  | .testActive => 29
  | .testReceived => 28
  | .dispatch => 27
  | .stopClose => 26
  | .relayLock _ _ | .listLock | .stopLock => 25
  | .relay _ _ i | .listing _ i => 13 + (MAX_CLIENTS - i)
  | .stopDeactivate => 15
  | .stopDecrement => 14
  | .stopUnlock => 13
  | .relayUnlock | .listUnlock _ => 12
  | .listSend _ => 11
  | _ => 0

/-- From `pc` on no more is sent than from `from_` on. -/
structure HandlerPc.Within (pc from_ : HandlerPc) : Prop where
  relayTexts : ∀ (s : State) client_name c, pc.relayTexts s client_name c <+ from_.relayTexts s client_name c
  reply : ∀ (s : State) index c, pc.reply s index c <+ from_.reply s index c

lemma HandlerPc.Within.rfl {pc : HandlerPc} : pc.Within pc :=
  ⟨fun _ _ _ => List.Sublist.refl _, fun _ _ _ => List.Sublist.refl _⟩

/-- What a step of the busy handler does: it comes closer to the end, or runs over a buffer. What is
left of the relay and `extra` still find room. -/
structure Advance (window : ℕ) (s : State) (k : ℕ) (th : Thread) (g g' : Handler) (extra : Conn → List ℕ) (t : State) :
    Prop where
  threads : t.threads = s.threads.set k { th with code := .handler g' }
  goes : g'.pc = .fault ∨ g'.pc.Done ∨ g'.pc.Busy ∧ g'.pc.rest < g.pc.rest
  mutex : t.clients_mutex = s.clients_mutex ∨ t.clients_mutex = none ∨ t.clients_mutex = some (.worker k)
  main : t.main = s.main
  shrinks : g.pc ≠ .stopClose → Shrinks s t
  reply : ∀ c, (g'.heading []).reply t g'.client_index c <+ (g.heading []).reply s g.client_index c
  room : (∀ text, g.pc ≠ .listSend text) → ∀ c,
    t.Room window c ((g'.heading []).relayTexts t g'.client_name c ++ extra c)

section
variable {k : ℕ} {th : Thread} {g g' : Handler} {extra : Conn → List ℕ}

lemma Advance.quiet (hthreads : t.threads = s.threads.set k { th with code := .handler g' })
    (hindex : g'.client_index = g.client_index) (hname : g'.client_name = g.client_name)
    (hgoes : g'.pc = .fault ∨ g'.pc.Done ∨ g'.pc.Busy ∧ g'.pc.rest < g.pc.rest)
    (hmutex : t.clients_mutex = s.clients_mutex ∨ t.clients_mutex = none ∨ t.clients_mutex = some (.worker k))
    (hmain : t.main = s.main) (hshrinks : Shrinks s t) (hpeers : t.peers = s.peers)
    (hwithin : (g'.heading []).Within (g.heading []))
    (hroom : ∀ c, s.Room window c ((g.heading []).relayTexts s g.client_name c ++ extra c)) :
    Advance window s k th g g' extra t where
  threads := hthreads
  goes := hgoes
  mutex := hmutex
  main := hmain
  shrinks _ := hshrinks
  reply c := by
    rw [hindex]
    exact (hshrinks.reply _ _ c).trans (hwithin.reply s _ c)
  room _ c := by
    rw [hname]
    refine Room.congr (hroom c) (List.Sublist.append ?_ (List.Sublist.refl _)) (by rw [hpeers]) (by rw [hpeers])
    exact (hshrinks.relayTexts _ _ c).trans (hwithin.relayTexts s _ c)

lemma Advance.goto (pc : HandlerPc) {mutex : Option Owner} (hout : ¬s.main.Inside)
    (hgoes : pc = .fault ∨ pc.Done ∨ pc.Busy ∧ pc.rest < g.pc.rest)
    (hmutex : mutex = s.clients_mutex ∨ mutex = none ∨ mutex = some (.worker k))
    (hwithin : ({ g with pc := pc }.heading []).Within (g.heading []))
    (hroom : ∀ c, s.Room window c ((g.heading []).relayTexts s g.client_name c ++ extra c)) :
    Advance window s k th g { g with pc := pc } extra { s.handlerAt k th g pc with clients_mutex := mutex } :=
  .quiet rfl rfl rfl hgoes hmutex rfl (shrinks_of_clients rfl hout rfl rfl) rfl
    hwithin hroom

end

end SystemyOperacyjne.ChatServer
