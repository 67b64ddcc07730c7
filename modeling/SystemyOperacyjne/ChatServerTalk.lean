import SystemyOperacyjne.ChatServerSteps

/-!
# A client and the liveness checks

One registered client, its handler, and any number of `check_alive` rounds for it. The client
sends commands when it likes and answers each probe; what it sends arrives message by message.
The handler and the checks receive from the same connection, under `recv_mutex`.
-/

namespace SystemyOperacyjne.ChatServer
open Concurrency CString

variable {window : ℕ} {slot : Slot} {conn : Conn}

/-- What the client sends: a command while it is registered, one after it was retired, and the
answer to the probe of the thread `k`. -/
inductive Message
  | command (line : List UInt8)
  | late (line : List UInt8)
  | answer (k : ℕ)
  deriving DecidableEq

def Message.bytes : Message → List UInt8
  | .command line | .late line => line
  | .answer _ => bytesOf "ALIVE_response"

/-- The commands that were sent while the client was registered. -/
def commands (l : List Message) : List (List UInt8) :=
  l.filterMap fun
    | .command line => some line
    | _ => none

/-- The server, and the messages between the client and it: those that nobody has received, the
threads whose probe the client has not answered, the commands that the client sent before it was
retired, and what the handler and the checks received. -/
structure Talk where
  state : State
  waiting : List Message
  asked : List ℕ
  sent : List (List UInt8)
  received : List Message
  taken : List (ℕ × Message)

/-- A step of a thread, or of the client: it sends a command, answers a probe, reads, or closes
the connection. -/
inductive TalkAction
  | worker (k : ℕ) (x : Input)
  | checker
  | say (line : List UInt8)
  | answer
  | read
  | close

instance (c : Code) (conn : Conn) : Decidable (c.Receives conn) :=
  match c with
  | .handler h => inferInstanceAs (Decidable (∃ timeout, h.pc = .receiving (some conn) timeout))
  | .check c => inferInstanceAs (Decidable (∃ timeout, c.pc = .reading (some conn) timeout))

/-- The probe that the thread sends now goes out to the client. -/
def Probes (s : State) (conn : Conn) (c : Code) : Prop :=
  match c with
  | .handler _ => False
  | .check c => c.pc = .sendAlive ∧ s.fds (s.clients c.client_index).socket_fd = some conn ∧ (s.peers conn).closed = false

instance (s : State) (conn : Conn) (c : Code) : Decidable (Probes s conn c) :=
  match c with
  | .handler _ => isFalse id
  | .check c => inferInstanceAs (Decidable (c.pc = .sendAlive ∧
      s.fds (s.clients c.client_index).socket_fd = some conn ∧ (s.peers conn).closed = false))

/-- The thread gets the message. -/
def Talk.deliver (u : Talk) (k : ℕ) (c : Code) (m : Message) : Talk :=
  match c with
  | .handler _ => { u with received := u.received ++ [m] }
  | .check _ => { u with taken := u.taken ++ [(k, m)] }

abbrev Talk.setState (u : Talk) (t : State) : Talk :=
  { u with state := t }

/-- A step of a thread; if it receives something, then one whole message. -/
def talkWorker (window : ℕ) (conn : Conn) (u : Talk) (k : ℕ) (x : Input) : Option Talk :=
  match u.state.threads[k]?, workerStep window u.state k x with
  | some th, some t =>
    if th.code.Receives conn ∧ x.count ≠ 0 then
      match u.waiting with
      | m :: rest =>
        if x.count = m.bytes.length then some ({ u with state := t, waiting := rest }.deliver k th.code m) else none
      | [] => none
    else if Probes u.state conn th.code then some { u with state := t, asked := u.asked ++ [k] }
    else some { u with state := t }
  | _, _ => none

def talkStep (window : ℕ) (slot : Slot) (conn : Conn) (u : Talk) : TalkAction → Option Talk
  | .worker k x => talkWorker window conn u k x
  | .checker => (alive_checker u.state).map fun t => { u with state := t }
  | .say line =>
    if line = [] then none
    else (step window u.state (.peerSend conn line)).map fun t =>
      if (u.state.clients slot).active then
        { u with state := t, waiting := u.waiting ++ [.command line], sent := u.sent ++ [line] }
      else { u with state := t, waiting := u.waiting ++ [.late line] }
  | .answer =>
    match u.asked with
    | [] => none
    | k :: rest =>
      (step window u.state (.peerSend conn (bytesOf "ALIVE_response"))).map fun t =>
        { u with state := t, waiting := u.waiting ++ [.answer k], asked := rest }
  | .read => (step window u.state (.peerRead conn)).map fun t => { u with state := t }
  | .close => (step window u.state (.peerClose conn)).map fun t => { u with state := t }

/-- `main` has just started the handler of the only client. -/
structure Begun (slot : Slot) (conn : Conn) (u : Talk) : Prop where
  threads : ∃ h : Handler, u.state.threads = [⟨conn, slot, .handler h⟩] ∧ h.pc = .start ∧ h.client_index = slot
  i : u.state.i = slot.val
  active : ∀ i, (u.state.clients i).active = true ↔ i = slot
  recv_mutex : (u.state.clients slot).recv_mutex = none
  clients_mutex : u.state.clients_mutex = none
  checker : u.state.checker = .sleep
  fd : u.state.fds (u.state.clients slot).socket_fd = some conn
  peer : (u.state.peers conn).inbox = [] ∧ (u.state.peers conn).closed = false
  waiting : u.waiting = []
  asked : u.asked = []
  sent : u.sent = []
  received : u.received = []
  taken : u.taken = []

def talk (window : ℕ) (slot : Slot) (conn : Conn) : Machine Talk TalkAction where
  init := Begun slot conn
  next := talkStep window slot conn

lemma talk_step {u u' : Talk} {a : TalkAction} (hs : talkStep window slot conn u a = some u') :
    ∃ b, step window u.state b = some u'.state := by
  have hworker : ∀ {u' : Talk} {k : ℕ} {x : Input}, talkWorker window conn u k x = some u' →
      workerStep window u.state k x = some u'.state := by
    intro u' k x hw
    unfold talkWorker at hw
    split at hw
    · next th t _ ht =>
      rw [ht]
      split at hw
      · split at hw
        · split at hw
          · cases hw
            cases th.code <;> rfl
          · cases hw
        · cases hw
      · split at hw
        all_goals cases hw
        all_goals rfl
    · cases hw
  cases a with
  | worker k x => exact ⟨.worker k x, hworker hs⟩
  | checker =>
    obtain ⟨t, ht, rfl⟩ := Option.map_eq_some_iff.mp hs
    exact ⟨.checker, ht⟩
  | say line =>
    simp only [talkStep] at hs
    split at hs
    · cases hs
    · obtain ⟨t, ht, rfl⟩ := Option.map_eq_some_iff.mp hs
      refine ⟨.peerSend conn line, ht.trans ?_⟩
      split
      all_goals rfl
  | answer =>
    simp only [talkStep] at hs
    split at hs
    · cases hs
    · obtain ⟨t, ht, rfl⟩ := Option.map_eq_some_iff.mp hs
      exact ⟨_, ht⟩
  | read | close =>
    simp only [talkStep] at hs
    obtain ⟨t, ht, rfl⟩ := Option.map_eq_some_iff.mp hs
    exact ⟨_, ht⟩

/-- But for the record of the messages, a run is one of the server and its peers. -/
theorem talk_runs {u u' : Talk} {as : List TalkAction} (h : (talk window slot conn).exec u as = some u') :
    ∃ bs, (machine window).exec u.state bs = some u'.state := by
  induction as generalizing u with
  | nil =>
    obtain rfl : u = u' := by simpa using h
    exact ⟨[], rfl⟩
  | cons a as ih =>
    obtain ⟨v, hn, hv⟩ := Machine.exec_cons_eq_some.mp h
    obtain ⟨b, hb⟩ := talk_step hn
    obtain ⟨bs, hbs⟩ := ih hv
    exact ⟨b :: bs, Machine.exec_cons_eq_some.mpr ⟨v.state, hb, hbs⟩⟩

/-! ### What the runs are asked for -/

/-- The check is going to receive from the connection. -/
def Expects (s : State) (conn : Conn) (c : CheckAlive) : Prop :=
  match c.pc with
  | .sendAlive | .read => s.fds (s.clients c.client_index).socket_fd = some conn
  | .reading d _ => d = some conn
  | _ => False

/-- No command of the client is unread, but for the one that a handler which waits in `recv` is
about to get. -/
def Settled (conn : Conn) (u : Talk) : Prop :=
  commands u.waiting = [] ∨ commands u.waiting.tail = [] ∧
    ∃ th h, th ∈ u.state.threads ∧ th.code = .handler h ∧ ∃ timeout, h.pc = .receiving (some conn) timeout

/-- A check takes `recv_mutex` when nothing of the client is unread and all earlier probes were
answered; until the check has read, the client sends a command only after the answer; and the
client is retired when no command is unread. -/
def Heeds (conn : Conn) (u : Talk) : TalkAction → Prop
  | .worker k _ => ∀ th, u.state.threads[k]? = some th →
      (∀ c, th.code = .check c → c.pc = .lockRecv →
        u.state.fds (u.state.clients c.client_index).socket_fd = some conn → u.waiting = [] ∧ u.asked = []) ∧
      (th.code.Retires → Settled conn u)
  | .say _ => ∀ k th c, u.state.threads[k]? = some th → th.code = .check c → Expects u.state conn c →
      .answer k ∈ u.waiting
  | _ => True

/-- No command is lost: the checks got only the answers to their own probes; what the handler
received and what waits for it are the commands sent, each once and in order; and when the
handler has ended, none is left. -/
structure NoneLost (u : Talk) : Prop where
  own : ∀ k m, (k, m) ∈ u.taken → m = .answer k
  once : commands u.received ++ commands u.waiting = u.sent
  all : ∀ th h, th ∈ u.state.threads → th.code = .handler h → h.pc = .ended → commands u.waiting = []

end SystemyOperacyjne.ChatServer
