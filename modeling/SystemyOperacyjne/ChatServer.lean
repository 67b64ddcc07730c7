import SystemyOperacyjne.Library.Machine
import SystemyOperacyjne.Library.Mutex
import SystemyOperacyjne.ChatServerText

/-!
# The chat server

The threads of `cw11/server.c`: `main`, which accepts connections and puts them into slots,
`alive_checker`, and any number of `client_handler` and `check_alive` threads, one statement
of one thread at a time. Connections are numbered as they are accepted; a descriptor that is
closed can be handed out again. A receive that waits for a peer has looked up its descriptor,
and the timeout of the connection, before it waits. Where SIGPIPE ends the process, no state
of the server follows.
-/

namespace SystemyOperacyjne.ChatServer
open Concurrency CString

/-- The number of a connection, in the order of `accept`. -/
abbrev Conn := ℕ

/-- The other end of a connection: what it has sent and the server not received, what the
server has sent, how many of these bytes it has not read, whether it has closed the
connection, and whether SO_RCVTIMEO is set at the server's end. -/
structure Peer where
  inbox : List UInt8
  outbox : List (List UInt8)
  unread : ℕ
  closed : Bool
  timeout : Bool

/-- `recv_mutex` records the thread that holds it. -/
structure ClientInfo where
  socket_fd : ℕ
  name : Name
  active : Bool
  recv_mutex : Option ℕ

/-- `receiving` is inside `recv`, on the connection that the descriptor stood for when it
was called, with the timeout that was set then. A relay goes to all others, or to one recipient. -/
inductive HandlerPc
  | start
  | copyName
  | setTimeout
  | lockRecv
  | recv
  | receiving (conn : Option Conn) (timeout : Bool)
  | unlockRecv
  | testActive
  | testReceived
  | dispatch
  | relayLock (recipient_name : Option (List UInt8)) (message : List UInt8)
  | relay (recipient_name : Option (List UInt8)) (message : List UInt8) (i : ℕ)
  | relayUnlock
  | listLock
  | listing (list_message : List UInt8) (i : ℕ)
  | listUnlock (list_message : List UInt8)
  | listSend (list_message : List UInt8)
  | stopClose
  | stopLock
  | stopDeactivate
  | stopDecrement
  | stopUnlock
  | ended
  | fault
  deriving DecidableEq, Repr

structure Handler where
  pc : HandlerPc
  client_index : Slot
  client_name : List UInt8
  buffer : Buffer
  bytes_received : ℤ

inductive CheckPc
  | setTimeout
  | lockRecv
  | sendAlive
  | read
  | reading (conn : Option Conn) (timeout : Bool)
  | unlockRecv
  | testReceived
  | close
  | lock
  | deactivate
  | decrement
  | unlock
  | ended
  deriving DecidableEq, Repr

structure CheckAlive where
  pc : CheckPc
  client_index : Slot
  bytes_received : ℤ

inductive Code
  | handler (h : Handler)
  | check (c : CheckAlive)

/-- A thread with the connection it was started for and the slot that had been given to it. -/
structure Thread where
  conn : Conn
  slot : Slot
  code : Code

/-- `fd` is the descriptor of the accepted connection. -/
inductive MainPc
  | accept
  | lock (fd : ℕ)
  | testCapacity (fd : ℕ)
  | refuse (fd : ℕ)
  | refuseClose (fd : ℕ)
  | search (fd : ℕ)
  | setFd (fd : ℕ) (slot : Slot)
  | recvName (fd : ℕ) (slot : Slot)
  | receivingName (conn : Option Conn) (timeout : Bool) (slot : Slot)
  | setActive (slot : Slot)
  | initMutex (slot : Slot)
  | increment (slot : Slot)
  | create (slot : Slot)
  | unlock
  deriving DecidableEq, Repr

inductive CheckerPc
  | sleep
  | lock
  | loop (i : ℕ)
  | create (slot : Slot)
  | unlock
  deriving DecidableEq, Repr

inductive Owner
  | main
  | checker
  | worker (k : ℕ)
  deriving DecidableEq, Repr

/-- `i` is the loop variable of `main`, whose address the handlers get. `occupant` is the
connection that was last put into a slot. -/
structure State where
  clients : Slot → ClientInfo
  num_clients : ℤ
  clients_mutex : Option Owner
  i : ℕ
  main : MainPc
  checker : CheckerPc
  threads : List Thread
  fds : ℕ → Option Conn
  peers : Conn → Peer
  accepted : ℕ
  occupant : Slot → Option Conn

/-- What a step takes from outside: the descriptor that `accept` returns, how many bytes a
receive delivers, the date, the string in an uninitialised `recipient_name`, the memory in which
a new thread finds its buffer, and whether a send to a peer that has closed raises SIGPIPE (it
does once the connection has been reset). -/
structure Input where
  fd : ℕ
  count : ℕ
  date : List UInt8
  garbage : List UInt8
  memory : Buffer
  sigpipe : Bool

def State.setThread (s : State) (k : ℕ) (th : Thread) : State :=
  { s with threads := s.threads.set k th }

def State.setClient (s : State) (i : Slot) (c : ClientInfo) : State :=
  { s with clients := Function.update s.clients i c }

def State.setPeer (s : State) (c : Conn) (p : Peer) : State :=
  { s with peers := Function.update s.peers c p }

/-- `pthread_mutex_lock(&clients_mutex)`. -/
def State.lock (s : State) (o : Owner) : Option State :=
  if s.clients_mutex = none then some { s with clients_mutex := some o } else none

def State.unlock (s : State) : State :=
  { s with clients_mutex := none }

def State.close (s : State) (fd : ℕ) : State :=
  { s with fds := Function.update s.fds fd none }

/-- `setsockopt` with SO_RCVTIMEO, which fails on a closed descriptor. -/
def State.setsockopt (s : State) (fd : ℕ) : State :=
  match s.fds fd with
  | some c => s.setPeer c { s.peers c with timeout := true }
  | none => s

/-- Whether SO_RCVTIMEO is set for the descriptor. -/
def State.timeout (s : State) (fd : ℕ) : Bool :=
  match s.fds fd with
  | some c => (s.peers c).timeout
  | none => false

/-- What `recv` returns, the bytes it delivers, and the state after it; `none` while it waits.
It returns -1 on a closed descriptor or at the timeout that was set when it was called, and 0
after the peer closed. -/
def State.recv (s : State) (conn : Option Conn) (timeout : Bool) (size count : ℕ) :
    Option (ℤ × List UInt8 × State) :=
  match conn with
  | none => some (-1, [], s)
  | some c =>
    let p := s.peers c
    if count = 0 then
      if p.inbox ≠ [] then none
      else if p.closed then some (0, [], s)
      else if timeout then some (-1, [], s)
      else none
    else if count ≤ size ∧ count ≤ p.inbox.length then
      some (count, p.inbox.take count, s.setPeer c { p with inbox := p.inbox.drop count })
    else none

/-- `send`, which waits while the peer has `window` bytes to read; `none` too where SIGPIPE ends
the process. Otherwise a send to a peer that has closed has no effect. -/
def State.send (window : ℕ) (s : State) (sigpipe : Bool) (fd : ℕ) (text : List UInt8) : Option State :=
  match s.fds fd with
  | none => some s
  | some c =>
    let p := s.peers c
    if p.closed then
      if sigpipe then none else some s
    else if p.unread < window then
      some (s.setPeer c { p with outbox := p.outbox ++ [text], unread := p.unread + text.length })
    else none

/-- Whether the test of `send_to_all`, or of `send_to_one`, picks a client of this name. -/
def picks (recipient_name : Option (List UInt8)) (sender_name name : List UInt8) : Bool :=
  match recipient_name with
  | none => name ≠ sender_name
  | some r => name = r

/-- The iteration `i` of the loop of `send_to_all` or `send_to_one`, which stops at its first
recipient. -/
def relayStep (window : ℕ) (s : State) (goto : HandlerPc → State) (recipient_name : Option (List UInt8))
    (client_name message : List UInt8) (x : Input) (i : ℕ) : Option State :=
  if hi : i < MAX_CLIENTS then
    let c := s.clients ⟨i, hi⟩
    if c.active then
      match stringAt c.name 0 with
      | none => some (goto .fault)
      | some name =>
        if picks recipient_name client_name name then
          match compose x.date client_name message with
          | none => some (goto .fault)
          | some text =>
            let next := if recipient_name = none then .relay recipient_name message (i + 1) else .relayUnlock
            (goto next).send window x.sigpipe c.socket_fd text
        else some (goto (.relay recipient_name message (i + 1)))
    else some (goto (.relay recipient_name message (i + 1)))
  else some (goto .relayUnlock)

/-- The iteration `i` of the loop for LIST. -/
def listStep (s : State) (goto : HandlerPc → State) (list_message : List UInt8) (i : ℕ) : State :=
  if hi : i < MAX_CLIENTS then
    let c := s.clients ⟨i, hi⟩
    if c.active then
      match (stringAt c.name 0).bind (appendName list_message) with
      | none => goto .fault
      | some text => goto (.listing text (i + 1))
    else goto (.listing list_message (i + 1))
  else goto (.listUnlock list_message)

/-- The statement that follows the `strncmp` tests. -/
def dispatchPc : Command → HandlerPc
  | .toAll message => .relayLock none message
  | .toOne recipient_name message => .relayLock (some recipient_name) message
  | .list => .listLock
  | .stop => .stopClose
  | .other => .setTimeout
  | .fault => .fault

def client_handler (window : ℕ) (s : State) (k : ℕ) (th : Thread) (h : Handler) (x : Input) : Option State :=
  let c := s.clients h.client_index
  let become (h' : Handler) : State := s.setThread k { th with code := .handler h' }
  let goto (pc : HandlerPc) : State := become { h with pc := pc }
  match h.pc with
  | .start =>
    if hi : s.i < MAX_CLIENTS then some (become { h with pc := .copyName, client_index := ⟨s.i, hi⟩ })
    else some (goto .fault)
  | .copyName =>
    match stringAt c.name 0 with
    | some name => some (become { h with pc := .setTimeout, client_name := name })
    | none => some (goto .fault)
  | .setTimeout => some ((goto .lockRecv).setsockopt c.socket_fd)
  | .lockRecv =>
    if c.recv_mutex = none then some ((goto .recv).setClient h.client_index { c with recv_mutex := some k })
    else none
  | .recv => some (goto (.receiving (s.fds c.socket_fd) (s.timeout c.socket_fd)))
  | .receiving conn timeout =>
    (s.recv conn timeout BUFFER_SIZE x.count).map fun r => r.2.2.setThread k { th with code := .handler { h with
      pc := .unlockRecv
      bytes_received := r.1
      buffer := overwrite h.buffer r.2.1 } }
  | .unlockRecv => some ((goto .testActive).setClient h.client_index { c with recv_mutex := none })
  | .testActive => if c.active then some (goto .testReceived) else some (goto .ended)
  | .testReceived =>
    if h.bytes_received = -1 then some (goto .setTimeout)
    else match terminate h.buffer h.bytes_received with
      | some buffer => some (become { h with pc := .dispatch, buffer := buffer })
      | none => some (goto .fault)
  | .dispatch => some (goto (dispatchPc (parse h.buffer x.garbage)))
  | .relayLock r message => (goto (.relay r message 0)).lock (.worker k)
  | .relay r message i => relayStep window s goto r h.client_name message x i
  | .relayUnlock => some (goto .setTimeout).unlock
  | .listLock => (goto (.listing listHeader 0)).lock (.worker k)
  | .listing list_message i => some (listStep s goto list_message i)
  | .listUnlock list_message => some (goto (.listSend list_message)).unlock
  | .listSend list_message => (goto .setTimeout).send window x.sigpipe c.socket_fd list_message
  | .stopClose => some ((goto .stopLock).close c.socket_fd)
  | .stopLock => (goto .stopDeactivate).lock (.worker k)
  | .stopDeactivate => some ((goto .stopDecrement).setClient h.client_index { c with active := false })
  | .stopDecrement => some { goto .stopUnlock with num_clients := s.num_clients - 1 }
  | .stopUnlock => some (goto .ended).unlock
  | .ended | .fault => none

def check_alive (window : ℕ) (s : State) (k : ℕ) (th : Thread) (h : CheckAlive) (x : Input) : Option State :=
  let c := s.clients h.client_index
  let goto (pc : CheckPc) : State := s.setThread k { th with code := .check { h with pc := pc } }
  match h.pc with
  | .setTimeout => some ((goto .lockRecv).setsockopt c.socket_fd)
  | .lockRecv =>
    if c.recv_mutex = none then some ((goto .sendAlive).setClient h.client_index { c with recv_mutex := some k })
    else none
  | .sendAlive => (goto .read).send window x.sigpipe c.socket_fd (bytesOf "ALIVE")
  | .read => some (goto (.reading (s.fds c.socket_fd) (s.timeout c.socket_fd)))
  | .reading conn timeout =>
    (s.recv conn timeout BUFFER_SIZE x.count).map fun r => r.2.2.setThread k { th with code := .check { h with
      pc := .unlockRecv
      bytes_received := r.1 } }
  | .unlockRecv => some ((goto .testReceived).setClient h.client_index { c with recv_mutex := none })
  | .testReceived => if h.bytes_received ≤ 0 then some (goto .close) else some (goto .ended)
  | .close => some ((goto .lock).close c.socket_fd)
  | .lock => (goto .deactivate).lock (.worker k)
  | .deactivate => some ((goto .decrement).setClient h.client_index { c with active := false })
  | .decrement => some { goto .unlock with num_clients := s.num_clients - 1 }
  | .unlock => some (goto .ended).unlock
  | .ended => none

def workerStep (window : ℕ) (s : State) (k : ℕ) (x : Input) : Option State :=
  match s.threads[k]? with
  | none => none
  | some th =>
    match th.code with
    | .handler h => client_handler window s k th h x
    | .check c => check_alive window s k th c x

def alive_checker (s : State) : Option State :=
  let goto (pc : CheckerPc) : State := { s with checker := pc }
  match s.checker with
  | .sleep => some (goto .lock)
  | .lock => (goto (.loop 0)).lock .checker
  | .loop i =>
    if hi : i < MAX_CLIENTS then
      if (s.clients ⟨i, hi⟩).active then some (goto (.create ⟨i, hi⟩)) else some (goto (.loop (i + 1)))
    else some (goto .unlock)
  | .create slot =>
    some { goto (.loop (slot + 1)) with
      threads := s.threads ++ [⟨(s.occupant slot).getD 0, slot, .check ⟨.setTimeout, slot, 0⟩⟩] }
  | .unlock => some (goto .sleep).unlock

def mainStep (s : State) (x : Input) : Option State :=
  let goto (pc : MainPc) : State := { s with main := pc }
  match s.main with
  | .accept =>
    if s.fds x.fd = none then
      some { goto (.lock x.fd) with
        fds := Function.update s.fds x.fd (some s.accepted)
        peers := Function.update s.peers s.accepted ⟨[], [], 0, false, false⟩
        accepted := s.accepted + 1 }
    else none
  | .lock fd => (goto (.testCapacity fd)).lock .main
  | .testCapacity fd =>
    if s.num_clients ≥ MAX_CLIENTS then some (goto (.refuse fd)) else some { goto (.search fd) with i := 0 }
  | .refuse fd => some (goto (.refuseClose fd)).unlock
  | .refuseClose fd => some ((goto .accept).close fd)
  | .search fd =>
    if hi : s.i < MAX_CLIENTS then
      if (s.clients ⟨s.i, hi⟩).active then some { s with i := s.i + 1 } else some (goto (.setFd fd ⟨s.i, hi⟩))
    else some (goto .unlock)
  | .setFd fd slot =>
    some { (goto (.recvName fd slot)).setClient slot { s.clients slot with socket_fd := fd } with
      occupant := Function.update s.occupant slot (some (s.accepted - 1)) }
  | .recvName fd slot => some (goto (.receivingName (s.fds fd) (s.timeout fd) slot))
  | .receivingName conn timeout slot =>
    (s.recv conn timeout NAME_SIZE x.count).map fun r => { r.2.2.setClient slot { s.clients slot with
      name := overwrite (s.clients slot).name r.2.1 } with main := .setActive slot }
  | .setActive slot => some ((goto (.initMutex slot)).setClient slot { s.clients slot with active := true })
  | .initMutex slot => some ((goto (.increment slot)).setClient slot { s.clients slot with recv_mutex := none })
  | .increment slot => some { goto (.create slot) with num_clients := s.num_clients + 1 }
  | .create slot =>
    some { goto .unlock with
      threads := s.threads ++
        [⟨(s.occupant slot).getD 0, slot, .handler ⟨.start, slot, [], x.memory, 0⟩⟩] }
  | .unlock => some (goto .accept).unlock

/-- A step of a thread, or of a peer: it sends bytes, reads what it was sent, or closes. -/
inductive Action
  | main (x : Input)
  | checker
  | worker (k : ℕ) (x : Input)
  | peerSend (c : Conn) (bytes : List UInt8)
  | peerRead (c : Conn)
  | peerClose (c : Conn)

def step (window : ℕ) (s : State) : Action → Option State
  | .main x => mainStep s x
  | .checker => alive_checker s
  | .worker k x => workerStep window s k x
  | .peerSend c bytes =>
    if (s.peers c).closed then none
    else some (s.setPeer c { s.peers c with inbox := (s.peers c).inbox ++ bytes })
  | .peerRead c => some (s.setPeer c { s.peers c with unread := 0 })
  | .peerClose c => some (s.setPeer c { s.peers c with closed := true })

/-- The globals are zero, no connection is open, and `main` and `alive_checker` have started.
The variable `i` holds anything. -/
structure Started (s : State) : Prop where
  clients : ∀ i, s.clients i = ⟨0, fun _ => 0, false, none⟩
  num_clients : s.num_clients = 0
  clients_mutex : s.clients_mutex = none
  main : s.main = .accept
  checker : s.checker = .sleep
  threads : s.threads = []
  fds : ∀ fd, s.fds fd = none
  accepted : s.accepted = 0
  occupant : ∀ i, s.occupant i = none

def machine (window : ℕ) : Machine State Action where
  init := Started
  next := step window

end SystemyOperacyjne.ChatServer
