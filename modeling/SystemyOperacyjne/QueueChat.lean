import SystemyOperacyjne.Library.Machine
import SystemyOperacyjne.Library.GroupLog
import SystemyOperacyjne.QueueChatMessage

/-!
# The queue chat

The server of `cw7/server.c` and any number of clients of `cw7/client.c`, each a parent
that sends and a child that receives, over POSIX message queues of ten messages. Every
system call that can fail takes a flag that says whether it succeeds.
-/

namespace SystemyOperacyjne.QueueChat
open Concurrency CString

/-- `mq_maxmsg` of all queues. -/
def mq_maxmsg : ℕ := 10

/-- A message in the server queue; the server does not see who sent it. -/
structure Entry where
  sender : Pid
  msg : message_msg

/-- `dispatch` is before the `switch`; `sendIdentifier` to `close` are inside it. `exited`
is after `exit(1)`, and `fault` after an access outside `clients`. -/
inductive ServerPc
  | loop
  | receive
  | dispatch
  | sendIdentifier (id : Fin 10)
  | broadcast (i : ℕ)
  | sendGoodbye (id : Fin 10)
  | close (id : Fin 10)
  | done
  | exited
  | fault
  deriving DecidableEq, Repr

/-- A slot of `clients` is the queue that it has open, or `none` for -1. -/
structure Server where
  flag : Bool
  pc : ServerPc
  recive_msg : message_msg
  clients : Fin 10 → Option QueueName

/-- `create` is before the client opens its own queue, `fork` after it has sent INIT, and
`waitChild` after it has sent STOP. `crashed` is after an access outside a buffer. -/
inductive ParentPc
  | create
  | sendInit
  | fork
  | readId
  | loop
  | scan
  | sendMessage (text : Text)
  | sendStop
  | waitChild
  | ended
  | exited
  | crashed

inductive ChildPc
  | unborn
  | loop
  | receive
  | dispatch
  | ended
  deriving DecidableEq, Repr

/-- Parent and child have a `flag` each; `pipe` is what the child wrote and the parent has
not read. -/
structure Client where
  parent : ParentPc
  child : ChildPc
  flag : Bool
  childFlag : Bool
  client_id : ℤ
  pipe : List ℤ
  recive_msg : message_msg

/-- `log` are the messages that the server has dealt with, `current` is the one it deals
with, and `put` is all it ever put in a queue, with the position of the message that each
was an answer to. -/
structure State where
  server : Server
  server_queue : List Entry
  client : Pid → Client
  queues : QueueName → List message_msg
  log : List Entry
  current : Option Entry
  put : QueueName → List (ℕ × message_msg)

/-- The messages that the server has received, in order. -/
def State.processed (s : State) : List Entry :=
  s.log ++ s.current.toList

/-- `mq_send` of the server, which blocks while the queue is full. -/
def State.mq_send (s : State) (n : QueueName) (m : message_msg) : Option State :=
  if (s.queues n).length < mq_maxmsg then
    some { s with
      queues := Function.update s.queues n (s.queues n ++ [m])
      put := Function.update s.put n (s.put n ++ [(s.processed.length - 1, m)]) }
  else none

/-- The server has dealt with a message. -/
def State.finish (s : State) : State :=
  { s with log := s.processed, current := none }

def State.serverAt (s : State) (pc : ServerPc) : State :=
  { s with server := { s.server with pc := pc } }

/-- `while(clients[id] != -1) id++`; `none` when the search leaves the table. -/
def freeSlot (clients : Fin 10 → Option QueueName) : Option (Fin 10) :=
  (List.finRange 10).find? fun id => (clients id).isNone

/-- The slot at an index from a message. -/
def slot? (id : ℤ) : Option (Fin 10) :=
  if h : 0 ≤ id ∧ id < 10 then some ⟨id.toNat, by omega⟩ else none

/-- The `switch` of the server, up to the first `mq_send`. -/
def dispatchStep (s : State) (ok : Bool) : State :=
  match s.server.recive_msg.type with
  | .INIT =>
    match freeSlot s.server.clients with
    | none => s.serverAt .fault
    | some id =>
      if ok then
        let name := cString s.server.recive_msg.text
        { s.finish with server := { s.server with
            pc := .sendIdentifier id
            clients := Function.update s.server.clients id (some name) } }
      else s.serverAt .exited
  | .MESSAGE => s.serverAt (.broadcast 0)
  | .STOP =>
    match slot? s.server.recive_msg.client_id with
    | none => s.serverAt .fault
    | some id =>
      if s.server.clients id ≠ none then s.serverAt (.sendGoodbye id)
      else (s.serverAt .loop).finish
  | .IDENTIFIER => (s.serverAt .loop).finish

/-- The iteration `i` of the loop over the clients for a MESSAGE. -/
def broadcastStep (s : State) (i : ℕ) (ok : Bool) : Option State :=
  if h : i < 10 then
    match s.server.clients ⟨i, h⟩ with
    | some name =>
      if (i : ℤ) ≠ s.server.recive_msg.client_id ∧ ok then
        (s.serverAt (.broadcast (i + 1))).mq_send name s.server.recive_msg
      else some (s.serverAt (.broadcast (i + 1)))
    | none => some (s.serverAt (.broadcast (i + 1)))
  else some (s.serverAt .loop).finish

def serverStep (s : State) (ok : Bool) : Option State :=
  match s.server.pc with
  | .loop => if s.server.flag then some (s.serverAt .receive) else some (s.serverAt .done)
  | .receive =>
    if ok then
      match s.server_queue with
      | [] => none
      | e :: rest =>
        some { s with
          server := { s.server with pc := .dispatch, recive_msg := e.msg }
          server_queue := rest
          current := some e }
    else some (s.serverAt .dispatch)
  | .dispatch => some (dispatchStep s ok)
  | .sendIdentifier id =>
    match s.server.clients id with
    | some name => if ok then (s.serverAt .loop).mq_send name (identifierMessage id) else some (s.serverAt .loop)
    | none => some (s.serverAt .loop)
  | .broadcast i => broadcastStep s i ok
  | .sendGoodbye id =>
    match s.server.clients id with
    | some name => if ok then (s.serverAt (.close id)).mq_send name (endMessage id) else some (s.serverAt .exited)
    | none => some (s.serverAt .exited)
  | .close id =>
    some { s.finish with server := { s.server with
      pc := .loop
      clients := Function.update s.server.clients id none } }
  | .done | .exited | .fault => none

def State.setClient (s : State) (p : Pid) (c : Client) : State :=
  { s with client := Function.update s.client p c }

/-- `mq_send` of a client to the server queue, which blocks while the queue is full. -/
def State.sendToServer (s : State) (p : Pid) (m : message_msg) : Option State :=
  if s.server_queue.length < mq_maxmsg then some { s with server_queue := s.server_queue ++ [⟨p, m⟩] } else none

/-- A step of the parent; `typed` is what `scanf` reads, `none` at the end of the input. -/
def parentStep (s : State) (p : Pid) (ok : Bool) (typed : Option (List UInt8)) : Option State :=
  let c := s.client p
  let goto (pc : ParentPc) : State := s.setClient p { c with parent := pc }
  match c.parent with
  | .create => if ok then some (goto .sendInit) else some (goto .exited)
  | .sendInit =>
    match memcpyText (client_queue_name p) with
    | none => some (goto .crashed)
    | some text => if ok then (goto .fork).sendToServer p ⟨.INIT, -1, text⟩ else some (goto .exited)
  | .fork =>
    if ok then some (s.setClient p { c with parent := .readId, child := .loop, childFlag := c.flag })
    else some (goto .exited)
  | .readId =>
    if ok then
      match c.pipe with
      | id :: rest => some (s.setClient p { c with parent := .loop, client_id := id, pipe := rest })
      | [] => if c.child = .ended then some (goto .loop) else none
    else some (goto .loop)
  | .loop => if c.flag then some (goto .scan) else some (goto .sendStop)
  | .scan =>
    match typed.bind memcpyText with
    | some text => some (goto (.sendMessage text))
    | none => some (goto .crashed)
  | .sendMessage text => if ok then (goto .loop).sendToServer p ⟨.MESSAGE, c.client_id, text⟩ else some (goto .exited)
  | .sendStop => if ok then (goto .waitChild).sendToServer p ⟨.STOP, c.client_id, textOf []⟩ else some (goto .exited)
  | .waitChild => if c.child = .ended then some (goto .ended) else none
  | .ended | .exited | .crashed => none

def childStep (s : State) (p : Pid) (ok : Bool) : Option State :=
  let c := s.client p
  match c.child with
  | .unborn => none
  | .loop => some (s.setClient p { c with child := if c.childFlag then .receive else .ended })
  | .receive =>
    if ok then
      match s.queues (client_queue_name p) with
      | [] => none
      | m :: rest =>
        some { s.setClient p { c with child := .dispatch, recive_msg := m } with
          queues := Function.update s.queues (client_queue_name p) rest }
    else some (s.setClient p { c with child := .loop })
  | .dispatch =>
    if c.recive_msg.type = .IDENTIFIER then
      some (s.setClient p { c with child := .loop, pipe := c.pipe ++ [c.recive_msg.client_id] })
    else some (s.setClient p { c with child := .loop })
  | .ended => none

/-- A step of a process, or a SIGINT that its handler takes. -/
inductive Action
  | server (ok : Bool)
  | parent (p : Pid) (ok : Bool) (typed : Option (List UInt8))
  | child (p : Pid) (ok : Bool)
  | interruptServer
  | interruptParent (p : Pid)
  | interruptChild (p : Pid)

/-- The handler is installed before `fork`. -/
def ParentPc.HandlesInterrupt : ParentPc → Prop
  | .create | .sendInit => False
  | _ => True

instance : DecidablePred ParentPc.HandlesInterrupt
  | .create | .sendInit => isFalse id
  | .fork | .readId | .loop | .scan | .sendMessage _ | .sendStop | .waitChild | .ended | .exited | .crashed =>
    isTrue trivial

def step (s : State) : Action → Option State
  | .server ok => serverStep s ok
  | .parent p ok typed => parentStep s p ok typed
  | .child p ok => childStep s p ok
  | .interruptServer => some { s with server := { s.server with flag := false } }
  | .interruptParent p =>
    if (s.client p).parent.HandlesInterrupt then some (s.setClient p { s.client p with flag := false }) else none
  | .interruptChild p =>
    if (s.client p).child ≠ .unborn then some (s.setClient p { s.client p with childFlag := false }) else none

/-- The server has filled its table with -1; the clients have not begun, and all queues are
empty. Uninitialised memory holds anything. -/
structure Started (s : State) : Prop where
  flag : s.server.flag = true
  pc : s.server.pc = .loop
  clients : s.server.clients = fun _ => none
  server_queue : s.server_queue = []
  parent : ∀ p, (s.client p).parent = .create
  child : ∀ p, (s.client p).child = .unborn
  clientFlag : ∀ p, (s.client p).flag = true
  pipe : ∀ p, (s.client p).pipe = []
  queues : ∀ n, s.queues n = []
  log : s.log = []
  current : s.current = none
  put : ∀ n, s.put n = []

def machine : Machine State Action where
  init := Started
  next := step

/-- The id that the server gave to a client: that of the IDENTIFIER in its queue. -/
def State.givenId (s : State) (p : Pid) : Option ℤ :=
  ((s.put (client_queue_name p)).find? fun x => x.2.type = .IDENTIFIER).map fun x => x.2.client_id

/-- The calls of the server succeed, INIT finds a free slot, and clients use the id that
they were given. -/
structure Reliable (s : State) (a : Action) : Prop where
  succeeds : ∀ ok, a = .server ok → ok = true
  free : ∀ ok, a = .server ok → s.server.pc = .dispatch → s.server.recive_msg.type = .INIT →
    freeSlot s.server.clients ≠ none
  usesId : ∀ p typed, a = .parent p true typed →
    (∃ text, (s.client p).parent = .sendMessage text) ∨ (s.client p).parent = .sendStop →
    s.givenId p = some (s.client p).client_id

/-- What the messages of the server queue mean for the group of clients. -/
def Entry.event (e : Entry) : GroupEvent Pid message_msg :=
  match e.msg.type with
  | .INIT => .join e.sender
  | .MESSAGE => .say e.sender e.msg
  | .STOP => .leave e.sender
  | .IDENTIFIER => .skip

/-- How the server puts a note for the holder of slot `id`: the welcome is IDENTIFIER, a
message of another client is passed on, and the farewell is STOP. -/
def render (id : Fin 10) : ℕ × Note message_msg → ℕ × message_msg
  | (n, .welcome) => (n, identifierMessage id)
  | (n, .heard m) => (n, m)
  | (n, .farewell) => (n, endMessage id)

end SystemyOperacyjne.QueueChat
