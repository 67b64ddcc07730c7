import SystemyOperacyjne.QueueChatSenders

/-!
# The System V variant of the queue chat

The server of `cw7/serverv.c` and the clients of `cw7/clientv.c`. A System V queue is found by
the key that `ftok` makes from a path; the first eight bytes of a message, its type and its
client id, are what `msgsnd` takes as the type of the message.
-/

namespace SystemyOperacyjne.QueueChat
open Concurrency CString

def message_type.value : message_type → ℤ
  | .INIT => 0
  | .IDENTIFIER => 1
  | .MESSAGE => 2
  | .STOP => 3

/-- `mtype`, a `long`: the low half is the type, the high half the client id. `msgsnd` refuses
a message whose `mtype` is not positive. -/
def message_msg.mtype (m : message_msg) : ℤ :=
  m.type.value + m.client_id * 2 ^ 32

/-- The sign of the type is that of the client id, unless this is 0. -/
lemma mtype_pos_iff (m : message_msg) : 0 < m.mtype ↔ 0 < m.client_id ∨ m.client_id = 0 ∧ m.type ≠ .INIT := by
  cases htype : m.type <;> simp [message_msg.mtype, message_type.value, htype] <;> omega

/-- How many messages of 4096 bytes the 16384 bytes of a queue can hold. -/
def msg_qnum : ℕ := 4

/-- A slot of `clients` is the queue of this key, or `none` for -1. -/
structure ServerV where
  flag : Bool
  pc : ServerPc
  recive_msg : message_msg
  clients : Fin 10 → Option ℤ

structure StateV where
  server : ServerV
  server_queue : List Entry
  client : Pid → Client
  queues : ℤ → List message_msg

namespace StateV

/-- `msgsnd` of the server, which blocks while the queue is full. -/
def msgsnd (s : StateV) (key : ℤ) (m : message_msg) : Option StateV :=
  if (s.queues key).length < msg_qnum then
    some { s with queues := Function.update s.queues key (s.queues key ++ [m]) }
  else none

def serverAt (s : StateV) (pc : ServerPc) : StateV :=
  { s with server := { s.server with pc := pc } }

def setSlot (s : StateV) (id : Fin 10) (slot : Option ℤ) : StateV :=
  { s with server := { s.server with clients := Function.update s.server.clients id slot } }

def setClient (s : StateV) (p : Pid) (c : Client) : StateV :=
  { s with client := Function.update s.client p c }

/-- `msgsnd` of a client to the server queue. -/
def sendToServer (s : StateV) (p : Pid) (m : message_msg) : Option StateV :=
  if s.server_queue.length < msg_qnum then some { s with server_queue := s.server_queue ++ [⟨p, m⟩] } else none

end StateV

/-! ### The server -/

section
variable (ftok : List UInt8 → ℤ)

/-- `while (clients[id] != -1) id++`; `none` when the search leaves the table. -/
def freeSlotV (clients : Fin 10 → Option ℤ) : Option (Fin 10) :=
  (List.finRange 10).find? fun id => (clients id).isNone

/-- The `switch` of the server, up to the first `msgsnd`. -/
def dispatchStepV (s : StateV) (ok : Bool) : StateV :=
  match s.server.recive_msg.type with
  | .INIT =>
    match freeSlotV s.server.clients with
    | none => s.serverAt .fault
    | some id =>
      if ok then (s.setSlot id (some (ftok (cString s.server.recive_msg.text)))).serverAt (.sendIdentifier id)
      else s.serverAt .exited
  | .MESSAGE => s.serverAt (.broadcast 0)
  | .STOP =>
    match slot? s.server.recive_msg.client_id with
    | none => s.serverAt .fault
    | some id => if s.server.clients id ≠ none then s.serverAt (.sendGoodbye id) else s.serverAt .loop
  | .IDENTIFIER => s.serverAt .loop

/-- The server exits when `msgsnd` fails. -/
def sendStepV (s : StateV) (key : ℤ) (m : message_msg) (ok : Bool) : Option StateV :=
  if ok ∧ 0 < m.mtype then s.msgsnd key m else some (s.serverAt .exited)

def broadcastStepV (s : StateV) (i : ℕ) (ok : Bool) : Option StateV :=
  if h : i < 10 then
    match s.server.clients ⟨i, h⟩ with
    | some key =>
      if (i : ℤ) ≠ s.server.recive_msg.client_id then
        sendStepV (s.serverAt (.broadcast (i + 1))) key s.server.recive_msg ok
      else some (s.serverAt (.broadcast (i + 1)))
    | none => some (s.serverAt (.broadcast (i + 1)))
  else some (s.serverAt .loop)

def serverStepV (s : StateV) (ok : Bool) : Option StateV :=
  match s.server.pc with
  | .loop => if s.server.flag then some (s.serverAt .receive) else some (s.serverAt .done)
  | .receive =>
    if ok then
      match s.server_queue with
      | [] => none
      | e :: rest =>
        some { s with server := { s.server with pc := .dispatch, recive_msg := e.msg }, server_queue := rest }
    else some (s.serverAt .exited)
  | .dispatch => some (dispatchStepV ftok s ok)
  | .sendIdentifier id =>
    match s.server.clients id with
    | some key => sendStepV (s.serverAt .loop) key (identifierMessage id) ok
    | none => some (s.serverAt .exited)
  | .broadcast i => broadcastStepV s i ok
  | .sendGoodbye id =>
    match s.server.clients id with
    | some key => sendStepV (s.serverAt (.close id)) key (endMessage id) ok
    | none => some (s.serverAt .exited)
  | .close id => some ((s.setSlot id none).serverAt .loop)
  | .done | .exited | .fault => none

/-! ### The clients -/

/-- `sprintf(client_queue_name, "client_queue_%d", PID1)`. -/
def client_queue_nameV (p : Pid) : QueueName :=
  bytesOf "client_queue_" ++ decimal p.val

/-- A step of the parent; the strings are copied with their terminators. -/
def parentStepV (s : StateV) (p : Pid) (ok : Bool) (typed : Option (List UInt8)) : Option StateV :=
  let c := s.client p
  let goto (pc : ParentPc) : StateV := s.setClient p { c with parent := pc }
  let send (pc : ParentPc) (m : message_msg) : Option StateV :=
    if ok ∧ 0 < m.mtype then (goto pc).sendToServer p m else some (goto .exited)
  match c.parent with
  | .create => if ok then some (goto .sendInit) else some (goto .exited)
  | .sendInit =>
    match memcpyText (client_queue_nameV p ++ [0]) with
    | none => some (goto .crashed)
    | some text => send .fork ⟨.INIT, -1, text⟩
  | .fork =>
    if ok then some (s.setClient p { c with parent := .readId, child := .loop, childFlag := c.flag })
    else some (goto .exited)
  | .readId =>
    if ok then
      match c.pipe with
      | id :: rest => some (s.setClient p { c with parent := .loop, client_id := id, pipe := rest })
      | [] => if c.child = .ended then some (goto .loop) else none
    else some (goto .loop)
  | .loop => if c.flag then some (goto .scan) else some (goto .sendStop)
  | .scan =>
    match typed.bind fun bytes => memcpyText (bytes ++ [0]) with
    | some text => some (goto (.sendMessage text))
    | none => some (goto .crashed)
  | .sendMessage text => send .loop ⟨.MESSAGE, c.client_id, text⟩
  | .sendStop => send .waitChild ⟨.STOP, c.client_id, textOf []⟩
  | .waitChild => if c.child = .ended then some (goto .ended) else none
  | .ended | .exited | .crashed => none

def childStepV (s : StateV) (p : Pid) (ok : Bool) : Option StateV :=
  let c := s.client p
  let key := ftok (client_queue_nameV p)
  match c.child with
  | .unborn => none
  | .loop => some (s.setClient p { c with child := if c.childFlag then .receive else .ended })
  | .receive =>
    if ok then
      match s.queues key with
      | [] => none
      | m :: rest =>
        some { s.setClient p { c with child := .dispatch, recive_msg := m } with
          queues := Function.update s.queues key rest }
    else some (s.setClient p { c with child := .loop })
  | .dispatch =>
    if c.recive_msg.type = .IDENTIFIER then
      some (s.setClient p { c with child := .loop, pipe := c.pipe ++ [c.recive_msg.client_id] })
    else some (s.setClient p { c with child := .loop })
  | .ended => none

def stepV (s : StateV) : Action → Option StateV
  | .server ok => serverStepV ftok s ok
  | .parent p ok typed => parentStepV s p ok typed
  | .child p ok => childStepV ftok s p ok
  | .interruptServer => some { s with server := { s.server with flag := false } }
  | .interruptParent p =>
    if (s.client p).parent.HandlesInterrupt then some (s.setClient p { s.client p with flag := false }) else none
  | .interruptChild p =>
    if (s.client p).child ≠ .unborn then some (s.setClient p { s.client p with childFlag := false }) else none

/-- The server among any senders. -/
def senderStepV (s : StateV) : SenderAction ℤ → Option StateV
  | .server ok => serverStepV ftok s ok
  | .arrive e => s.sendToServer e.sender e.msg
  | .take key =>
    if s.queues key = [] then none
    else some { s with queues := Function.update s.queues key (s.queues key).tail }
  | .interrupt => some { s with server := { s.server with flag := false } }

/-- The server has filled its table with -1; the clients have not begun, and all queues are
empty. -/
structure StartedV (s : StateV) : Prop where
  flag : s.server.flag = true
  pc : s.server.pc = .loop
  clients : s.server.clients = fun _ => none
  server_queue : s.server_queue = []
  parent : ∀ p, (s.client p).parent = .create
  child : ∀ p, (s.client p).child = .unborn
  clientFlag : ∀ p, (s.client p).flag = true
  pipe : ∀ p, (s.client p).pipe = []
  queues : ∀ key, s.queues key = []

def machineV : Machine StateV Action where
  init := StartedV
  next := stepV ftok

def anySendersV : Machine StateV (SenderAction ℤ) where
  init := StartedV
  next := senderStepV ftok

end

end SystemyOperacyjne.QueueChat
