import SystemyOperacyjne.Library.LittleEndian
import SystemyOperacyjne.QueueChatForward
import SystemyOperacyjne.QueueChatTable

/-!
# The header of a message

`message_msg` in the memory of a little-endian machine with eight bytes in a `long`, and what `msgsnd`
and `msgrcv` make of it. They take the first eight bytes, the type and the client id, for the type of the
message, which has to be positive.
-/

namespace SystemyOperacyjne.QueueChat
open CString LittleEndian

/-! ### The struct in memory -/

def sizeof_long : ℕ := 8
def sizeof_message_msg : ℕ := 4 + 4 + MAX_MESSAGE_SIZE

def message_type.ofValue : ℕ → Option message_type
  | 0 => some .INIT
  | 1 => some .IDENTIFIER
  | 2 => some .MESSAGE
  | 3 => some .STOP
  | _ => none

/-- An `enum` and an `int` of four bytes each, and the text. -/
def message_msg.bytes (m : message_msg) : List UInt8 :=
  encode 4 m.type.value ++ encode 4 m.client_id ++ List.ofFn m.text

/-- What these bytes are as a `message_msg`; `none` when they name no type. -/
def message_msg.ofBytes (bytes : List UInt8) : Option message_msg :=
  (message_type.ofValue (decode (bytes.take 4))).map fun type =>
    { type, client_id := decodeSigned ((bytes.drop 4).take 4), text := fun i => bytes.getD (8 + i) 0 }

section
variable (m : message_msg)

lemma header_length : (encode 4 m.type.value ++ encode 4 m.client_id).length = sizeof_long := by
  rw [List.length_append, length_encode, length_encode, sizeof_long]

lemma bytes_length : m.bytes.length = sizeof_message_msg := by
  rw [message_msg.bytes, List.length_append, List.length_append, length_encode, length_encode, List.length_ofFn,
    sizeof_message_msg]

lemma ofValue_value (type : message_type) : message_type.ofValue (decode (encode 4 type.value)) = some type := by
  cases type <;> decide

lemma take_header : m.bytes.take sizeof_long = encode 4 m.type.value ++ encode 4 m.client_id := by
  rw [message_msg.bytes, ← header_length m, List.take_left]

lemma drop_header : m.bytes.drop sizeof_long = List.ofFn m.text := by
  rw [message_msg.bytes, ← header_length m, List.drop_left]

/-- The bytes can be read back. -/
theorem ofBytes_bytes (hint : InRange 4 m.client_id) : message_msg.ofBytes m.bytes = some m := by
  have htype : m.bytes.take 4 = encode 4 m.type.value := by
    rw [message_msg.bytes, List.append_assoc, List.take_left' (length_encode _ _)]
  have hid : (m.bytes.drop 4).take 4 = encode 4 m.client_id := by
    rw [message_msg.bytes, List.append_assoc, List.drop_left' (length_encode _ _), List.take_left' (length_encode _ _)]
  have htext : (fun i : Fin MAX_MESSAGE_SIZE => m.bytes.getD (8 + i) 0) = m.text := by
    funext i
    have hindex : 8 + i.val = (encode 4 m.type.value ++ encode 4 m.client_id).length + i.val := by
      rw [header_length, sizeof_long]
    rw [message_msg.bytes, hindex, List.getD_append_right _ _ _ _ (Nat.le_add_right _ _), Nat.add_sub_cancel_left]
    simp
  rw [message_msg.ofBytes, htype, hid, htext, ofValue_value, decodeSigned_encode hint, Option.map_some]

/-- The type and the client id, read as a `long`. -/
theorem decodeSigned_header (hint : InRange 4 m.client_id) : decodeSigned (m.bytes.take sizeof_long) = m.mtype := by
  have hne : encode 4 m.client_id ≠ [] := List.ne_nil_of_length_pos (by rw [length_encode]; decide)
  have htype : (decode (encode 4 m.type.value) : ℤ) = m.type.value := by
    cases m.type <;> decide
  rw [take_header, decodeSigned_append _ hne, decodeSigned_encode hint, htype, length_encode, message_msg.mtype,
    mul_comm]
  norm_num

end

/-! ### The system calls -/

/-- A message in a queue. -/
structure Posted where
  mtype : ℤ
  mtext : List UInt8

/-- `msgsnd` of the struct at `msgp`; it fails unless the type is positive. -/
def msgsnd (msgp : List UInt8) (msgsz : ℕ) : Option Posted :=
  if 0 < decodeSigned (msgp.take sizeof_long) then
    some { mtype := decodeSigned (msgp.take sizeof_long), mtext := (msgp.drop sizeof_long).take msgsz }
  else none

/-- What `msgrcv` leaves of the struct at `msgp`; it fails if the message has more than `msgsz` bytes. -/
def msgrcv (msgp : List UInt8) (msgsz : ℕ) (received : Posted) : Option (List UInt8) :=
  if received.mtext.length ≤ msgsz then
    some (encode sizeof_long received.mtype ++ received.mtext ++ msgp.drop (sizeof_long + received.mtext.length))
  else none

/-- The size that is given to `msgsnd` and `msgrcv`. -/
def msgsz : ℕ := sizeof_message_msg - sizeof_long

/-- The type of the message is positive, and whoever receives it has it as it was sent. -/
structure Travels (m : message_msg) : Prop where
  positive : 0 < decodeSigned (m.bytes.take sizeof_long)
  arrives : ∀ before : message_msg,
    ((msgsnd m.bytes msgsz).bind (msgrcv before.bytes msgsz)).bind message_msg.ofBytes = some m

lemma msgsnd_bytes {m : message_msg} (hpos : 0 < decodeSigned (m.bytes.take sizeof_long)) :
    msgsnd m.bytes msgsz = some ⟨decodeSigned (m.bytes.take sizeof_long), List.ofFn m.text⟩ := by
  have hall : (List.ofFn m.text).take msgsz = List.ofFn m.text := by
    apply List.take_of_length_le
    rw [List.length_ofFn]
    rfl
  rw [msgsnd, if_pos hpos, drop_header, hall]

lemma msgrcv_bytes (m before : message_msg) :
    msgrcv before.bytes msgsz ⟨decodeSigned (m.bytes.take sizeof_long), List.ofFn m.text⟩ = some m.bytes := by
  have hlength : (List.ofFn m.text).length = msgsz := List.length_ofFn
  have hrest : before.bytes.drop (sizeof_long + msgsz) = [] := by
    apply List.drop_eq_nil_of_le
    rw [bytes_length]
    rfl
  have hheader : encode sizeof_long (decodeSigned (m.bytes.take sizeof_long)) = m.bytes.take sizeof_long := by
    have hsize : (m.bytes.take sizeof_long).length = sizeof_long := by rw [take_header, header_length]
    have h := encode_decodeSigned (m.bytes.take sizeof_long)
    rwa [hsize] at h
  simp only [msgrcv, hlength, le_refl, if_true, hrest, hheader, List.append_nil]
  rw [← drop_header, List.take_append_drop]

/-- A message travels exactly if `msgsnd` takes it. -/
theorem travels_iff_mtype {m : message_msg} (hint : InRange 4 m.client_id) : Travels m ↔ 0 < m.mtype := by
  rw [← decodeSigned_header m hint]
  refine ⟨fun h => h.positive, fun hpos => ⟨hpos, fun before => ?_⟩⟩
  rw [msgsnd_bytes hpos, Option.bind_some, msgrcv_bytes, Option.bind_some, ofBytes_bytes m hint]

/-! ### The messages of the programs -/

/-- The message that the next step passes to `msgsnd`. -/
def StateV.passed (s : StateV) : Action → Option message_msg
  | .server _ =>
    match s.server.pc with
    | .sendIdentifier id => if s.server.clients id ≠ none then some (identifierMessage id) else none
    | .broadcast i =>
      if h : i < 10 then
        if s.server.clients ⟨i, h⟩ ≠ none ∧ (i : ℤ) ≠ s.server.recive_msg.client_id then some s.server.recive_msg
        else none
      else none
    | .sendGoodbye id => if s.server.clients id ≠ none then some (endMessage id) else none
    | .loop | .receive | .dispatch | .close _ | .done | .exited | .fault => none
  | .parent p _ _ =>
    match (s.client p).parent with
    | .sendInit => (memcpyText (client_queue_nameV p ++ [0])).map fun text => ⟨.INIT, -1, text⟩
    | .sendMessage text => some ⟨.MESSAGE, (s.client p).client_id, text⟩
    | .sendStop => some ⟨.STOP, (s.client p).client_id, textOf []⟩
    | .create | .fork | .readId | .loop | .scan | .waitChild | .ended | .exited | .crashed => none
  | .child _ _ | .interruptServer | .interruptParent _ | .interruptChild _ => none

/-- The variables of type `int` hold values of this type. -/
structure StateV.Ints (s : StateV) : Prop where
  server : InRange 4 s.server.recive_msg.client_id
  client : ∀ p, InRange 4 (s.client p).client_id

/-- A client does not pass its INIT, and its id is not negative; and the server does not pass on a
message whose id is negative, nor one of type INIT with the id 0. -/
def StateV.PassesValid (s : StateV) : Action → Prop
  | .server _ => ∀ i, s.server.pc = .broadcast i →
      0 < s.server.recive_msg.client_id ∨ s.server.recive_msg.client_id = 0 ∧ s.server.recive_msg.type ≠ .INIT
  | .parent p _ _ => (s.client p).parent ≠ .sendInit ∧ 0 ≤ (s.client p).client_id
  | .child _ _ | .interruptServer | .interruptParent _ | .interruptChild _ => True

lemma inRange_four {z : ℤ} : InRange 4 z ↔ -2 ^ 31 ≤ z ∧ z < 2 ^ 31 := by
  unfold InRange
  omega

lemma travels_iff {m : message_msg} (hint : InRange 4 m.client_id) :
    Travels m ↔ 0 < m.client_id ∨ m.client_id = 0 ∧ m.type ≠ .INIT :=
  (travels_iff_mtype hint).trans (mtype_pos_iff m)

lemma travels_of_slot {m : message_msg} (id : Fin 10) (hid : m.client_id = id) (htype : m.type ≠ .INIT) :
    Travels m := by
  have hlt := id.isLt
  rw [travels_iff (inRange_four.mpr (by omega))]
  by_cases hzero : m.client_id = 0
  · exact .inr ⟨hzero, htype⟩
  · exact .inl (by omega)

lemma not_travels_init (text : Text) : ¬Travels ⟨.INIT, -1, text⟩ := by
  have hint : InRange 4 (-1) := inRange_four.mpr (by decide)
  rw [travels_iff hint]
  simp

section
variable {s : StateV} {m : message_msg}

lemma server_travels_iff (hints : s.Ints) {ok : Bool} (hm : s.passed (.server ok) = some m) :
    Travels m ↔ s.PassesValid (.server ok) := by
  cases hpc : s.server.pc with
  | sendIdentifier id =>
    simp only [StateV.passed, hpc] at hm
    split at hm <;> cases hm
    exact iff_of_true (travels_of_slot id rfl (by simp [identifierMessage])) (by simp [StateV.PassesValid, hpc])
  | sendGoodbye id =>
    simp only [StateV.passed, hpc] at hm
    split at hm <;> cases hm
    exact iff_of_true (travels_of_slot id rfl (by simp [endMessage])) (by simp [StateV.PassesValid, hpc])
  | broadcast i =>
    simp only [StateV.passed, hpc] at hm
    repeat' split at hm
    all_goals cases hm
    rw [travels_iff hints.server, StateV.PassesValid, hpc]
    simp
  | loop | receive | dispatch | close | done | exited | fault => simp [StateV.passed, hpc] at hm

lemma parent_travels_iff (hints : s.Ints) {p : Pid} {ok : Bool} {typed : Option (List UInt8)}
    (hm : s.passed (.parent p ok typed) = some m) : Travels m ↔ s.PassesValid (.parent p ok typed) := by
  cases hpc : (s.client p).parent with
  | sendInit =>
    simp only [StateV.passed, hpc] at hm
    obtain ⟨text, -, rfl⟩ := Option.map_eq_some_iff.mp hm
    exact iff_of_false (not_travels_init text) (by simp [StateV.PassesValid, hpc])
  | sendMessage text =>
    simp only [StateV.passed, hpc, Option.some.injEq] at hm
    subst hm
    rw [travels_iff (hints.client p), StateV.PassesValid, hpc]
    simp only [ne_eq, reduceCtorEq, not_false_eq_true, and_true, true_and]
    omega
  | sendStop =>
    simp only [StateV.passed, hpc, Option.some.injEq] at hm
    subst hm
    rw [travels_iff (hints.client p), StateV.PassesValid, hpc]
    simp only [ne_eq, reduceCtorEq, not_false_eq_true, and_true, true_and]
    omega
  | create | fork | readId | loop | scan | waitChild | ended | exited | crashed => simp [StateV.passed, hpc] at hm

end

/-- The messages that the programs pass to `msgsnd` and that travel: those of the server, unless it
passes on what no `msgsnd` takes, and those of a client with an id that is not negative, but not its
INIT. -/
theorem passed_travels_iff (s : StateV) (hints : s.Ints) (a : Action) (m : message_msg) (hm : s.passed a = some m) :
    Travels m ↔ s.PassesValid a := by
  cases a with
  | server ok => exact server_travels_iff hints hm
  | parent p ok typed => exact parent_travels_iff hints hm
  | child p ok => simp [StateV.passed] at hm
  | interruptServer => simp [StateV.passed] at hm
  | interruptParent p => simp [StateV.passed] at hm
  | interruptChild p => simp [StateV.passed] at hm

/-- The first client is about to send its INIT, or its STOP. -/
def onePid : Pid := ⟨1, by decide, by decide⟩

def atParent (pc : ParentPc) : StateV := quietV.setClient onePid { quietV.client onePid with parent := pc }

lemma atParent_ints (pc : ParentPc) : (atParent pc).Ints := by
  have hzero : InRange 4 0 := inRange_four.mpr (by decide)
  refine ⟨hzero, fun p => ?_⟩
  have hid : ((atParent pc).client p).client_id = 0 := by
    by_cases hp : p = onePid
    · simp [atParent, StateV.setClient, hp, quietV]
    · simp [atParent, StateV.setClient, hp, quietV]
  rwa [hid]

lemma atParent_parent (pc : ParentPc) : ((atParent pc).client onePid).parent = pc := by
  simp [atParent, StateV.setClient]

/-- The STOP of the client with the id 0 travels. -/
theorem passed_travels_stop : Travels ⟨.STOP, 0, textOf []⟩ := by
  have hid : ((atParent .sendStop).client onePid).client_id = 0 := by simp [atParent, StateV.setClient, quietV]
  have hm : (atParent .sendStop).passed (.parent onePid true none) = some ⟨.STOP, 0, textOf []⟩ := by
    simp only [StateV.passed, atParent_parent, hid]
  refine (passed_travels_iff _ (atParent_ints .sendStop) _ _ hm).mpr ⟨?_, hid.ge⟩
  rw [atParent_parent]
  simp

/-- The first thing that a client does is to pass INIT with the id -1, whose bytes are those of
-4294967296. -/
theorem not_passed_travel : ¬∀ (ftok : List UInt8 → ℤ) (s : StateV) (a : Action) (m : message_msg),
    (machineV ftok).Reachable s → s.passed a = some m → Travels m := by
  intro h
  have hstep : (machineV fun _ => -1).next quietV (.parent onePid true none) = some (atParent .sendInit) := rfl
  have hreach : (machineV fun _ => -1).Reachable (atParent .sendInit) :=
    .step (.start quietV_started) trivial hstep
  have hfits : (client_queue_nameV onePid ++ [0]).length ≤ MAX_MESSAGE_SIZE := by decide +kernel
  have hm : (atParent .sendInit).passed (.parent onePid true none) =
      some ⟨.INIT, -1, overwrite (fun _ => 0) (client_queue_nameV onePid ++ [0])⟩ := by
    simp only [StateV.passed, atParent_parent, memcpyText, memcpy, if_pos hfits, Option.map_some]
  have hpos := (h _ _ _ _ hreach hm).positive
  rw [decodeSigned_header _ (inRange_four.mpr (by decide : -2 ^ 31 ≤ (-1 : ℤ) ∧ (-1 : ℤ) < 2 ^ 31))] at hpos
  exact mtype_init _ hpos

/-- The process that takes the step is through with `exit(1)`. -/
def StateV.ExitedBy (s : StateV) : Action → Prop
  | .server _ => s.server.pc = .exited
  | .parent p _ _ => (s.client p).parent = .exited
  | .child _ _ | .interruptServer | .interruptParent _ | .interruptChild _ => False

section
variable (ftok : List UInt8 → ℤ) {s : StateV} {m : message_msg}

lemma server_refused_exits {ok : Bool} (hm : s.passed (.server ok) = some m) (hmtype : ¬0 < m.mtype) :
    serverStepV ftok s ok = some (s.serverAt .exited) := by
  cases hpc : s.server.pc with
  | sendIdentifier id | sendGoodbye id =>
    simp only [StateV.passed, hpc] at hm
    cases hslot : s.server.clients id with
    | none => simp [hslot] at hm
    | some key =>
      simp only [hslot, ne_eq, reduceCtorEq, not_false_eq_true, if_true, Option.some.injEq] at hm
      simp only [serverStepV, hpc, hslot, sendStepV, hm, hmtype, and_false, if_false]
      rfl
  | broadcast i =>
    simp only [StateV.passed, hpc] at hm
    split at hm
    · next hi =>
      split at hm
      · next hslot =>
        obtain ⟨key, hkey⟩ := Option.ne_none_iff_exists'.mp hslot.1
        obtain rfl := Option.some.inj hm
        simp only [serverStepV, hpc, broadcastStepV, dif_pos hi, hkey, if_pos hslot.2, sendStepV, hmtype, and_false,
          if_false]
        rfl
      · cases hm
    · cases hm
  | loop | receive | dispatch | close | done | exited | fault => simp [StateV.passed, hpc] at hm

lemma parent_refused_exits {p : Pid} {ok : Bool} {typed : Option (List UInt8)}
    (hm : s.passed (.parent p ok typed) = some m) (hmtype : ¬0 < m.mtype) :
    parentStepV s p ok typed = some (s.setClient p { s.client p with parent := .exited }) := by
  cases hpc : (s.client p).parent with
  | sendInit =>
    simp only [StateV.passed, hpc] at hm
    obtain ⟨text, htext, rfl⟩ := Option.map_eq_some_iff.mp hm
    simp only [parentStepV, hpc, htext, hmtype, and_false, if_false]
  | sendMessage text | sendStop =>
    simp only [StateV.passed, hpc, Option.some.injEq] at hm
    simp only [parentStepV, hpc, hm, hmtype, and_false, if_false]
  | create | fork | readId | loop | scan | waitChild | ended | exited | crashed => simp [StateV.passed, hpc] at hm

/-- A process whose message does not travel exits, and no queue has changed. -/
theorem refused_exits {a : Action} (hm : s.passed a = some m) (hint : InRange 4 m.client_id)
    (hrefused : ¬Travels m) :
    ∃ t, stepV ftok s a = some t ∧ t.ExitedBy a ∧ t.server_queue = s.server_queue ∧ t.queues = s.queues := by
  have hmtype : ¬0 < m.mtype := mt (travels_iff_mtype hint).mpr hrefused
  cases a with
  | server ok => exact ⟨_, server_refused_exits ftok hm hmtype, rfl, rfl, rfl⟩
  | parent p ok typed =>
    refine ⟨_, parent_refused_exits hm hmtype, ?_, rfl, rfl⟩
    simp [StateV.ExitedBy, StateV.setClient]
  | child p ok => simp [StateV.passed] at hm
  | interruptServer => simp [StateV.passed] at hm
  | interruptParent p => simp [StateV.passed] at hm
  | interruptChild p => simp [StateV.passed] at hm

end

/-- In a run of the programs, what a client passes to `msgsnd` is its INIT, which does not travel. -/
theorem clients_refused {ftok : List UInt8 → ℤ} {s : StateV} (h : (machineV ftok).Reachable s) {p : Pid} {ok : Bool}
    {typed : Option (List UInt8)} {m : message_msg} (hm : s.passed (.parent p ok typed) = some m) :
    m.type = .INIT ∧ ¬Travels m := by
  rcases (silent_of_reachable h).parent p with hpc | hpc | hpc | hpc
  · simp [StateV.passed, hpc] at hm
  · simp only [StateV.passed, hpc] at hm
    obtain ⟨text, -, rfl⟩ := Option.map_eq_some_iff.mp hm
    exact ⟨rfl, not_travels_init text⟩
  · simp [StateV.passed, hpc] at hm
  · simp [StateV.passed, hpc] at hm

end SystemyOperacyjne.QueueChat
