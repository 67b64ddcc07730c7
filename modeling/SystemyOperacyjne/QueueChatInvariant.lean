import SystemyOperacyjne.QueueChatMoves

/-!
# The invariant of the queue chat

What the slot table, the messages on their way, and the queues of the clients have to do
with the log of the server; and that the steps of the clients keep it.
-/

namespace SystemyOperacyjne.QueueChat
open Concurrency

variable {s t : State}

def State.events (s : State) : List (GroupEvent Pid message_msg) :=
  s.log.map Entry.event

/-- The messages sent to the server that it has not finished. -/
def State.flight (s : State) : List Entry :=
  s.current.toList ++ s.server_queue

/-- The events that the server has begun to act on. -/
def State.seen (s : State) : List (GroupEvent Pid message_msg) :=
  match s.server.pc with
  | .dispatch => s.events
  | _ => s.processed.map Entry.event

lemma seen_of_ne_dispatch {s : State} (h : s.server.pc ≠ .dispatch) : s.seen = s.processed.map Entry.event := by
  unfold State.seen
  split
  · next hpc => exact absurd hpc h
  · rfl

lemma seen_serverAt {s : State} {pc : ServerPc} (h : s.server.pc ≠ .dispatch) (hpc : pc ≠ .dispatch) :
    (s.serverAt pc).seen = s.seen := by
  have hat : (s.serverAt pc).server.pc ≠ .dispatch := hpc
  rw [seen_of_ne_dispatch h, seen_of_ne_dispatch hat]
  rfl

/-- What the server still has to put in a queue for the message it deals with. -/
def State.owed (s : State) (n : QueueName) : List (ℕ × message_msg) :=
  match s.server.pc with
  | .sendIdentifier id =>
    if s.server.clients id = some n then [(s.processed.length - 1, identifierMessage id)] else []
  | .broadcast i =>
    if ∃ j : Fin 10, i ≤ j.val ∧ s.server.clients j = some n ∧ (j : ℤ) ≠ s.server.recive_msg.client_id then
      [(s.processed.length - 1, s.server.recive_msg)]
    else []
  | .sendGoodbye id =>
    if s.server.clients id = some n then [(s.processed.length - 1, endMessage id)] else []
  | _ => []

/-- A message on its way: INIT comes from a client that has not joined, MESSAGE and STOP
from one that is in the slot it names. -/
def InFlight (s : State) (e : Entry) : Prop :=
  match e.msg.type with
  | .INIT => e.msg = initMessage e.sender ∧ ¬HasJoined e.sender s.events
  | .MESSAGE | .STOP =>
    ∃ k : Fin 10, s.server.clients k = some (client_queue_name e.sender) ∧ e.msg.client_id = k
  | .IDENTIFIER => False

/-- What a client has sent, by the place of its parent. -/
def PhaseOk (sent : List Entry) (p : Pid) : ParentPc → Prop
  | .create | .sendInit => ∀ e ∈ sent, e.sender ≠ p
  | .fork | .readId | .loop | .scan | .sendMessage _ | .sendStop =>
    ∀ e ∈ sent, e.sender = p → e.msg.type ≠ .STOP
  | .waitChild | .ended | .exited | .crashed => True

/-- The message that the server deals with, by its place. -/
def PcOk (s : State) : ServerPc → Prop
  | .loop | .receive | .sendIdentifier _ | .done => s.current = none
  | .dispatch => ∃ e, s.current = some e ∧ s.server.recive_msg = e.msg
  | .broadcast _ => ∃ e, s.current = some e ∧ s.server.recive_msg = e.msg ∧ e.msg.type = .MESSAGE
  | .sendGoodbye k | .close k =>
    ∃ e, s.current = some e ∧ e.msg.type = .STOP ∧ s.server.clients k = some (client_queue_name e.sender)
  | .exited | .fault => False

/-- The queue of `p` holds the transcript of `p`, less what is owed; a member is in the
slot that its IDENTIFIER names. -/
def PutOk (s : State) (p : Pid) : Prop :=
  ∃ k : Fin 10, s.put (client_queue_name p) ++ s.owed (client_queue_name p) =
    (transcript p s.seen).map (render k) ∧
    (Member p s.events → s.server.clients k = some (client_queue_name p))

structure Ok (s : State) : Prop where
  table : ∀ p, (∃ k, s.server.clients k = some (client_queue_name p)) ↔ Member p s.events
  unique : ∀ j k n, s.server.clients j = some n → s.server.clients k = some n → j = k
  flight : ∀ e ∈ s.flight, InFlight s e
  order : s.flight.Pairwise fun e e' => e.sender = e'.sender → e.msg.type = .MESSAGE ∧ e'.msg.type ≠ .INIT
  phase : ∀ p, PhaseOk (s.log ++ s.flight) p (s.client p).parent
  pc : PcOk s s.server.pc
  put : ∀ p, PutOk s p

/-! ### The clients -/

lemma Ok.setClient (h : Ok s) {p : Pid} {c : Client} (hc : PhaseOk (s.log ++ s.flight) p c.parent)
    (queues : QueueName → List message_msg) : Ok { s.setClient p c with queues := queues } := by
  refine ⟨h.table, h.unique, h.flight, h.order, fun q => ?_, h.pc, h.put⟩
  by_cases hq : q = p
  · subst hq
    simpa [State.setClient, State.flight] using hc
  · simpa [State.setClient, State.flight, Function.update_of_ne hq] using h.phase q

lemma PhaseOk.append {sent : List Entry} {q : Pid} {pc : ParentPc} (h : PhaseOk sent q pc) {e : Entry}
    (he : e.sender ≠ q) : PhaseOk (sent ++ [e]) q pc := by
  have hmem : ∀ x ∈ sent ++ [e], x ∈ sent ∨ x = e := fun x hx => by simpa using hx
  cases pc with
  | create | sendInit =>
    intro x hx
    rcases hmem x hx with hx | rfl
    · exact h x hx
    · exact he
  | fork | readId | loop | scan | sendMessage | sendStop =>
    intro x hx hq
    rcases hmem x hx with hx | rfl
    · exact h x hx hq
    · exact absurd hq he
  | waitChild | ended | exited | crashed => trivial

lemma Ok.send (h : Ok s) {p : Pid} {c : Client} {m : message_msg}
    (hflight : InFlight s ⟨p, m⟩)
    (horder : ∀ e ∈ s.flight, e.sender = p → e.msg.type = .MESSAGE ∧ m.type ≠ .INIT)
    (hphase : PhaseOk (s.log ++ s.flight ++ [⟨p, m⟩]) p c.parent) :
    Ok { s.setClient p c with server_queue := s.server_queue ++ [⟨p, m⟩] } := by
  have hfl : State.flight { s.setClient p c with server_queue := s.server_queue ++ [⟨p, m⟩] } =
      s.flight ++ [⟨p, m⟩] := by
    simp [State.flight, State.setClient]
  refine ⟨h.table, h.unique, fun e he => ?_, ?_, fun q => ?_, h.pc, h.put⟩
  · rw [hfl, List.mem_append, List.mem_singleton] at he
    rcases he with he | rfl
    · exact h.flight e he
    · exact hflight
  · rw [hfl]
    refine List.pairwise_append.mpr ⟨h.order, List.pairwise_singleton _ _, fun e he e' he' hs => ?_⟩
    rw [List.mem_singleton] at he'
    subst he'
    exact horder e he hs
  · rw [hfl]
    by_cases hq : q = p
    · subst hq
      simpa [State.setClient, ← List.append_assoc] using hphase
    · have hother := (h.phase q).append (e := ⟨p, m⟩) (Ne.symm hq)
      simpa [State.setClient, Function.update_of_ne hq, ← List.append_assoc] using hother

lemma not_joined_of_unsent {p : Pid} {log : List Entry} (h : ∀ e ∈ log, e.sender ≠ p) :
    ¬HasJoined p (log.map Entry.event) := by
  rintro ⟨x, hx, hj⟩
  obtain ⟨e, he, rfl⟩ := List.mem_map.mp hx
  refine h e he ?_
  unfold Entry.event at hj
  cases htype : e.msg.type <;> simp [htype, GroupEvent.isJoin] at hj
  exact hj

lemma not_left_of_no_stop {p : Pid} {log : List Entry} (h : ∀ e ∈ log, e.sender = p → e.msg.type ≠ .STOP) :
    ¬HasLeft p (log.map Entry.event) := by
  rintro ⟨x, hx, hl⟩
  have hmem : x.1 ∈ log.map Entry.event := by
    unfold sinceJoin at hx
    have hdrop := (List.dropWhile_suffix _).subset (List.mem_of_mem_tail hx)
    exact (List.mem_zipIdx' hdrop).2 ▸ List.getElem_mem _
  obtain ⟨e, he, heq⟩ := List.mem_map.mp hmem
  rw [← heq] at hl
  unfold Entry.event at hl
  cases htype : e.msg.type <;> simp [htype, GroupEvent.isLeave] at hl
  exact h e he hl htype

lemma Ok.joined_of_seen (h : Ok s) {p : Pid} (hj : HasJoined p s.seen) : HasJoined p s.events := by
  have hpc := h.pc
  have hlast : ∀ e, s.current = some e → e.msg.type ≠ .INIT → s.seen = s.processed.map Entry.event →
      HasJoined p s.events := by
    intro e he htype hseen
    rw [hseen, State.processed, he, Option.toList_some, List.map_append, List.map_singleton, joined_append] at hj
    rcases hj with hj | hj
    · exact hj
    · unfold Entry.event at hj
      cases htype' : e.msg.type <;> simp [htype', GroupEvent.isJoin] at hj
      exact absurd htype' htype
  have hnone : s.current = none → s.seen = s.processed.map Entry.event → HasJoined p s.events := by
    intro he hseen
    rwa [hseen, State.processed, he, Option.toList_none, List.append_nil] at hj
  cases hs : s.server.pc with
  | dispatch =>
    simp only [State.seen, hs] at hj
    exact hj
  | loop | receive | sendIdentifier | done =>
    rw [hs] at hpc
    exact hnone hpc (by simp only [State.seen, hs])
  | broadcast =>
    rw [hs] at hpc
    obtain ⟨e, he, -, htype⟩ := hpc
    exact hlast e he (by simp [htype]) (by simp only [State.seen, hs])
  | sendGoodbye | close =>
    rw [hs] at hpc
    obtain ⟨e, he, htype, -⟩ := hpc
    exact hlast e he (by simp [htype]) (by simp only [State.seen, hs])
  | exited | fault =>
    rw [hs] at hpc
    exact hpc.elim

lemma mem_transcript_heard {p : Pid} {entries : List Entry} {n : ℕ} {m : message_msg}
    (h : (n, .heard m) ∈ transcript p (entries.map Entry.event)) :
    ∃ e, entries[n]? = some e ∧ e.sender ≠ p ∧ e.msg = m ∧ m.type = .MESSAGE := by
  obtain ⟨-, hsaid⟩ := mem_transcript h
  obtain ⟨q, hq, hget⟩ := hsaid m rfl
  rw [List.getElem?_map, Option.map_eq_some_iff] at hget
  obtain ⟨e, he, hevent⟩ := hget
  unfold Entry.event at hevent
  cases htype : e.msg.type <;> simp [htype] at hevent
  obtain ⟨rfl, rfl⟩ := hevent
  exact ⟨e, he, hq, rfl, htype⟩

lemma seen_eq (s : State) : ∃ entries, s.seen = entries.map Entry.event ∧ entries <+: s.processed := by
  unfold State.seen
  split
  · exact ⟨s.log, rfl, List.prefix_append _ _⟩
  · exact ⟨s.processed, rfl, List.prefix_rfl⟩

/-- A client that has not sent STOP and uses the id from its IDENTIFIER is in that slot. -/
lemma Ok.slot_of_givenId (h : Ok s) {p : Pid} (hstop : ∀ e ∈ s.log ++ s.flight, e.sender = p → e.msg.type ≠ .STOP)
    {c : ℤ} (hid : s.givenId p = some c) :
    ∃ k : Fin 10, s.server.clients k = some (client_queue_name p) ∧ c = k := by
  obtain ⟨x, hx, rfl⟩ := Option.map_eq_some_iff.mp hid
  have hmem := List.mem_of_find?_eq_some hx
  have htype : x.2.type = .IDENTIFIER := by simpa using List.find?_some hx
  obtain ⟨k, hput, hslot⟩ := h.put p
  have hmem' : x ∈ (transcript p s.seen).map (render k) := by
    rw [← hput]
    exact List.mem_append_left _ hmem
  obtain ⟨⟨n, y⟩, hy, rfl⟩ := List.mem_map.mp hmem'
  have hjoined : HasJoined p s.seen := by
    by_contra hj
    rw [transcript_of_not_joined hj] at hy
    cases hy
  have hleft : ¬HasLeft p s.events :=
    not_left_of_no_stop fun e he => hstop e (List.mem_append_left _ he)
  refine ⟨k, hslot ⟨h.joined_of_seen hjoined, hleft⟩, ?_⟩
  cases y with
  | welcome => rfl
  | heard m =>
    obtain ⟨entries, hentries, -⟩ := seen_eq s
    rw [hentries] at hy
    obtain ⟨e, -, -, -, hm⟩ := mem_transcript_heard hy
    rw [render, hm] at htype
    cases htype
  | farewell => cases htype

/-- A client in a slot has no INIT on its way, so all it has sent and not stopped are
MESSAGEs. -/
lemma Ok.message_before (h : Ok s) {p : Pid} {c : ℤ}
    (hslot : ∃ k : Fin 10, s.server.clients k = some (client_queue_name p) ∧ c = k) {e : Entry}
    (he : e ∈ s.flight) (hp : e.sender = p) (hstop : e.msg.type ≠ .STOP) : e.msg.type = .MESSAGE := by
  have hflight := h.flight e he
  obtain ⟨k, hk, -⟩ := hslot
  have hmember := (h.table p).mp ⟨k, hk⟩
  unfold InFlight at hflight
  cases htype : e.msg.type with
  | INIT =>
    simp only [htype] at hflight
    rw [hp] at hflight
    exact absurd hmember.1 hflight.2
  | IDENTIFIER =>
    simp only [htype] at hflight
  | MESSAGE => rfl
  | STOP => exact absurd htype hstop

lemma Ok.parent (h : Ok s) {p : Pid} {ok : Bool} {typed : Option (List UInt8)}
    (hrel : Reliable s (.parent p ok typed)) (hs : parentStep s p ok typed = some t) : Ok t := by
  have hphase := h.phase p
  have hset : ∀ pc, PhaseOk (s.log ++ s.flight) p pc → Ok (s.parentAt p pc) :=
    fun pc hpc => h.setClient (c := { s.client p with parent := pc }) hpc s.queues
  cases parent_cases hs with
  | creates hpc | readsNothing hpc | scans hpc | stops hpc | types hpc =>
    rw [hpc] at hphase
    exact hset _ hphase
  | joins hpc =>
    rw [hpc] at hphase
    refine h.send (c := { s.client p with parent := .fork }) ⟨rfl, ?_⟩ (fun e he hp => ?_) fun e he hp => ?_
    · exact not_joined_of_unsent fun e he => hphase e (List.mem_append_left _ he)
    · exact absurd hp (hphase e (List.mem_append_right _ he))
    · rcases List.mem_append.mp he with he | he
      · exact absurd hp (hphase e he)
      · rw [List.mem_singleton.mp he]
        simp [initMessage]
  | forks hpc =>
    rw [hpc] at hphase
    exact h.setClient (c := { s.client p with parent := .readId, child := .loop, childFlag := (s.client p).flag })
      hphase s.queues
  | @reads hpc hok id rest hpipe =>
    rw [hpc] at hphase
    exact h.setClient (c := { s.client p with parent := .loop, client_id := id, pipe := rest }) hphase s.queues
  | @posts text hpc hok =>
    rw [hpc] at hphase
    have hslot := h.slot_of_givenId hphase (hrel.usesId p typed (by rw [hok]) (.inl ⟨text, hpc⟩))
    refine h.send (c := { s.client p with parent := .loop }) hslot (fun e he hp => ?_) fun e he hp => ?_
    · exact ⟨h.message_before hslot he hp (hphase e (List.mem_append_right _ he) hp), by simp⟩
    · rcases List.mem_append.mp he with he | he
      · exact hphase e he hp
      · rw [List.mem_singleton.mp he]
        simp
  | leaves hpc hok =>
    rw [hpc] at hphase
    have hslot := h.slot_of_givenId hphase (hrel.usesId p typed (by rw [hok]) (.inr hpc))
    refine h.send (c := { s.client p with parent := .waitChild }) hslot (fun e he hp => ?_) trivial
    exact ⟨h.message_before hslot he hp (hphase e (List.mem_append_right _ he) hp), by simp⟩
  | quits hpc =>
    rcases hpc with rfl | rfl | rfl
    · exact hset _ trivial
    · exact hset _ trivial
    · exact hset _ trivial

lemma Ok.child (h : Ok s) {p : Pid} {ok : Bool} (hs : childStep s p ok = some t) : Ok t := by
  have hphase := h.phase p
  have hset : ∀ (pc : ChildPc) (pipe : List ℤ),
      Ok (s.setClient p { s.client p with child := pc, pipe := pipe }) :=
    fun pc pipe => h.setClient (c := { s.client p with child := pc, pipe := pipe }) hphase s.queues
  cases child_cases hs with
  | goesOn | leaves | fails | shows | forwards => exact hset _ _
  | @takes hpc m rest hq => exact h.setClient (c := { s.client p with child := .dispatch, recive_msg := m }) hphase _

lemma Ok.interrupt (h : Ok s) {a : Action} (ha : a = .interruptServer ∨ ∃ p, a = .interruptParent p ∨ a = .interruptChild p)
    (hs : step s a = some t) : Ok t := by
  rcases ha with rfl | ⟨p, rfl | rfl⟩
  · cases hs
    exact ⟨h.table, h.unique, h.flight, h.order, h.phase, h.pc, h.put⟩
  · simp only [step] at hs
    split at hs
    · cases hs
      exact h.setClient (c := { s.client p with flag := false }) (h.phase p) s.queues
    · cases hs
  · simp only [step] at hs
    split at hs
    · cases hs
      exact h.setClient (c := { s.client p with childFlag := false }) (h.phase p) s.queues
    · cases hs

end SystemyOperacyjne.QueueChat
