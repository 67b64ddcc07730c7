import SystemyOperacyjne.QueueChatOrder
import SystemyOperacyjne.QueueChatV

/-!
# The id that a client uses

The child takes the IDENTIFIER out of the client's queue and forwards the id through the pipe
to the parent, which reads it once. The messages of the client carry the id that the server
gave to it if that read finds an id. The clients of the System V variant send nothing at all.
-/

namespace SystemyOperacyjne.QueueChat
open Concurrency CString

variable {s t : State} {p : Pid}

/-- The ids in the IDENTIFIERs of a list. -/
def identifiers (l : List message_msg) : List ℤ :=
  (l.filter fun m => m.type = .IDENTIFIER).map message_msg.client_id

/-- The ids that the child has taken and the parent has not read. -/
def Client.underway (c : Client) : List ℤ :=
  c.pipe ++ if c.child = .dispatch then identifiers [c.recive_msg] else []

/-- The parent's `read` finds an id in the pipe, which the child writes before it leaves its
loop. -/
def FindsId (s : State) : Action → Prop
  | .parent p ok _ => (s.client p).parent = .readId → ok = true ∧ (s.client p).pipe ≠ []
  | _ => True

/-- The ids taken out of the queue of a client are underway, apart from the one that the
parent has read. -/
def IdOk (taken : List ℤ) (c : Client) : Prop :=
  match c.parent with
  | .create | .sendInit | .fork => c.child = .unborn ∧ taken = c.underway
  | .readId => taken = c.underway
  | .loop | .scan | .sendMessage _ | .sendStop => taken = c.client_id :: c.underway
  | .waitChild | .ended | .exited | .crashed => True

/-- The server deals with no message. -/
def ServerPc.Idle : ServerPc → Prop
  | .loop | .receive | .sendIdentifier _ | .done => True
  | _ => False

structure Forwarded (s : State) : Prop where
  taken : ∀ p, ∃ taken, (s.put (client_queue_name p)).map Prod.snd = taken ++ s.queues (client_queue_name p) ∧
    IdOk (identifiers taken) (s.client p)
  idle : s.server.pc.Idle → s.current = none
  sent : ∀ e ∈ s.log ++ s.flight, e.msg.type = .MESSAGE ∨ e.msg.type = .STOP →
    s.givenId e.sender = some e.msg.client_id

lemma identifiers_append (l l' : List message_msg) : identifiers (l ++ l') = identifiers l ++ identifiers l' := by
  simp [identifiers]

lemma givenId_eq_head (s : State) (p : Pid) :
    s.givenId p = (identifiers ((s.put (client_queue_name p)).map Prod.snd)).head? := by
  unfold State.givenId identifiers
  rw [List.head?_map, List.head?_filter, List.find?_map, Option.map_map]
  rfl

lemma givenId_append {c : ℤ} (h : s.givenId p = some c) {rest : List (ℕ × message_msg)}
    (hput : t.put (client_queue_name p) = s.put (client_queue_name p) ++ rest) : t.givenId p = some c := by
  rw [givenId_eq_head] at h ⊢
  rw [hput, List.map_append, identifiers_append, List.head?_append, h]
  rfl

lemma Forwarded.givenId (h : Forwarded s) (hpc : ∀ taken, IdOk taken (s.client p) →
    taken = (s.client p).client_id :: (s.client p).underway) : s.givenId p = some (s.client p).client_id := by
  obtain ⟨taken, hput, hid⟩ := h.taken p
  rw [givenId_eq_head, hput, identifiers_append, hpc _ hid]
  rfl

/-! ### The server -/

lemma sent_server {ok : Bool} (hidle : s.server.pc.Idle → s.current = none) (hm : ServerMove s ok t) :
    t.log ++ t.flight = s.log ++ s.flight ∧ (t.server.pc.Idle → t.current = none) := by
  have hfinish : (s.log ++ s.current.toList) ++ (none.toList ++ s.server_queue) =
      s.log ++ (s.current.toList ++ s.server_queue) := by
    rw [Option.toList_none, List.nil_append, List.append_assoc]
  cases hm with
  | goesOn hpc | leaves hpc | tellsNothing hpc | tells hpc =>
    have hnone := hidle (by rw [hpc]; trivial)
    exact ⟨rfl, fun _ => hnone⟩
  | receives hpc hq =>
    have hnone := hidle (by rw [hpc]; trivial)
    refine ⟨?_, fun h => h.elim⟩
    simp [State.flight, hnone, hq]
  | repeats hpc | overruns hpc | cannotOpen hpc | passesOn hpc | dismisses hpc | forwards hpc | skips hpc
  | saysGoodbye hpc | goodbyeFails hpc => exact ⟨rfl, fun h => h.elim⟩
  | admits hpc | ignores hpc | ends hpc | closes hpc => exact ⟨hfinish, fun _ => rfl⟩

lemma Forwarded.server (h : Forwarded s) {ok : Bool} (hs : serverStep s ok = some t) : Forwarded t := by
  have hm := server_cases hs
  obtain ⟨hsent, hidle⟩ := sent_server h.idle hm
  have hgrows := hm.queueMove.grows
  refine ⟨fun p => ?_, hidle, ?_⟩
  · obtain ⟨taken, hput, hid⟩ := h.taken p
    obtain ⟨rest, hput', hq'⟩ := hgrows (client_queue_name p)
    refine ⟨taken, ?_, by rwa [hm.client]⟩
    rw [hput', hq', List.map_append, hput, List.append_assoc]
  · rw [hsent]
    intro e he htype
    obtain ⟨rest, hput', -⟩ := hgrows (client_queue_name e.sender)
    exact givenId_append (h.sent e he htype) hput'

/-! ### The clients -/

lemma Forwarded.setClient (h : Forwarded s) {c : Client}
    (hc : ∀ taken, IdOk taken (s.client p) → IdOk taken c) : Forwarded (s.setClient p c) := by
  refine ⟨fun q => ?_, h.idle, h.sent⟩
  obtain ⟨taken, hput, hid⟩ := h.taken q
  refine ⟨taken, hput, ?_⟩
  by_cases hq : q = p
  · subst hq
    simpa [State.setClient] using hc _ hid
  · simpa [State.setClient, Function.update_of_ne hq] using hid

lemma Forwarded.enqueue (h : Forwarded s) {e : Entry}
    (he : e.msg.type = .MESSAGE ∨ e.msg.type = .STOP → s.givenId e.sender = some e.msg.client_id) :
    Forwarded (s.enqueue e) := by
  refine ⟨h.taken, h.idle, ?_⟩
  intro x hx htype
  have hmem : x ∈ s.log ++ s.flight ∨ x = e := by
    simpa [State.enqueue, State.flight, or_assoc] using hx
  rcases hmem with hx | rfl
  · exact h.sent x hx htype
  · exact he htype

lemma Forwarded.parent (h : Forwarded s) {ok : Bool}
    (hfinds : (s.client p).parent = .readId → ok = true ∧ (s.client p).pipe ≠ []) (hm : ParentMove s p ok t) :
    Forwarded t := by
  cases hm with
  | creates hpc =>
    apply h.setClient
    intro taken hid
    simp only [IdOk, hpc] at hid
    exact hid
  | joins hpc =>
    apply Forwarded.enqueue
    · apply h.setClient
      intro taken hid
      simp only [IdOk, hpc] at hid
      exact hid
    · rintro (htype | htype) <;> cases htype
  | forks hpc =>
    apply h.setClient
    intro taken hid
    simp only [IdOk, hpc] at hid
    have hid' : taken = (s.client p).underway := hid.2
    simp only [Client.underway, hid.1] at hid'
    exact hid'
  | reads hpc hok hpipe =>
    apply h.setClient
    intro taken hid
    simp only [IdOk, hpc] at hid
    simp only [Client.underway, hpipe, List.cons_append] at hid
    exact hid
  | readsNothing hpc hnothing =>
    obtain ⟨hok, hpipe⟩ := hfinds hpc
    rcases hnothing with hfalse | ⟨hnil, -⟩
    · rw [hok] at hfalse
      cases hfalse
    · exact absurd hnil hpipe
  | scans hpc | stops hpc | types hpc =>
    apply h.setClient
    intro taken hid
    simp only [IdOk, hpc] at hid
    exact hid
  | posts hpc =>
    apply Forwarded.enqueue
    · apply h.setClient
      intro taken hid
      simp only [IdOk, hpc] at hid
      exact hid
    · intro _
      apply h.givenId
      intro taken hid
      simp only [IdOk, hpc] at hid
      exact hid
  | leaves hpc =>
    apply Forwarded.enqueue
    · apply h.setClient
      intro taken _
      trivial
    · intro _
      apply h.givenId
      intro taken hid
      simp only [IdOk, hpc] at hid
      exact hid
  | quits hpc =>
    apply h.setClient
    intro taken _
    rcases hpc with rfl | rfl | rfl <;> trivial

lemma Forwarded.childMoves (h : Forwarded s) (child : ChildPc) (pipe : List ℤ) (hborn : (s.client p).child ≠ .unborn)
    (hunderway : Client.underway { s.client p with child := child, pipe := pipe } = (s.client p).underway) :
    Forwarded (s.setClient p { s.client p with child := child, pipe := pipe }) := by
  apply h.setClient
  intro taken hid
  unfold IdOk at hid ⊢
  rw [hunderway]
  cases hpc : (s.client p).parent with
  | create | sendInit | fork =>
    simp only [hpc] at hid
    exact absurd hid.1 hborn
  | readId | loop | scan | sendMessage | sendStop =>
    simp only [hpc] at hid
    exact hid
  | waitChild | ended | exited | crashed => trivial

lemma Forwarded.takes (h : Forwarded s) (hpc : (s.client p).child = .receive) {m : message_msg}
    {rest : List message_msg} (hq : s.queues (client_queue_name p) = m :: rest) :
    Forwarded { s.setClient p { s.client p with child := .dispatch, recive_msg := m } with
      queues := Function.update s.queues (client_queue_name p) rest } := by
  refine ⟨fun q => ?_, h.idle, h.sent⟩
  obtain ⟨taken, hput, hid⟩ := h.taken q
  by_cases hqp : q = p
  · subst hqp
    refine ⟨taken ++ [m], ?_, ?_⟩
    · simp only [State.setClient, Function.update_self]
      rw [hput, hq, List.append_assoc]
      rfl
    · simp only [State.setClient, Function.update_self, identifiers_append]
      unfold IdOk Client.underway at hid ⊢
      cases hparent : (s.client q).parent with
      | create | sendInit | fork =>
        simp only [hparent] at hid
        rw [hpc] at hid
        cases hid.1
      | readId | loop | scan | sendMessage | sendStop =>
        simp only [hparent, hpc] at hid
        simp [hid]
      | waitChild | ended | exited | crashed => trivial
  · refine ⟨taken, ?_, ?_⟩
    · have hne : client_queue_name q ≠ client_queue_name p := fun he => hqp (client_queue_name_injective he)
      simpa [State.setClient, Function.update_of_ne hne] using hput
    · simpa [State.setClient, Function.update_of_ne hqp] using hid

lemma Forwarded.child (h : Forwarded s) (hm : ChildMove s p t) : Forwarded t := by
  cases hm with
  | goesOn hpc | leaves hpc | fails hpc =>
    apply h.childMoves _ (s.client p).pipe
    · simp [hpc]
    · simp [Client.underway, hpc]
  | takes hpc hq => exact h.takes hpc hq
  | forwards hpc htype =>
    apply h.childMoves _ _
    · simp [hpc]
    · simp [Client.underway, hpc, identifiers, htype]
  | shows hpc htype =>
    apply h.childMoves _ (s.client p).pipe
    · simp [hpc]
    · simp [Client.underway, hpc, identifiers, htype]

/-! ### Whole runs -/

lemma Started.forwarded (h : Started s) : Forwarded s := by
  refine ⟨fun p => ⟨[], ?_, ?_⟩, fun _ => h.current, ?_⟩
  · rw [h.put, h.queues]
    rfl
  · unfold IdOk
    rw [h.parent]
    simp [Client.underway, h.child, h.pipe, identifiers]
  · simp [h.log, State.flight, h.current, h.server_queue]

theorem forwarded_of_reachable (h : machine.ReachableBy FindsId s) : Forwarded s := by
  refine h.invariant (I := Forwarded) (fun u hu => Started.forwarded hu) ?_
  intro u a v hu hfinds hn
  obtain ⟨ok, rfl, -⟩ | ⟨p, ok, typed, rfl, hm⟩ |
      ⟨p, ok, rfl, hm⟩ | ⟨rfl, rfl⟩ | ⟨p, flag, childFlag, -, rfl⟩ :=
    step_cases hn
  · exact hu.server hn
  · exact hu.parent hfinds hm
  · exact hu.child hm
  · exact ⟨hu.taken, hu.idle, hu.sent⟩
  · exact hu.setClient fun taken hid => hid

/-! ### The System V clients -/

/-- No client has come further than its INIT. -/
structure SilentV (u : StateV) : Prop where
  server_queue : u.server_queue = []
  parent : ∀ p, (u.client p).parent = .create ∨ (u.client p).parent = .sendInit ∨ (u.client p).parent = .exited ∨
    (u.client p).parent = .crashed

/-- `msgsnd` refuses INIT, since its client id -1 makes its type negative. -/
lemma mtype_init (text : Text) : ¬0 < message_msg.mtype ⟨.INIT, -1, text⟩ := by
  rw [mtype_pos_iff]
  simp

variable {ftok : List UInt8 → ℤ} {u v : StateV}

lemma SilentV.setClient (h : SilentV u) {c : Client} (hc : c.parent = .create ∨ c.parent = .sendInit ∨
    c.parent = .exited ∨ c.parent = .crashed) (queues : ℤ → List message_msg) :
    SilentV { u.setClient p c with queues := queues } := by
  refine ⟨h.server_queue, fun q => ?_⟩
  by_cases hq : q = p
  · subst hq
    simpa [StateV.setClient] using hc
  · simpa [StateV.setClient, Function.update_of_ne hq] using h.parent q

lemma SilentV.parentStep (h : SilentV u) {ok : Bool} {typed : Option (List UInt8)}
    (hs : parentStepV u p ok typed = some v) : SilentV v := by
  rcases h.parent p with hpc | hpc | hpc | hpc
  · simp only [parentStepV, hpc] at hs
    split at hs <;> cases hs
    · exact h.setClient (.inr (.inl rfl)) u.queues
    · exact h.setClient (.inr (.inr (.inl rfl))) u.queues
  · simp only [parentStepV, hpc, mtype_init, and_false, if_false] at hs
    split at hs <;> cases hs
    · exact h.setClient (.inr (.inr (.inr rfl))) u.queues
    · exact h.setClient (.inr (.inr (.inl rfl))) u.queues
  · simp [parentStepV, hpc] at hs
  · simp [parentStepV, hpc] at hs

lemma msgsnd_keeps {key : ℤ} {m : message_msg} (hs : u.msgsnd key m = some v) :
    v.server_queue = u.server_queue ∧ v.client = u.client := by
  unfold StateV.msgsnd at hs
  split at hs <;> cases hs
  exact ⟨rfl, rfl⟩

lemma sendStepV_keeps {pc : ServerPc} {key : ℤ} {m : message_msg} {ok : Bool}
    (hs : sendStepV (u.serverAt pc) key m ok = some v) : v.server_queue = u.server_queue ∧ v.client = u.client := by
  unfold sendStepV at hs
  split at hs
  · exact msgsnd_keeps (u := u.serverAt pc) hs
  · cases hs
    exact ⟨rfl, rfl⟩

lemma dispatchV_keeps (ok : Bool) : (dispatchStepV ftok u ok).server_queue = u.server_queue ∧
    (dispatchStepV ftok u ok).client = u.client := by
  unfold dispatchStepV
  repeat' split
  all_goals exact ⟨rfl, rfl⟩

lemma serverV_keeps {ok : Bool} (hs : serverStepV ftok u ok = some v) (hempty : u.server_queue = []) :
    v.server_queue = u.server_queue ∧ v.client = u.client := by
  cases hpc : u.server.pc with
  | loop =>
    simp only [serverStepV, hpc] at hs
    split at hs <;> cases hs <;> exact ⟨rfl, rfl⟩
  | receive =>
    simp only [serverStepV, hpc, hempty] at hs
    split at hs <;> cases hs
    exact ⟨rfl, rfl⟩
  | dispatch =>
    simp only [serverStepV, hpc, Option.some.injEq] at hs
    subst hs
    exact dispatchV_keeps ok
  | sendIdentifier id =>
    simp only [serverStepV, hpc] at hs
    split at hs
    · exact sendStepV_keeps hs
    · cases hs
      exact ⟨rfl, rfl⟩
  | broadcast i =>
    simp only [serverStepV, hpc, broadcastStepV] at hs
    split at hs
    · split at hs
      · split at hs
        · exact sendStepV_keeps hs
        · cases hs
          exact ⟨rfl, rfl⟩
      · cases hs
        exact ⟨rfl, rfl⟩
    · cases hs
      exact ⟨rfl, rfl⟩
  | sendGoodbye id =>
    simp only [serverStepV, hpc] at hs
    split at hs
    · exact sendStepV_keeps hs
    · cases hs
      exact ⟨rfl, rfl⟩
  | close id =>
    simp only [serverStepV, hpc, Option.some.injEq] at hs
    subst hs
    exact ⟨rfl, rfl⟩
  | done | exited | fault => simp [serverStepV, hpc] at hs

lemma SilentV.childStep (h : SilentV u) {ok : Bool} (hs : childStepV ftok u p ok = some v) : SilentV v := by
  simp only [childStepV] at hs
  repeat' split at hs
  all_goals cases hs
  all_goals
    apply h.setClient (p := p)
    exact h.parent p

theorem silent_of_reachable (h : (machineV ftok).Reachable u) : SilentV u := by
  refine h.invariant (I := SilentV) (fun u hu => ⟨StartedV.server_queue hu, fun p => .inl (StartedV.parent hu p)⟩) ?_
  intro u a v hu hn
  cases a with
  | server ok =>
    obtain ⟨hq, hclient⟩ := serverV_keeps hn hu.server_queue
    exact ⟨hq.trans hu.server_queue, fun p => by rw [hclient]; exact hu.parent p⟩
  | parent p ok typed => exact hu.parentStep hn
  | child p ok => exact hu.childStep hn
  | interruptServer =>
    cases hn
    exact ⟨hu.server_queue, hu.parent⟩
  | interruptParent p | interruptChild p =>
    simp only [machineV, stepV] at hn
    split at hn <;> cases hn
    apply hu.setClient (p := p)
    exact hu.parent p

/-! ### The ids -/

/-- In every run in which each parent's `read` finds an id, every MESSAGE and STOP that was sent
carries the id that the server gave to its sender; and System V clients send none. -/
theorem ids_used (h : machine.ReachableBy FindsId s) : (∀ e ∈ s.log ++ s.flight,
      e.msg.type = .MESSAGE ∨ e.msg.type = .STOP → s.givenId e.sender = some e.msg.client_id) ∧
    ∀ (ftok : List UInt8 → ℤ) (u : StateV), (machineV ftok).Reachable u → u.server_queue = [] :=
  ⟨(forwarded_of_reachable h).sent, fun _ _ hu => (silent_of_reachable hu).server_queue⟩

/-- A parent that goes on without an id can be brought to send a STOP with what its memory held. -/
theorem stop_without_id (hpc : (s.client p).parent = .readId) {ok : Bool} {typed : Option (List UInt8)}
    (hfinds : ¬FindsId s (.parent p ok typed)) (hn : step s (.parent p ok typed) = some t)
    (hroom : s.server_queue.length < mq_maxmsg) :
    ∃ u, machine.exec t [.interruptParent p, .parent p true none, .parent p true none] = some u ∧
      ⟨p, .STOP, (s.client p).client_id, textOf []⟩ ∈ u.flight ∧ u.put = s.put := by
  have ht : s.parentAt p .loop = t := by
    simp only [step, parentStep, hpc] at hn
    split at hn
    · next hok =>
      have hnil : (s.client p).pipe = [] := by
        by_contra hpipe
        exact hfinds fun _ => ⟨hok, hpipe⟩
      simp only [hnil] at hn
      split at hn
      · rw [← hnil] at hn
        exact Option.some.inj hn
      · cases hn
    · exact Option.some.inj hn
  subst ht
  have hrun : machine.exec (s.parentAt p .loop) [.interruptParent p, .parent p true none, .parent p true none] =
      some ((s.setClient p { s.client p with parent := .waitChild, flag := false }).enqueue
        ⟨p, .STOP, (s.client p).client_id, textOf []⟩) := by
    simp [Machine.exec, machine, step, parentStep, State.parentAt, State.setClient, State.sendToServer, State.enqueue,
      ParentPc.HandlesInterrupt, hroom]
  exact ⟨_, hrun, by simp [State.enqueue, State.flight], rfl⟩

/-- A client that joins is told its id, but a SIGINT before `fork` keeps the child from taking it. -/
def interruptedFork (p : Pid) : List Action :=
  [.parent p true none, .parent p true none] ++ List.replicate 4 (.server true) ++
    [.interruptParent p, .parent p true none, .child p true] ++ List.replicate 3 (.parent p true none)

/-- The client whose `client_id` holds 7 at first says STOP with 7, and not with its id. -/
theorem not_ids_used : ¬∀ s, machine.Reachable s → ∀ e ∈ s.log ++ s.flight,
    e.msg.type = .MESSAGE ∨ e.msg.type = .STOP → s.givenId e.sender = some e.msg.client_id := by
  intro h
  let start : State := { quiet with client := fun p => { quiet.client p with client_id := 7 } }
  have hstart : machine.Reachable start := by
    apply Machine.ReachableBy.start
    exact ⟨rfl, rfl, rfl, rfl, fun _ => rfl, fun _ => rfl, fun _ => rfl, fun _ => rfl, fun _ => rfl, rfl, rfl, fun _ => rfl⟩
  have hrun : (machine.exec start (interruptedFork ⟨1, by decide, by decide⟩)).map (fun s =>
      s.flight.any fun e => decide (e.msg.type = .STOP) && decide (s.givenId e.sender ≠ some e.msg.client_id)) =
      some true := by
    decide +kernel
  obtain ⟨s, hs, hany⟩ := Option.map_eq_some_iff.mp hrun
  obtain ⟨e, he, hstop⟩ := List.any_eq_true.mp hany
  simp only [Bool.and_eq_true, decide_eq_true_eq] at hstop
  exact hstop.2 (h s (hstart.exec hs) e (List.mem_append_right _ he) (.inr hstop.1))

/-- A check of the condition of a step. -/
def findsId (s : State) : Action → Bool
  | .parent p ok _ =>
    match (s.client p).parent with
    | .readId => ok && !(s.client p).pipe.isEmpty
    | _ => true
  | _ => true

lemma findsId_of_check {a : Action} (h : findsId s a = true) : FindsId s a := by
  cases a with
  | parent p ok typed =>
    intro hpc
    simpa [findsId, hpc] using h
  | server | child | interruptServer | interruptParent | interruptChild => trivial

/-- In the greeting, the first client reads its id and uses it. -/
theorem ids_used_greeting : ∃ s, machine.ReachableBy FindsId s ∧ ∃ e ∈ s.log ++ s.flight,
    e.msg.type = .MESSAGE ∧ s.givenId e.sender = some e.msg.client_id := by
  have hrun : ((machine.guard fun s a => findsId s a = true).exec quiet
      (greeting ⟨1, by decide, by decide⟩ ⟨2, by decide, by decide⟩)).map
      (fun s => s.log.any fun e => decide (e.msg.type = .MESSAGE)) = some true := by
    decide +kernel
  obtain ⟨s, hs, hany⟩ := Option.map_eq_some_iff.mp hrun
  obtain ⟨e, he, htype⟩ := List.any_eq_true.mp hany
  have hstart : (machine.guard fun s a => findsId s a = true).Reachable quiet := .start quiet_started
  have hreach := (Machine.reachableBy_of_guard (hstart.exec hs)).mono fun u a hu => findsId_of_check hu
  have hmem : e ∈ s.log ++ s.flight := List.mem_append_left _ he
  have hmessage : e.msg.type = .MESSAGE := by simpa using htype
  exact ⟨s, hreach, e, hmem, hmessage, (ids_used hreach).1 e hmem (.inl hmessage)⟩

end SystemyOperacyjne.QueueChat
