import SystemyOperacyjne.QueueChat

/-!
# The moves of the queue chat

What a step of the server, of a client's parent and of its child can be, and with it what a step
of the whole system can be.
-/

namespace SystemyOperacyjne.QueueChat
open Concurrency CString

variable {s t : State} {p : Pid}

/-! ### The server -/

/-- A message was put at the end of a queue. -/
def State.deliver (s : State) (n : QueueName) (m : message_msg) : State :=
  { s with
    queues := Function.update s.queues n (s.queues n ++ [m])
    put := Function.update s.put n (s.put n ++ [(s.processed.length - 1, m)]) }

lemma mq_send_eq_some {n : QueueName} {m : message_msg} :
    s.mq_send n m = some t ↔ (s.queues n).length < mq_maxmsg ∧ s.deliver n m = t := by
  unfold State.mq_send
  by_cases h : (s.queues n).length < mq_maxmsg
  · simp [h, State.deliver]
  · simp [h]

/-- The message that the server turns to makes it look at a slot outside its table. -/
def Server.Overruns (v : Server) : Prop :=
  v.recive_msg.type = .INIT ∧ freeSlot v.clients = none ∨
    v.recive_msg.type = .STOP ∧ slot? v.recive_msg.client_id = none

/-- The `switch` does nothing: STOP for an empty slot, or a type that has no case. -/
def Server.Ignores (v : Server) : Prop :=
  v.recive_msg.type = .IDENTIFIER ∨
    v.recive_msg.type = .STOP ∧ ∃ id, slot? v.recive_msg.client_id = some id ∧ v.clients id = none

/-- What a step of the server can be. -/
inductive ServerMove (s : State) (ok : Bool) : State → Prop
  | goesOn (hpc : s.server.pc = .loop) : ServerMove s ok (s.serverAt .receive)
  | leaves (hpc : s.server.pc = .loop) : ServerMove s ok (s.serverAt .done)
  | receives (hpc : s.server.pc = .receive) {e : Entry} {rest : List Entry} (hq : s.server_queue = e :: rest) :
      ServerMove s ok { s with
        server := { s.server with pc := .dispatch, recive_msg := e.msg }
        server_queue := rest
        current := some e }
  | repeats (hpc : s.server.pc = .receive) (hok : ok = false) : ServerMove s ok (s.serverAt .dispatch)
  | overruns (hpc : s.server.pc = .dispatch) (hout : s.server.Overruns) : ServerMove s ok (s.serverAt .fault)
  | admits (hpc : s.server.pc = .dispatch) (htype : s.server.recive_msg.type = .INIT) {id : Fin 10}
      (hid : freeSlot s.server.clients = some id) : ServerMove s ok { s.finish with
        server := { s.server with
          pc := .sendIdentifier id
          clients := Function.update s.server.clients id (some (cString s.server.recive_msg.text)) } }
  | cannotOpen (hpc : s.server.pc = .dispatch) (htype : s.server.recive_msg.type = .INIT) {id : Fin 10}
      (hid : freeSlot s.server.clients = some id) (hok : ok = false) : ServerMove s ok (s.serverAt .exited)
  | passesOn (hpc : s.server.pc = .dispatch) (htype : s.server.recive_msg.type = .MESSAGE) :
      ServerMove s ok (s.serverAt (.broadcast 0))
  | dismisses (hpc : s.server.pc = .dispatch) (htype : s.server.recive_msg.type = .STOP) {id : Fin 10}
      (hid : slot? s.server.recive_msg.client_id = some id) (hslot : s.server.clients id ≠ none) :
      ServerMove s ok (s.serverAt (.sendGoodbye id))
  | ignores (hpc : s.server.pc = .dispatch) (hignores : s.server.Ignores) : ServerMove s ok (s.serverAt .loop).finish
  | tells {id : Fin 10} {name : QueueName} (hpc : s.server.pc = .sendIdentifier id)
      (hslot : s.server.clients id = some name) (hroom : (s.queues name).length < mq_maxmsg) :
      ServerMove s ok ((s.serverAt .loop).deliver name (identifierMessage id))
  | tellsNothing {id : Fin 10} (hpc : s.server.pc = .sendIdentifier id) : ServerMove s ok (s.serverAt .loop)
  | forwards {i : ℕ} {name : QueueName} (hpc : s.server.pc = .broadcast i) (hi : i < 10)
      (hslot : s.server.clients ⟨i, hi⟩ = some name) (hother : (i : ℤ) ≠ s.server.recive_msg.client_id)
      (hroom : (s.queues name).length < mq_maxmsg) :
      ServerMove s ok ((s.serverAt (.broadcast (i + 1))).deliver name s.server.recive_msg)
  | skips {i : ℕ} (hpc : s.server.pc = .broadcast i) (hi : i < 10) : ServerMove s ok (s.serverAt (.broadcast (i + 1)))
  | ends {i : ℕ} (hpc : s.server.pc = .broadcast i) (hi : ¬i < 10) : ServerMove s ok (s.serverAt .loop).finish
  | saysGoodbye {id : Fin 10} {name : QueueName} (hpc : s.server.pc = .sendGoodbye id)
      (hslot : s.server.clients id = some name) (hroom : (s.queues name).length < mq_maxmsg) :
      ServerMove s ok ((s.serverAt (.close id)).deliver name (endMessage id))
  | goodbyeFails {id : Fin 10} (hpc : s.server.pc = .sendGoodbye id) : ServerMove s ok (s.serverAt .exited)
  | closes {id : Fin 10} (hpc : s.server.pc = .close id) : ServerMove s ok { s.finish with
      server := { s.server with
        pc := .loop
        clients := Function.update s.server.clients id none } }

lemma dispatch_cases {ok : Bool} (hpc : s.server.pc = .dispatch) : ServerMove s ok (dispatchStep s ok) := by
  cases htype : s.server.recive_msg.type with
  | INIT =>
    cases hid : freeSlot s.server.clients with
    | none =>
      simp only [dispatchStep, htype, hid]
      exact .overruns hpc (.inl ⟨htype, hid⟩)
    | some id =>
      cases ok with
      | true =>
        simp only [dispatchStep, htype, hid, if_true]
        exact .admits hpc htype hid
      | false =>
        simp only [dispatchStep, htype, hid]
        exact .cannotOpen hpc htype hid rfl
  | MESSAGE =>
    simp only [dispatchStep, htype]
    exact .passesOn hpc htype
  | STOP =>
    cases hid : slot? s.server.recive_msg.client_id with
    | none =>
      simp only [dispatchStep, htype, hid]
      exact .overruns hpc (.inr ⟨htype, hid⟩)
    | some id =>
      simp only [dispatchStep, htype, hid]
      split
      · next hslot => exact .dismisses hpc htype hid hslot
      · next hslot => exact .ignores hpc (.inr ⟨htype, id, hid, not_not.mp hslot⟩)
  | IDENTIFIER =>
    simp only [dispatchStep, htype]
    exact .ignores hpc (.inl htype)

lemma broadcast_cases {ok : Bool} {i : ℕ} (hpc : s.server.pc = .broadcast i) (hs : broadcastStep s i ok = some t) :
    ServerMove s ok t := by
  unfold broadcastStep at hs
  split at hs
  · next hi =>
    split at hs
    · next name hslot =>
      split at hs
      · next hsends =>
        obtain ⟨hroom, rfl⟩ := mq_send_eq_some.mp hs
        exact .forwards hpc hi hslot hsends.1 hroom
      · cases hs
        exact .skips hpc hi
    · cases hs
      exact .skips hpc hi
  · next hi =>
    cases hs
    exact .ends hpc hi

theorem server_cases {ok : Bool} (hs : serverStep s ok = some t) : ServerMove s ok t := by
  cases hpc : s.server.pc with
  | loop =>
    simp only [serverStep, hpc] at hs
    split at hs
    · cases hs
      exact .goesOn hpc
    · cases hs
      exact .leaves hpc
  | receive =>
    simp only [serverStep, hpc] at hs
    cases ok with
    | true =>
      cases hq : s.server_queue with
      | nil => simp [hq] at hs
      | cons e rest =>
        simp only [hq, if_true, Option.some.injEq] at hs
        subst hs
        exact .receives hpc hq
    | false =>
      cases hs
      exact .repeats hpc rfl
  | dispatch =>
    simp only [serverStep, hpc, Option.some.injEq] at hs
    subst hs
    exact dispatch_cases hpc
  | sendIdentifier id =>
    simp only [serverStep, hpc] at hs
    split at hs
    · next name hslot =>
      split at hs
      · obtain ⟨hroom, rfl⟩ := mq_send_eq_some.mp hs
        exact .tells hpc hslot hroom
      · cases hs
        exact .tellsNothing hpc
    · cases hs
      exact .tellsNothing hpc
  | broadcast i =>
    simp only [serverStep, hpc] at hs
    exact broadcast_cases hpc hs
  | sendGoodbye id =>
    simp only [serverStep, hpc] at hs
    split at hs
    · next name hslot =>
      split at hs
      · obtain ⟨hroom, rfl⟩ := mq_send_eq_some.mp hs
        exact .saysGoodbye hpc hslot hroom
      · cases hs
        exact .goodbyeFails hpc
    · cases hs
      exact .goodbyeFails hpc
  | close id =>
    simp only [serverStep, hpc, Option.some.injEq] at hs
    subst hs
    exact .closes hpc
  | done | exited | fault => simp [serverStep, hpc] at hs

/-! ### The clients -/

/-- The parent goes on in its code. -/
def State.parentAt (s : State) (p : Pid) (pc : ParentPc) : State :=
  s.setClient p { s.client p with parent := pc }

def State.childAt (s : State) (p : Pid) (pc : ChildPc) : State :=
  s.setClient p { s.client p with child := pc }

/-- A message arrives at the end of the server queue. -/
def State.enqueue (s : State) (e : Entry) : State :=
  { s with server_queue := s.server_queue ++ [e] }

lemma sendToServer_eq_some {m : message_msg} :
    s.sendToServer p m = some t ↔ s.server_queue.length < mq_maxmsg ∧ s.enqueue ⟨p, m⟩ = t := by
  unfold State.sendToServer
  by_cases h : s.server_queue.length < mq_maxmsg
  · simp [h, State.enqueue]
  · simp [h]

/-- The client has no child yet. -/
def ParentPc.BeforeFork : ParentPc → Prop
  | .create | .sendInit | .fork => True
  | _ => False

/-- What a step of the parent can be. -/
inductive ParentMove (s : State) (p : Pid) (ok : Bool) : State → Prop
  | creates (hpc : (s.client p).parent = .create) : ParentMove s p ok (s.parentAt p .sendInit)
  | joins (hpc : (s.client p).parent = .sendInit) (hok : ok = true) :
      ParentMove s p ok ((s.parentAt p .fork).enqueue ⟨p, initMessage p⟩)
  | forks (hpc : (s.client p).parent = .fork) : ParentMove s p ok
      (s.setClient p { s.client p with parent := .readId, child := .loop, childFlag := (s.client p).flag })
  | reads (hpc : (s.client p).parent = .readId) (hok : ok = true) {id : ℤ} {rest : List ℤ}
      (hpipe : (s.client p).pipe = id :: rest) :
      ParentMove s p ok (s.setClient p { s.client p with parent := .loop, client_id := id, pipe := rest })
  | readsNothing (hpc : (s.client p).parent = .readId)
      (hnothing : ok = false ∨ (s.client p).pipe = [] ∧ (s.client p).child = .ended) :
      ParentMove s p ok (s.parentAt p .loop)
  | scans (hpc : (s.client p).parent = .loop) : ParentMove s p ok (s.parentAt p .scan)
  | stops (hpc : (s.client p).parent = .loop) : ParentMove s p ok (s.parentAt p .sendStop)
  | types (hpc : (s.client p).parent = .scan) {text : Text} : ParentMove s p ok (s.parentAt p (.sendMessage text))
  | posts {text : Text} (hpc : (s.client p).parent = .sendMessage text) (hok : ok = true) : ParentMove s p ok
      ((s.parentAt p .loop).enqueue ⟨p, .MESSAGE, (s.client p).client_id, text⟩)
  | leaves (hpc : (s.client p).parent = .sendStop) (hok : ok = true) : ParentMove s p ok
      ((s.parentAt p .waitChild).enqueue ⟨p, .STOP, (s.client p).client_id, textOf []⟩)
  | quits {pc : ParentPc} (hpc : pc = .ended ∨ pc = .exited ∨ pc = .crashed)
      (hfails : (s.client p).parent.BeforeFork → ok = false) : ParentMove s p ok (s.parentAt p pc)

theorem parent_cases {ok : Bool} {typed : Option (List UInt8)} (hs : parentStep s p ok typed = some t) :
    ParentMove s p ok t := by
  have hexits : ok ≠ true → ParentMove s p ok (s.parentAt p .exited) := fun hok =>
    .quits (.inr (.inl rfl)) fun _ => Bool.eq_false_of_not_eq_true hok
  cases hpc : (s.client p).parent with
  | create =>
    simp only [parentStep, hpc] at hs
    split at hs
    · cases hs
      exact .creates hpc
    · next hok =>
      cases hs
      exact hexits hok
  | sendInit =>
    simp only [parentStep, hpc, memcpyText_client_queue_name] at hs
    split at hs
    · next hok =>
      obtain ⟨-, rfl⟩ := sendToServer_eq_some.mp hs
      exact .joins hpc hok
    · next hok =>
      cases hs
      exact hexits hok
  | fork =>
    simp only [parentStep, hpc] at hs
    split at hs
    · cases hs
      exact .forks hpc
    · next hok =>
      cases hs
      exact hexits hok
  | readId =>
    simp only [parentStep, hpc] at hs
    split at hs
    · next hok =>
      cases hpipe : (s.client p).pipe with
      | nil =>
        simp only [hpipe] at hs
        split at hs
        · next hended =>
          cases hs
          rw [← hpipe]
          exact .readsNothing hpc (.inr ⟨hpipe, hended⟩)
        · cases hs
      | cons id rest =>
        simp only [hpipe, Option.some.injEq] at hs
        subst hs
        exact .reads hpc hok hpipe
    · next hok =>
      cases hs
      exact .readsNothing hpc (.inl (Bool.eq_false_of_not_eq_true hok))
  | loop =>
    simp only [parentStep, hpc] at hs
    split at hs <;> cases hs
    · exact .scans hpc
    · exact .stops hpc
  | scan =>
    simp only [parentStep, hpc] at hs
    split at hs <;> cases hs
    · exact .types hpc
    · exact .quits (.inr (.inr rfl)) fun hbefore => by simp [hpc, ParentPc.BeforeFork] at hbefore
  | sendMessage text =>
    simp only [parentStep, hpc] at hs
    split at hs
    · next hok =>
      obtain ⟨-, rfl⟩ := sendToServer_eq_some.mp hs
      exact .posts hpc hok
    · next hok =>
      cases hs
      exact hexits hok
  | sendStop =>
    simp only [parentStep, hpc] at hs
    split at hs
    · next hok =>
      obtain ⟨-, rfl⟩ := sendToServer_eq_some.mp hs
      exact .leaves hpc hok
    · next hok =>
      cases hs
      exact hexits hok
  | waitChild =>
    simp only [parentStep, hpc] at hs
    split at hs <;> cases hs
    exact .quits (.inl rfl) fun hbefore => by simp [hpc, ParentPc.BeforeFork] at hbefore
  | ended | exited | crashed => simp [parentStep, hpc] at hs

/-- What a step of the child can be. -/
inductive ChildMove (s : State) (p : Pid) : State → Prop
  | goesOn (hpc : (s.client p).child = .loop) (hflag : (s.client p).childFlag = true) :
      ChildMove s p (s.childAt p .receive)
  | leaves (hpc : (s.client p).child = .loop) (hflag : (s.client p).childFlag = false) :
      ChildMove s p (s.childAt p .ended)
  | takes (hpc : (s.client p).child = .receive) {m : message_msg} {rest : List message_msg}
      (hq : s.queues (client_queue_name p) = m :: rest) : ChildMove s p
      { s.setClient p { s.client p with child := .dispatch, recive_msg := m } with
        queues := Function.update s.queues (client_queue_name p) rest }
  | fails (hpc : (s.client p).child = .receive) : ChildMove s p (s.childAt p .loop)
  | forwards (hpc : (s.client p).child = .dispatch) (htype : (s.client p).recive_msg.type = .IDENTIFIER) :
      ChildMove s p (s.setClient p
        { s.client p with child := .loop, pipe := (s.client p).pipe ++ [(s.client p).recive_msg.client_id] })
  | shows (hpc : (s.client p).child = .dispatch) (htype : (s.client p).recive_msg.type ≠ .IDENTIFIER) :
      ChildMove s p (s.childAt p .loop)

theorem child_cases {ok : Bool} (hs : childStep s p ok = some t) : ChildMove s p t := by
  cases hpc : (s.client p).child with
  | unborn | ended => simp [childStep, hpc] at hs
  | loop =>
    simp only [childStep, hpc, Option.some.injEq] at hs
    subst hs
    split
    · next hflag => exact .goesOn hpc hflag
    · next hflag => exact .leaves hpc (Bool.eq_false_of_not_eq_true hflag)
  | receive =>
    simp only [childStep, hpc] at hs
    split at hs
    · cases hq : s.queues (client_queue_name p) with
      | nil => simp [hq] at hs
      | cons m rest =>
        simp only [hq, Option.some.injEq] at hs
        subst hs
        exact .takes hpc hq
    · cases hs
      exact .fails hpc
  | dispatch =>
    simp only [childStep, hpc] at hs
    split at hs
    · next htype =>
      cases hs
      exact .forwards hpc htype
    · next htype =>
      cases hs
      exact .shows hpc htype

lemma ServerMove.client {ok : Bool} (hm : ServerMove s ok t) : t.client = s.client := by
  cases hm <;> rfl

/-- A step of the server, a parent or a child, or a SIGINT, which clears a flag. -/
theorem step_cases {a : Action} (hs : step s a = some t) :
    (∃ ok, a = .server ok ∧ ServerMove s ok t) ∨
    (∃ p ok typed, a = .parent p ok typed ∧ ParentMove s p ok t) ∨
    (∃ p ok, a = .child p ok ∧ ChildMove s p t) ∨
    (a = .interruptServer ∧ { s with server := { s.server with flag := false } } = t) ∨
    ∃ p flag childFlag, (a = .interruptParent p ∨ a = .interruptChild p) ∧
      s.setClient p { s.client p with flag := flag, childFlag := childFlag } = t := by
  cases a with
  | server ok => exact .inl ⟨ok, rfl, server_cases hs⟩
  | parent p ok typed => exact .inr (.inl ⟨p, ok, typed, rfl, parent_cases hs⟩)
  | child p ok => exact .inr (.inr (.inl ⟨p, ok, rfl, child_cases hs⟩))
  | interruptServer => exact .inr (.inr (.inr (.inl ⟨rfl, Option.some.inj hs⟩)))
  | interruptParent p =>
    simp only [step] at hs
    split at hs <;> cases hs
    exact .inr (.inr (.inr (.inr ⟨p, false, (s.client p).childFlag, .inl rfl, rfl⟩)))
  | interruptChild p =>
    simp only [step] at hs
    split at hs <;> cases hs
    exact .inr (.inr (.inr (.inr ⟨p, (s.client p).flag, false, .inr rfl, rfl⟩)))

/-! ### What is in the queues -/

/-- A step of the server puts nothing in a queue, or one message at the end of one. -/
def QueueMove (s t : State) : Prop :=
  t.queues = s.queues ∧ t.put = s.put ∨ ∃ n k m, t.queues = Function.update s.queues n (s.queues n ++ [m]) ∧
    t.put = Function.update s.put n (s.put n ++ [(k, m)])

lemma ServerMove.queueMove {ok : Bool} (hm : ServerMove s ok t) : QueueMove s t := by
  cases hm with
  | tells | forwards | saysGoodbye => exact .inr ⟨_, _, _, rfl, rfl⟩
  | goesOn | leaves | receives | repeats | overruns | admits | cannotOpen | passesOn | dismisses | ignores | tellsNothing
  | skips | ends | goodbyeFails | closes => exact .inl ⟨rfl, rfl⟩

lemma QueueMove.grows (h : QueueMove s t) (n : QueueName) :
    ∃ rest, t.put n = s.put n ++ rest ∧ t.queues n = s.queues n ++ rest.map Prod.snd := by
  rcases h with ⟨hq, hp⟩ | ⟨m, k, x, hq, hp⟩
  · exact ⟨[], by simp [hq, hp]⟩
  · rw [hq, hp]
    by_cases hn : n = m
    · subst hn
      exact ⟨[(k, x)], by simp⟩
    · exact ⟨[], by simp [Function.update_of_ne hn]⟩

end SystemyOperacyjne.QueueChat
