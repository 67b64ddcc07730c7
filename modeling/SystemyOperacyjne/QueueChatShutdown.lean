import SystemyOperacyjne.Library.Tokens
import SystemyOperacyjne.QueueChatWedge

/-!
# The end of the chat

SIGINT comes to both processes of all clients while none of these has sent STOP. A child that has not noticed
it waits for one more message, which is the goodbye at the latest. So the clients end in every schedule, unless
the server waits for room in the queue of a child that has already left.
-/

namespace SystemyOperacyjne.QueueChat
open Concurrency CString

variable {s t : State} {p : Pid}

/-- The calls of the server succeed, and every client has its id from the pipe. -/
structure Orderly (s : State) (a : Action) : Prop where
  reliable : Reliable s a
  findsId : FindsId s a

/-- The handler is installed, and STOP is not sent. -/
def ParentPc.AtWork : ParentPc → Prop
  | .fork | .readId | .loop | .scan | .sendMessage _ | .sendStop => True
  | _ => False

/-- SIGINT has come to the parents and children of `S`, each of which has its handler and has not sent STOP;
the other clients have not begun or are gone. -/
structure Interrupted (S : Finset Pid) (s : State) : Prop where
  server : s.server.flag = true ∧ s.server.pc ≠ .done
  parent : ∀ p ∈ S, (s.client p).parent.AtWork ∧ (s.client p).flag = false
  child : ∀ p ∈ S, (s.client p).child ≠ .unborn → (s.client p).childFlag = false
  other : ∀ p ∉ S, (s.client p).parent = .create ∨ (s.client p).child = .ended

/-- A step of the server or of a client of `S`. A SIGINT that a child has got can still end its `mq_receive`. -/
def Winding (S : Finset Pid) : Action → Prop
  | .server ok => ok = true
  | .parent p ok _ => p ∈ S ∧ ok = true
  | .child p _ => p ∈ S
  | .interruptServer | .interruptParent _ | .interruptChild _ => False

/-- No process can go on, unless a call fails. -/
def Still (S : Finset Pid) (s : State) : Prop :=
  ∀ a, Winding S a → (∀ p, a ≠ .child p false) → step s a = none

/-! ### An interrupted client -/

/-- What a step of an interrupted parent can be. -/
inductive LastMove (s : State) (p : Pid) : State → Prop
  | forks (hpc : (s.client p).parent = .fork) : LastMove s p
      (s.setClient p { s.client p with parent := .readId, child := .loop, childFlag := (s.client p).flag })
  | reads (hpc : (s.client p).parent = .readId) {id : ℤ} {rest : List ℤ} (hpipe : (s.client p).pipe = id :: rest) :
      LastMove s p (s.setClient p { s.client p with parent := .loop, client_id := id, pipe := rest })
  | readsNothing (hpc : (s.client p).parent = .readId) : LastMove s p (s.parentAt p .loop)
  | stops (hpc : (s.client p).parent = .loop) : LastMove s p (s.parentAt p .sendStop)
  | types (hpc : (s.client p).parent = .scan) {text : Text} : LastMove s p (s.parentAt p (.sendMessage text))
  | crashes (hpc : (s.client p).parent = .scan) : LastMove s p (s.parentAt p .crashed)
  | posts {text : Text} (hpc : (s.client p).parent = .sendMessage text) : LastMove s p
      ((s.parentAt p .loop).enqueue ⟨p, .MESSAGE, (s.client p).client_id, text⟩)
  | leaves (hpc : (s.client p).parent = .sendStop) : LastMove s p
      ((s.parentAt p .waitChild).enqueue ⟨p, .STOP, (s.client p).client_id, textOf []⟩)
  | ends (hpc : (s.client p).parent = .waitChild) (hchild : (s.client p).child = .ended) :
      LastMove s p (s.parentAt p .ended)

lemma last_cases (hflag : (s.client p).flag = false) (hinstalled : (s.client p).parent.HandlesInterrupt)
    {typed : Option (List UInt8)} (hs : parentStep s p true typed = some t) : LastMove s p t := by
  cases hpc : (s.client p).parent with
  | create | sendInit =>
    rw [hpc] at hinstalled
    exact hinstalled.elim
  | ended | exited | crashed => simp [parentStep, hpc] at hs
  | fork =>
    simp only [parentStep, hpc, if_true, Option.some.injEq] at hs
    subst hs
    exact .forks hpc
  | readId =>
    simp only [parentStep, hpc, if_true] at hs
    cases hpipe : (s.client p).pipe with
    | nil =>
      simp only [hpipe] at hs
      split at hs <;> cases hs
      rw [← hpipe]
      exact .readsNothing hpc
    | cons id rest =>
      simp only [hpipe, Option.some.injEq] at hs
      subst hs
      exact .reads hpc hpipe
  | loop =>
    simp only [parentStep, hpc] at hs
    rw [if_neg (by simp [hflag])] at hs
    obtain rfl := Option.some.inj hs
    exact .stops hpc
  | scan =>
    simp only [parentStep, hpc] at hs
    split at hs <;> cases hs
    · exact .types hpc
    · exact .crashes hpc
  | sendMessage text =>
    simp only [parentStep, hpc, if_true] at hs
    obtain ⟨-, rfl⟩ := sendToServer_eq_some.mp hs
    exact .posts hpc
  | sendStop =>
    simp only [parentStep, hpc, if_true] at hs
    obtain ⟨-, rfl⟩ := sendToServer_eq_some.mp hs
    exact .leaves hpc
  | waitChild =>
    simp only [parentStep, hpc] at hs
    split at hs
    · next hchild =>
      cases hs
      exact .ends hpc hchild
    · cases hs

/-! ### The steps that are left -/

/-- The steps of the server until its next `mq_receive`. -/
def ServerPc.work : ServerPc → ℕ
  | .dispatch => 13
  | .broadcast i => (10 - i) + 2
  | .sendGoodbye _ => 3
  | .sendIdentifier _ | .close _ => 2
  | .loop => 1
  | .receive | .done | .exited | .fault => 0

/-- The steps of an interrupted parent, and those of the server for what it sends. -/
def ParentPc.work : ParentPc → ℕ
  | .create => 36
  | .sendInit => 35
  | .scan => 33
  | .sendMessage _ => 32
  | .fork => 20
  | .readId => 18
  | .loop => 17
  | .sendStop => 16
  | .waitChild => 1
  | .ended | .exited | .crashed => 0

/-- The steps of an interrupted child. -/
def ChildPc.work : ChildPc → ℕ
  | .receive => 3
  | .dispatch => 2
  | .loop => 1
  | .unborn | .ended => 0

def Client.work (c : Client) : ℕ :=
  c.parent.work + c.child.work

def State.work (S : Finset Pid) (s : State) : ℕ :=
  s.server.pc.work + 14 * s.server_queue.length + ∑ p ∈ S, (s.client p).work

section
variable {S : Finset Pid}

lemma work_setClient (hp : p ∈ S) {c : Client} (hlt : c.work < (s.client p).work) :
    (s.setClient p c).work S < s.work S := by
  have hsum := sum_update_add Client.work s.client hp c
  simp only [State.work, State.setClient]
  omega

/-- A message costs the server 14 steps at most. -/
lemma work_send (hp : p ∈ S) {c : Client} (e : Entry) (hlt : c.work + 14 < (s.client p).work) :
    ((s.setClient p c).enqueue e).work S < s.work S := by
  have hsum := sum_update_add Client.work s.client hp c
  simp only [State.work, State.setClient, State.enqueue, List.length_append, List.length_singleton]
  omega

lemma server_work (hm : ServerMove s true t) : t.work S < s.work S := by
  have hclient := hm.client
  have hsum : ∑ p ∈ S, (t.client p).work = ∑ p ∈ S, (s.client p).work := by rw [hclient]
  unfold State.work
  rw [hsum]
  cases hm with
  | repeats _ hok | cannotOpen _ _ _ hok => cases hok
  | receives hpc hq =>
    simp only [hpc, hq, ServerPc.work, List.length_cons]
    omega
  | forwards hpc hi | skips hpc hi | ends hpc hi =>
    simp only [State.deliver, State.serverAt, State.finish, hpc, ServerPc.work]
    omega
  | goesOn hpc | leaves hpc | overruns hpc | admits hpc | passesOn hpc | dismisses hpc | ignores hpc | tells hpc
  | tellsNothing hpc | saysGoodbye hpc | goodbyeFails hpc | closes hpc =>
    simp [State.deliver, State.serverAt, State.finish, hpc, ServerPc.work]

lemma last_work (hp : p ∈ S) (hm : LastMove s p t) : t.work S < s.work S := by
  cases hm with
  | forks hpc =>
    apply work_setClient hp
    simp only [Client.work, hpc, ParentPc.work, ChildPc.work]
    omega
  | reads hpc | readsNothing hpc | stops hpc | types hpc | crashes hpc | ends hpc =>
    apply work_setClient hp
    simp only [Client.work, hpc, ParentPc.work]
    omega
  | posts hpc | leaves hpc =>
    apply work_send hp
    simp only [Client.work, hpc, ParentPc.work]
    omega

lemma child_work (hp : p ∈ S) (hflag : (s.client p).child ≠ .unborn → (s.client p).childFlag = false)
    (hm : ChildMove s p t) : t.work S < s.work S := by
  cases hm with
  | goesOn hpc hset =>
    rw [hflag (by rw [hpc]; simp)] at hset
    cases hset
  | leaves hpc | fails hpc | forwards hpc | shows hpc =>
    apply work_setClient hp
    simp only [Client.work, hpc, ChildPc.work]
    omega
  | @takes hpc m rest hq =>
    have hlt : (s.setClient p { s.client p with child := .dispatch, recive_msg := m }).work S < s.work S := by
      apply work_setClient hp
      simp only [Client.work, hpc, ChildPc.work]
      omega
    exact hlt

lemma work_interrupted (h : Interrupted S s) : s.work S ≤ 13 + 14 * s.server_queue.length + 36 * S.card := by
  have hserver : s.server.pc.work ≤ 13 := by
    cases s.server.pc <;> simp only [ServerPc.work] <;> omega
  have hclients : ∑ p ∈ S, (s.client p).work ≤ S.card * 36 := by
    apply Finset.sum_le_card_nsmul S
    intro p hp
    have hwork := (h.parent p hp).1
    have hchild : (s.client p).child.work ≤ 3 := by
      cases (s.client p).child <;> simp [ChildPc.work]
    have hparent : (s.client p).parent.work ≤ 33 := by
      cases hpc : (s.client p).parent with
      | create | sendInit | waitChild | ended | exited | crashed =>
        rw [hpc] at hwork
        exact hwork.elim
      | fork | readId | loop | scan | sendMessage | sendStop => simp [ParentPc.work]
    unfold Client.work
    omega
  unfold State.work
  omega

end

/-! ### What has been sent -/

/-- What the clients have sent by the place of their parents, who is in the table, and who has left. -/
structure Begun (s : State) : Prop where
  sent : ∀ p, (s.client p).parent = .fork ∨ (s.client p).parent = .readId →
    ∃ e ∈ s.log ++ s.flight, e.sender = p ∧ e.msg.type = .INIT
  born : ∀ p, (s.client p).child = .unborn → (s.client p).parent.AtWork → (s.client p).parent = .fork
  named : ∀ k n, s.server.clients k = some n → ∃ p, n = client_queue_name p
  left : ∀ e ∈ s.log, e.msg.type = .STOP → HasLeft e.sender s.events

lemma Started.begun (h : Started s) : Begun s := by
  refine ⟨fun p hp => ?_, fun p _ hp => ?_, fun k n hk => ?_, fun e he => ?_⟩
  · rw [h.parent] at hp
    rcases hp with hp | hp <;> cases hp
  · rw [h.parent] at hp
    exact hp.elim
  · rw [h.clients] at hk
    cases hk
  · rw [h.log] at he
    cases he

lemma Begun.finish (h : Begun s) {e : Entry} (he : s.current = some e)
    (hstop : e.msg.type = .STOP → HasJoined e.sender s.events) :
    ∀ x ∈ s.processed, x.msg.type = .STOP → HasLeft x.sender (s.processed.map Entry.event) := by
  intro x hx htype
  rw [(processed_of_current he).1, left_append]
  rw [processed_eq he, List.mem_append, List.mem_singleton] at hx
  rcases hx with hold | rfl
  · have hleft := h.left x hold htype
    exact ⟨hleft.joined, .inl hleft⟩
  · refine ⟨hstop htype, .inr ?_⟩
    simp [Entry.event, htype, GroupEvent.isLeave]

lemma Begun.server (h : Begun s) (hok : Ok s) (hidle : s.server.pc.Idle → s.current = none)
    (hm : ServerMove s true t) : Begun t := by
  have hsent := (sent_server hidle hm).1
  have hclient := hm.client
  have hkept : (∀ k n, t.server.clients k = some n → ∃ p, n = client_queue_name p) →
      (∀ e ∈ t.log, e.msg.type = .STOP → HasLeft e.sender t.events) → Begun t := by
    intro hnamed hleft
    refine ⟨fun p hp => ?_, fun p => ?_, hnamed, hleft⟩
    · rw [hclient] at hp
      rw [hsent]
      exact h.sent p hp
    · rw [hclient]
      exact h.born p
  cases hm with
  | goesOn | leaves | receives | repeats | overruns | cannotOpen | passesOn | dismisses | tells | tellsNothing | forwards
  | skips | saysGoodbye | goodbyeFails => exact hkept h.named h.left
  | admits hpc htype hid =>
    obtain ⟨e, he, hmsg⟩ := hok.at_pc hpc
    rw [hmsg] at htype
    have hinit : e.msg = initMessage e.sender := by
      have hflight := hok.flight e (by rw [flight_of_current he]; exact List.mem_cons_self)
      simp only [InFlight, htype] at hflight
      exact hflight.1
    apply hkept
    · intro k n hk
      rcases of_update_some hk with ⟨-, hold⟩ | ⟨-, hn⟩
      · exact h.named k n hold
      · exact ⟨e.sender, by rw [hn, hmsg, hinit, cString_initMessage]⟩
    · apply h.finish he
      rw [htype]
      exact fun hstop => by cases hstop
  | ignores hpc hignores =>
    obtain ⟨e, he, hmsg⟩ := hok.at_pc hpc
    apply hkept h.named
    apply h.finish he
    intro htype
    obtain ⟨k, hk, hid⟩ := hok.slot_of_current he (.inr htype)
    unfold Server.Ignores at hignores
    rw [hmsg, htype, hid, slot?_natCast] at hignores
    obtain hidentifier | ⟨-, id, hid, hnone⟩ := hignores
    · cases hidentifier
    · obtain rfl := Option.some.inj hid
      rw [hk] at hnone
      cases hnone
  | ends hpc =>
    obtain ⟨e, he, -, htype⟩ := hok.at_pc hpc
    apply hkept h.named
    apply h.finish he
    rw [htype]
    exact fun hstop => by cases hstop
  | closes hpc =>
    obtain ⟨e, he, -, hslot⟩ := hok.at_pc hpc
    apply hkept
    · exact fun k n hk => h.named k n (of_update_none hk).2
    · exact h.finish he fun _ => ((hok.table e.sender).mp ⟨_, hslot⟩).1

lemma Begun.client (h : Begun s) {c : Client} {entries : List Entry} (hclient : t.client = Function.update s.client p c)
    (hserver : t.server = s.server) (hlog : t.log = s.log) (hflight : t.flight = s.flight ++ entries)
    (hsent : c.parent = .fork ∨ c.parent = .readId →
      ((s.client p).parent = .fork ∨ (s.client p).parent = .readId) ∨ ⟨p, initMessage p⟩ ∈ entries)
    (hborn : c.child = .unborn → c.parent.AtWork → c.parent = .fork) : Begun t := by
  have hold : ∀ q, (s.client q).parent = .fork ∨ (s.client q).parent = .readId →
      ∃ e ∈ t.log ++ t.flight, e.sender = q ∧ e.msg.type = .INIT := by
    intro q hq
    obtain ⟨e, he, hrest⟩ := h.sent q hq
    refine ⟨e, ?_, hrest⟩
    rw [hlog, hflight, ← List.append_assoc]
    exact List.mem_append_left _ he
  refine ⟨fun q hq => ?_, fun q => ?_, ?_, ?_⟩
  · by_cases hqp : q = p
    · subst hqp
      rw [hclient, Function.update_self] at hq
      rcases hsent hq with hbefore | hinit
      · exact hold q hbefore
      · refine ⟨⟨q, initMessage q⟩, ?_, rfl, rfl⟩
        rw [hlog, hflight]
        exact List.mem_append_right _ (List.mem_append_right _ hinit)
    · rw [hclient, Function.update_of_ne hqp] at hq
      exact hold q hq
  · by_cases hqp : q = p
    · subst hqp
      rw [hclient, Function.update_self]
      exact hborn
    · rw [hclient, Function.update_of_ne hqp]
      exact h.born q
  · rw [hserver]
    exact h.named
  · rw [State.events, hlog]
    exact h.left

lemma Begun.parent (h : Begun s) {ok : Bool} (hm : ParentMove s p ok t) : Begun t := by
  have hsame : ∀ c : Client, (s.setClient p c).flight = s.flight ++ [] := fun _ => (List.append_nil _).symm
  have hmore : ∀ (c : Client) (e : Entry), ((s.setClient p c).enqueue e).flight = s.flight ++ [e] :=
    fun _ _ => (List.append_assoc _ _ _).symm
  -- a parent at work behind the fork has a child
  have hborn : ∀ pc, (s.client p).parent = pc → pc.AtWork → pc ≠ .fork → (s.client p).child ≠ .unborn := by
    rintro pc rfl hwork hne hchild
    exact hne (h.born p hchild hwork)
  cases hm with
  | creates hpc =>
    refine h.client rfl rfl rfl (hsame _) ?_ fun _ hwork => hwork.elim
    rintro (hpc' | hpc') <;> cases hpc'
  | quits hpc =>
    refine h.client rfl rfl rfl (hsame _) ?_ fun _ hwork => ?_
    · rcases hpc with rfl | rfl | rfl <;> rintro (hpc' | hpc') <;> cases hpc'
    · rcases hpc with rfl | rfl | rfl <;> exact hwork.elim
  | joins hpc =>
    exact h.client rfl rfl rfl (hmore _ _) (fun _ => .inr (List.mem_singleton.mpr rfl)) fun _ _ => rfl
  | forks hpc =>
    refine h.client rfl rfl rfl (hsame _) (fun _ => .inl (.inl hpc)) fun hchild => ?_
    cases hchild
  | reads hpc | readsNothing hpc | scans hpc | stops hpc | types hpc =>
    refine h.client rfl rfl rfl (hsame _) ?_ fun hchild => ?_
    · rintro (hpc' | hpc') <;> cases hpc'
    · exact absurd hchild (hborn _ hpc trivial (by simp))
  | posts hpc | leaves hpc =>
    refine h.client rfl rfl rfl (hmore _ _) ?_ fun hchild => ?_
    · rintro (hpc' | hpc') <;> cases hpc'
    · exact absurd hchild (hborn _ hpc trivial (by simp))

lemma Begun.child (h : Begun s) (hm : ChildMove s p t) : Begun t := by
  cases hm with
  | goesOn | leaves | takes | fails | forwards | shows =>
    refine h.client rfl rfl rfl (List.append_nil _).symm .inl fun hchild => ?_
    cases hchild

theorem begun_of_reachable (h : machine.ReachableBy Orderly s) : Begun s := by
  induction h with
  | start hs => exact Started.begun hs
  | @step s t a hreach horderly hn ih =>
    have hok : Ok s := ok_of_reachable (hreach.mono fun _ _ ho => ho.reliable)
    have hforwarded := forwarded_of_reachable (hreach.mono fun _ _ ho => ho.findsId)
    obtain ⟨ok, rfl, hm⟩ | ⟨p, ok, typed, rfl, hm⟩ |
        ⟨p, ok, rfl, hm⟩ | ⟨rfl, rfl⟩ | ⟨p, flag, childFlag, -, rfl⟩ :=
      step_cases hn
    · obtain rfl := horderly.reliable.succeeds ok rfl
      exact ih.server hok hforwarded.idle hm
    · exact ih.parent hm
    · exact ih.child hm
    · exact ⟨ih.sent, ih.born, ih.named, ih.left⟩
    · exact ih.client rfl rfl rfl (List.append_nil _).symm .inl (ih.born p)

/-! ### On the way to the end -/

/-- What a parent has done at its place since SIGINT came. -/
def Ending (sent : List Entry) (p : Pid) (child : ChildPc) : ParentPc → Prop
  | .fork | .readId | .loop | .scan | .sendMessage _ | .sendStop | .crashed => True
  | .waitChild => ∃ e ∈ sent, e.sender = p ∧ e.msg.type = .STOP
  | .ended => child = .ended ∧ ∃ e ∈ sent, e.sender = p ∧ e.msg.type = .STOP
  | .create | .sendInit | .exited => False

/-- An interrupted client. A child that still waits has not taken its goodbye. -/
structure Interrupts (s : State) (p : Pid) : Prop where
  flag : (s.client p).flag = false
  childFlag : (s.client p).child ≠ .unborn → (s.client p).childFlag = false
  born : (s.client p).child = .unborn → (s.client p).parent = .fork
  parent : Ending (s.log ++ s.flight) p (s.client p).child (s.client p).parent
  goodbye : (s.client p).child = .receive → (∃ x ∈ s.put (client_queue_name p), x.2.type = .STOP) →
    ∃ m ∈ s.queues (client_queue_name p), m.type = .STOP

structure WindingDown (S : Finset Pid) (s : State) : Prop where
  server : s.server.flag = true ∧ s.server.pc ≠ .done
  client : ∀ p ∈ S, Interrupts s p
  other : ∀ p ∉ S, (s.client p).parent = .create ∨ (s.client p).child = .ended

lemma Ending.mono {sent sent' : List Entry} {child : ChildPc} {pc : ParentPc} (h : Ending sent p child pc)
    (hsub : sent ⊆ sent') : Ending sent' p child pc := by
  cases pc with
  | waitChild =>
    obtain ⟨e, he, hrest⟩ := h
    exact ⟨e, hsub he, hrest⟩
  | ended =>
    obtain ⟨hchild, e, he, hrest⟩ := h
    exact ⟨hchild, e, hsub he, hrest⟩
  | create | sendInit | exited => exact h.elim
  | fork | readId | loop | scan | sendMessage | sendStop | crashed => trivial

section
variable {S : Finset Pid}

lemma goodbye_of_work (hok : Ok s) (hwork : (s.client p).parent.AtWork) {x : ℕ × message_msg}
    (hx : x ∈ s.put (client_queue_name p)) : x.2.type ≠ .STOP := by
  intro htype
  obtain ⟨k, hput, -⟩ := hok.put p
  have hbegins := put_prefix hput
  have hmem : x ∈ (transcript p (s.processed.map Entry.event)).map (render k) := hbegins.subset hx
  obtain ⟨⟨n, y⟩, hy, rfl⟩ := List.mem_map.mp hmem
  have hphase : ∀ e ∈ s.log ++ s.flight, e.sender = p → e.msg.type ≠ .STOP := by
    have hphase := hok.phase p
    cases hpc : (s.client p).parent with
    | fork | readId | loop | scan | sendMessage | sendStop =>
      rw [hpc] at hphase
      exact hphase
    | create | sendInit | waitChild | ended | exited | crashed =>
      rw [hpc] at hwork
      exact hwork.elim
  cases y with
  | welcome => cases htype
  | heard m =>
    obtain ⟨e, -, -, -, hm⟩ := mem_transcript_heard hy
    rw [render, hm] at htype
    cases htype
  | farewell =>
    refine not_left_of_no_stop (fun e he => hphase e ?_) (left_iff_farewell.mpr ⟨n, hy⟩)
    rw [State.flight, ← List.append_assoc]
    exact List.mem_append_left _ he

lemma Interrupted.windingDown (h : Interrupted S s) (hreach : machine.ReachableBy Orderly s) : WindingDown S s := by
  have hok : Ok s := ok_of_reachable (hreach.mono fun _ _ ho => ho.reliable)
  refine ⟨h.server, fun p hp => ?_, h.other⟩
  obtain ⟨hwork, hflag⟩ := h.parent p hp
  refine ⟨hflag, h.child p hp, fun hchild => (begun_of_reachable hreach).born p hchild hwork, ?_, ?_⟩
  · cases hpc : (s.client p).parent with
    | fork | readId | loop | scan | sendMessage | sendStop => trivial
    | create | sendInit | waitChild | ended | exited | crashed =>
      rw [hpc] at hwork
      exact hwork.elim
  · rintro - ⟨x, hx, htype⟩
    exact absurd htype (goodbye_of_work hok hwork hx)

lemma Interrupts.of_grows (h : Interrupts s p) (hclient : t.client p = s.client p) {rest : List (ℕ × message_msg)}
    (hput : t.put (client_queue_name p) = s.put (client_queue_name p) ++ rest)
    (hqueues : t.queues (client_queue_name p) = s.queues (client_queue_name p) ++ rest.map Prod.snd)
    (hsent : s.log ++ s.flight ⊆ t.log ++ t.flight) : Interrupts t p := by
  refine ⟨?_, ?_, ?_, ?_, ?_⟩
  · rw [hclient]
    exact h.flag
  · rw [hclient]
    exact h.childFlag
  · rw [hclient]
    exact h.born
  · rw [hclient]
    exact h.parent.mono hsent
  · rw [hclient, hput, hqueues]
    rintro hchild ⟨x, hx, htype⟩
    rcases List.mem_append.mp hx with hbefore | hnew
    · obtain ⟨m, hmem, hstop⟩ := h.goodbye hchild ⟨x, hbefore, htype⟩
      exact ⟨m, List.mem_append_left _ hmem, hstop⟩
    · exact ⟨x.2, List.mem_append_right _ (List.mem_map_of_mem hnew), htype⟩

lemma WindingDown.server_step (h : WindingDown S s) (hidle : s.server.pc.Idle → s.current = none)
    (hs : serverStep s true = some t) : WindingDown S t := by
  have hm := server_cases hs
  have hsent := (sent_server hidle hm).1
  have hclient := hm.client
  refine ⟨?_, fun p hp => ?_, ?_⟩
  · have hflag := h.server.1
    cases hm with
    | leaves hpc =>
      simp only [serverStep, hpc, hflag, if_true, Option.some.injEq] at hs
      have hpcs := congrArg (fun u => u.server.pc) hs
      cases hpcs
    | goesOn | receives | repeats | overruns | admits | cannotOpen | passesOn | dismisses | ignores | tells | tellsNothing
    | forwards | skips | ends | saysGoodbye | goodbyeFails | closes =>
      exact ⟨hflag, by simp [State.serverAt, State.finish, State.deliver]⟩
  · obtain ⟨rest, hput, hqueues⟩ := hm.queueMove.grows (client_queue_name p)
    refine (h.client p hp).of_grows (by rw [hclient]) hput hqueues ?_
    rw [hsent]
    exact List.Subset.refl _
  · rw [hclient]
    exact h.other

lemma WindingDown.client_step (h : WindingDown S s) (hp : p ∈ S) (hserver : t.server = s.server)
    (hclients : ∀ q, q ≠ p → t.client q = s.client q) (hput : t.put = s.put)
    (hqueues : ∀ q, q ≠ p → t.queues (client_queue_name q) = s.queues (client_queue_name q))
    (hsent : s.log ++ s.flight ⊆ t.log ++ t.flight) (hself : Interrupts t p) : WindingDown S t := by
  refine ⟨?_, fun q hq => ?_, fun q hq => ?_⟩
  · rw [hserver]
    exact h.server
  · by_cases hqp : q = p
    · rw [hqp]
      exact hself
    · have hnothing : t.put (client_queue_name q) = s.put (client_queue_name q) ++ [] := by rw [hput, List.append_nil]
      refine (h.client q hq).of_grows (hclients q hqp) hnothing ?_ hsent
      rw [hqueues q hqp, List.map_nil, List.append_nil]
  · have hqp : q ≠ p := fun he => hq (he ▸ hp)
    rw [hclients q hqp]
    exact h.other q hq

lemma WindingDown.goesOn (h : WindingDown S s) (hp : p ∈ S) {c : Client} {entries : List Entry}
    (hclient : t.client = Function.update s.client p c) (hserver : t.server = s.server) (hput : t.put = s.put)
    (hqueues : t.queues = s.queues) (hsent : t.log ++ t.flight = s.log ++ s.flight ++ entries)
    (hne : (s.client p).parent ≠ .fork) (hending : Ending (s.log ++ s.flight ++ entries) p c.child c.parent)
    (hchild : c.child = (s.client p).child) (hflag : c.flag = (s.client p).flag)
    (hchildFlag : c.childFlag = (s.client p).childFlag) : WindingDown S t := by
  have hold := h.client p hp
  have hself : t.client p = c := by rw [hclient, Function.update_self]
  refine h.client_step hp hserver (fun q hq => ?_) hput (fun q _ => by rw [hqueues]) ?_ ⟨?_, ?_, ?_, ?_, ?_⟩
  · rw [hclient, Function.update_of_ne hq]
  · rw [hsent]
    exact List.subset_append_left _ _
  · rw [hself, hflag]
    exact hold.flag
  · rw [hself, hchild, hchildFlag]
    exact hold.childFlag
  · rw [hself, hchild]
    exact fun hunborn => absurd (hold.born hunborn) hne
  · rw [hself, hsent]
    exact hending
  · rw [hself, hchild, hput, hqueues]
    exact hold.goodbye

lemma WindingDown.last (h : WindingDown S s) (hp : p ∈ S) (hm : LastMove s p t) : WindingDown S t := by
  have hold := h.client p hp
  have hsame : s.log ++ s.flight = s.log ++ s.flight ++ [] := (List.append_nil _).symm
  have hmore : ∀ e : Entry, s.log ++ (s.current.toList ++ (s.server_queue ++ [e])) = s.log ++ s.flight ++ [e] := by
    intro e
    simp [State.flight]
  cases hm with
  | forks hpc =>
    refine h.client_step hp rfl (fun q hq => Function.update_of_ne hq _ _) rfl (fun _ _ => rfl) (List.Subset.refl _) ?_
    refine ⟨?_, ?_, ?_, ?_, ?_⟩
    · simpa [State.setClient] using hold.flag
    · simpa [State.setClient] using hold.flag
    · simp [State.setClient]
    · simp [State.setClient, Ending]
    · simp [State.setClient]
  | reads hpc | readsNothing hpc | stops hpc | types hpc | crashes hpc =>
    exact h.goesOn hp rfl rfl rfl rfl hsame (by simp [hpc]) trivial rfl rfl rfl
  | posts hpc => exact h.goesOn hp rfl rfl rfl rfl (hmore _) (by simp [hpc]) trivial rfl rfl rfl
  | leaves hpc =>
    refine h.goesOn hp rfl rfl rfl rfl (hmore _) (by simp [hpc]) ?_ rfl rfl rfl
    exact ⟨_, List.mem_append_right _ (List.mem_singleton.mpr rfl), rfl, rfl⟩
  | ends hpc hchild =>
    refine h.goesOn hp rfl rfl rfl rfl hsame (by simp [hpc]) ?_ rfl rfl rfl
    have hparent := hold.parent
    rw [hpc] at hparent
    rw [List.append_nil]
    exact ⟨hchild, hparent⟩

lemma WindingDown.child (h : WindingDown S s) (hp : p ∈ S) (hm : ChildMove s p t) : WindingDown S t := by
  have hold := h.client p hp
  have hending : (s.client p).child ≠ .ended → ∀ child,
      Ending (s.log ++ s.flight) p child (s.client p).parent := by
    intro hne child
    have hparent := hold.parent
    cases hpc : (s.client p).parent with
    | fork | readId | loop | scan | sendMessage | sendStop | crashed => trivial
    | waitChild =>
      rw [hpc] at hparent
      exact hparent
    | ended =>
      rw [hpc] at hparent
      exact absurd hparent.1 hne
    | create | sendInit | exited =>
      rw [hpc] at hparent
      exact hparent.elim
  -- a child that does not wait
  have hleft : ∀ c : Client, t.client = Function.update s.client p c → t.server = s.server → t.put = s.put →
      (∀ q, q ≠ p → t.queues (client_queue_name q) = s.queues (client_queue_name q)) →
      t.log ++ t.flight = s.log ++ s.flight → (s.client p).child ≠ .ended → (s.client p).child ≠ .unborn →
      c.child ≠ .unborn → c.child ≠ .receive → c.flag = (s.client p).flag → c.childFlag = (s.client p).childFlag →
      c.parent = (s.client p).parent → WindingDown S t := by
    intro c hclient hserver hput hqueues hsent hended hunborn hborn hreceive hflag hchildFlag hparent
    have hself : t.client p = c := by rw [hclient, Function.update_self]
    refine h.client_step hp hserver (fun q hq => ?_) hput hqueues ?_ ⟨?_, ?_, ?_, ?_, ?_⟩
    · rw [hclient, Function.update_of_ne hq]
    · rw [hsent]
      exact List.Subset.refl _
    · rw [hself, hflag]
      exact hold.flag
    · rw [hself, hchildFlag]
      exact fun _ => hold.childFlag hunborn
    · rw [hself]
      exact fun hc => absurd hc hborn
    · rw [hself, hparent, hsent]
      exact hending hended _
    · rw [hself]
      exact fun hc => absurd hc hreceive
  cases hm with
  | goesOn hpc hset =>
    rw [hold.childFlag (by simp [hpc])] at hset
    cases hset
  | leaves hpc | fails hpc | forwards hpc | shows hpc =>
    refine hleft _ rfl rfl rfl (fun _ _ => rfl) rfl (by simp [hpc]) (by simp [hpc]) ?_ ?_ rfl rfl rfl
    · simp
    · simp
  | takes hpc hq =>
    refine hleft _ rfl rfl rfl (fun q hqp => ?_) rfl (by simp [hpc]) (by simp [hpc]) ?_ ?_ rfl rfl rfl
    · exact Function.update_of_ne (fun he => hqp (client_queue_name_injective he)) _ _
    · simp
    · simp

/-- One step of the end: it keeps what has been said, and brings the end closer. -/
theorem windingDown_step {a : Action} (h : WindingDown S s) (hidle : s.server.pc.Idle → s.current = none)
    (ha : Winding S a) (hs : step s a = some t) : WindingDown S t ∧ t.work S < s.work S := by
  cases a with
  | server ok =>
    obtain rfl : ok = true := ha
    exact ⟨h.server_step hidle hs, server_work (server_cases hs)⟩
  | parent p ok typed =>
    obtain ⟨hp, rfl⟩ := ha
    have hold := h.client p hp
    have hinstalled : (s.client p).parent.HandlesInterrupt := by
      have hparent := hold.parent
      cases hpc : (s.client p).parent with
      | create | sendInit =>
        rw [hpc] at hparent
        exact hparent.elim
      | fork | readId | loop | scan | sendMessage | sendStop | waitChild | ended | exited | crashed => trivial
    have hm := last_cases hold.flag hinstalled hs
    exact ⟨h.last hp hm, last_work hp hm⟩
  | child p ok =>
    have hm := child_cases hs
    exact ⟨h.child ha hm, child_work ha (h.client p ha).childFlag hm⟩
  | interruptServer | interruptParent | interruptChild => exact ha.elim

/-! ### Where it ends -/

lemma slot_of_sendsTo {v : Server} {n : QueueName} (h : v.SendsTo n) : ∃ k, v.clients k = some n := by
  unfold Server.SendsTo at h
  split at h
  · exact ⟨_, h⟩
  · exact ⟨_, h⟩
  · obtain ⟨j, -, hslot, -⟩ := h
    exact ⟨j, hslot⟩
  · exact h.elim

section
variable (hstill : Still S s) (hdown : WindingDown S s) (hok : Ok s) (hbegun : Begun s)
include hstill hdown

lemma child_still (hp : p ∈ S) : (s.client p).child = .ended ∨
    (s.client p).child = .receive ∧ s.queues (client_queue_name p) = [] := by
  have hnone : childStep s p true = none := hstill (.child p true) hp fun _ => by simp
  cases hpc : (s.client p).child with
  | unborn =>
    have hfork := (hdown.client p hp).born hpc
    have hparent : parentStep s p true none = none := hstill (.parent p true none) ⟨hp, rfl⟩ fun _ => by simp
    simp [parentStep, hfork] at hparent
  | loop => simp [childStep, hpc] at hnone
  | receive =>
    cases hq : s.queues (client_queue_name p) with
    | nil => exact .inr ⟨rfl, rfl⟩
    | cons m rest => simp [childStep, hpc, hq] at hnone
  | dispatch =>
    simp only [childStep, hpc] at hnone
    split at hnone <;> cases hnone
  | ended => exact .inl rfl

include hok hbegun

lemma blocked_still {n : QueueName} (hblocked : s.BlockedOn n) :
    ∃ p, s.BlockedOn (client_queue_name p) ∧ (s.client p).child = .ended := by
  obtain ⟨k, hslot⟩ := slot_of_sendsTo hblocked.1
  obtain ⟨p, rfl⟩ := hbegun.named k n hslot
  refine ⟨p, hblocked, ?_⟩
  by_cases hp : p ∈ S
  · obtain hended | ⟨-, hempty⟩ := child_still hstill hdown hp
    · exact hended
    · have hfull := hblocked.2
      rw [hempty] at hfull
      exact absurd (by decide) hfull
  · obtain hcreate | hended := hdown.other p hp
    · have hphase := hok.phase p
      rw [hcreate] at hphase
      have hunsent : ∀ e ∈ s.log, e.sender ≠ p := fun e he => hphase e (List.mem_append_left _ he)
      exact absurd ((hok.table p).mp ⟨k, hslot⟩).1 (not_joined_of_unsent hunsent)
    · exact hended

lemma server_still : s.server.pc = .receive ∧ s.server_queue = [] ∨
    ∃ p, s.BlockedOn (client_queue_name p) ∧ (s.client p).child = .ended := by
  have hnone : serverStep s true = none := hstill (.server true) rfl fun _ => by simp
  have hblocked : ∀ n, s.server.SendsTo n → ¬(s.queues n).length < mq_maxmsg →
      ∃ p, s.BlockedOn (client_queue_name p) ∧ (s.client p).child = .ended :=
    fun n hsends hfull => blocked_still hstill hdown hok hbegun ⟨hsends, hfull⟩
  cases hpc : s.server.pc with
  | loop =>
    simp only [serverStep, hpc] at hnone
    split at hnone <;> cases hnone
  | receive =>
    cases hq : s.server_queue with
    | nil => exact .inl ⟨rfl, rfl⟩
    | cons e rest => simp [serverStep, hpc, hq] at hnone
  | dispatch | close => simp [serverStep, hpc] at hnone
  | sendIdentifier id | sendGoodbye id =>
    cases hslot : s.server.clients id with
    | none => simp [serverStep, hpc, hslot] at hnone
    | some n =>
      right
      apply hblocked n
      · simp [Server.SendsTo, hpc, hslot]
      · intro hroom
        simp [serverStep, hpc, hslot, State.mq_send, State.serverAt, hroom] at hnone
  | broadcast i =>
    simp only [serverStep, hpc, broadcastStep] at hnone
    split at hnone
    · next hi =>
      split at hnone
      · next n hslot =>
        split at hnone
        · next hother =>
          right
          apply hblocked n
          · simp only [Server.SendsTo, hpc]
            exact ⟨⟨i, hi⟩, rfl, hslot, hother.1⟩
          · intro hroom
            simp [State.mq_send, State.serverAt, hroom] at hnone
        · cases hnone
      · cases hnone
    · cases hnone
  | done => exact absurd hpc hdown.server.2
  | exited | fault => exact (hok.at_pc hpc).elim

end

/-! A client at the end, when the server waits for messages. -/

section
variable (hok : Ok s) (hpc : s.server.pc = .receive) (hqueue : s.server_queue = [])
include hok hpc

lemma put_receive (p : Pid) : ∃ k, s.put (client_queue_name p) = (transcript p s.events).map (render k) := by
  obtain ⟨k, hput, -⟩ := hok.put p
  have hcurrent : s.current = none := hok.at_pc hpc
  have howed : s.owed (client_queue_name p) = [] := by simp only [State.owed, hpc]
  have hseen : s.seen = s.events := by
    simp only [State.seen, hpc, State.processed, hcurrent, Option.toList_none, List.append_nil]
    rfl
  rw [howed, hseen, List.append_nil] at hput
  exact ⟨k, hput⟩

include hqueue

lemma sent_receive : s.log ++ s.flight = s.log := by
  have hcurrent : s.current = none := hok.at_pc hpc
  simp [State.flight, hcurrent, hqueue]

/-- The id of a client that has asked for it has been taken out of its queue, or is still there. -/
lemma id_comes (hbegun : Begun s) (hforwarded : Forwarded s) (hread : (s.client p).parent = .readId)
    (hchild : (s.client p).child = .receive) (hempty : s.queues (client_queue_name p) = []) :
    (s.client p).pipe ≠ [] := by
  intro hpipe
  obtain ⟨e, he, rfl, htype⟩ := hbegun.sent p (.inr hread)
  rw [sent_receive hok hpc hqueue] at he
  have hjoined : HasJoined e.sender s.events :=
    ⟨e.event, List.mem_map_of_mem he, by simp [Entry.event, htype, GroupEvent.isJoin]⟩
  obtain ⟨n, hn⟩ := hjoined.welcome
  obtain ⟨k, hput⟩ := put_receive hok hpc e.sender
  obtain ⟨taken, htaken, hid⟩ := hforwarded.taken e.sender
  have hmem : identifierMessage k ∈ taken := by
    rw [hempty, List.append_nil, hput] at htaken
    rw [← htaken, List.map_map]
    exact List.mem_map.mpr ⟨_, hn, rfl⟩
  have hids : identifiers taken = [] := by
    simpa only [IdOk, hread, Client.underway, hpipe, hchild, List.nil_append, reduceCtorEq, if_false] using hid
  have hfound : (k : ℤ) ∈ identifiers taken :=
    List.mem_map.mpr ⟨_, List.mem_filter.mpr ⟨hmem, by simp [identifierMessage]⟩, rfl⟩
  rw [hids] at hfound
  cases hfound

/-- A client that has sent STOP is forgotten, and has got its goodbye. -/
lemma left_comes (hbegun : Begun s) (hstop : ∃ e ∈ s.log ++ s.flight, e.sender = p ∧ e.msg.type = .STOP) :
    (∀ k, s.server.clients k ≠ some (client_queue_name p)) ∧
      ∃ x ∈ s.put (client_queue_name p), x.2.type = .STOP := by
  obtain ⟨e, he, rfl, htype⟩ := hstop
  rw [sent_receive hok hpc hqueue] at he
  have hleft := hbegun.left e he htype
  refine ⟨fun k hk => ((hok.table e.sender).mp ⟨k, hk⟩).2 hleft, ?_⟩
  obtain ⟨n, hn⟩ := left_iff_farewell.mp hleft
  obtain ⟨k, hput⟩ := put_receive hok hpc e.sender
  refine ⟨(n, endMessage k), ?_, rfl⟩
  rw [hput]
  exact List.mem_map.mpr ⟨_, hn, rfl⟩

lemma client_still (hstill : Still S s) (hdown : WindingDown S s) (hbegun : Begun s) (hforwarded : Forwarded s)
    (hp : p ∈ S) : (s.client p).parent = .crashed ∨ (s.client p).parent = .ended ∧ (s.client p).child = .ended ∧
      ∀ k, s.server.clients k ≠ some (client_queue_name p) := by
  have hnone : parentStep s p true none = none := hstill (.parent p true none) ⟨hp, rfl⟩ fun _ => by simp
  have hclient := hdown.client p hp
  have hending := hclient.parent
  have hchild := child_still hstill hdown hp
  have hroom : s.server_queue.length < mq_maxmsg := by
    rw [hqueue]
    decide
  cases hparent : (s.client p).parent with
  | create | sendInit | exited =>
    rw [hparent] at hending
    exact hending.elim
  | crashed => exact .inl rfl
  | fork => simp [parentStep, hparent] at hnone
  | loop =>
    simp only [parentStep, hparent] at hnone
    split at hnone <;> cases hnone
  | scan => simp [parentStep, hparent] at hnone
  | sendMessage text | sendStop => simp [parentStep, hparent, State.sendToServer, State.setClient, hroom] at hnone
  | readId =>
    obtain hended | ⟨hreceive, hempty⟩ := hchild
    · cases hpipe : (s.client p).pipe <;> simp [parentStep, hparent, hpipe, hended] at hnone
    · have hpipe := id_comes hok hpc hqueue hbegun hforwarded hparent hreceive hempty
      obtain ⟨id, rest, hcons⟩ := List.exists_cons_of_ne_nil hpipe
      simp [parentStep, hparent, hcons] at hnone
  | waitChild =>
    rw [hparent] at hending
    obtain hended | ⟨hreceive, hempty⟩ := hchild
    · simp [parentStep, hparent, hended] at hnone
    · obtain ⟨m, hm, -⟩ := hclient.goodbye hreceive (left_comes hok hpc hqueue hbegun hending).2
      rw [hempty] at hm
      cases hm
  | ended =>
    rw [hparent] at hending
    exact .inr ⟨rfl, hending.1, (left_comes hok hpc hqueue hbegun hending.2).1⟩

end

/-- When SIGINT has come to all clients before they send STOP and not to the server, and no call fails any more but
the `mq_receive` of a child, every schedule stops. Where nothing can go on, all clients have ended and are
forgotten, but those that crash at the end of their input or at a word too long for a message; or the server waits
for room in the queue of a child that has left. -/
theorem chat_ends {as : List Action} (h : machine.ReachableBy Orderly s) (hinterrupted : Interrupted S s)
    (hrun : machine.exec s as = some t) (halong : machine.Along (fun u a => Orderly u a ∧ Winding S a) s as) :
    as.length ≤ 13 + 14 * s.server_queue.length + 36 * S.card ∧
      (Still S t →
        (t.server.pc = .receive ∧ t.server_queue = [] ∧ ∀ p ∈ S, (t.client p).parent = .crashed ∨
          (t.client p).parent = .ended ∧ (t.client p).child = .ended ∧
            ∀ k, t.server.clients k ≠ some (client_queue_name p)) ∨
        ∃ p, t.BlockedOn (client_queue_name p) ∧ (t.client p).child = .ended) := by
  have hall : (machine.ReachableBy Orderly t ∧ WindingDown S t) ∧ as.length + t.work S ≤ s.work S := by
    refine halong.length_le_of_rank (I := fun u => machine.ReachableBy Orderly u ∧ WindingDown S u) (State.work S) ?_ hrun
      ⟨h, hinterrupted.windingDown h⟩
    rintro u a v ⟨hreach, hdown⟩ ⟨horderly, hwinding⟩ hn
    have hforwarded := forwarded_of_reachable (hreach.mono fun _ _ ho => ho.findsId)
    obtain ⟨hkeeps, hlt⟩ := windingDown_step hdown hforwarded.idle hwinding hn
    exact ⟨⟨.step hreach horderly hn, hkeeps⟩, hlt⟩
  obtain ⟨⟨hreach, hdown⟩, hlength⟩ := hall
  refine ⟨?_, fun hstill => ?_⟩
  · have hwork := work_interrupted hinterrupted
    omega
  · have hok : Ok t := ok_of_reachable (hreach.mono fun _ _ ho => ho.reliable)
    have hforwarded := forwarded_of_reachable (hreach.mono fun _ _ ho => ho.findsId)
    have hbegun := begun_of_reachable hreach
    refine (server_still hstill hdown hok hbegun).imp_left ?_
    rintro ⟨hpc, hqueue⟩
    exact ⟨hpc, hqueue, fun p hp => client_still hok hpc hqueue hstill hdown hbegun hforwarded hp⟩

end

/-! ### A client that SIGINT reaches on the way to `mq_receive` -/

instance : DecidablePred ParentPc.AtWork
  | .fork | .readId | .loop | .scan | .sendMessage _ | .sendStop => isTrue trivial
  | .create | .sendInit | .waitChild | .ended | .exited | .crashed => isFalse id

/-- A check of the conditions of a step that is none of another client than `p`. -/
def aloneChecked (p : Pid) (s : State) (a : Action) : Bool :=
  reliable s a && findsId s a &&
    match a with
    | .server _ | .interruptServer => true
    | .parent q _ _ | .child q _ | .interruptParent q | .interruptChild q => q = p

lemma orderly_of_check {a : Action} (h : aloneChecked p s a = true) : Orderly s a := by
  simp only [aloneChecked, Bool.and_eq_true] at h
  exact ⟨reliable_of_check h.1.1, findsId_of_check h.1.2⟩

lemma alone_keeps {a : Action} (h : ∀ q, q ≠ p → (s.client q).parent = .create) (ha : aloneChecked p s a = true)
    (hs : step s a = some t) : ∀ q, q ≠ p → (t.client q).parent = .create := by
  intro q hq
  simp only [aloneChecked, Bool.and_eq_true] at ha
  obtain ⟨ok, rfl, hm⟩ | ⟨r, ok, typed, rfl, hm⟩ | ⟨r, ok, rfl, hm⟩ | ⟨rfl, rfl⟩ | ⟨r, flag, childFlag, hr, rfl⟩ :=
    step_cases hs
  · rw [hm.client]
    exact h q hq
  · obtain rfl : r = p := of_decide_eq_true ha.2
    cases hm <;> simpa only [State.parentAt, State.setClient, State.enqueue, Function.update_of_ne hq] using h q hq
  · obtain rfl : r = p := of_decide_eq_true ha.2
    cases hm <;> simpa only [State.childAt, State.setClient, Function.update_of_ne hq] using h q hq
  · exact h q hq
  · obtain rfl : r = p := by
      rcases hr with rfl | rfl
      · exact of_decide_eq_true ha.2
      · exact of_decide_eq_true ha.2
    simpa only [State.setClient, Function.update_of_ne hq] using h q hq

/-- A check of a step after SIGINT. -/
def windingChecked (p : Pid) : Action → Bool
  | .server ok => ok
  | .parent q ok _ => q = p && ok
  | .child q _ => q = p
  | .interruptServer | .interruptParent _ | .interruptChild _ => false

lemma winding_of_check {a : Action} (h : windingChecked p a = true) : Winding {p} a := by
  cases a with
  | server ok => exact h
  | parent q ok typed =>
    simp only [windingChecked, Bool.and_eq_true, decide_eq_true_eq] at h
    exact ⟨Finset.mem_singleton.mpr h.1, h.2⟩
  | child q ok =>
    simp only [windingChecked, decide_eq_true_eq] at h
    exact Finset.mem_singleton.mpr h
  | interruptServer | interruptParent | interruptChild => cases h

lemma still_of_ended {S : Finset Pid} (hpc : s.server.pc = .receive) (hqueue : s.server_queue = [])
    (hparent : ∀ p ∈ S, (s.client p).parent.work = 0) (hchild : ∀ p ∈ S, (s.client p).child = .ended) : Still S s := by
  intro a ha _
  cases a with
  | server ok =>
    obtain rfl : ok = true := ha
    simp [step, serverStep, hpc, hqueue]
  | parent p ok typed =>
    have hwork := hparent p ha.1
    cases hat : (s.client p).parent with
    | ended | exited | crashed => simp [step, parentStep, hat]
    | create | sendInit | fork | readId | loop | scan | sendMessage | sendStop | waitChild =>
      rw [hat] at hwork
      cases hwork
  | child p ok => simp [step, childStep, hchild p ha]
  | interruptServer | interruptParent | interruptChild => exact ha.elim

/-- The client joins, and its child has just looked at its flag when SIGINT comes to both processes. -/
def lateInterrupt (p : Pid) : List Action :=
  [.parent p true none, .parent p true none] ++ List.replicate 4 (.server true) ++ [.parent p true none] ++
    List.replicate 3 (.child p true) ++ [.parent p true none, .child p true, .interruptParent p, .interruptChild p]

def lastSteps (p : Pid) : List Action :=
  [.parent p true none, .parent p true none] ++ List.replicate 6 (.server true) ++ List.replicate 3 (.child p true) ++
    [.parent p true none]

/-- The goodbye wakes the child, and both processes end. -/
theorem chat_ends_late : ∃ s t : State, (s.client ⟨1, by decide, by decide⟩).child = .receive ∧
    machine.exec s (lastSteps ⟨1, by decide, by decide⟩) = some t ∧ Still {⟨1, by decide, by decide⟩} t ∧
    (t.client ⟨1, by decide, by decide⟩).child = .ended ∧
    ∀ k, t.server.clients k ≠ some (client_queue_name ⟨1, by decide, by decide⟩) := by
  let p : Pid := ⟨1, by decide, by decide⟩
  have hrun : ((machine.guard fun s a => aloneChecked p s a = true).exec quiet (lateInterrupt p)).bind (fun s =>
      ((machine.guard fun u a => (aloneChecked p u a && windingChecked p a) = true).exec s (lastSteps p)).map fun t =>
        s.server.flag && s.server.pc = .loop && decide (s.client p).parent.AtWork && !(s.client p).flag &&
          !(s.client p).childFlag && (s.client p).child = .receive && t.server.pc = .receive &&
          t.server_queue.isEmpty && (t.client p).parent.work = 0 && (t.client p).child = .ended &&
          match (t.client p).parent with
          | .crashed => false
          | _ => true) = some true := by
    decide +kernel
  obtain ⟨s, hs, ht⟩ := Option.bind_eq_some_iff.mp hrun
  obtain ⟨t, ht, hfacts⟩ := Option.map_eq_some_iff.mp ht
  simp only [Bool.and_eq_true, decide_eq_true_eq, Bool.not_eq_true', List.isEmpty_iff, and_assoc] at hfacts
  obtain ⟨hflag, hpc, hwork, hparentFlag, hchildFlag, hreceive, hpc', hqueue, hparent, hchild, hcrashed⟩ := hfacts
  have hstart : (machine.guard fun s a => aloneChecked p s a = true).Reachable quiet := .start quiet_started
  have hreach := (Machine.reachableBy_of_guard (hstart.exec hs)).mono fun u a hu => orderly_of_check hu
  have hother : ∀ q, q ≠ p → (s.client q).parent = .create := by
    refine Machine.exec_keeps (I := fun u : State => ∀ q, q ≠ p → (u.client q).parent = .create) ?_ hs fun q _ => rfl
    intro u a v hn hu
    obtain ⟨hcheck, hn⟩ := Machine.guard_next_eq_some.mp hn
    exact alone_keeps hu hcheck hn
  have hinterrupted : Interrupted {p} s := by
    refine ⟨⟨hflag, by simp [hpc]⟩, fun q hq => ?_, fun q hq => ?_, fun q hq => ?_⟩
    · obtain rfl := Finset.mem_singleton.mp hq
      exact ⟨hwork, hparentFlag⟩
    · obtain rfl := Finset.mem_singleton.mp hq
      exact fun _ => hchildFlag
    · exact .inl (hother q fun he => hq (Finset.mem_singleton.mpr he))
  have hchecked : ∀ u a, (aloneChecked p u a && windingChecked p a) = true → Orderly u a ∧ Winding {p} a := by
    intro u a hcheck
    rw [Bool.and_eq_true] at hcheck
    exact ⟨orderly_of_check hcheck.1, winding_of_check hcheck.2⟩
  obtain ⟨hexec, halong⟩ := Machine.along_of_guard hchecked ht
  have hstill : Still {p} t := by
    apply still_of_ended hpc' hqueue
    · exact fun q hq => Finset.mem_singleton.mp hq ▸ hparent
    · exact fun q hq => Finset.mem_singleton.mp hq ▸ hchild
  refine ⟨s, t, hreceive, hexec, hstill, hchild, ?_⟩
  obtain ⟨-, -, hall⟩ | ⟨q, ⟨hsends, -⟩, -⟩ := (chat_ends hreach hinterrupted hexec halong).2 hstill
  · obtain hat | ⟨-, -, hforgotten⟩ := hall p (Finset.mem_singleton_self p)
    · rw [hat] at hcrashed
      cases hcrashed
    · exact hforgotten
  · simp [Server.SendsTo, hpc'] at hsends

end SystemyOperacyjne.QueueChat
