import SystemyOperacyjne.QueueChatForward
import Mathlib.Data.Finset.Card

/-!
# A server that waits for nobody

While the server sends to a full queue, nothing else moves. Where the child has left its loop, or the
client has ended before it had a child, nobody takes a message again, so the server is stuck unless the
queue has room for all that is still to come.
-/

namespace SystemyOperacyjne.QueueChat
open Concurrency CString

variable {s t : State} {p : Pid}

/-- The next step of the server is to put a message in the queue. -/
def Server.SendsTo (v : Server) (n : QueueName) : Prop :=
  match v.pc with
  | .sendIdentifier id | .sendGoodbye id => v.clients id = some n
  | .broadcast i => ∃ j : Fin 10, j.val = i ∧ v.clients j = some n ∧ (j : ℤ) ≠ v.recive_msg.client_id
  | _ => False

/-- The server waits for room in the queue. -/
def State.BlockedOn (s : State) (n : QueueName) : Prop :=
  s.server.SendsTo n ∧ ¬(s.queues n).length < mq_maxmsg

/-- The slots from `i` on whose queue gets a MESSAGE. -/
def Server.audience (v : Server) (i : ℕ) (n : QueueName) : Finset (Fin 10) :=
  {j | i ≤ j.val ∧ v.clients j = some n ∧ (j : ℤ) ≠ v.recive_msg.client_id}

/-- How many messages the server will put in the queue for the message that it turns to. -/
def Server.answers (v : Server) (n : QueueName) : ℕ :=
  match v.recive_msg.type with
  | .INIT => if (freeSlot v.clients).isSome ∧ cString v.recive_msg.text = n then 1 else 0
  | .MESSAGE => (v.audience 0 n).card
  | .STOP => if (slot? v.recive_msg.client_id).bind v.clients = some n then 1 else 0
  | .IDENTIFIER => 0

/-- How many messages the server has still to put in the queue for the message it deals with. -/
def Server.due (v : Server) (n : QueueName) : ℕ :=
  match v.pc with
  | .dispatch => v.answers n
  | .sendIdentifier id | .sendGoodbye id => if v.clients id = some n then 1 else 0
  | .broadcast i => (v.audience i n).card
  | _ => 0

/-- The queue has room for what the server has still to put in it. -/
def State.HasRoom (s : State) (n : QueueName) : Prop :=
  (s.queues n).length + s.server.due n ≤ mq_maxmsg

/-- Nobody takes from the queue of the client any more: the child has left, or there has never been one and
the parent is past the place where it forks. -/
def Client.Gone (c : Client) : Prop :=
  c.child = .ended ∨ c.child = .unborn ∧ ¬c.parent.BeforeFork

/-- When the server turns to a message, the queues of the clients that are gone have room for all the
answers; and so does the queue of a child that leaves, and that of a client which ends before it forks. -/
def RoomForAnswers (s : State) : Action → Prop
  | .server _ => s.server.pc = .dispatch → ∀ p, (s.client p).Gone → s.HasRoom (client_queue_name p)
  | .child p _ => (s.client p).child = .loop → (s.client p).childFlag = false → s.HasRoom (client_queue_name p)
  | .parent p ok _ => (s.client p).parent.BeforeFork → ok = false → s.HasRoom (client_queue_name p)
  | _ => True

/-- Outside of `dispatch`, there is room in the queues of the clients that are gone. -/
def Roomy (s : State) : Prop :=
  s.server.pc ≠ .dispatch → ∀ p, (s.client p).Gone → s.HasRoom (client_queue_name p)

lemma serverStep_of_blocked {n : QueueName} (h : s.BlockedOn n) : serverStep s true = none := by
  obtain ⟨hsends, hfull⟩ := h
  unfold Server.SendsTo at hsends
  cases hpc : s.server.pc with
  | sendIdentifier id =>
    simp only [hpc] at hsends
    simp [serverStep, hpc, hsends, State.mq_send, State.serverAt, hfull]
  | sendGoodbye id =>
    simp only [hpc] at hsends
    simp [serverStep, hpc, hsends, State.mq_send, State.serverAt, hfull]
  | broadcast i =>
    simp only [hpc] at hsends
    obtain ⟨j, rfl, hslot, hother⟩ := hsends
    simp [serverStep, hpc, broadcastStep, hslot, hother, State.mq_send, State.serverAt, hfull]
  | loop | receive | dispatch | close | done | exited | fault => simp [hpc] at hsends

lemma due_pos {v : Server} {n : QueueName} (h : v.SendsTo n) : 0 < v.due n := by
  unfold Server.SendsTo at h
  cases hpc : v.pc with
  | sendIdentifier id | sendGoodbye id =>
    simp only [hpc] at h
    simp [Server.due, hpc, h]
  | broadcast i =>
    simp only [hpc] at h
    obtain ⟨j, rfl, hslot, hother⟩ := h
    simp only [Server.due, hpc]
    apply Finset.card_pos.mpr
    exact ⟨j, by simp [Server.audience, hslot, hother]⟩
  | loop | receive | dispatch | close | done | exited | fault => simp [hpc] at h

/-! ### The server -/

lemma audience_succ_subset (v : Server) (i : ℕ) (n : QueueName) : v.audience (i + 1) n ⊆ v.audience i n := by
  intro j hj
  simp only [Server.audience, Finset.mem_filter, Finset.mem_univ, true_and] at hj ⊢
  exact ⟨by omega, hj.2⟩

lemma audience_eq_empty {v : Server} {i : ℕ} (hi : 10 ≤ i) (n : QueueName) : v.audience i n = ∅ := by
  apply Finset.filter_eq_empty_iff.mpr
  intro j _ hj
  have hlt := j.isLt
  omega

lemma card_audience_succ {v : Server} {i : ℕ} {n : QueueName} (hi : i < 10) (hslot : v.clients ⟨i, hi⟩ = some n)
    (hother : (i : ℤ) ≠ v.recive_msg.client_id) : (v.audience (i + 1) n).card + 1 ≤ (v.audience i n).card := by
  apply Finset.card_lt_card
  refine ⟨audience_succ_subset v i n, fun hsub => ?_⟩
  have hmem : (⟨i, hi⟩ : Fin 10) ∈ v.audience i n := by simp [Server.audience, hslot, hother]
  have hlt := hsub hmem
  simp [Server.audience] at hlt

lemma hasRoom_deliver {v : Server} {n m : QueueName} {x : message_msg} (h : s.HasRoom n)
    (hle : v.due n ≤ s.server.due n) (hlt : n = m → v.due n + 1 ≤ s.server.due n) :
    State.HasRoom ({ s with server := v }.deliver m x) n := by
  unfold State.HasRoom at h ⊢
  by_cases hn : n = m
  · subst hn
    have hone := hlt rfl
    simp only [State.deliver, Function.update_self, List.length_append, List.length_singleton]
    omega
  · simp only [State.deliver, Function.update_of_ne hn]
    omega

lemma hasRoom_server {ok : Bool} {n : QueueName} (hm : ServerMove s ok t)
    (h : s.HasRoom n) (hpc' : t.server.pc ≠ .dispatch) : t.HasRoom n := by
  have hsame : t.queues = s.queues → t.server.due n ≤ s.server.due n → t.HasRoom n := by
    intro hq hdue
    unfold State.HasRoom at h ⊢
    rw [hq]
    omega
  have hzero : ∀ v : Server, v.pc = .loop ∨ v.pc = .receive ∨ v.pc = .done ∨ v.pc = .exited ∨ v.pc = .fault ∨
      (∃ id, v.pc = .close id) → v.due n ≤ s.server.due n := by
    rintro v (hv | hv | hv | hv | hv | ⟨id, hv⟩) <;> simp [Server.due, hv]
  cases hm with
  | goesOn hpc | leaves hpc | cannotOpen hpc | goodbyeFails hpc | overruns hpc | ignores hpc | tellsNothing hpc
  | ends hpc | closes hpc =>
    apply hsame rfl
    apply hzero
    simp [State.serverAt, State.finish]
  | receives hpc | repeats hpc => exact absurd rfl hpc'
  | admits hpc htype hid =>
    apply hsame rfl
    simp [Server.due, hpc, Server.answers, htype, hid]
  | passesOn hpc htype =>
    apply hsame rfl
    simp [Server.due, hpc, Server.answers, htype, State.serverAt, Server.audience]
  | dismisses hpc htype hid hslot =>
    apply hsame rfl
    simp only [Server.due, hpc, Server.answers, htype, State.serverAt, hid, Option.bind_some]
    exact le_rfl
  | tells hpc hslot | saysGoodbye hpc hslot =>
    apply hasRoom_deliver h
    · simp [Server.due]
    · rintro rfl
      simp [Server.due, hpc, hslot]
  | forwards hpc hi hslot hother =>
    apply hasRoom_deliver h
    · simp only [Server.due, hpc]
      exact Finset.card_le_card (audience_succ_subset _ _ _)
    · rintro rfl
      simp only [Server.due, hpc]
      exact card_audience_succ hi hslot hother
  | skips hpc hi =>
    apply hsame rfl
    simp only [Server.due, hpc, State.serverAt]
    exact Finset.card_le_card (audience_succ_subset _ _ _)

/-! ### Whole runs -/

lemma Roomy.of_client (h : Roomy s) (hserver : t.server = s.server)
    (hqueues : ∀ n, (t.queues n).length ≤ (s.queues n).length)
    (hgone : ∀ p, (t.client p).Gone → (s.client p).Gone ∨ s.HasRoom (client_queue_name p)) : Roomy t := by
  intro hpc p hp
  rw [hserver] at hpc
  have hroom : s.HasRoom (client_queue_name p) := by
    rcases hgone p hp with hp | hroom
    · exact h hpc p hp
    · exact hroom
  have hle := hqueues (client_queue_name p)
  unfold State.HasRoom at hroom ⊢
  rw [hserver]
  omega

lemma Roomy.setClient (h : Roomy s) {c : Client}
    (hgone : c.Gone → (s.client p).Gone ∨ s.HasRoom (client_queue_name p)) : Roomy (s.setClient p c) := by
  refine h.of_client (t := s.setClient p c) rfl (fun _ => le_rfl) ?_
  intro q hq
  by_cases hqp : q = p
  · subst hqp
    simp only [State.setClient, Function.update_self] at hq
    exact hgone hq
  · simp only [State.setClient, Function.update_of_ne hqp] at hq
    exact .inl hq

lemma Roomy.parent (h : Roomy s) {ok : Bool}
    (hroom : (s.client p).parent.BeforeFork → ok = false → s.HasRoom (client_queue_name p))
    (hm : ParentMove s p ok t) : Roomy t := by
  -- only the place of the parent changes: the client is gone as it was, or has failed before its fork
  have hgoto : ∀ pc client_id pipe, (¬pc.BeforeFork → (s.client p).parent.BeforeFork → ok = false) →
      Roomy (s.setClient p { s.client p with parent := pc, client_id := client_id, pipe := pipe }) := by
    intro pc client_id pipe hfails
    apply h.setClient
    rintro (hended | ⟨hunborn, hpast⟩)
    · exact .inl (.inl hended)
    · by_cases hbefore : (s.client p).parent.BeforeFork
      · exact .inr (hroom hbefore (hfails hpast hbefore))
      · exact .inl (.inr ⟨hunborn, hbefore⟩)
  have hnever : ∀ {pc : ParentPc}, (s.client p).parent = pc → ¬pc.BeforeFork →
      (s.client p).parent.BeforeFork → ok = false := by
    rintro pc rfl hpast hbefore
    exact absurd hbefore hpast
  cases hm with
  | creates | joins => exact hgoto _ _ _ fun hpast => absurd trivial hpast
  | forks =>
    apply h.setClient
    rintro (hended | ⟨hunborn, -⟩)
    · cases hended
    · cases hunborn
  | reads hpc | readsNothing hpc | scans hpc | stops hpc | types hpc | posts hpc | leaves hpc =>
    exact hgoto _ _ _ fun _ => hnever hpc id
  | quits hpc hfails => exact hgoto _ _ _ fun _ => hfails

lemma Roomy.child (h : Roomy s) (hroom : (s.client p).child = .loop → (s.client p).childFlag = false →
    s.HasRoom (client_queue_name p)) (hm : ChildMove s p t) : Roomy t := by
  have hstays : ∀ c : Client, c.child ≠ .ended → c.child ≠ .unborn → Roomy (s.setClient p c) := by
    intro c hended hunborn
    apply h.setClient
    rintro (hc | ⟨hc, -⟩)
    · exact absurd hc hended
    · exact absurd hc hunborn
  cases hm with
  | leaves hpc hflag =>
    apply h.setClient
    exact fun _ => .inr (hroom hpc hflag)
  | goesOn | fails | forwards | shows => exact hstays _ (by simp) (by simp)
  | takes hpc hq =>
    refine (hstays { s.client p with child := .dispatch, recive_msg := _ } (by simp) (by simp)).of_client rfl ?_
      fun _ => .inl
    intro n
    by_cases hn : n = client_queue_name p
    · subst hn
      simp [State.setClient, hq]
    · simp [State.setClient, Function.update_of_ne hn]

theorem roomy_of_reachable (h : machine.ReachableBy RoomForAnswers s) : Roomy s := by
  refine h.invariant (I := Roomy) (fun u hu hpc p hp => ?_) ?_
  · rcases hp with hended | ⟨-, hpast⟩
    · rw [Started.child hu] at hended
      cases hended
    · rw [Started.parent hu] at hpast
      exact absurd trivial hpast
  · intro u a v hu hroom hn
    obtain ⟨ok, rfl, hm⟩ | ⟨p, ok, typed, rfl, hm⟩ |
        ⟨p, ok, rfl, hm⟩ | ⟨rfl, rfl⟩ | ⟨p, flag, childFlag, -, rfl⟩ :=
      step_cases hn
    · intro hpc p hp
      rw [hm.client] at hp
      apply hasRoom_server hm _ hpc
      by_cases hd : u.server.pc = .dispatch
      · exact hroom hd p hp
      · exact hu hd p hp
    · exact hu.parent hroom hm
    · exact hu.child hroom hm
    · exact hu
    · apply hu.setClient
      exact fun hgone => .inl hgone

/-- In every run in which there is room for the answers to clients that are gone, the server never waits for
room in the queue of such a client. -/
theorem never_wedged (h : machine.ReachableBy RoomForAnswers s) (p : Pid)
    (hblocked : s.BlockedOn (client_queue_name p)) : ¬(s.client p).Gone := by
  intro hgone
  obtain ⟨hsends, hfull⟩ := hblocked
  have hdue := due_pos hsends
  have hpc : s.server.pc ≠ .dispatch := by
    intro hpc
    simp [Server.SendsTo, hpc] at hsends
  have hroom := roomy_of_reachable h hpc p hgone
  unfold State.HasRoom at hroom
  omega

/-! ### The condition is needed -/

lemma queues_le (h : machine.Reachable s) (n : QueueName) : (s.queues n).length ≤ mq_maxmsg := by
  refine h.invariant (I := fun u => ∀ n, (u.queues n).length ≤ mq_maxmsg) ?_ ?_ n
  · intro u hu n
    rw [Started.queues hu]
    exact Nat.zero_le _
  · intro u a v hu hn n
    have hdeliver : ∀ m x, (u.queues m).length < mq_maxmsg →
        (Function.update u.queues m (u.queues m ++ [x]) n).length ≤ mq_maxmsg := by
      intro m x hm
      by_cases hnm : n = m
      · subst hnm
        simpa using hm
      · simpa [Function.update_of_ne hnm] using hu n
    obtain ⟨ok, rfl, hm⟩ | ⟨p, ok, typed, rfl, hm⟩ |
        ⟨p, ok, rfl, hm⟩ | ⟨rfl, rfl⟩ | ⟨p, flag, childFlag, -, rfl⟩ :=
      step_cases hn
    · cases hm with
      | tells _ _ hroom | forwards _ _ _ _ hroom | saysGoodbye _ _ hroom => exact hdeliver _ _ hroom
      | goesOn | leaves | receives | repeats | overruns | admits | cannotOpen | passesOn | dismisses | ignores
      | tellsNothing | skips | ends | goodbyeFails | closes => exact hu n
    · cases hm <;> exact hu n
    · cases hm with
      | takes _ hq =>
        have hle := hu (client_queue_name p)
        rw [hq, List.length_cons] at hle
        by_cases hnp : n = client_queue_name p
        · subst hnp
          simp only [Function.update_self]
          omega
        · simpa [Function.update_of_ne hnp] using hu n
      | goesOn | leaves | fails | forwards | shows => exact hu n
    · exact hu n
    · exact hu n

lemma blocks_broadcast {n : QueueName} (k : ℕ) : ∀ {s : State} {i : ℕ}, i + k = 10 → s.server.pc = .broadcast i →
    (s.queues n).length ≤ mq_maxmsg → ¬s.HasRoom n →
    ∃ as t, machine.exec s as = some t ∧ t.BlockedOn n ∧ t.client = s.client := by
  induction k with
  | zero =>
    intro s i hi hpc hlen hroom
    apply absurd _ hroom
    simpa [State.HasRoom, Server.due, hpc, audience_eq_empty (i := i) (by omega)] using hlen
  | succ k ih =>
    intro s i hi hpc hlen hroom
    have hi10 : i < 10 := by omega
    simp only [State.HasRoom, Server.due, hpc] at hroom
    by_cases hsends : s.server.clients ⟨i, hi10⟩ = some n ∧ (i : ℤ) ≠ s.server.recive_msg.client_id
    · by_cases hfull : (s.queues n).length < mq_maxmsg
      · have hstep : serverStep s true = some ((s.serverAt (.broadcast (i + 1))).deliver n s.server.recive_msg) := by
          simp only [serverStep, hpc, broadcastStep, hi10, hsends.1, dite_true]
          rw [if_pos ⟨hsends.2, trivial⟩]
          exact mq_send_eq_some.mpr ⟨hfull, rfl⟩
        have hsub : s.server.audience i n ⊆ insert ⟨i, hi10⟩ (s.server.audience (i + 1) n) := by
          intro j hj
          simp only [Server.audience, Finset.mem_insert, Finset.mem_filter, Finset.mem_univ, true_and] at hj ⊢
          by_cases hji : j.val = i
          · exact .inl (Fin.ext hji)
          · exact .inr ⟨by omega, hj.2⟩
        have hcard := (Finset.card_le_card hsub).trans (Finset.card_insert_le _ _)
        obtain ⟨as, t, hrun, hblocked, hclient⟩ := ih (s := (s.serverAt (.broadcast (i + 1))).deliver n s.server.recive_msg)
          (by omega) rfl (by simpa [State.deliver, State.serverAt] using hfull) (by
            simp only [State.HasRoom, Server.due, State.deliver, State.serverAt, Function.update_self,
              List.length_append, List.length_singleton]
            have hsame : Server.audience { s.server with pc := .broadcast (i + 1) } (i + 1) n =
                s.server.audience (i + 1) n := rfl
            rw [hsame]
            omega)
        exact ⟨.server true :: as, t, Machine.exec_cons_eq_some.mpr ⟨_, hstep, hrun⟩, hblocked, hclient⟩
      · refine ⟨[], s, rfl, ⟨?_, hfull⟩, rfl⟩
        simp only [Server.SendsTo, hpc]
        exact ⟨⟨i, hi10⟩, rfl, hsends.1, hsends.2⟩
    · have hstep : serverStep s false = some (s.serverAt (.broadcast (i + 1))) := by
        simp only [serverStep, hpc, broadcastStep, hi10, dite_true]
        split <;> simp
      have hsub : s.server.audience i n ⊆ s.server.audience (i + 1) n := by
        intro j hj
        simp only [Server.audience, Finset.mem_filter, Finset.mem_univ, true_and] at hj ⊢
        have hji : j.val ≠ i := by
          rintro rfl
          exact hsends ⟨hj.2.1, hj.2.2⟩
        exact ⟨by omega, hj.2⟩
      have hcard := Finset.card_le_card hsub
      obtain ⟨as, t, hrun, hblocked, hclient⟩ := ih (s := s.serverAt (.broadcast (i + 1))) (by omega) rfl hlen (by
        have hsame : (s.serverAt (.broadcast (i + 1))).server.audience (i + 1) n = s.server.audience (i + 1) n := rfl
        simp only [State.HasRoom, Server.due, State.serverAt] at hsame ⊢
        rw [hsame]
        omega)
      exact ⟨.server false :: as, t, Machine.exec_cons_eq_some.mpr ⟨_, hstep, hrun⟩, hblocked, hclient⟩

lemma blocks {n : QueueName} (hlen : (s.queues n).length ≤ mq_maxmsg) (hroom : ¬s.HasRoom n) :
    ∃ as t, machine.exec s as = some t ∧ t.BlockedOn n ∧ t.client = s.client := by
  have hdispatch : s.server.pc = .dispatch → machine.next s (.server true) = some (dispatchStep s true) := by
    intro hpc
    simp [machine, step, serverStep, hpc]
  have hfull : ∀ k ≤ 1, ¬(s.queues n).length + k ≤ mq_maxmsg → ¬(s.queues n).length < mq_maxmsg ∧ k = 1 := by
    intro k hk hno
    omega
  unfold State.HasRoom at hroom
  cases hpc : s.server.pc with
  | sendIdentifier id | sendGoodbye id =>
    simp only [Server.due, hpc] at hroom
    obtain ⟨hno, hone⟩ := hfull _ (by split <;> simp) hroom
    refine ⟨[], s, rfl, ⟨?_, hno⟩, rfl⟩
    simpa [Server.SendsTo, hpc] using hone
  | broadcast i =>
    by_cases hi : i ≤ 10
    · exact blocks_broadcast (10 - i) (by omega) hpc hlen hroom
    · apply absurd _ hroom
      simpa [Server.due, hpc, audience_eq_empty (i := i) (by omega)] using hlen
  | dispatch =>
    have hrun : ∀ {as t}, machine.exec (dispatchStep s true) as = some t →
        machine.exec s (.server true :: as) = some t :=
      fun hrun => Machine.exec_cons_eq_some.mpr ⟨_, hdispatch hpc, hrun⟩
    simp only [Server.due, hpc, Server.answers] at hroom
    cases htype : s.server.recive_msg.type with
    | INIT =>
      simp only [htype] at hroom
      obtain ⟨hno, hone⟩ := hfull _ (by split <;> simp) hroom
      simp only [ite_eq_left_iff, imp_false, not_not, zero_ne_one] at hone
      obtain ⟨id, hid⟩ := Option.isSome_iff_exists.mp hone.1
      have hstep : dispatchStep s true = { s.finish with
          server := { s.server with
            pc := .sendIdentifier id
            clients := Function.update s.server.clients id (some (cString s.server.recive_msg.text)) } } := by
        simp only [dispatchStep, htype, hid, if_true]
      refine ⟨_, _, hrun (Machine.exec_nil _ _), ⟨?_, ?_⟩, ?_⟩
      · rw [hstep]
        simp [Server.SendsTo, hone.2]
      · rw [hstep]
        exact hno
      · rw [hstep]
        rfl
    | MESSAGE =>
      simp only [htype] at hroom
      have hstep : dispatchStep s true = s.serverAt (.broadcast 0) := by
        simp only [dispatchStep, htype]
      obtain ⟨as, t, hrest, hblocked, hclient⟩ := blocks_broadcast (n := n) 10 (s := s.serverAt (.broadcast 0)) rfl rfl
        hlen hroom
      exact ⟨_, t, hrun (hstep ▸ hrest), hblocked, hclient⟩
    | STOP =>
      simp only [htype] at hroom
      obtain ⟨hno, hone⟩ := hfull _ (by split <;> simp) hroom
      simp only [ite_eq_left_iff, imp_false, not_not, zero_ne_one] at hone
      obtain ⟨id, hid, hslot⟩ := Option.bind_eq_some_iff.mp hone
      have hstep : dispatchStep s true = s.serverAt (.sendGoodbye id) := by
        simp [dispatchStep, htype, hid, hslot]
      refine ⟨_, _, hrun (Machine.exec_nil _ _), ⟨?_, ?_⟩, ?_⟩
      · rw [hstep]
        exact hslot
      · rw [hstep]
        exact hno
      · rw [hstep]
        rfl
    | IDENTIFIER =>
      simp only [htype] at hroom
      exact absurd hlen hroom
  | loop | receive | close | done | exited | fault =>
    simp only [Server.due, hpc] at hroom
    exact absurd hlen hroom

lemma unborn_of_reachable (h : machine.Reachable s) (p : Pid) :
    (s.client p).parent.BeforeFork → (s.client p).child = .unborn := by
  refine h.invariant (I := fun u => ∀ p, (u.client p).parent.BeforeFork → (u.client p).child = .unborn) ?_ ?_ p
  · exact fun u hu p _ => Started.child hu p
  · intro u a v hu hn
    have hset : ∀ (q : Pid) (c : Client), (c.parent.BeforeFork → c.child = .unborn) →
        ∀ p, (Function.update u.client q c p).parent.BeforeFork → (Function.update u.client q c p).child = .unborn := by
      intro q c hc
      exact (Function.forall_update_iff u.client fun _ c => c.parent.BeforeFork → c.child = .unborn).mpr
        ⟨hc, fun p _ => hu p⟩
    obtain ⟨ok, rfl, hm⟩ | ⟨q, ok, typed, rfl, hm⟩ |
        ⟨q, ok, rfl, hm⟩ | ⟨rfl, rfl⟩ | ⟨q, flag, childFlag, -, rfl⟩ :=
      step_cases hn
    · rwa [hm.client]
    · cases hm with
      | creates hpc | joins hpc => exact hset q _ fun _ => hu q (by rw [hpc]; trivial)
      | forks | reads | readsNothing | scans | stops | types | posts | leaves =>
        exact hset q _ fun hbefore => hbefore.elim
      | quits hpc =>
        refine hset q _ fun hbefore => ?_
        rcases hpc with rfl | rfl | rfl <;> exact hbefore.elim
    · have hborn : ∀ c : Client, c.parent = (u.client q).parent → (u.client q).child ≠ .unborn →
          c.parent.BeforeFork → c.child = .unborn := by
        intro c hparent hchild hbefore
        rw [hparent] at hbefore
        exact absurd (hu q hbefore) hchild
      cases hm with
      | goesOn hpc | leaves hpc | takes hpc | fails hpc | forwards hpc | shows hpc =>
        exact hset q _ (hborn _ rfl (by simp [hpc]))
    · exact hu
    · exact hset q _ (hu q)

/-- Where there is no room for the answers, the server can come to wait for a client that is gone. -/
theorem wedges_without_room (h : machine.Reachable s) {a : Action} (hn : step s a = some t)
    (hroom : ¬RoomForAnswers s a) :
    ∃ u p, machine.Reachable u ∧ u.BlockedOn (client_queue_name p) ∧ (u.client p).Gone := by
  have hblocks : ∀ {u : State} {p : Pid}, machine.Reachable u → ¬u.HasRoom (client_queue_name p) →
      (u.client p).Gone → ∃ u p, machine.Reachable u ∧ u.BlockedOn (client_queue_name p) ∧ (u.client p).Gone := by
    intro u p hu hno hgone
    obtain ⟨as, v, hrun, hblocked, hclient⟩ := blocks (queues_le hu _) hno
    exact ⟨v, p, hu.exec hrun, hblocked, by rwa [hclient]⟩
  cases a with
  | server ok =>
    simp only [RoomForAnswers, not_forall] at hroom
    obtain ⟨-, p, hgone, hno⟩ := hroom
    exact hblocks h hno hgone
  | child p ok =>
    simp only [RoomForAnswers, not_forall] at hroom
    obtain ⟨hpc, hflag, hno⟩ := hroom
    have ht : s.childAt p .ended = t := by
      simpa [step, childStep, hpc, hflag, State.childAt] using hn
    subst ht
    have hleft : machine.Reachable (s.childAt p .ended) := .step (a := .child p ok) h trivial hn
    refine hblocks hleft hno (.inl ?_)
    simp [State.childAt, State.setClient]
  | parent p ok typed =>
    simp only [RoomForAnswers, not_forall] at hroom
    obtain ⟨hbefore, rfl, hno⟩ := hroom
    have hunborn := unborn_of_reachable h p hbefore
    have ht : s.parentAt p .exited = t := by
      cases hpc : (s.client p).parent with
      | create | sendInit | fork =>
        simpa [step, parentStep, hpc, memcpyText_client_queue_name, State.parentAt] using hn
      | readId | loop | scan | sendMessage | sendStop | waitChild | ended | exited | crashed =>
        rw [hpc] at hbefore
        exact hbefore.elim
    subst ht
    have hleft : machine.Reachable (s.parentAt p .exited) := .step (a := .parent p false typed) h trivial hn
    refine hblocks hleft hno (.inr ⟨?_, ?_⟩)
    · simpa [State.parentAt, State.setClient] using hunborn
    · simp [State.parentAt, State.setClient, ParentPc.BeforeFork]
  | interruptServer | interruptParent | interruptChild => exact absurd trivial hroom

/-- The first client joins and its child leaves at once; the second joins and says "hi" ten
times. -/
def deafClient (p q : Pid) : List Action :=
  let joins (c : Pid) : List Action := [.parent c true none, .parent c true none] ++ List.replicate 4 (.server true)
  let hi : List Action := List.replicate 3 (.parent q true (some (bytesOf "hi"))) ++ List.replicate 14 (.server true)
  joins p ++ joins q ++ [.parent p true none, .interruptChild p, .child p true, .parent q true none] ++
    List.replicate 3 (.child q true) ++ [.parent q true none] ++ (List.replicate 9 hi).flatten ++ hi.take 6

lemma blockedOn_first {n : QueueName} (hpc : s.server.pc = .broadcast 0) (hslot : s.server.clients 0 = some n)
    (hid : s.server.recive_msg.client_id = 1) (hlen : (s.queues n).length = 10) : s.BlockedOn n := by
  constructor
  · simp only [Server.SendsTo, hpc]
    exact ⟨0, rfl, hslot, by rw [hid]; decide⟩
  · rw [hlen]
    decide

/-- The queue of the first client holds its IDENTIFIER and nine greetings; the server waits for
ever to add the tenth. -/
theorem not_never_wedged : ¬∀ s, machine.Reachable s → ∀ p, s.BlockedOn (client_queue_name p) →
    (s.client p).child ≠ .ended := by
  intro h
  have hrun : (machine.exec quiet (deafClient ⟨1, by decide, by decide⟩ ⟨2, by decide, by decide⟩)).map (fun s =>
      (s.server.pc, s.server.clients 0, s.server.recive_msg.client_id,
        (s.queues (client_queue_name ⟨1, by decide, by decide⟩)).length, (s.client ⟨1, by decide, by decide⟩).child)) =
      some (.broadcast 0, some (client_queue_name ⟨1, by decide, by decide⟩), 1, 10, .ended) := by
    decide +kernel
  obtain ⟨s, hs, he⟩ := Option.map_eq_some_iff.mp hrun
  obtain ⟨hpc, hslot, hid, hlen, hended⟩ : s.server.pc = .broadcast 0 ∧ _ ∧ _ ∧ _ ∧ _ := by
    simpa only [Prod.mk.injEq] using he
  have hstart : machine.Reachable quiet := .start quiet_started
  exact h s (hstart.exec hs) _ (blockedOn_first hpc hslot hid hlen) hended

/-- Nobody interrupts a child, and the calls of the clients succeed. -/
def leftAlone (s : State) : Action → Bool
  | .child p _ => (s.client p).childFlag
  | .parent _ ok _ => ok
  | .interruptParent _ | .interruptChild _ => false
  | _ => true

lemma child_stays (h : (machine.guard fun s a => leftAlone s a = true).Reachable s) :
    machine.ReachableBy RoomForAnswers s ∧ ∀ p, ¬(s.client p).Gone := by
  refine h.invariant (I := fun u => machine.ReachableBy RoomForAnswers u ∧ ∀ p, ¬(u.client p).Gone) ?_ ?_
  · intro u hu
    refine ⟨.start hu, fun p => ?_⟩
    rintro (hended | ⟨-, hpast⟩)
    · rw [Started.child hu] at hended
      cases hended
    · rw [Started.parent hu] at hpast
      exact hpast trivial
  · intro u a v hu hn
    obtain ⟨hcheck, hn⟩ := Machine.guard_next_eq_some.mp hn
    have hset : ∀ (p : Pid) (c : Client), ¬c.Gone → ∀ q, ¬(Function.update u.client p c q).Gone := by
      intro p c hc
      exact (Function.forall_update_iff u.client fun _ c => ¬c.Gone).mpr ⟨hc, fun q _ => hu.2 q⟩
    have hchildren : ∀ q, ¬(v.client q).Gone := by
      obtain ⟨ok, rfl, hm⟩ | ⟨p, ok, typed, rfl, hm⟩ |
          ⟨p, ok, rfl, hm⟩ | ⟨rfl, rfl⟩ | ⟨p, flag, childFlag, -, rfl⟩ :=
        step_cases hn
      · rw [hm.client]
        exact hu.2
      · have hgone := hu.2 p
        simp only [Client.Gone, not_or, not_and_not_right] at hgone
        simp only [leftAlone] at hcheck
        cases hm with
        | forks => exact hset p _ (by simp [Client.Gone])
        | creates | joins => exact hset p _ (by simpa [Client.Gone, ParentPc.BeforeFork] using hgone.1)
        | reads hpc | readsNothing hpc | scans hpc | stops hpc | types hpc | posts hpc | leaves hpc =>
          rw [hpc] at hgone
          exact hset p _ (by simpa [Client.Gone, ParentPc.BeforeFork] using hgone)
        | quits hpc hfails =>
          refine hset p _ ?_
          rintro (hended | ⟨hunborn, -⟩)
          · exact hgone.1 hended
          · rw [hfails (hgone.2 hunborn)] at hcheck
            cases hcheck
      · cases hm with
        | leaves hpc hflag =>
          simp only [leftAlone] at hcheck
          rw [hcheck] at hflag
          cases hflag
        | goesOn | takes | fails | forwards | shows => exact hset p _ (by simp [Client.Gone])
      · exact hu.2
      · exact hset p _ (hu.2 p)
    refine ⟨.step hu.1 ?_ hn, hchildren⟩
    cases a with
    | server ok => exact fun _ p hgone => absurd hgone (hu.2 p)
    | child p ok =>
      intro _ hflag
      simp only [leftAlone] at hcheck
      rw [hcheck] at hflag
      cases hflag
    | parent p ok typed =>
      rintro - rfl
      simp only [leftAlone] at hcheck
      cases hcheck
    | interruptServer | interruptParent | interruptChild => trivial

/-- The first client's child is slow, and the server waits for it. -/
def slowClient (p q : Pid) : List Action :=
  let joins (c : Pid) : List Action := [.parent c true none, .parent c true none] ++ List.replicate 4 (.server true)
  let hi : List Action := List.replicate 3 (.parent q true (some (bytesOf "hi"))) ++ List.replicate 14 (.server true)
  joins p ++ joins q ++ [.parent p true none, .parent q true none] ++
    List.replicate 3 (.child q true) ++ [.parent q true none] ++ (List.replicate 9 hi).flatten ++ hi.take 6

theorem never_wedged_slow : ∃ s, machine.ReachableBy RoomForAnswers s ∧
    s.BlockedOn (client_queue_name ⟨1, by decide, by decide⟩) ∧ ¬(s.client ⟨1, by decide, by decide⟩).Gone := by
  have hrun : ((machine.guard fun s a => leftAlone s a = true).exec quiet
      (slowClient ⟨1, by decide, by decide⟩ ⟨2, by decide, by decide⟩)).map (fun s =>
      (s.server.pc, s.server.clients 0, s.server.recive_msg.client_id,
        (s.queues (client_queue_name ⟨1, by decide, by decide⟩)).length)) =
      some (.broadcast 0, some (client_queue_name ⟨1, by decide, by decide⟩), 1, 10) := by
    decide +kernel
  obtain ⟨s, hs, he⟩ := Option.map_eq_some_iff.mp hrun
  obtain ⟨hpc, hslot, hid, hlen⟩ : s.server.pc = .broadcast 0 ∧ _ ∧ _ ∧ _ := by
    simpa only [Prod.mk.injEq] using he
  have hstart : (machine.guard fun s a => leftAlone s a = true).Reachable quiet := .start quiet_started
  have hreach := (child_stays (hstart.exec hs)).1
  have hblocked := blockedOn_first hpc hslot hid hlen
  exact ⟨s, hreach, hblocked, never_wedged hreach _ hblocked⟩

end SystemyOperacyjne.QueueChat
