import SystemyOperacyjne.QueueChatServer

/-!
# The order of delivery

The server deals with one message after the other, and passes each on to all members but
its sender. So what it puts in the queue of a client is the client's transcript of the
server's log, up to what it still has to send for the current message.
-/

namespace SystemyOperacyjne.QueueChat
open Concurrency CString

variable {s t : State}

/-- The positions in the log of the MESSAGEs that the server put in the queue of `p`. -/
def State.received (s : State) (p : Pid) : List ℕ :=
  ((s.put (client_queue_name p)).filter fun x => x.2.type = .MESSAGE).map Prod.fst

lemma render_fst (k : Fin 10) (x : ℕ × Note message_msg) : (render k x).1 = x.1 := by
  obtain ⟨n, x⟩ := x
  cases x <;> rfl

lemma put_prefix {p : Pid} {k : Fin 10} (hput : s.put (client_queue_name p) ++ s.owed (client_queue_name p) =
    (transcript p s.seen).map (render k)) :
    s.put (client_queue_name p) <+: (transcript p (s.processed.map Entry.event)).map (render k) := by
  have hseen : (transcript p s.seen).map (render k) <+: (transcript p (s.processed.map Entry.event)).map (render k) := by
    obtain ⟨entries, hentries, rest, hrest⟩ := seen_eq s
    rw [hentries, ← hrest, List.map_append]
    exact (transcript_isPrefix p _ _).map _
  exact (List.prefix_append _ _).trans (hput ▸ hseen)

lemma Ok.received_sorted (h : Ok s) (p : Pid) : (s.received p).Pairwise (· < ·) := by
  obtain ⟨k, hput, -⟩ := h.put p
  have hk := put_prefix hput
  have hsorted : ((transcript p (s.processed.map Entry.event)).map (render k)).Pairwise fun x y => x.1 < y.1 := by
    rw [List.pairwise_map]
    simpa only [render_fst] using transcript_sorted p (s.processed.map Entry.event)
  have hput := hsorted.sublist hk.sublist
  unfold State.received
  rw [List.pairwise_map]
  exact hput.sublist List.filter_sublist

/-- A MESSAGE in a client's queue is the one that the server received at that position,
and it came from another client. -/
lemma Ok.mem_put_message (h : Ok s) {p : Pid} {n : ℕ} {m : message_msg}
    (hm : (n, m) ∈ s.put (client_queue_name p)) (htype : m.type = .MESSAGE) :
    ∃ e, s.processed[n]? = some e ∧ e.sender ≠ p ∧ e.msg = m := by
  obtain ⟨k, hput, -⟩ := h.put p
  have hk := put_prefix hput
  obtain ⟨⟨j, y⟩, hy, he⟩ := List.mem_map.mp (hk.subset hm)
  cases y with
  | welcome =>
    obtain ⟨rfl, rfl⟩ := Prod.mk.inj he
    cases htype
  | heard m' =>
    obtain ⟨rfl, rfl⟩ := Prod.mk.inj he
    obtain ⟨e, hget, hsender, hmsg, -⟩ := mem_transcript_heard hy
    exact ⟨e, hget, hsender, hmsg⟩
  | farewell =>
    obtain ⟨rfl, rfl⟩ := Prod.mk.inj he
    cases htype

/-- For any number of clients and every interleaving: what the server puts in the queue of
a client is the beginning of the client's transcript (IDENTIFIER with its id, the MESSAGEs
of the others that the server received during its stay, the goodbye), and all of it
whenever the server is between two messages. Any two clients get the MESSAGEs they share
in the same order, and nobody gets its own. -/
theorem delivery_order (h : machine.ReachableBy Reliable s) :
    (∀ p, ∃ id : Fin 10,
      s.put (client_queue_name p) <+: (transcript p (s.processed.map Entry.event)).map (render id) ∧
      (s.server.pc = .loop →
        s.put (client_queue_name p) = (transcript p (s.processed.map Entry.event)).map (render id)) ∧
      (Member p (s.log.map Entry.event) → s.server.clients id = some (client_queue_name p))) ∧
    (∀ p q, ((s.received p).filter fun n => n ∈ s.received q) = (s.received q).filter fun n => n ∈ s.received p) ∧
    ∀ p n m, (n, m) ∈ s.put (client_queue_name p) → m.type = .MESSAGE →
      ∃ e, s.processed[n]? = some e ∧ e.sender ≠ p ∧ e.msg = m := by
  have hok := ok_of_reachable h
  refine ⟨fun p => ?_, fun p q => filter_mem_comm (hok.received_sorted p) (hok.received_sorted q),
    fun p n m hm htype => hok.mem_put_message hm htype⟩
  obtain ⟨k, hput, hslot⟩ := hok.put p
  refine ⟨k, put_prefix hput, fun hpc => ?_, hslot⟩
  have howed : s.owed (client_queue_name p) = [] := by simp only [State.owed, hpc]
  have hseen : s.seen = s.processed.map Entry.event := by simp only [State.seen, hpc]
  rwa [howed, hseen, List.append_nil] at hput

/-- Nothing has happened yet. -/
def quiet : State where
  server := ⟨true, .loop, ⟨.INIT, 0, textOf []⟩, fun _ => none⟩
  server_queue := []
  client _ := ⟨.create, .unborn, true, true, 0, [], ⟨.INIT, 0, textOf []⟩⟩
  queues _ := []
  log := []
  current := none
  put _ := []

lemma quiet_started : Started quiet :=
  ⟨rfl, rfl, rfl, rfl, fun _ => rfl, fun _ => rfl, fun _ => rfl, fun _ => rfl, fun _ => rfl, rfl, rfl, fun _ => rfl⟩

/-- A check of the conditions of a step. -/
def reliable (s : State) : Action → Bool
  | .server ok => ok && (freeSlot s.server.clients).isSome
  | .parent p _ _ =>
    match (s.client p).parent with
    | .sendMessage _ | .sendStop => s.givenId p = some (s.client p).client_id
    | _ => true
  | _ => true

lemma reliable_of_check {a : Action} (h : reliable s a = true) : Reliable s a := by
  refine ⟨fun ok ha => ?_, fun ok ha _ _ hfree => ?_, fun p typed ha hsends => ?_⟩
  · subst ha
    simp only [reliable, Bool.and_eq_true] at h
    exact h.1
  · subst ha
    simp [reliable, hfree] at h
  · subst ha
    rcases hsends with ⟨text, hpc⟩ | hpc
    · simpa [reliable, hpc] using h
    · simpa [reliable, hpc] using h

/-- Two clients join, and the first sends "hi". -/
def greeting (p q : Pid) : List Action :=
  let joins (c : Pid) : List Action := [.parent c true none, .parent c true none] ++ List.replicate 4 (.server true)
  joins p ++ joins q ++ [.parent p true none] ++ List.replicate 3 (.child p true) ++
    List.replicate 4 (.parent p true (some (bytesOf "hi"))) ++ List.replicate 14 (.server true)

/-- The second client is told its id and gets the greeting. -/
theorem delivery_order_greeting : ∃ s, ∃ id : Fin 10, machine.ReachableBy Reliable s ∧
    (s.put (client_queue_name ⟨2, by decide, by decide⟩)).length = 2 ∧
    s.put (client_queue_name ⟨2, by decide, by decide⟩) =
      (transcript ⟨2, by decide, by decide⟩ (s.processed.map Entry.event)).map (render id) := by
  have hrun : ((machine.guard fun s a => reliable s a = true).exec quiet
      (greeting ⟨1, by decide, by decide⟩ ⟨2, by decide, by decide⟩)).map
      (fun s => (s.server.pc, (s.put (client_queue_name ⟨2, by decide, by decide⟩)).length)) =
      some (.loop, 2) := by
    decide +kernel
  obtain ⟨s, hs, he⟩ := Option.map_eq_some_iff.mp hrun
  obtain ⟨hpc, hlen⟩ := Prod.mk.inj he
  have hstart : (machine.guard fun s a => reliable s a = true).Reachable quiet := .start quiet_started
  have hreach := (Machine.reachableBy_of_guard (hstart.exec hs)).mono fun u a hu => reliable_of_check hu
  obtain ⟨id, -, hput, -⟩ := (delivery_order hreach).1 ⟨2, by decide, by decide⟩
  exact ⟨s, id, hreach, hlen, hput hpc⟩

/-! ### What is in the queues -/

/-- A queue holds the last of the messages that were put in it. -/
theorem queues_suffix (h : machine.Reachable s) (n : QueueName) : s.queues n <:+ (s.put n).map Prod.snd := by
  refine h.invariant (I := fun u => ∀ n, u.queues n <:+ (u.put n).map Prod.snd) (fun u hu m => ?_) ?_ n
  · rw [Started.queues hu, Started.put hu]
    exact List.suffix_rfl
  · intro u a v hu hn m
    obtain ⟨ok, -, hm⟩ | ⟨p, ok, typed, -, hm⟩ | ⟨p, ok, -, hm⟩ | ⟨-, rfl⟩ | ⟨p, flag, childFlag, -, rfl⟩ :=
      step_cases hn
    · obtain ⟨rest, hput, hq⟩ := hm.queueMove.grows m
      obtain ⟨taken, htaken⟩ := hu m
      refine ⟨taken, ?_⟩
      rw [hput, hq, List.map_append, ← htaken, List.append_assoc]
    · cases hm <;> exact hu m
    · cases hm with
      | @takes hpc x rest hq =>
        by_cases hp : m = client_queue_name p
        · subst hp
          have hbefore := hu (client_queue_name p)
          rw [hq] at hbefore
          simp only [Function.update_self]
          exact (List.suffix_cons x rest).trans hbefore
        · simp only [Function.update_of_ne hp]
          exact hu m
      | goesOn | leaves | fails | forwards | shows => exact hu m
    · exact hu m
    · exact hu m

end SystemyOperacyjne.QueueChat
