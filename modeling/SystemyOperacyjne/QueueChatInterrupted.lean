import SystemyOperacyjne.QueueChatOrder
import SystemyOperacyjne.QueueChatSenders

/-!
# The queue chat server when receives fail

The server looks at nothing that `mq_receive` returns. A call that fails leaves the buffer as it is,
and the `switch` runs on the message that is still in it.
-/

namespace SystemyOperacyjne.QueueChat
open Concurrency CString

/-- The client table, and all that the server ever put in a queue. -/
structure Snapshot where
  clients : Fin 10 → Option QueueName
  put : QueueName → List (ℕ × message_msg)

/-- The server with a record of the messages that arrived, and of what it had when a receive failed,
until one succeeds. -/
structure Watched where
  state : State
  arrived : List Entry
  kept : Option Snapshot

def Watched.after (u : Watched) (t : State) : SenderAction QueueName → Watched
  | .server ok =>
    { u with
      state := t
      kept :=
        if u.state.server.pc = .receive then
          if ok then none else some ⟨u.state.server.clients, u.state.put⟩
        else u.kept }
  | .arrive e => { u with state := t, arrived := u.arrived ++ [e] }
  | .take _ | .interrupt => { u with state := t }

def watchedStep (u : Watched) (a : SenderAction QueueName) : Option Watched :=
  (senderStep u.state a).map fun t => u.after t a

def watched : Machine Watched (SenderAction QueueName) where
  init u := Started u.state ∧ u.arrived = [] ∧ u.kept = none
  next := watchedStep

/-- `mq_receive` returns -1. -/
def FailsReceive (u : Watched) (a : SenderAction QueueName) : Prop :=
  a = .server false ∧ u.state.server.pc = .receive

/-- The `switch` on the message in the buffer does nothing: it has no case or is a STOP for an empty slot,
or it is a MESSAGE and no other client is there. -/
def Server.Inert (v : Server) : Prop :=
  v.Ignores ∨ v.recive_msg.type = .MESSAGE ∧ ∀ i, v.clients i ≠ none → (i.val : ℤ) = v.recive_msg.client_id

def HarmlessFailure (u : Watched) (a : SenderAction QueueName) : Prop :=
  FailsReceive u a → u.state.server.Inert

/-- The same but for the place where the server is in its code. -/
def Watched.resumedAt (u : Watched) (pc : ServerPc) : Watched :=
  { u with state := u.state.serverAt pc, kept := none }

/-- Each message is dealt with once and in the order of the queue; after a failed receive the table and what
the server put in the queues stay, and it goes on; and some run without a failed receive, in which the same
messages arrive, comes to the same state. -/
structure Undisturbed (u : Watched) : Prop where
  order : u.state.processed ++ u.state.server_queue = u.arrived
  kept : ∀ x ∈ u.kept, u.state.server.clients = x.clients ∧ u.state.put = x.put ∧
    u.state.server.pc ≠ .exited ∧ u.state.server.pc ≠ .fault
  unnoticed : ∃ pc, watched.ReachableBy (fun u a => ¬FailsReceive u a) (u.resumedAt pc)

/-! ### Order -/

/-- Between two messages the server deals with none. -/
def State.Between (s : State) : Prop :=
  match s.server.pc with
  | .loop | .receive | .sendIdentifier _ | .done => s.current = none
  | _ => True

section
variable {s t : State}

lemma finish_of_none (h : s.current = none) : s.finish = s := by
  have hprocessed : s.processed = s.log := by rw [State.processed, h, Option.toList_none, List.append_nil]
  rw [State.finish, hprocessed, ← h]

lemma ServerMove.between {ok : Bool} (h : s.Between) (hm : ServerMove s ok t) : t.Between := by
  cases hm with
  | goesOn hpc | leaves hpc =>
    simp only [State.Between, hpc] at h
    exact h
  | receives | repeats | overruns | cannotOpen | passesOn | dismisses | forwards | skips | saysGoodbye | goodbyeFails =>
    trivial
  | admits | ignores | ends | closes => rfl
  | tells hpc | tellsNothing hpc =>
    simp only [State.Between, hpc] at h
    exact h

lemma ServerMove.order {ok : Bool} (h : s.Between) (hm : ServerMove s ok t) :
    t.processed ++ t.server_queue = s.processed ++ s.server_queue := by
  cases hm with
  | receives hpc hq =>
    simp only [State.Between, hpc] at h
    simp [State.processed, h, hq]
  | goesOn | leaves | repeats | overruns | cannotOpen | passesOn | dismisses | tells | tellsNothing | forwards | skips
  | saysGoodbye | goodbyeFails => rfl
  | admits | ignores | ends | closes => simp [State.processed, State.finish, State.serverAt]

end

/-! ### Harmless failures -/

/-- On its way through an iteration that does nothing, or after it. -/
def State.Idling (s : State) : Prop :=
  match s.server.pc with
  | .dispatch => s.server.Inert
  | .broadcast _ => ∀ i, s.server.clients i ≠ none → (i.val : ℤ) = s.server.recive_msg.client_id
  | .loop | .receive | .done => True
  | _ => False

section
variable {s t : State}

lemma Server.Inert.not_overruns {v : Server} (h : v.Inert) : ¬v.Overruns := by
  rintro (⟨htype, -⟩ | ⟨htype, hslot⟩)
  · rcases h with (h | ⟨h, -⟩) | ⟨h, -⟩
    · cases htype.symm.trans h
    · cases htype.symm.trans h
    · cases htype.symm.trans h
  · rcases h with (h | ⟨-, id, hid, -⟩) | ⟨h, -⟩
    · cases htype.symm.trans h
    · rw [hslot] at hid
      cases hid
    · cases htype.symm.trans h

lemma Server.Inert.not_init {v : Server} (h : v.Inert) : v.recive_msg.type ≠ .INIT := by
  intro htype
  rcases h with (h | ⟨h, -⟩) | ⟨h, -⟩
  · cases htype.symm.trans h
  · cases htype.symm.trans h
  · cases htype.symm.trans h

lemma idling_step {ok : Bool} (h : s.Idling) (hnone : s.current = none) (hpc : s.server.pc ≠ .receive)
    (hm : ServerMove s ok t) : t.Idling ∧ t.current = none ∧ t.serverAt .receive = s.serverAt .receive := by
  cases hm with
  | goesOn | leaves => exact ⟨trivial, hnone, rfl⟩
  | receives hat | repeats hat => exact absurd hat hpc
  | overruns hat hout =>
    simp only [State.Idling, hat] at h
    exact absurd hout h.not_overruns
  | admits hat htype | cannotOpen hat htype =>
    simp only [State.Idling, hat] at h
    exact absurd htype h.not_init
  | passesOn hat htype =>
    simp only [State.Idling, hat] at h
    rcases h with (h | ⟨h, -⟩) | ⟨-, h⟩
    · cases htype.symm.trans h
    · cases htype.symm.trans h
    · exact ⟨h, hnone, rfl⟩
  | dismisses hat htype hid hslot =>
    simp only [State.Idling, hat] at h
    rcases h with (h | ⟨-, id, hid', hfree⟩) | ⟨h, -⟩
    · cases htype.symm.trans h
    · obtain rfl := Option.some.inj (hid.symm.trans hid')
      exact absurd hfree hslot
    · cases htype.symm.trans h
  | ignores | ends =>
    have hfinish : (s.serverAt .loop).finish = s.serverAt .loop := finish_of_none hnone
    rw [hfinish]
    exact ⟨trivial, hnone, rfl⟩
  | forwards hat hi hslot hother =>
    simp only [State.Idling, hat] at h
    exact absurd (h _ (by rw [hslot]; exact Option.some_ne_none _)) hother
  | skips hat =>
    simp only [State.Idling, hat] at h
    exact ⟨h, hnone, rfl⟩
  | tells hat | tellsNothing hat | saysGoodbye hat | goodbyeFails hat | closes hat =>
    simp only [State.Idling, hat] at h

lemma senderStep_serverAt {a : SenderAction QueueName} (ha : ∀ ok, a ≠ .server ok) (hs : senderStep s a = some t)
    (pc : ServerPc) : senderStep (s.serverAt pc) a = some (t.serverAt pc) := by
  cases a with
  | server ok => exact absurd rfl (ha ok)
  | arrive e =>
    obtain ⟨hroom, rfl⟩ := sendToServer_eq_some.mp hs
    exact sendToServer_eq_some.mpr ⟨hroom, rfl⟩
  | take n =>
    simp only [senderStep] at hs ⊢
    split at hs
    · cases hs
    case isFalse hne =>
      cases hs
      rw [if_neg (by exact hne)]
      rfl
  | interrupt =>
    obtain rfl := Option.some.inj hs
    rfl

lemma senderStep_server {a : SenderAction QueueName} (ha : ∀ ok, a ≠ .server ok) (hs : senderStep s a = some t) :
    t.server.pc = s.server.pc ∧ t.server.recive_msg = s.server.recive_msg ∧ t.server.clients = s.server.clients ∧
      t.put = s.put ∧ t.current = s.current := by
  rcases sender_cases hs with ⟨ok, rfl, -⟩ | ⟨e, -, rfl⟩ | ⟨n, -, rfl⟩ | ⟨-, rfl⟩
  · exact absurd rfl (ha ok)
  · exact ⟨rfl, rfl, rfl, rfl, rfl⟩
  · exact ⟨rfl, rfl, rfl, rfl, rfl⟩
  · exact ⟨rfl, rfl, rfl, rfl, rfl⟩

end

/-- What holds in every run in which receives fail harmlessly. -/
structure Calm (u : Watched) : Prop where
  between : u.state.Between
  order : u.state.processed ++ u.state.server_queue = u.arrived
  quiet : u.kept = none → watched.ReachableBy (fun u a => ¬FailsReceive u a) u
  failed : ∀ x ∈ u.kept, u.state.server.clients = x.clients ∧ u.state.put = x.put ∧ u.state.current = none ∧
    u.state.Idling ∧ watched.ReachableBy (fun u a => ¬FailsReceive u a) (u.resumedAt .receive)

section
variable {u w : Watched}

lemma resumedAt_self (hnone : u.kept = none) : u.resumedAt u.state.server.pc = u := by
  cases u
  subst hnone
  rfl

lemma after_kept {ok : Bool} {t : State} (hpc : u.state.server.pc ≠ .receive) : (u.after t (.server ok)).kept = u.kept := by
  simp [Watched.after, hpc]

/-- Before a receive nothing tells a failed one from none. -/
lemma Calm.resumed (h : Calm u) (hpc : u.state.server.pc = .receive) :
    watched.ReachableBy (fun u a => ¬FailsReceive u a) (u.resumedAt .receive) := by
  cases hkept : u.kept with
  | none =>
    have hself := resumedAt_self hkept
    rw [hpc] at hself
    rw [hself]
    exact h.quiet hkept
  | some x => exact (h.failed x hkept).2.2.2.2

lemma Calm.undisturbed (h : Calm u) : Undisturbed u where
  order := h.order
  kept x hx := by
    obtain ⟨hclients, hput, -, hidling, -⟩ := h.failed x hx
    refine ⟨hclients, hput, fun hpc => ?_, fun hpc => ?_⟩
    · simp only [State.Idling, hpc] at hidling
    · simp only [State.Idling, hpc] at hidling
  unnoticed := by
    cases hkept : u.kept with
    | none =>
      refine ⟨u.state.server.pc, ?_⟩
      rw [resumedAt_self hkept]
      exact h.quiet hkept
    | some x => exact ⟨.receive, (h.failed x hkept).2.2.2.2⟩

lemma Calm.server {ok : Bool} {t : State} (h : Calm u) (hpc : u.state.server.pc ≠ .receive)
    (hs : serverStep u.state ok = some t) : Calm (u.after t (.server ok)) := by
  have hm := server_cases hs
  have hkept : (u.after t (.server ok)).kept = u.kept := after_kept hpc
  refine ⟨hm.between h.between, (hm.order h.between).trans h.order, fun hnone => ?_, fun x hx => ?_⟩
  · rw [hkept] at hnone
    refine .step (h.quiet hnone) (fun hfails => hpc hfails.2) (a := .server ok) ?_
    simp only [watched, watchedStep, senderStep, hs, Option.map_some]
  · rw [hkept] at hx
    obtain ⟨hclients, hput, hnone, hidling, hreach⟩ := h.failed x hx
    obtain ⟨hidling', hnone', hsame⟩ := idling_step hidling hnone hpc hm
    have hclients' : t.server.clients = u.state.server.clients := congrArg (fun s => s.server.clients) hsame
    have hput' : t.put = u.state.put := congrArg (fun s => s.put) hsame
    refine ⟨hclients'.trans hclients, hput'.trans hput, hnone', hidling', ?_⟩
    have hresumed : (u.after t (.server ok)).resumedAt .receive = u.resumedAt .receive := by
      simp only [Watched.resumedAt, Watched.after, hsame]
    rw [hresumed]
    exact hreach

lemma Calm.receive {ok : Bool} {t : State} (h : Calm u) (hpc : u.state.server.pc = .receive)
    (hinert : ok = false → u.state.server.Inert) (hs : serverStep u.state ok = some t) :
    Calm (u.after t (.server ok)) := by
  have hm := server_cases hs
  have hreach := h.resumed hpc
  have hat : u.state.serverAt .receive = u.state := by rw [← hpc]; rfl
  refine ⟨hm.between h.between, (hm.order h.between).trans h.order, fun hnone => ?_, fun x hx => ?_⟩
  · cases ok with
    | false => simp [Watched.after, hpc] at hnone
    | true =>
      refine .step hreach (fun hfails => by cases hfails.1) (a := .server true) ?_
      simp [watched, watchedStep, senderStep, Watched.resumedAt, Watched.after, hat, hs, hpc]
  · cases ok with
    | true => simp [Watched.after, hpc] at hx
    | false =>
      obtain rfl : x = ⟨u.state.server.clients, u.state.put⟩ := by simpa [Watched.after, hpc] using hx.symm
      have hbetween := h.between
      simp only [State.Between, hpc] at hbetween
      have ht : t = u.state.serverAt .dispatch := by
        simp only [serverStep, hpc] at hs
        exact (Option.some.inj hs).symm
      subst ht
      exact ⟨rfl, rfl, hbetween, hinert rfl, hreach⟩

lemma Calm.other {a : SenderAction QueueName} {t : State} (h : Calm u) (ha : ∀ ok, a ≠ .server ok)
    (hs : senderStep u.state a = some t) : Calm (u.after t a) := by
  obtain ⟨hpc, hmsg, hclients, hput, hcurrent⟩ := senderStep_server ha hs
  have hstep : ∀ v : Watched, v.state = u.state → watchedStep v a = some (v.after t a) := by
    intro v hv
    simp only [watchedStep, hv, hs, Option.map_some]
  have hkept : (u.after t a).kept = u.kept := by
    cases a with
    | server ok => exact absurd rfl (ha ok)
    | arrive e | take n | interrupt => rfl
  have hstate : (u.after t a).state = t := by cases a <;> rfl
  refine ⟨?_, ?_, fun hnone => ?_, fun x hx => ?_⟩
  · have hbetween := h.between
    simp only [State.Between, hstate, hpc, hcurrent] at hbetween ⊢
    exact hbetween
  · have horder := h.order
    rcases sender_cases hs with ⟨ok, rfl, -⟩ | ⟨e, rfl, rfl⟩ | ⟨n, rfl, rfl⟩ | ⟨rfl, rfl⟩
    · exact absurd rfl (ha ok)
    · simp only [State.processed] at horder
      simp only [Watched.after, State.processed, ← horder, List.append_assoc]
    · exact horder
    · exact horder
  · rw [hkept] at hnone
    exact .step (h.quiet hnone) (fun hfails => ha false hfails.1) (hstep u rfl)
  · rw [hkept] at hx
    obtain ⟨hclients', hput', hnone, hidling, hreach⟩ := h.failed x hx
    rw [hstate]
    refine ⟨hclients.trans hclients', hput.trans hput', hcurrent.trans hnone, ?_, ?_⟩
    · simp only [State.Idling, Server.Inert, Server.Ignores, hpc, hmsg, hclients] at hidling ⊢
      exact hidling
    · refine .step hreach (fun hfails => ha false hfails.1) (a := a) ?_
      have hnext := senderStep_serverAt ha hs .receive
      cases a with
      | server ok => exact absurd rfl (ha ok)
      | arrive e | take n | interrupt =>
        simp only [watched, watchedStep, Watched.resumedAt, hnext, Option.map_some]
        rfl

lemma Calm.step {a : SenderAction QueueName} (h : Calm u) (hharmless : HarmlessFailure u a)
    (hs : watchedStep u a = some w) : Calm w := by
  obtain ⟨t, ht, rfl⟩ := Option.map_eq_some_iff.mp hs
  by_cases ha : ∃ ok, a = .server ok
  · obtain ⟨ok, rfl⟩ := ha
    by_cases hpc : u.state.server.pc = .receive
    · refine h.receive hpc (fun hok => ?_) ht
      subst hok
      exact hharmless ⟨rfl, hpc⟩
    · exact h.server hpc ht
  · exact h.other (fun ok hok => ha ⟨ok, hok⟩) ht

/-- In every run in which the messages that are in the buffer when a receive fails do nothing, failed
receives do nothing. -/
theorem failures_undisturbed (h : watched.ReachableBy HarmlessFailure u) : Undisturbed u := by
  have hcalm : Calm u := by
    apply h.invariant (I := Calm)
    · intro w hw
      obtain ⟨hstart, harrived, hkept⟩ := hw
      refine ⟨?_, ?_, fun _ => .start ⟨hstart, harrived, hkept⟩, fun x hx => ?_⟩
      · simp only [State.Between, hstart.pc]
        exact hstart.current
      · simp [State.processed, hstart.log, hstart.current, hstart.server_queue, harrived]
      · rw [hkept] at hx
        cases hx
    · exact fun w a w' hw hharmless hs => hw.step hharmless hs
  exact hcalm.undisturbed

end

/-! ### Harmful failures -/

section
variable {u w : Watched}

lemma watched_server {ok : Bool} {t : State} (hs : serverStep u.state ok = some t) :
    watched.next u (.server ok) = some (u.after t (.server ok)) := by
  simp only [watched, watchedStep, senderStep, hs, Option.map_some]

lemma leads_take (u : Watched) (n : QueueName) : watched.Leads (fun _ => True) u
    { u with state := { u.state with queues := Function.update u.state.queues n [] } } := by
  induction hq : u.state.queues n generalizing u with
  | nil =>
    rw [← hq, Function.update_eq_self]
    exact .refl u
  | cons m rest ih =>
    let v : Watched := { u with state := { u.state with queues := Function.update u.state.queues n rest } }
    have hv : watched.next u (.take n) = some v := by
      simp [watched, watchedStep, senderStep, hq, Watched.after, v]
    have hrest := ih v (by simp [v])
    simp only [v, Function.update_idem] at hrest
    exact .step trivial hv hrest

lemma leads_broadcast (hpc : u.state.server.pc = .broadcast 0) {i : ℕ} (hi : i ≤ 10) :
    watched.Leads (fun _ => True) u { u with state := u.state.serverAt (.broadcast i) } := by
  induction i with
  | zero =>
    rw [← hpc]
    exact .refl u
  | succ i ih =>
    have hlt : i < 10 := by omega
    have hs : serverStep (u.state.serverAt (.broadcast i)) false = some (u.state.serverAt (.broadcast (i + 1))) := by
      simp only [serverStep, State.serverAt, broadcastStep, hlt, dite_true]
      split <;> simp
    exact (ih (by omega)).trans (.step trivial (a := .server false) (watched_server hs) (.refl _))

lemma disturbed_of_exit {x : Snapshot} (hkept : u.kept = some x)
    (hpc : u.state.server.pc = .exited ∨ u.state.server.pc = .fault) : ¬Undisturbed u := by
  intro h
  obtain ⟨-, -, hexited, hfault⟩ := h.kept x hkept
  rcases hpc with hpc | hpc
  · exact hexited hpc
  · exact hfault hpc

lemma disturbed_of_put {x : Snapshot} (hkept : u.kept = some x) {n : QueueName}
    (hput : u.state.put n ≠ x.put n) : ¬Undisturbed u :=
  fun h => hput (congrFun (h.kept x hkept).2.1 n)

/-- A MESSAGE in the buffer goes once more to a client that is not its sender. -/
lemma message_disturbs {x : Snapshot} (hkept : u.kept = some x) (hput : x.put = u.state.put)
    (hpc : u.state.server.pc = .broadcast 0) {i : Fin 10} {n : QueueName} (hslot : u.state.server.clients i = some n)
    (hother : (i.val : ℤ) ≠ u.state.server.recive_msg.client_id) :
    ∃ t, watched.Leads (fun _ => True) u t ∧ ¬Undisturbed t := by
  have hloop := leads_broadcast hpc (i := i.val) (Nat.le_of_lt i.isLt)
  have htake := leads_take { u with state := u.state.serverAt (.broadcast i.val) } n
  let v : Watched := { u with state := { u.state.serverAt (.broadcast i.val) with
    queues := Function.update u.state.queues n [] } }
  have hroom : (v.state.queues n).length < mq_maxmsg := by simp [v, mq_maxmsg]
  have hsend : serverStep v.state true =
      some ((v.state.serverAt (.broadcast (i.val + 1))).deliver n u.state.server.recive_msg) := by
    have hsent : (v.state.serverAt (.broadcast (i.val + 1))).mq_send n u.state.server.recive_msg =
        some ((v.state.serverAt (.broadcast (i.val + 1))).deliver n u.state.server.recive_msg) :=
      mq_send_eq_some.mpr ⟨hroom, rfl⟩
    simp only [serverStep, v, State.serverAt, broadcastStep, i.isLt, dite_true, hslot]
    rw [if_pos ⟨hother, trivial⟩]
    exact hsent
  refine ⟨_, (hloop.trans htake).trans (.step trivial (watched_server hsend) (.refl _)), ?_⟩
  refine disturbed_of_put (x := x) (n := n) ?_ ?_
  · simpa [Watched.after, v, State.serverAt] using hkept
  · simp [Watched.after, v, State.deliver, State.serverAt, hput]

/-- When the `switch` can do something with the message in the buffer, a failed receive can make it happen. -/
theorem failure_disturbs (hpc : u.state.server.pc = .receive) (hnot : ¬u.state.server.Inert)
    (hs : watchedStep u (.server false) = some w) : ∃ t, watched.Leads (fun _ => True) w t ∧ ¬Undisturbed t := by
  obtain ⟨t, ht, rfl⟩ := Option.map_eq_some_iff.mp hs
  have hdispatch : t = u.state.serverAt .dispatch := by
    simp only [senderStep, serverStep, hpc] at ht
    exact (Option.some.inj ht).symm
  subst hdispatch
  let v := u.after (u.state.serverAt .dispatch) (.server false)
  have hkept : v.kept = some ⟨u.state.server.clients, u.state.put⟩ := by simp [v, Watched.after, hpc]
  have hnext : ∀ ok, watched.next v (.server ok) = some (v.after (dispatchStep v.state ok) (.server ok)) :=
    fun ok => watched_server rfl
  have hafter : ∀ ok, (v.after (dispatchStep v.state ok) (.server ok)).kept = v.kept := fun ok => rfl
  cases htype : u.state.server.recive_msg.type with
  | IDENTIFIER => exact absurd (.inl (.inl htype)) hnot
  | INIT =>
    refine ⟨_, .step trivial (hnext false) (.refl _), disturbed_of_exit (hafter false |>.trans hkept) ?_⟩
    cases hfree : freeSlot u.state.server.clients with
    | none => simp [Watched.after, v, dispatchStep, State.serverAt, htype, hfree]
    | some id => simp [Watched.after, v, dispatchStep, State.serverAt, htype, hfree]
  | STOP =>
    cases hid : slot? u.state.server.recive_msg.client_id with
    | none =>
      refine ⟨_, .step trivial (hnext true) (.refl _), disturbed_of_exit (hafter true |>.trans hkept) ?_⟩
      simp [Watched.after, v, dispatchStep, State.serverAt, htype, hid]
    | some id =>
      cases hslot : u.state.server.clients id with
      | none => exact absurd (.inl (.inr ⟨htype, id, hid, hslot⟩)) hnot
      | some n =>
        let x := v.after (dispatchStep v.state true) (.server true)
        have hx : x.state = v.state.serverAt (.sendGoodbye id) := by
          simp [x, Watched.after, v, dispatchStep, State.serverAt, htype, hid, hslot]
        have hexit : serverStep x.state false = some (v.state.serverAt .exited) := by
          rw [hx]
          simp [serverStep, State.serverAt, v, Watched.after, hslot]
        refine ⟨_, .step trivial (hnext true) (.step trivial (watched_server hexit) (.refl _)), ?_⟩
        refine disturbed_of_exit (x := ⟨u.state.server.clients, u.state.put⟩) ?_ (.inl rfl)
        have hxpc : x.state.server.pc ≠ .receive := by
          rw [hx]
          simp [State.serverAt]
        exact (after_kept hxpc).trans ((hafter true).trans hkept)
  | MESSAGE =>
    have hsome : ∃ i, ∃ n, u.state.server.clients i = some n ∧ (i.val : ℤ) ≠ u.state.server.recive_msg.client_id := by
      by_contra hnone
      refine hnot (.inr ⟨htype, fun i hi => ?_⟩)
      by_contra hne
      obtain ⟨n, hn⟩ := Option.ne_none_iff_exists'.mp hi
      exact hnone ⟨i, n, hn, hne⟩
    obtain ⟨i, n, hslot, hother⟩ := hsome
    let x := v.after (dispatchStep v.state true) (.server true)
    have hx : x.state = v.state.serverAt (.broadcast 0) := by
      simp [x, Watched.after, v, dispatchStep, State.serverAt, htype]
    obtain ⟨t, ht, hbad⟩ := message_disturbs (u := x) ((hafter true).trans hkept) (by rw [hx]; rfl) (by rw [hx]; rfl)
      (i := i) (n := n) (by rw [hx]; exact hslot) (by rw [hx]; exact hother)
    exact ⟨t, .step trivial (hnext true) ht, hbad⟩

end

/-- Nothing has happened, and nothing has arrived. -/
def unwatched : Watched := ⟨quiet, [], none⟩

/-- The only client sends a MESSAGE, and the next receive fails. -/
theorem failures_undisturbed_alone : ∃ u, watched.ReachableBy HarmlessFailure u ∧ u.kept.isSome = true ∧
    u.arrived.length = 2 ∧ Undisturbed u := by
  let p : Pid := ⟨1, by decide, by decide⟩
  let first : List (SenderAction QueueName) := .arrive ⟨p, initMessage p⟩ :: List.replicate 5 (.server true) ++
    .arrive ⟨p, ⟨.MESSAGE, 0, textOf []⟩⟩ :: List.replicate 14 (.server true)
  have hharmless : ∀ u, ∀ a, a ≠ .server false → HarmlessFailure u a := fun u a ha hfails => absurd hfails.1 ha
  have hrun : (watched.exec unwatched first).map (fun u => (u.state.server.pc, u.state.server.recive_msg.type,
      u.state.server.recive_msg.client_id, List.ofFn fun i => (u.state.server.clients i).isSome)) =
      some (.receive, .MESSAGE, 0, List.ofFn fun i : Fin 10 => decide (i = 0)) := by
    decide +kernel
  have hrest : (watched.exec unwatched (first ++ .server false :: List.replicate 13 (.server true))).map
      (fun u => (u.kept.isSome, u.arrived.length)) = some (true, 2) := by
    decide +kernel
  obtain ⟨u, hu, heq⟩ := Option.map_eq_some_iff.mp hrun
  simp only [Prod.mk.injEq] at heq
  obtain ⟨hpc, htype, hid, hslots⟩ := heq
  obtain ⟨t, ht, hlast⟩ := Option.map_eq_some_iff.mp hrest
  simp only [Prod.mk.injEq] at hlast
  rw [Machine.exec_append_of_eq hu] at ht
  obtain ⟨x, hx, hxt⟩ := Machine.exec_cons_eq_some.mp ht
  have hreach : watched.ReachableBy HarmlessFailure u := by
    refine Machine.ReachableBy.exec (.start ⟨quiet_started, rfl, rfl⟩) (fun w a ha => hharmless w a ?_) hu
    rintro rfl
    simp [first] at ha
  have hinert : u.state.server.Inert := by
    refine .inr ⟨htype, fun i hi => ?_⟩
    have hi0 := congrFun (List.ofFn_injective hslots) i
    have : i = 0 := by simpa [Option.isSome_iff_ne_none.mpr hi] using hi0.symm
    rw [this, hid]
    rfl
  have hlater : watched.ReachableBy HarmlessFailure t := by
    refine Machine.ReachableBy.exec (.step hreach (fun _ => hinert) hx) (fun w a ha => hharmless w a ?_) hxt
    rw [List.eq_of_mem_replicate ha]
    exact fun hfalse => by cases hfalse
  exact ⟨t, hlater, hlast.1, hlast.2, failures_undisturbed hlater⟩

/-- A receive that fails after an INIT enters the client a second time. -/
theorem not_failures_undisturbed : ¬∀ u, watched.Reachable u → Undisturbed u := by
  intro hall
  let p : Pid := ⟨1, by decide, by decide⟩
  have hrun : (watched.exec unwatched (.arrive ⟨p, initMessage p⟩ :: List.replicate 5 (.server true) ++
      [.server false, .server true])).map (fun u => (u.kept.map fun x => (List.ofFn x.clients).countP Option.isSome,
        (List.ofFn u.state.server.clients).countP Option.isSome)) = some (some 1, 2) := by
    decide +kernel
  obtain ⟨u, hu, heq⟩ := Option.map_eq_some_iff.mp hrun
  simp only [Prod.mk.injEq] at heq
  obtain ⟨hkept, hclients⟩ := heq
  obtain ⟨x, hx, hcount⟩ := Option.map_eq_some_iff.mp hkept
  have hreach : watched.Reachable u := Machine.Reachable.exec (.start ⟨quiet_started, rfl, rfl⟩) hu
  have hsame := ((hall u hreach).kept x hx).1
  rw [hsame, hcount] at hclients
  exact absurd hclients (by decide)

end SystemyOperacyjne.QueueChat
