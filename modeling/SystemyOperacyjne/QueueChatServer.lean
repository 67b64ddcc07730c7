import SystemyOperacyjne.QueueChatInvariant

/-!
# The steps of the queue chat server

Each step of the server keeps the invariant: what it sends is the first thing that it owes,
and the slot table follows the log.
-/

namespace SystemyOperacyjne.QueueChat
open Concurrency CString

variable {s t : State}

lemma Ok.at_pc (h : Ok s) {pc : ServerPc} (hpc : s.server.pc = pc) : PcOk s pc := by
  rw [← hpc]
  exact h.pc

lemma Ok.goto (h : Ok s) {pc : ServerPc} (hpc : PcOk s pc) (hseen : (s.serverAt pc).seen = s.seen)
    (howed : ∀ p, (s.serverAt pc).owed (client_queue_name p) = s.owed (client_queue_name p)) :
    Ok (s.serverAt pc) := by
  refine ⟨h.table, h.unique, h.flight, h.order, h.phase, hpc, fun p => ?_⟩
  obtain ⟨k, hput, hslot⟩ := h.put p
  refine ⟨k, ?_, hslot⟩
  rw [hseen, howed]
  exact hput

lemma Ok.deliver (h : Ok s) {pc : ServerPc} {n : QueueName} {m : message_msg} (hpc : PcOk s pc)
    (hseen : (s.serverAt pc).seen = s.seen)
    (howed : ∀ p, s.owed (client_queue_name p) =
      (if client_queue_name p = n then [(s.processed.length - 1, m)] else []) ++
        (s.serverAt pc).owed (client_queue_name p))
    (hs : (s.serverAt pc).mq_send n m = some t) : Ok t := by
  obtain ⟨-, rfl⟩ := mq_send_eq_some.mp hs
  refine ⟨h.table, h.unique, h.flight, h.order, h.phase, hpc, fun p => ?_⟩
  obtain ⟨k, hput, hslot⟩ := h.put p
  refine ⟨k, ?_, hslot⟩
  have hgoal : Function.update s.put n (s.put n ++ [(s.processed.length - 1, m)]) (client_queue_name p) ++
      (s.serverAt pc).owed (client_queue_name p) = (transcript p (s.serverAt pc).seen).map (render k) := by
    rw [hseen, ← hput, howed p]
    by_cases hn : client_queue_name p = n
    · rw [if_pos hn, hn, Function.update_self, List.append_assoc]
    · rw [if_neg hn, Function.update_of_ne hn, List.nil_append]
  exact hgoal

/-- What was on its way stays so if its sender keeps its slot and has not joined since. -/
lemma InFlight.of_sender {e : Entry} (h : InFlight s e)
    (hslot : ∀ k, s.server.clients k = some (client_queue_name e.sender) →
      t.server.clients k = some (client_queue_name e.sender))
    (hjoined : HasJoined e.sender t.events → HasJoined e.sender s.events) : InFlight t e := by
  unfold InFlight at h ⊢
  cases htype : e.msg.type with
  | INIT =>
    simp only [htype] at h ⊢
    exact ⟨h.1, mt hjoined h.2⟩
  | IDENTIFIER =>
    simp only [htype] at h
  | MESSAGE | STOP =>
    simp only [htype] at h ⊢
    obtain ⟨k, hk, hid⟩ := h
    exact ⟨k, hslot k hk, hid⟩

lemma flight_of_current {e : Entry} (h : s.current = some e) : s.flight = e :: s.server_queue := by
  rw [State.flight, h]
  rfl

lemma Ok.sender_ne (h : Ok s) {e : Entry} (he : s.current = some e) (htype : e.msg.type ≠ .MESSAGE) :
    ∀ x ∈ s.server_queue, x.sender ≠ e.sender := by
  have horder := h.order
  rw [flight_of_current he, List.pairwise_cons] at horder
  exact fun x hx hsender => htype (horder.1 x hx hsender.symm).1

lemma Ok.order_tail (h : Ok s) {e : Entry} (he : s.current = some e) :
    s.server_queue.Pairwise fun e e' => e.sender = e'.sender → e.msg.type = .MESSAGE ∧ e'.msg.type ≠ .INIT := by
  have horder := h.order
  rw [flight_of_current he, List.pairwise_cons] at horder
  exact horder.2

lemma Ok.flight_tail (h : Ok s) {e x : Entry} (he : s.current = some e) (hx : x ∈ s.server_queue) : InFlight s x := by
  apply h.flight
  rw [flight_of_current he]
  exact List.mem_cons_of_mem _ hx

lemma processed_eq {e : Entry} (he : s.current = some e) : s.processed = s.log ++ [e] := by
  rw [State.processed, he]
  rfl

lemma Ok.phase_tail (h : Ok s) {e : Entry} (he : s.current = some e) (p : Pid) :
    PhaseOk (s.processed ++ s.server_queue) p (s.client p).parent := by
  have hphase := h.phase p
  rwa [flight_of_current he, List.append_cons, ← processed_eq he] at hphase

/-! ### A slot of the table changes -/

section
variable {ι α : Type} [DecidableEq ι] {table : ι → Option α} {i k : ι} {x y : α}

lemma of_update_some (hk : Function.update table i (some x) k = some y) : k ≠ i ∧ table k = some y ∨ k = i ∧ y = x := by
  by_cases hki : k = i
  · rw [hki, Function.update_self] at hk
    exact .inr ⟨hki, (Option.some.inj hk).symm⟩
  · rw [Function.update_of_ne hki] at hk
    exact .inl ⟨hki, hk⟩

lemma of_update_none (hk : Function.update table i none k = some y) : k ≠ i ∧ table k = some y := by
  by_cases hki : k = i
  · rw [hki, Function.update_self] at hk
    cases hk
  · rw [Function.update_of_ne hki] at hk
    exact ⟨hki, hk⟩

lemma update_of_some {z : Option α} (hi : table i ≠ some y) (hk : table k = some y) :
    Function.update table i z k = some y := by
  have hki : k ≠ i := by
    rintro rfl
    exact hi hk
  rwa [Function.update_of_ne hki]

lemma unique_update (hunique : ∀ j k y, table j = some y → table k = some y → j = k) (hnew : ∀ k, table k ≠ some x)
    (j k : ι) (y : α) (hj : Function.update table i (some x) j = some y)
    (hk : Function.update table i (some x) k = some y) : j = k := by
  rcases of_update_some hj with ⟨-, hj'⟩ | ⟨hji, rfl⟩
  · rcases of_update_some hk with ⟨-, hk'⟩ | ⟨-, rfl⟩
    · exact hunique j k y hj' hk'
    · exact absurd hj' (hnew j)
  · rcases of_update_some hk with ⟨-, hk'⟩ | ⟨hki, -⟩
    · exact absurd hk' (hnew k)
    · rw [hji, hki]

end

/-! ### The steps of the server -/

lemma Ok.receive (h : Ok s) (hpc : s.server.pc = .receive) {e : Entry} {rest : List Entry}
    (hq : s.server_queue = e :: rest) :
    Ok { s with
      server := { s.server with pc := .dispatch, recive_msg := e.msg }
      server_queue := rest
      current := some e } := by
  have hcur : s.current = none := h.at_pc hpc
  have hflight : s.flight = e :: rest := by rw [State.flight, hcur, hq]; rfl
  refine ⟨h.table, h.unique, ?_, ?_, ?_, ⟨e, rfl, rfl⟩, fun p => ?_⟩
  · have hfl := h.flight
    rw [hflight] at hfl
    exact hfl
  · have horder := h.order
    rw [hflight] at horder
    exact horder
  · have hphase := h.phase
    rw [hflight] at hphase
    exact hphase
  · obtain ⟨k, hput, hslot⟩ := h.put p
    refine ⟨k, ?_, hslot⟩
    have hseen : s.seen = s.events := by
      simp only [State.seen, hpc, State.processed, hcur, Option.toList_none, List.append_nil, State.events]
    have howed : s.owed (client_queue_name p) = [] := by simp only [State.owed, hpc]
    rw [hseen, howed] at hput
    exact hput

lemma freeSlot_eq_some {clients : Fin 10 → Option QueueName} {id : Fin 10} (h : freeSlot clients = some id) :
    clients id = none := by
  simpa using List.find?_some h

lemma Ok.admit (h : Ok s) (hpc : s.server.pc = .dispatch) {e : Entry} (he : s.current = some e)
    (hmsg : s.server.recive_msg = e.msg) (htype : e.msg.type = .INIT) {id : Fin 10}
    (hid : freeSlot s.server.clients = some id) :
    Ok { s.finish with server := { s.server with
      pc := .sendIdentifier id
      clients := Function.update s.server.clients id (some (cString s.server.recive_msg.text)) } } := by
  have hfree := freeSlot_eq_some hid
  obtain ⟨hinit, hnew⟩ : e.msg = initMessage e.sender ∧ ¬HasJoined e.sender s.events := by
    have := h.flight e (by rw [flight_of_current he]; exact List.mem_cons_self)
    simpa only [InFlight, htype] using this
  have hname : cString s.server.recive_msg.text = client_queue_name e.sender := by
    rw [hmsg, hinit, cString_initMessage]
  rw [hname]
  have hprocessed := processed_eq he
  have hevent : e.event = .join e.sender := by simp only [Entry.event, htype]
  have hevents : s.processed.map Entry.event = s.events ++ [.join e.sender] := by
    rw [hprocessed, List.map_append, List.map_singleton, hevent]
    rfl
  have hkeep : ∀ k n, s.server.clients k = some n →
      Function.update s.server.clients id (some (client_queue_name e.sender)) k = some n :=
    fun k n => update_of_some (by simp [hfree])
  have hnoslot : ∀ k, s.server.clients k ≠ some (client_queue_name e.sender) :=
    fun k hk => hnew ((h.table e.sender).mp ⟨k, hk⟩).1
  refine ⟨fun q => ?_, unique_update h.unique hnoslot, fun x hx => ?_, h.order_tail he, h.phase_tail he, rfl,
    fun q => ?_⟩
  · refine Iff.trans ?_ (iff_of_eq (congrArg (Member q) hevents.symm))
    rw [member_append_join]
    constructor
    · rintro ⟨k, hk⟩
      rcases of_update_some hk with ⟨-, hk⟩ | ⟨-, hn⟩
      · exact .inl ((h.table q).mp ⟨k, hk⟩)
      · have hq := client_queue_name_injective hn
        subst hq
        exact .inr ⟨rfl, hnew⟩
    · rintro (hm | ⟨rfl, -⟩)
      · obtain ⟨k, hk⟩ := (h.table q).mpr hm
        exact ⟨k, hkeep k _ hk⟩
      · exact ⟨id, Function.update_self _ _ _⟩
  · have hin : x ∈ s.server_queue := hx
    have hne := h.sender_ne he (by simp [htype]) x hin
    refine (h.flight_tail he hin).of_sender (fun k hk => hkeep k _ hk) fun hj => ?_
    have hj' : HasJoined x.sender (s.processed.map Entry.event) := hj
    rw [hevents, joined_append] at hj'
    rcases hj' with hj' | hj'
    · exact hj'
    · exact absurd (by simpa [GroupEvent.isJoin] using hj') (Ne.symm hne)
  · obtain ⟨k, hput, hslot⟩ := h.put q
    have hseen : s.seen = s.events := by simp only [State.seen, hpc]
    have howed : s.owed (client_queue_name q) = [] := by simp only [State.owed, hpc]
    rw [hseen, howed, List.append_nil] at hput
    have hlen : (s.processed ++ []).length - 1 = s.events.length := by
      rw [List.append_nil, hprocessed, State.events, List.length_map, List.length_append]
      rfl
    have hevents' : (s.processed ++ []).map Entry.event = s.events ++ [.join e.sender] := by
      rw [List.append_nil, hevents]
    have hgoal : ∀ j, s.put (client_queue_name q) ++
        (if Function.update s.server.clients id (some (client_queue_name e.sender)) id = some (client_queue_name q)
          then [((s.processed ++ []).length - 1, identifierMessage id)] else []) =
        (transcript q (s.events ++ [.join e.sender])).map (render j) →
        (Member q (s.events ++ [.join e.sender]) →
          Function.update s.server.clients id (some (client_queue_name e.sender)) j = some (client_queue_name q)) →
        PutOk { s.finish with server := { s.server with
          pc := .sendIdentifier id
          clients := Function.update s.server.clients id (some (client_queue_name e.sender)) } } q := by
      intro j hj hm
      rw [← hevents'] at hj
      rw [← hevents] at hm
      exact ⟨j, hj, hm⟩
    by_cases hq : q = e.sender
    · subst hq
      refine hgoal id ?_ fun _ => Function.update_self _ _ _
      rw [transcript_of_not_joined hnew, List.map_nil] at hput
      rw [hput, Function.update_self, if_pos rfl, transcript_append, transcript_of_not_joined hnew, hlen]
      simp [note, hnew, render]
    · refine hgoal k ?_ fun hm => ?_
      · have hne : client_queue_name e.sender ≠ client_queue_name q :=
          fun hn => hq (client_queue_name_injective hn).symm
        rw [Function.update_self, if_neg (by simpa using hne), List.append_nil, hput, transcript_append]
        simp [note, Ne.symm hq]
      · rw [member_append_join] at hm
        rcases hm with hm | ⟨hm, -⟩
        · exact hkeep k _ (hslot hm)
        · exact absurd hm.symm hq

lemma processed_of_current {e : Entry} (he : s.current = some e) :
    s.processed.map Entry.event = s.events ++ [e.event] ∧ s.processed.length - 1 = s.events.length := by
  rw [processed_eq he, State.events, List.map_append, List.map_singleton, List.length_append, List.length_map]
  exact ⟨rfl, rfl⟩

lemma Ok.slot_of_current (h : Ok s) {e : Entry} (he : s.current = some e)
    (htype : e.msg.type = .MESSAGE ∨ e.msg.type = .STOP) :
    ∃ k : Fin 10, s.server.clients k = some (client_queue_name e.sender) ∧ e.msg.client_id = k := by
  have hflight := h.flight e (by rw [flight_of_current he]; exact List.mem_cons_self)
  rcases htype with htype | htype
  · simpa only [InFlight, htype] using hflight
  · simpa only [InFlight, htype] using hflight

lemma Ok.startBroadcast (h : Ok s) (hpc : s.server.pc = .dispatch) {e : Entry} (he : s.current = some e)
    (hmsg : s.server.recive_msg = e.msg) (htype : e.msg.type = .MESSAGE) : Ok (s.serverAt (.broadcast 0)) := by
  refine ⟨h.table, h.unique, h.flight, h.order, h.phase, ⟨e, he, hmsg, htype⟩, fun q => ?_⟩
  obtain ⟨k, hput, hslot⟩ := h.put q
  refine ⟨k, ?_, hslot⟩
  obtain ⟨hevents, hlen⟩ := processed_of_current he
  obtain ⟨j, hj, hid⟩ := h.slot_of_current he (.inl htype)
  have hseen : s.seen = s.events := by simp only [State.seen, hpc]
  have howed : s.owed (client_queue_name q) = [] := by simp only [State.owed, hpc]
  have hevent : e.event = .say e.sender e.msg := by simp only [Entry.event, htype]
  have hiff : (∃ i : Fin 10, 0 ≤ i.val ∧ s.server.clients i = some (client_queue_name q) ∧
      (i : ℤ) ≠ s.server.recive_msg.client_id) ↔ e.sender ≠ q ∧ Member q s.events := by
    rw [← h.table q, hmsg, hid]
    constructor
    · rintro ⟨i, -, hi, hne⟩
      refine ⟨fun hq => hne ?_, i, hi⟩
      rw [← hq] at hi
      rw [h.unique i j _ hi hj]
    · rintro ⟨hq, i, hi⟩
      refine ⟨i, Nat.zero_le _, hi, fun hij => hq ?_⟩
      have hij' : i = j := Fin.ext (by omega)
      rw [hij', hj] at hi
      exact client_queue_name_injective (Option.some.inj hi)
  have hgoal : s.put (client_queue_name q) ++
      (if ∃ i : Fin 10, 0 ≤ i.val ∧ s.server.clients i = some (client_queue_name q) ∧
          (i : ℤ) ≠ s.server.recive_msg.client_id then [(s.processed.length - 1, s.server.recive_msg)] else []) =
      (transcript q (s.processed.map Entry.event)).map (render k) := by
    rw [hseen, howed, List.append_nil] at hput
    rw [hput, hevents, transcript_append, hevent, hlen, hmsg]
    rw [hmsg] at hiff
    by_cases hm : e.sender ≠ q ∧ Member q s.events
    · rw [if_pos (hiff.mpr hm)]
      simp [note, hm, render]
    · rw [if_neg (mt hiff.mp hm)]
      simp only [note, if_neg hm]
      simp
  exact hgoal

/-- The loop over the clients at `i`: the client in the slot `i` is the next to be sent the
message, unless the message is its own. -/
lemma Ok.broadcast (h : Ok s) {i : ℕ} (hpc : s.server.pc = .broadcast i) (hi : i < 10)
    (hs : broadcastStep s i true = some t) : Ok t := by
  have hbroadcast := h.at_pc hpc
  have hok : PcOk s (.broadcast (i + 1)) := hbroadcast
  have hseen : (s.serverAt (.broadcast (i + 1))).seen = s.seen := seen_serverAt (by simp [hpc]) (by simp)
  have howed : ∀ n, s.owed n = if ∃ j : Fin 10, i ≤ j.val ∧ s.server.clients j = some n ∧
      (j : ℤ) ≠ s.server.recive_msg.client_id then [(s.processed.length - 1, s.server.recive_msg)] else [] := by
    intro n
    simp only [State.owed, hpc]
  have howed' : ∀ n, (s.serverAt (.broadcast (i + 1))).owed n =
      if ∃ j : Fin 10, i + 1 ≤ j.val ∧ s.server.clients j = some n ∧
        (j : ℤ) ≠ s.server.recive_msg.client_id then [(s.processed.length - 1, s.server.recive_msg)] else [] :=
    fun n => rfl
  have hskip : (∀ n, s.server.clients ⟨i, hi⟩ = some n → (i : ℤ) = s.server.recive_msg.client_id) →
      Ok (s.serverAt (.broadcast (i + 1))) := by
    intro hnot
    refine h.goto hok hseen fun p => ?_
    rw [howed, howed']
    refine if_congr ?_ rfl rfl
    constructor
    · rintro ⟨j, hj, hrest⟩
      exact ⟨j, by omega, hrest⟩
    · rintro ⟨j, hj, hslot, hne⟩
      refine ⟨j, ?_, hslot, hne⟩
      by_contra hlt
      have hji : j = ⟨i, hi⟩ := Fin.ext (by simp only; omega)
      subst hji
      exact hne (hnot _ hslot)
  unfold broadcastStep at hs
  rw [dif_pos hi] at hs
  cases hslot : s.server.clients ⟨i, hi⟩ with
  | none =>
    simp only [hslot, Option.some.injEq] at hs
    subst hs
    exact hskip fun n hn => by simp [hslot] at hn
  | some name =>
    simp only [hslot, and_true] at hs
    by_cases hid : (i : ℤ) = s.server.recive_msg.client_id
    · rw [if_neg (not_not.mpr hid)] at hs
      cases hs
      exact hskip fun _ _ => hid
    · rw [if_pos hid] at hs
      refine h.deliver hok hseen (fun p => ?_) hs
      rw [howed, howed']
      by_cases hname : client_queue_name p = name
      · have hnow : ∃ j : Fin 10, i ≤ j.val ∧ s.server.clients j = some (client_queue_name p) ∧
            (j : ℤ) ≠ s.server.recive_msg.client_id :=
          ⟨⟨i, hi⟩, le_rfl, by rw [hslot, hname], hid⟩
        have hlater : ¬∃ j : Fin 10, i + 1 ≤ j.val ∧ s.server.clients j = some (client_queue_name p) ∧
            (j : ℤ) ≠ s.server.recive_msg.client_id := by
          rintro ⟨j, hj, hsame, -⟩
          rw [hname] at hsame
          have hji := h.unique j ⟨i, hi⟩ _ hsame hslot
          rw [hji] at hj
          simp only at hj
          omega
        rw [if_pos hnow, if_pos hname, if_neg hlater, List.append_nil]
      · rw [if_neg hname, List.nil_append]
        refine if_congr ?_ rfl rfl
        constructor
        · rintro ⟨j, hj, hsame, hne⟩
          refine ⟨j, ?_, hsame, hne⟩
          by_contra hlt
          have hji : j = ⟨i, hi⟩ := Fin.ext (by simp only; omega)
          rw [hji, hslot] at hsame
          exact hname (Option.some.inj hsame).symm
        · rintro ⟨j, hj, hrest⟩
          exact ⟨j, by omega, hrest⟩

lemma Ok.finishBroadcast (h : Ok s) {i : ℕ} (hpc : s.server.pc = .broadcast i) (hi : ¬i < 10) :
    Ok (s.serverAt .loop).finish := by
  obtain ⟨e, he, hmsg, htype⟩ := h.at_pc hpc
  obtain ⟨hevents, -⟩ := processed_of_current he
  have hevent : e.event = .say e.sender e.msg := by simp only [Entry.event, htype]
  rw [hevent] at hevents
  have hmember : ∀ q, Member q (s.processed.map Entry.event) ↔ Member q s.events := by
    intro q
    rw [hevents, member_append_say]
  refine ⟨fun q => (h.table q).trans (hmember q).symm, h.unique, fun x hx => ?_, h.order_tail he, h.phase_tail he, rfl,
    fun q => ?_⟩
  · have hin : x ∈ s.server_queue := hx
    refine (h.flight_tail he hin).of_sender (fun _ hk => hk) fun hj => ?_
    have hj' : HasJoined x.sender (s.processed.map Entry.event) := hj
    rw [hevents, joined_append] at hj'
    simpa [GroupEvent.isJoin] using hj'
  · obtain ⟨k, hput, hslot⟩ := h.put q
    have howed : s.owed (client_queue_name q) = [] := by
      simp only [State.owed, hpc]
      rw [if_neg]
      rintro ⟨j, hj, -⟩
      have := j.isLt
      omega
    have hseen : s.seen = s.processed.map Entry.event := by simp only [State.seen, hpc]
    rw [howed, hseen, ← List.append_nil s.processed] at hput
    exact ⟨k, hput, fun hm => hslot ((hmember q).mp hm)⟩

lemma Ok.startGoodbye (h : Ok s) (hpc : s.server.pc = .dispatch) {e : Entry} (he : s.current = some e)
    (htype : e.msg.type = .STOP) {k : Fin 10} (hk : s.server.clients k = some (client_queue_name e.sender)) :
    Ok (s.serverAt (.sendGoodbye k)) := by
  refine ⟨h.table, h.unique, h.flight, h.order, h.phase, ⟨e, he, htype, hk⟩, fun q => ?_⟩
  obtain ⟨j, hput, hslot⟩ := h.put q
  refine ⟨j, ?_, hslot⟩
  obtain ⟨hevents, hlen⟩ := processed_of_current he
  have hseen : s.seen = s.events := by simp only [State.seen, hpc]
  have howed : s.owed (client_queue_name q) = [] := by simp only [State.owed, hpc]
  have hevent : e.event = .leave e.sender := by simp only [Entry.event, htype]
  rw [hseen, howed, List.append_nil] at hput
  have hgoal : s.put (client_queue_name q) ++
      (if s.server.clients k = some (client_queue_name q) then [(s.processed.length - 1, endMessage k)] else []) =
      (transcript q (s.processed.map Entry.event)).map (render j) := by
    rw [hput, hevents, transcript_append, hevent, hlen, hk]
    by_cases hq : e.sender = q
    · subst hq
      have hmember := (h.table e.sender).mp ⟨k, hk⟩
      have hjk := h.unique j k _ (hslot hmember) hk
      rw [if_pos rfl]
      simp [note, hmember, render, hjk]
    · have hne : client_queue_name e.sender ≠ client_queue_name q := fun hn => hq (client_queue_name_injective hn)
      rw [if_neg (by simpa using hne)]
      simp [note, hq]
  exact hgoal

lemma Ok.close (h : Ok s) {id : Fin 10} (hpc : s.server.pc = .close id) :
    Ok { s.finish with server := { s.server with
      pc := .loop
      clients := Function.update s.server.clients id none } } := by
  obtain ⟨e, he, htype, hid⟩ := h.at_pc hpc
  obtain ⟨hevents, -⟩ := processed_of_current he
  have hevent : e.event = .leave e.sender := by simp only [Entry.event, htype]
  rw [hevent] at hevents
  have hmember : ∀ q, Member q (s.processed.map Entry.event) ↔ Member q s.events ∧ e.sender ≠ q := by
    intro q
    rw [hevents, member_append_leave]
  have hkeep : ∀ k q, e.sender ≠ q → s.server.clients k = some (client_queue_name q) →
      Function.update s.server.clients id none k = some (client_queue_name q) := by
    intro k q hq
    apply update_of_some
    rw [hid]
    exact fun hn => hq (client_queue_name_injective (Option.some.inj hn))
  refine ⟨fun q => ?_, fun j k n hj hk => h.unique j k n (of_update_none hj).2 (of_update_none hk).2,
    fun x hx => ?_, h.order_tail he, h.phase_tail he, rfl, fun q => ?_⟩
  · refine Iff.trans ?_ (hmember q).symm
    constructor
    · rintro ⟨k, hk⟩
      obtain ⟨hki, hk⟩ := of_update_none hk
      refine ⟨(h.table q).mp ⟨k, hk⟩, fun hq => hki ?_⟩
      rw [← hq] at hk
      exact h.unique k id _ hk hid
    · rintro ⟨hm, hq⟩
      obtain ⟨k, hk⟩ := (h.table q).mpr hm
      exact ⟨k, hkeep k q hq hk⟩
  · have hin : x ∈ s.server_queue := hx
    have hne := h.sender_ne he (by simp [htype]) x hin
    refine (h.flight_tail he hin).of_sender (fun k hk => hkeep k _ (Ne.symm hne) hk) fun hj => ?_
    have hj' : HasJoined x.sender (s.processed.map Entry.event) := hj
    rw [hevents, joined_append] at hj'
    simpa [GroupEvent.isJoin] using hj'
  · obtain ⟨k, hput, hslot⟩ := h.put q
    have howed : s.owed (client_queue_name q) = [] := by simp only [State.owed, hpc]
    have hseen : s.seen = s.processed.map Entry.event := by simp only [State.seen, hpc]
    rw [howed, hseen, ← List.append_nil s.processed] at hput
    refine ⟨k, hput, fun hm => ?_⟩
    obtain ⟨hm, hq⟩ := (hmember q).mp hm
    exact hkeep k q hq (hslot hm)

lemma slot?_natCast (k : Fin 10) : slot? (k : ℤ) = some k := by
  unfold slot?
  rw [dif_pos (by omega)]
  simp

lemma Ok.dispatch (h : Ok s) (hrel : Reliable s (.server true)) (hpc : s.server.pc = .dispatch) :
    Ok (dispatchStep s true) := by
  obtain ⟨e, he, hmsg⟩ := h.at_pc hpc
  have hflight := h.flight e (by rw [flight_of_current he]; exact List.mem_cons_self)
  cases htype : e.msg.type with
  | INIT =>
    have hfree := hrel.free true rfl hpc (by rw [hmsg, htype])
    obtain ⟨id, hid⟩ := Option.ne_none_iff_exists'.mp hfree
    have hstep := h.admit hpc he hmsg htype hid
    simpa only [dispatchStep, hmsg, htype, hid, if_true] using hstep
  | MESSAGE =>
    have hstep := h.startBroadcast hpc he hmsg htype
    simpa only [dispatchStep, hmsg, htype] using hstep
  | STOP =>
    obtain ⟨k, hk, hid⟩ := h.slot_of_current he (.inr htype)
    have hstep := h.startGoodbye hpc he htype hk
    simpa [dispatchStep, hmsg, htype, hid, slot?_natCast, hk] using hstep
  | IDENTIFIER =>
    simp only [InFlight, htype] at hflight

lemma Ok.server (h : Ok s) {ok : Bool} (hrel : Reliable s (.server ok)) (hs : serverStep s ok = some t) :
    Ok t := by
  obtain rfl : ok = true := hrel.succeeds ok rfl
  cases hpc : s.server.pc with
  | loop =>
    have hok := h.at_pc hpc
    have hseen : ∀ pc, pc ≠ .dispatch → (s.serverAt pc).seen = s.seen :=
      fun pc => seen_serverAt (by simp [hpc])
    simp only [serverStep, hpc] at hs
    split at hs
    · cases hs
      exact h.goto hok (hseen _ (by simp)) fun p => by simp only [State.owed, State.serverAt, hpc]
    · cases hs
      exact h.goto hok (hseen _ (by simp)) fun p => by simp only [State.owed, State.serverAt, hpc]
  | receive =>
    simp only [serverStep, hpc, if_true] at hs
    cases hq : s.server_queue with
    | nil => simp [hq] at hs
    | cons e rest =>
      simp only [hq, Option.some.injEq] at hs
      subst hs
      exact h.receive hpc hq
  | dispatch =>
    simp only [serverStep, hpc, Option.some.injEq] at hs
    subst hs
    exact h.dispatch hrel hpc
  | sendIdentifier id =>
    have hcurrent := h.at_pc hpc
    have hok : PcOk s .loop := hcurrent
    have hseen : (s.serverAt .loop).seen = s.seen := seen_serverAt (by simp [hpc]) (by simp)
    simp only [serverStep, hpc, if_true] at hs
    cases hslot : s.server.clients id with
    | none =>
      simp only [hslot, Option.some.injEq] at hs
      subst hs
      exact h.goto hok hseen fun p => by simp [State.owed, State.serverAt, hpc, hslot]
    | some name =>
      simp only [hslot] at hs
      refine h.deliver hok hseen (fun p => ?_) hs
      by_cases hname : client_queue_name p = name
      · simp [State.owed, State.serverAt, hpc, hslot, hname]
      · simp [State.owed, State.serverAt, hpc, hslot, hname, Ne.symm hname]
  | broadcast i =>
    simp only [serverStep, hpc] at hs
    by_cases hi : i < 10
    · exact h.broadcast hpc hi hs
    · rw [broadcastStep, dif_neg hi, Option.some.injEq] at hs
      subst hs
      exact h.finishBroadcast hpc hi
  | sendGoodbye id =>
    obtain ⟨e, he, htype, hslot⟩ := h.at_pc hpc
    have hok : PcOk s (.close id) := ⟨e, he, htype, hslot⟩
    have hseen : (s.serverAt (.close id)).seen = s.seen := seen_serverAt (by simp [hpc]) (by simp)
    simp only [serverStep, hpc, hslot, if_true] at hs
    refine h.deliver hok hseen (fun p => ?_) hs
    by_cases hname : client_queue_name p = client_queue_name e.sender
    · simp [State.owed, State.serverAt, hpc, hslot, hname]
    · simp [State.owed, State.serverAt, hpc, hslot, hname, Ne.symm hname]
  | close id =>
    simp only [serverStep, hpc, Option.some.injEq] at hs
    subst hs
    exact h.close hpc
  | done | exited | fault => simp [serverStep, hpc] at hs

lemma Started.ok (h : Started s) : Ok s := by
  have hevents : s.events = [] := by simp [State.events, h.log]
  have hflight : s.flight = [] := by simp [State.flight, h.current, h.server_queue]
  refine ⟨fun p => ?_, fun j k n hj => ?_, fun e he => ?_, ?_, fun p => ?_, ?_, fun p => ⟨0, ?_, fun hm => ?_⟩⟩
  · rw [h.clients, hevents]
    simp [Member, HasJoined]
  · rw [h.clients] at hj
    cases hj
  · rw [hflight] at he
    cases he
  · rw [hflight]
    exact List.Pairwise.nil
  · rw [h.parent, hflight, h.log]
    intro e he
    cases he
  · rw [h.pc]
    exact h.current
  · have hseen : s.seen = [] := by simp [State.seen, h.pc, State.processed, h.log, h.current]
    rw [h.put, hseen, State.owed, h.pc]
    rfl
  · rw [hevents] at hm
    exact absurd hm.1 (by simp [HasJoined])

theorem ok_of_reachable (h : machine.ReachableBy Reliable s) : Ok s := by
  refine h.invariant (I := Ok) (fun u hu => Started.ok hu) ?_
  intro u a v hu hrel hn
  cases a with
  | server ok => exact hu.server hrel hn
  | parent p ok typed => exact hu.parent hrel hn
  | child p ok => exact hu.child hn
  | interruptServer => exact hu.interrupt (.inl rfl) hn
  | interruptParent p => exact hu.interrupt (.inr ⟨p, .inl rfl⟩) hn
  | interruptChild p => exact hu.interrupt (.inr ⟨p, .inr rfl⟩) hn

end SystemyOperacyjne.QueueChat
