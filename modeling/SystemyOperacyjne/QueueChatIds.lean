import SystemyOperacyjne.QueueChatTable

/-!
# The ids of the queue chat

Ids are the indices of the slots, lowest first, and are used again. A client that joins when
it is not in the group and uses the id it was given stays in its slot, alone, until its STOP;
the slot is given away only after the goodbye.
-/

namespace SystemyOperacyjne.QueueChat
open Concurrency CString

variable {s t : State}

/-- A message that follows the protocol after the messages `before`: a client that is not in the
group says INIT and names its queue; one that has been told its id since says the rest. -/
def WellSent (s : State) (before : List Entry) (e : Entry) : Prop :=
  match e.msg.type with
  | .INIT => cString e.msg.text = client_queue_name e.sender ∧ stay e.sender (before.map Entry.event) = none
  | .MESSAGE | .STOP => ∃ (n : ℕ) (k : Fin 10), stay e.sender (before.map Entry.event) = some n ∧
      (n, identifierMessage k) ∈ s.put (client_queue_name e.sender) ∧ e.msg.client_id = k
  | .IDENTIFIER => False

/-- The messages follow the protocol, the server receives them, and for INIT there is a free slot
and the client's queue opens. -/
def Identified (s : State) : SenderAction QueueName → Prop
  | .arrive e => WellSent s (s.log ++ s.flight) e
  | .server ok => (s.server.pc = .receive → ok = true) ∧
      (s.server.pc = .dispatch → s.server.recive_msg.type = .INIT → ok = true ∧ ∃ id, s.server.clients id = none)
  | _ => True

/-- What the server deals with, by its place. -/
def IdsPc (s : State) : ServerPc → Prop
  | .loop | .receive | .done => s.current = none
  | .dispatch => ∃ e, s.current = some e ∧ s.server.recive_msg = e.msg
  | .sendIdentifier id => s.current = none ∧
      (∃ p, s.server.clients id = some (client_queue_name p) ∧ stay p s.events = some (s.log.length - 1)) ∧
      ∀ q a, (a, identifierMessage id) ∈ s.put (client_queue_name q) →
        ∃ b, a < b ∧ b < s.log.length - 1 ∧ (b, endMessage id) ∈ s.put (client_queue_name q)
  | .broadcast _ => ∃ e, s.current = some e ∧ s.server.recive_msg = e.msg ∧ e.msg.type = .MESSAGE
  | .sendGoodbye k => ∃ e, s.current = some e ∧ e.msg.type = .STOP ∧
      s.server.clients k = some (client_queue_name e.sender)
  | .close k => ∃ e, s.current = some e ∧ e.msg.type = .STOP ∧
      s.server.clients k = some (client_queue_name e.sender) ∧
      (s.log.length, endMessage k) ∈ s.put (client_queue_name e.sender)
  | .exited => True
  | .fault => False

/-- A client is in one slot from its INIT to its STOP, and that slot is the one it was told; who
was told a slot and is no longer in it was told goodbye. -/
structure Kept (s : State) : Prop where
  unique : ∀ j k n, s.server.clients j = some n → s.server.clients k = some n → j = k
  table : ∀ p, (∃ k, s.server.clients k = some (client_queue_name p)) ↔ stay p s.events ≠ none
  ids : ∀ p n k, stay p s.events = some n → (n, identifierMessage k) ∈ s.put (client_queue_name p) →
    s.server.clients k = some (client_queue_name p)
  put_lt : ∀ q n m, (n, m) ∈ s.put q → n < s.seen.length
  named : ∀ q n m, (n, m) ∈ s.put q → m.type = .IDENTIFIER → ∃ k, m = identifierMessage k
  flight : ∀ i e, s.flight[i]? = some e → WellSent s (s.log ++ s.flight.take i) e
  pc : IdsPc s s.server.pc
  goodbye : ∀ p n k, (n, identifierMessage k) ∈ s.put (client_queue_name p) → stay p s.events = some n ∨
    ∃ b, n < b ∧ b < s.log.length ∧ (b, endMessage k) ∈ s.put (client_queue_name p)
  again : ∀ p q a c k, (a, identifierMessage k) ∈ s.put (client_queue_name p) →
    (c, identifierMessage k) ∈ s.put (client_queue_name q) → a < c →
    ∃ b, a < b ∧ b < c ∧ (b, endMessage k) ∈ s.put (client_queue_name p)

lemma mem_put_deliver {n n' : QueueName} {m : message_msg} {x : ℕ × message_msg} :
    x ∈ (s.deliver n m).put n' ↔ x ∈ s.put n' ∨ n' = n ∧ x = (s.processed.length - 1, m) := by
  by_cases hn : n' = n
  · subst hn
    simp [State.deliver]
  · simp [State.deliver, hn]

lemma WellSent.of_put {before : List Entry} {e : Entry} (h : WellSent s before e)
    (hput : ∀ n x, x ∈ s.put n → x ∈ t.put n) : WellSent t before e := by
  unfold WellSent at h ⊢
  split at h
  · exact h
  · obtain ⟨n, k, hstay, hmem, hid⟩ := h
    exact ⟨n, k, hstay, hput _ _ hmem, hid⟩
  · obtain ⟨n, k, hstay, hmem, hid⟩ := h
    exact ⟨n, k, hstay, hput _ _ hmem, hid⟩
  · exact h

lemma Kept.at_pc (h : Kept s) {pc : ServerPc} (hpc : s.server.pc = pc) : IdsPc s pc := by
  rw [← hpc]
  exact h.pc

lemma Kept.goto (h : Kept s) {pc : ServerPc} (hpc : IdsPc s pc)
    (hseen : s.seen.length ≤ (s.serverAt pc).seen.length) : Kept (s.serverAt pc) where
  unique := h.unique
  table := h.table
  ids := h.ids
  put_lt q n m hm := (h.put_lt q n m hm).trans_le hseen
  named := h.named
  flight := h.flight
  pc := hpc
  goodbye := h.goodbye
  again := h.again

lemma Kept.deliver (h : Kept s) {pc : ServerPc} {n : QueueName} {m : message_msg}
    (hpc : IdsPc ((s.serverAt pc).deliver n m) pc) (htype : m.type ≠ .IDENTIFIER)
    (hseen : s.seen.length ≤ (s.serverAt pc).seen.length)
    (hlast : s.processed.length - 1 < (s.serverAt pc).seen.length) : Kept ((s.serverAt pc).deliver n m) := by
  have hold : ∀ q a k, (a, identifierMessage k) ∈ ((s.serverAt pc).deliver n m).put q →
      (a, identifierMessage k) ∈ s.put q := by
    intro q a k hm
    rcases mem_put_deliver.mp hm with hm | ⟨-, he⟩
    · exact hm
    · refine absurd ?_ htype
      rw [← (Prod.mk.inj he).2]
      rfl
  have hput : ∀ q x, x ∈ s.put q → x ∈ ((s.serverAt pc).deliver n m).put q :=
    fun q x hx => mem_put_deliver.mpr (.inl hx)
  refine ⟨h.unique, h.table, ?_, ?_, ?_, ?_, hpc, ?_, ?_⟩
  · exact fun p a k hstay hm => h.ids p a k hstay (hold _ _ _ hm)
  · intro q a x hx
    rcases mem_put_deliver.mp hx with hx | ⟨-, he⟩
    · exact (h.put_lt q a x hx).trans_le hseen
    · rw [(Prod.mk.inj he).1]
      exact hlast
  · intro q a x hx hid
    rcases mem_put_deliver.mp hx with hx | ⟨-, he⟩
    · exact h.named q a x hx hid
    · rw [(Prod.mk.inj he).2] at hid
      exact absurd hid htype
  · exact fun i e he => (h.flight i e he).of_put hput
  · intro p a k hm
    rcases h.goodbye p a k (hold _ _ _ hm) with hstay | ⟨b, hab, hb, hbye⟩
    · exact .inl hstay
    · exact .inr ⟨b, hab, hb, hput _ _ hbye⟩
  · intro p q a c k ha hc hac
    obtain ⟨b, hab, hbc, hbye⟩ := h.again p q a c k (hold _ _ _ ha) (hold _ _ _ hc) hac
    exact ⟨b, hab, hbc, hput _ _ hbye⟩

lemma Kept.tells (h : Kept s) {id : Fin 10} {name : QueueName} (hpc : s.server.pc = .sendIdentifier id)
    (hslot : s.server.clients id = some name) : Kept ((s.serverAt .loop).deliver name (identifierMessage id)) := by
  obtain ⟨hcur, ⟨p, hp, hstay⟩, hfree⟩ := h.at_pc hpc
  obtain rfl : name = client_queue_name p := Option.some.inj (hslot.symm.trans hp)
  have hprocessed : s.processed = s.log := by rw [State.processed, hcur, Option.toList_none, List.append_nil]
  have hseen : s.seen.length = s.log.length := by
    simp only [State.seen, hpc, hprocessed, List.length_map]
  have hlog : s.log.length - 1 < s.log.length := by
    have hlt := stay_lt hstay
    rwa [State.events, List.length_map] at hlt
  have hnew : ∀ q x, x ∈ ((s.serverAt .loop).deliver (client_queue_name p) (identifierMessage id)).put
      (client_queue_name q) → x ∈ s.put (client_queue_name q) ∨ q = p ∧ x = (s.log.length - 1, identifierMessage id) := by
    intro q x hx
    rcases mem_put_deliver.mp hx with hx | ⟨hq, rfl⟩
    · exact .inl hx
    · refine .inr ⟨client_queue_name_injective hq, ?_⟩
      rw [← hprocessed]
      rfl
  have hput : ∀ q x, x ∈ s.put q →
      x ∈ ((s.serverAt .loop).deliver (client_queue_name p) (identifierMessage id)).put q :=
    fun q x hx => mem_put_deliver.mpr (.inl hx)
  have hid : ∀ k, identifierMessage k = identifierMessage id → k = id := by
    intro k he
    have hval := congrArg message_msg.client_id he
    simp only [identifierMessage] at hval
    exact Fin.ext (by omega)
  refine ⟨h.unique, h.table, ?_, ?_, ?_, ?_, hcur, ?_, ?_⟩
  · intro q n k hn hm
    rcases hnew q _ hm with hm | ⟨rfl, he⟩
    · exact h.ids q n k hn hm
    · rw [hid k (Prod.mk.inj he).2]
      exact hp
  · intro q n m hm
    have hlen : ((s.serverAt .loop).deliver (client_queue_name p) (identifierMessage id)).seen.length = s.log.length := by
      rw [← hprocessed]
      exact List.length_map ..
    rw [hlen]
    rcases mem_put_deliver.mp hm with hm | ⟨-, he⟩
    · rw [← hseen]
      exact h.put_lt q n m hm
    · have hn := (Prod.mk.inj he).1
      have hsame : (s.serverAt .loop).processed = s.log := hprocessed
      rw [hsame] at hn
      rw [hn]
      exact hlog
  · intro q n m hm htype
    rcases mem_put_deliver.mp hm with hm | ⟨-, he⟩
    · exact h.named q n m hm htype
    · exact ⟨id, (Prod.mk.inj he).2⟩
  · exact fun i e he => (h.flight i e he).of_put hput
  · intro q n k hm
    rcases hnew q _ hm with hm | ⟨rfl, he⟩
    · rcases h.goodbye q n k hm with hn | ⟨b, hnb, hb, hbye⟩
      · exact .inl hn
      · exact .inr ⟨b, hnb, hb, hput _ _ hbye⟩
    · rw [(Prod.mk.inj he).1]
      exact .inl hstay
  · intro q r a c k ha hc hac
    rcases hnew q _ ha with hqa | ⟨-, hqa⟩
    · rcases hnew r _ hc with hrc | ⟨-, hrc⟩
      · obtain ⟨b, hab, hbc, hbye⟩ := h.again q r a c k hqa hrc hac
        exact ⟨b, hab, hbc, hput _ _ hbye⟩
      · obtain ⟨hlast, hk⟩ := Prod.mk.inj hrc
        rw [hid k hk] at hqa ⊢
        obtain ⟨b, hab, hb, hbye⟩ := hfree q a hqa
        exact ⟨b, hab, by rwa [hlast], hput _ _ hbye⟩
    · have hlast := (Prod.mk.inj hqa).1
      rcases hnew r _ hc with hrc | ⟨-, hrc⟩
      · have hlt := h.put_lt _ c _ hrc
        omega
      · have hlast' := (Prod.mk.inj hrc).1
        omega

/-- The message that the server deals with follows the protocol after those in the log. -/
lemma Kept.current (h : Kept s) {e : Entry} (he : s.current = some e) : WellSent s s.log e := by
  have hflight := h.flight 0 e (by rw [flight_of_current he]; rfl)
  rwa [List.take_zero, List.append_nil] at hflight

lemma Kept.flight_tail (h : Kept s) {e : Entry} (he : s.current = some e) :
    ∀ i x, s.server_queue[i]? = some x → WellSent s (s.log ++ [e] ++ s.server_queue.take i) x := by
  intro i x hx
  have hflight := h.flight (i + 1) x (by rw [flight_of_current he]; exact hx)
  rw [flight_of_current he, List.take_succ_cons] at hflight
  rwa [List.append_assoc, List.singleton_append]

/-- The server has dealt with a message: what is to be shown of its table and the stays. -/
lemma Kept.finishes (h : Kept s) {e : Entry} (he : s.current = some e) {server : Server} (hpc : server.pc ≠ .dispatch)
    (hseen : s.seen.length ≤ s.processed.length)
    (hunique : ∀ j k n, server.clients j = some n → server.clients k = some n → j = k)
    (htable : ∀ p, (∃ k, server.clients k = some (client_queue_name p)) ↔
      stay p (s.processed.map Entry.event) ≠ none)
    (hids : ∀ p n k, stay p (s.processed.map Entry.event) = some n →
      (n, identifierMessage k) ∈ s.put (client_queue_name p) → server.clients k = some (client_queue_name p))
    (hat : IdsPc { s.finish with server := server } server.pc)
    (hgoodbye : ∀ p n k, (n, identifierMessage k) ∈ s.put (client_queue_name p) → stay p s.events = some n →
      stay p (s.processed.map Entry.event) = some n ∨
        ∃ b, n < b ∧ b < s.processed.length ∧ (b, endMessage k) ∈ s.put (client_queue_name p)) :
    Kept { s.finish with server := server } := by
  have hprocessed := processed_eq he
  have hlen : s.log.length < s.processed.length := by
    rw [hprocessed, List.length_append, List.length_singleton]
    exact Nat.lt_succ_self _
  have hlater : State.seen { s.finish with server := server } = s.processed.map Entry.event := by
    rw [seen_of_ne_dispatch hpc]
    exact congrArg (List.map Entry.event) (List.append_nil _)
  refine ⟨hunique, htable, hids, fun q n m hm => ?_, h.named, fun i x hx => ?_, hat, fun p n k hm => ?_, h.again⟩
  · have hlt := (h.put_lt q n m hm).trans_le hseen
    rwa [hlater, List.length_map]
  · have htail := h.flight_tail he i x hx
    rw [← hprocessed] at htail
    exact htail
  · rcases h.goodbye p n k hm with hn | ⟨b, hnb, hb, hbye⟩
    · exact hgoodbye p n k hm hn
    · exact .inr ⟨b, hnb, hb.trans hlen, hbye⟩

lemma Kept.finish (h : Kept s) {e : Entry} (he : s.current = some e) (hseen : s.seen = s.processed.map Entry.event)
    (hstay : ∀ p, stay p (s.processed.map Entry.event) = stay p s.events) : Kept (s.serverAt .loop).finish := by
  change Kept { s.finish with server := { s.server with pc := .loop } }
  refine h.finishes he (by simp) ?_ h.unique (fun p => ?_) (fun p n k hn => ?_) rfl (fun p n k _ hn => ?_)
  · rw [hseen, List.length_map]
  · rw [hstay p]
    exact h.table p
  · rw [hstay p] at hn
    exact h.ids p n k hn
  · exact .inl ((hstay p).trans hn)

/-! ### The table -/

lemma Kept.receives (h : Kept s) (hpc : s.server.pc = .receive) {e : Entry} {rest : List Entry}
    (hq : s.server_queue = e :: rest) : Kept { s with
      server := { s.server with pc := .dispatch, recive_msg := e.msg }
      server_queue := rest
      current := some e } := by
  have hcur : s.current = none := h.at_pc hpc
  have hflight : s.flight = e :: rest := by rw [State.flight, hcur, hq]; rfl
  refine ⟨h.unique, h.table, h.ids, fun q n m hm => ?_, h.named, fun i x hx => ?_, ⟨e, rfl, rfl⟩, h.goodbye, h.again⟩
  · have hlt := h.put_lt q n m hm
    simp only [State.seen, hpc, State.processed, hcur, Option.toList_none, List.append_nil] at hlt
    exact hlt
  · have hx' := h.flight i x
    rw [hflight] at hx'
    exact hx' hx

lemma Kept.admits (h : Kept s) (hpc : s.server.pc = .dispatch) (htype : s.server.recive_msg.type = .INIT)
    {id : Fin 10} (hid : freeSlot s.server.clients = some id) : Kept { s.finish with
      server := { s.server with
        pc := .sendIdentifier id
        clients := Function.update s.server.clients id (some (cString s.server.recive_msg.text)) } } := by
  obtain ⟨e, he, hmsg⟩ := h.at_pc hpc
  have hfree := freeSlot_eq_some hid
  rw [hmsg] at htype ⊢
  obtain ⟨hname, hnew⟩ : cString e.msg.text = client_queue_name e.sender ∧ stay e.sender s.events = none := by
    have hsent := h.current he
    simp only [WellSent, htype] at hsent
    exact hsent
  rw [hname]
  have hprocessed := processed_eq he
  have hlen : s.processed.length = s.log.length + 1 := by
    rw [hprocessed, List.length_append, List.length_singleton]
  have hlast : s.finish.log.length - 1 = s.log.length := by
    rw [State.finish, hlen, Nat.add_sub_cancel]
  have hseen : s.seen = s.events := by simp only [State.seen, hpc]
  have hstay : ∀ p, stay p (s.processed.map Entry.event) = if e.sender = p then some s.log.length else stay p s.events := by
    intro p
    have hevent : e.event = .join e.sender := by simp only [Entry.event, htype]
    rw [(processed_of_current he).1, hevent, stay_append, State.events, List.length_map]
    simp [GroupEvent.isJoin, GroupEvent.isLeave]
  have hnoslot : ∀ k, s.server.clients k ≠ some (client_queue_name e.sender) :=
    fun k hk => (h.table e.sender).mp ⟨k, hk⟩ hnew
  have hkeep : ∀ k n, s.server.clients k = some n →
      Function.update s.server.clients id (some (client_queue_name e.sender)) k = some n :=
    fun k n => update_of_some (by simp [hfree])
  have hgone : ∀ q a, (a, identifierMessage id) ∈ s.put (client_queue_name q) →
      ∃ b, a < b ∧ b < s.log.length ∧ (b, endMessage id) ∈ s.put (client_queue_name q) := by
    intro q a ha
    rcases h.goodbye q a id ha with hstay' | hbye
    · have hslot := h.ids q a id hstay' ha
      rw [hfree] at hslot
      cases hslot
    · exact hbye
  refine h.finishes he (by simp) ?_ (unique_update h.unique hnoslot) (fun p => ?_) (fun p n k hn hm => ?_)
    ⟨rfl, ⟨e.sender, Function.update_self _ _ _, ?_⟩, fun q a ha => ?_⟩ (fun p n k _ hn => ?_)
  · rw [hseen, State.events, List.length_map, hlen]
    exact Nat.le_succ _
  · rw [hstay p]
    by_cases hp : e.sender = p
    · subst hp
      rw [if_pos rfl]
      exact iff_of_true ⟨id, Function.update_self _ _ _⟩ (by simp)
    · rw [if_neg hp, ← h.table p]
      constructor
      · rintro ⟨k, hk⟩
        rcases of_update_some hk with ⟨-, hk⟩ | ⟨-, hn⟩
        · exact ⟨k, hk⟩
        · exact absurd (client_queue_name_injective hn).symm hp
      · rintro ⟨k, hk⟩
        exact ⟨k, hkeep k _ hk⟩
  · rw [hstay p] at hn
    by_cases hp : e.sender = p
    · rw [if_pos hp] at hn
      have hlt := h.put_lt _ n _ hm
      rw [hseen, State.events, List.length_map, ← Option.some.inj hn] at hlt
      exact absurd hlt (lt_irrefl _)
    · rw [if_neg hp] at hn
      exact hkeep k _ (h.ids p n k hn hm)
  · refine (hstay e.sender).trans ?_
    rw [if_pos rfl]
    exact congrArg some hlast.symm
  · obtain ⟨b, hab, hb, hbye⟩ := hgone q a ha
    exact ⟨b, hab, hb.trans_eq hlast.symm, hbye⟩
  · by_cases hp : e.sender = p
    · rw [hp, hn] at hnew
      cases hnew
    · rw [hstay p, if_neg hp]
      exact .inl hn

lemma Kept.closes (h : Kept s) {id : Fin 10} (hpc : s.server.pc = .close id) : Kept { s.finish with
    server := { s.server with
      pc := .loop
      clients := Function.update s.server.clients id none } } := by
  obtain ⟨e, he, htype, hslot, hbye⟩ := h.at_pc hpc
  have hprocessed := processed_eq he
  have hlen : s.processed.length = s.log.length + 1 := by
    rw [hprocessed, List.length_append, List.length_singleton]
  have hstay : ∀ p, stay p (s.processed.map Entry.event) = if e.sender = p then none else stay p s.events := by
    intro p
    have hevent : e.event = .leave e.sender := by simp only [Entry.event, htype]
    rw [(processed_of_current he).1, hevent, stay_append]
    simp [GroupEvent.isJoin, GroupEvent.isLeave]
  have hkeep : ∀ k q, e.sender ≠ q → s.server.clients k = some (client_queue_name q) →
      Function.update s.server.clients id none k = some (client_queue_name q) := by
    intro k q hq
    apply update_of_some
    rw [hslot]
    exact fun hn => hq (client_queue_name_injective (Option.some.inj hn))
  refine h.finishes he (by simp) ?_ (fun j k n hj hk => h.unique j k n (of_update_none hj).2 (of_update_none hk).2)
    (fun p => ?_) (fun p n k hn hm => ?_) rfl (fun p n k hm hn => ?_)
  · rw [seen_of_ne_dispatch (by simp [hpc]), List.length_map]
  · rw [hstay p]
    by_cases hp : e.sender = p
    · subst hp
      rw [if_pos rfl]
      refine iff_of_false ?_ (by simp)
      rintro ⟨k, hk⟩
      obtain ⟨hki, hk⟩ := of_update_none hk
      exact hki (h.unique k id _ hk hslot)
    · rw [if_neg hp, ← h.table p]
      constructor
      · rintro ⟨k, hk⟩
        exact ⟨k, (of_update_none hk).2⟩
      · rintro ⟨k, hk⟩
        exact ⟨k, hkeep k p hp hk⟩
  · rw [hstay p] at hn
    by_cases hp : e.sender = p
    · rw [if_pos hp] at hn
      cases hn
    · rw [if_neg hp] at hn
      exact hkeep k p hp (h.ids p n k hn hm)
  · by_cases hp : e.sender = p
    · subst hp
      have hlt := stay_lt hn
      rw [State.events, List.length_map] at hlt
      obtain rfl := h.unique k id _ (h.ids _ n k hn hm) hslot
      exact .inr ⟨s.log.length, hlt, by omega, hbye⟩
    · rw [hstay p, if_neg hp]
      exact .inl hn

/-! ### Whole runs -/

lemma Kept.slot_of_current (h : Kept s) {e : Entry} (he : s.current = some e)
    (htype : e.msg.type = .MESSAGE ∨ e.msg.type = .STOP) :
    ∃ k : Fin 10, s.server.clients k = some (client_queue_name e.sender) ∧ e.msg.client_id = k := by
  obtain ⟨n, k, hstay, hmem, hid⟩ : ∃ (n : ℕ) (k : Fin 10), stay e.sender s.events = some n ∧
      (n, identifierMessage k) ∈ s.put (client_queue_name e.sender) ∧ e.msg.client_id = k := by
    have hsent := h.current he
    rcases htype with htype | htype
    · simp only [WellSent, htype] at hsent
      exact hsent
    · simp only [WellSent, htype] at hsent
      exact hsent
  exact ⟨k, h.ids _ n k hstay hmem, hid⟩

lemma Kept.server (h : Kept s) {ok : Bool} (hok : Identified s (.server ok)) (hm : ServerMove s ok t) : Kept t := by
  have hgoto : ∀ pc, s.server.pc ≠ .dispatch → pc ≠ .dispatch → IdsPc s pc → Kept (s.serverAt pc) := by
    intro pc hne hne' hids
    exact h.goto hids (by rw [seen_serverAt hne hne'])
  have hstart : ∀ pc, s.server.pc = .dispatch → (s.serverAt pc).seen = s.processed.map Entry.event →
      IdsPc s pc → Kept (s.serverAt pc) := by
    intro pc hpc hseen hids
    refine h.goto hids ?_
    rw [hseen, State.seen, hpc, State.events, List.length_map, List.length_map, State.processed, List.length_append]
    exact Nat.le_add_right _ _
  cases hm with
  | goesOn hpc | leaves hpc =>
    have hids := h.at_pc hpc
    exact hgoto _ (by simp [hpc]) (by simp) hids
  | receives hpc hq => exact h.receives hpc hq
  | repeats hpc hfalse =>
    rw [hok.1 hpc] at hfalse
    cases hfalse
  | overruns hpc hout =>
    obtain ⟨e, he, hmsg⟩ := h.at_pc hpc
    rcases hout with ⟨htype, hfull⟩ | ⟨htype, hid⟩
    · obtain ⟨id, hfree⟩ := (hok.2 hpc htype).2
      have hsome := List.find?_eq_none.mp hfull id (List.mem_finRange id)
      rw [hfree] at hsome
      exact absurd rfl hsome
    · obtain ⟨k, -, hk⟩ := h.slot_of_current he (.inr (by rw [← hmsg, htype]))
      rw [hmsg, hk, slot?_natCast] at hid
      cases hid
  | admits hpc htype hid => exact h.admits hpc htype hid
  | cannotOpen hpc htype hid hfalse =>
    rw [(hok.2 hpc htype).1] at hfalse
    cases hfalse
  | passesOn hpc htype =>
    obtain ⟨e, he, hmsg⟩ := h.at_pc hpc
    exact hstart _ hpc rfl ⟨e, he, hmsg, by rw [← hmsg, htype]⟩
  | dismisses hpc htype hid hslot =>
    obtain ⟨e, he, hmsg⟩ := h.at_pc hpc
    have hstop : e.msg.type = .STOP := by rw [← hmsg, htype]
    obtain ⟨k, hk, hclient⟩ := h.slot_of_current he (.inr hstop)
    rw [hmsg, hclient, slot?_natCast] at hid
    obtain rfl := Option.some.inj hid
    exact hstart _ hpc rfl ⟨e, he, hstop, hk⟩
  | ignores hpc hignores =>
    obtain ⟨e, he, hmsg⟩ := h.at_pc hpc
    rcases hignores with htype | ⟨htype, id, hid, hnone⟩
    · have hsent := h.current he
      rw [hmsg] at htype
      simp only [WellSent, htype] at hsent
    · obtain ⟨k, hk, hclient⟩ := h.slot_of_current he (.inr (by rw [← hmsg, htype]))
      rw [hmsg, hclient, slot?_natCast] at hid
      rw [Option.some.inj hid, hnone] at hk
      cases hk
  | tells hpc hslot => exact h.tells hpc hslot
  | tellsNothing hpc => exact hgoto _ (by simp [hpc]) (by simp) (h.at_pc hpc).1
  | forwards hpc hi hslot hother =>
    obtain ⟨e, he, hmsg, htype⟩ := h.at_pc hpc
    have hlen := (processed_of_current he).1
    refine h.deliver ⟨e, he, hmsg, htype⟩ (by rw [hmsg, htype]; simp) ?_ ?_
    · rw [State.seen, hpc]
      exact le_rfl
    · have hgoal : s.processed.length - 1 < (s.processed.map Entry.event).length := by
        rw [hlen, (processed_of_current he).2, List.length_append]
        exact Nat.lt_succ_self _
      exact hgoal
  | skips hpc hi =>
    have hids := h.at_pc hpc
    exact hgoto _ (by simp [hpc]) (by simp) hids
  | ends hpc hi =>
    obtain ⟨e, he, hmsg, htype⟩ := h.at_pc hpc
    refine h.finish he (by rw [State.seen, hpc]) fun p => ?_
    have hevent : e.event = .say e.sender e.msg := by simp only [Entry.event, htype]
    rw [(processed_of_current he).1, hevent, stay_append]
    simp [GroupEvent.isJoin, GroupEvent.isLeave]
  | saysGoodbye hpc hslot =>
    obtain ⟨e, he, htype, hk⟩ := h.at_pc hpc
    have hname := Option.some.inj (hslot.symm.trans hk)
    obtain ⟨hlen, hlast⟩ := processed_of_current he
    rw [State.events, List.length_map] at hlast
    refine h.deliver ⟨e, he, htype, hk, ?_⟩ (by simp [endMessage]) ?_ ?_
    · refine mem_put_deliver.mpr (.inr ⟨hname.symm, ?_⟩)
      exact Prod.ext hlast.symm rfl
    · rw [State.seen, hpc]
      exact le_rfl
    · have hgoal : s.processed.length - 1 < (s.processed.map Entry.event).length := by
        rw [hlen, hlast, List.length_append, State.events, List.length_map]
        exact Nat.lt_succ_self _
      exact hgoal
  | goodbyeFails hpc => exact hgoto _ (by simp [hpc]) (by simp) trivial
  | closes hpc => exact h.closes hpc

lemma Kept.arrive (h : Kept s) {e : Entry} (he : WellSent s (s.log ++ s.flight) e) :
    Kept { s with server_queue := s.server_queue ++ [e] } := by
  refine ⟨h.unique, h.table, h.ids, h.put_lt, h.named, fun i x hx => ?_, h.pc, h.goodbye, h.again⟩
  have hflight : State.flight { s with server_queue := s.server_queue ++ [e] } = s.flight ++ [e] := by
    simp only [State.flight, List.append_assoc]
  rw [hflight] at hx ⊢
  by_cases hi : i < s.flight.length
  · rw [List.getElem?_append_left hi] at hx
    rw [List.take_append_of_le_length (Nat.le_of_lt hi)]
    exact h.flight i x hx
  · have hlt := (List.getElem?_eq_some_iff.mp hx).1
    rw [List.length_append, List.length_singleton] at hlt
    obtain rfl : i = s.flight.length := by omega
    rw [List.getElem?_append_right le_rfl, Nat.sub_self] at hx
    obtain rfl : e = x := Option.some.inj hx
    rw [List.take_left]
    exact he

lemma Started.kept (h : Started s) : Kept s := by
  have hevents : s.events = [] := by simp [State.events, h.log]
  have hflight : s.flight = [] := by simp [State.flight, h.current, h.server_queue]
  refine ⟨fun j k n hj => ?_, fun p => ?_, fun p n k hn => ?_, fun q n m hm => ?_, fun q n m hm => ?_,
    fun i e he => ?_, ?_, fun p n k hm => ?_, fun p q a c k ha => ?_⟩
  · rw [h.clients] at hj
    cases hj
  · rw [h.clients, hevents, stay_nil]
    simp
  · rw [hevents, stay_nil] at hn
    cases hn
  · rw [h.put] at hm
    cases hm
  · rw [h.put] at hm
    cases hm
  · rw [hflight] at he
    cases he
  · rw [h.pc]
    exact h.current
  · rw [h.put] at hm
    cases hm
  · rw [h.put] at ha
    cases ha

theorem kept_of_reachable (h : anySenders.ReachableBy Identified s) : Kept s := by
  refine h.invariant (I := Kept) (fun u hu => Started.kept hu) ?_
  intro u a v hu hid hn
  obtain ⟨ok, rfl, hm⟩ | ⟨e, rfl, rfl⟩ | ⟨n, rfl, rfl⟩ | ⟨rfl, rfl⟩ := sender_cases hn
  · exact hu.server hid hm
  · exact hu.arrive hid
  · exact ⟨hu.unique, hu.table, hu.ids, hu.put_lt, hu.named, hu.flight, hu.pc, hu.goodbye, hu.again⟩
  · exact ⟨hu.unique, hu.table, hu.ids, hu.put_lt, hu.named, hu.flight, hu.pc, hu.goodbye, hu.again⟩

/-- At every point of a run that follows the protocol: a client has a slot exactly from its INIT
to its STOP, namely the one that its IDENTIFIER names, and no other; two clients were told two
ids; and an id that was given to a client is given again only after the goodbye to it. -/
theorem identities (h : anySenders.ReachableBy Identified s) :
    (∀ p, (∃ k, s.server.clients k = some (client_queue_name p)) ↔ stay p (s.log.map Entry.event) ≠ none) ∧
    (∀ p j k, s.server.clients j = some (client_queue_name p) → s.server.clients k = some (client_queue_name p) →
      j = k) ∧
    (∀ p n k, stay p (s.log.map Entry.event) = some n → (n, identifierMessage k) ∈ s.put (client_queue_name p) →
      s.server.clients k = some (client_queue_name p)) ∧
    (∀ p q n m j k, p ≠ q → stay p (s.log.map Entry.event) = some n →
      (n, identifierMessage j) ∈ s.put (client_queue_name p) → stay q (s.log.map Entry.event) = some m →
      (m, identifierMessage k) ∈ s.put (client_queue_name q) → j ≠ k) ∧
    ∀ p q a c k, (a, identifierMessage k) ∈ s.put (client_queue_name p) →
      (c, identifierMessage k) ∈ s.put (client_queue_name q) → a < c →
      ∃ b, a < b ∧ b < c ∧ (b, endMessage k) ∈ s.put (client_queue_name p) := by
  have hkept := kept_of_reachable h
  refine ⟨hkept.table, fun p j k => hkept.unique j k _, hkept.ids, ?_, hkept.again⟩
  rintro p q n m j k hpq hn hj hm hk rfl
  have hp := hkept.ids p n j hn hj
  have hq := hkept.ids q m j hm hk
  rw [hp] at hq
  exact hpq (client_queue_name_injective (Option.some.inj hq))

/-- An IDENTIFIER with this id, at this position. -/
def names (n : ℕ) (k : Fin 10) (x : ℕ × message_msg) : Bool :=
  x.1 = n && x.2.type = .IDENTIFIER && x.2.client_id = k

lemma Kept.mem_of_names (h : Kept s) {q : QueueName} {n : ℕ} {k : Fin 10} (hany : (s.put q).any (names n k) = true) :
    (n, identifierMessage k) ∈ s.put q := by
  obtain ⟨⟨n', m⟩, hm, hnames⟩ := List.any_eq_true.mp hany
  simp only [names, Bool.and_eq_true, decide_eq_true_eq] at hnames
  obtain ⟨⟨rfl, htype⟩, hid⟩ := hnames
  obtain ⟨j, rfl⟩ := h.named q n' m hm htype
  have hjk : j = k := Fin.ext (by simpa [identifierMessage] using hid)
  rwa [← hjk]

/-- A check of the conditions of a step. -/
def identified (s : State) : SenderAction QueueName → Bool
  | .arrive e =>
    let now := stay e.sender ((s.log ++ s.flight).map Entry.event)
    match e.msg.type with
    | .INIT => decide (cString e.msg.text = client_queue_name e.sender) && now.isNone
    | .MESSAGE | .STOP => now.any fun n => (List.finRange 10).any fun k =>
        decide (e.msg.client_id = k) && (s.put (client_queue_name e.sender)).any (names n k)
    | .IDENTIFIER => false
  | .server ok => ok && (freeSlot s.server.clients).isSome
  | _ => true

lemma Kept.identified_of_check (h : Kept s) {a : SenderAction QueueName} (ha : identified s a = true) :
    Identified s a := by
  cases a with
  | server ok =>
    simp only [identified, Bool.and_eq_true] at ha
    obtain ⟨id, hid⟩ := Option.isSome_iff_exists.mp ha.2
    exact ⟨fun _ => ha.1, fun _ _ => ⟨ha.1, id, freeSlot_eq_some hid⟩⟩
  | arrive e =>
    have hgiven : ∀ now : Option ℕ, (now.any fun n => (List.finRange 10).any fun k =>
        decide (e.msg.client_id = k) && (s.put (client_queue_name e.sender)).any (names n k)) = true →
        ∃ (n : ℕ) (k : Fin 10), now = some n ∧ (n, identifierMessage k) ∈ s.put (client_queue_name e.sender) ∧
          e.msg.client_id = k := by
      intro now hnow
      cases now with
      | none => cases hnow
      | some n =>
        obtain ⟨k, -, hk⟩ := List.any_eq_true.mp hnow
        rw [Bool.and_eq_true] at hk
        exact ⟨n, k, rfl, h.mem_of_names hk.2, of_decide_eq_true hk.1⟩
    show WellSent s (s.log ++ s.flight) e
    unfold WellSent
    cases htype : e.msg.type with
    | INIT =>
      simp only [identified, htype, Bool.and_eq_true, decide_eq_true_eq, Option.isNone_iff_eq_none] at ha
      exact ha
    | MESSAGE | STOP =>
      simp only [identified, htype] at ha
      exact hgiven _ ha
    | IDENTIFIER => simp [identified, htype] at ha
  | take | interrupt => trivial

lemma reachable_of_check (h : (anySenders.guard fun s a => identified s a = true).Reachable s) :
    anySenders.ReachableBy Identified s := by
  refine Machine.Reachable.invariant (fun s hs => .start hs) ?_ h
  intro s a t hs hn
  obtain ⟨hcheck, hn⟩ := Machine.guard_next_eq_some.mp hn
  exact .step hs ((kept_of_reachable hs).identified_of_check hcheck) hn

/-- A client joins and leaves, and another joins. -/
def succession (p q : Pid) : List (SenderAction QueueName) :=
  deal p (initMessage p) 4 ++ deal p ⟨.STOP, 0, textOf []⟩ 5 ++ deal q (initMessage q) 4

/-- The second client gets the id of the first, after the goodbye. -/
theorem identities_succession : ∃ s, anySenders.ReachableBy Identified s ∧
    (2, identifierMessage 0) ∈ s.put (client_queue_name ⟨2, by decide, by decide⟩) ∧
    ∃ b, 0 < b ∧ b < 2 ∧ (b, endMessage 0) ∈ s.put (client_queue_name ⟨1, by decide, by decide⟩) := by
  have hrun : ((anySenders.guard fun s a => identified s a = true).exec quiet
      (succession ⟨1, by decide, by decide⟩ ⟨2, by decide, by decide⟩)).map (fun s =>
      ((s.put (client_queue_name ⟨1, by decide, by decide⟩)).any (names 0 0),
        (s.put (client_queue_name ⟨2, by decide, by decide⟩)).any (names 2 0))) = some (true, true) := by
    decide +kernel
  obtain ⟨s, hs, he⟩ := Option.map_eq_some_iff.mp hrun
  obtain ⟨hfirst, hsecond⟩ := Prod.mk.inj he
  have hstart : (anySenders.guard fun s a => identified s a = true).Reachable quiet := .start quiet_started
  have hreach := reachable_of_check (hstart.exec hs)
  have hkept := kept_of_reachable hreach
  have hbye := (identities hreach).2.2.2.2 _ _ 0 2 0 (hkept.mem_of_names hfirst) (hkept.mem_of_names hsecond)
    (by decide)
  exact ⟨s, hreach, hkept.mem_of_names hsecond, hbye⟩

end SystemyOperacyjne.QueueChat
