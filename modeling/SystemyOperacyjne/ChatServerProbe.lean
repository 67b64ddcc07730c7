import SystemyOperacyjne.ChatServerTurns
import SystemyOperacyjne.ChatServerRegistration

/-!
# No command is lost to a liveness check

A check receives from the connection that the handler receives from. What it gets is the answer
to its own probe if nothing of the client is unread when it takes `recv_mutex`, and the client
sends nothing before the answer; then the handler gets every command once, and in order.
-/

namespace SystemyOperacyjne.ChatServer
open Concurrency CString

variable {window : ℕ} {slot : Slot} {conn : Conn}

section
variable {u : Talk} {t : State} {k : ℕ} {th : Thread} {code : Code}

/-! ### A step with a message -/

lemma Kept.not_expects (h : Kept slot conn u) (hth : u.state.threads[k]? = some th) (hin : th.code.HasRecv) {j : ℕ}
    {th' : Thread} {c : CheckAlive} (hjk : j ≠ k) (hj : u.state.threads[j]? = some th') (hcode : th'.code = .check c) :
    ¬Expects u.state conn c := by
  intro hexp
  refine hjk (h.guards.eq_of_inside ⟨th', hj, ?_⟩ ⟨th, hth, hin⟩)
  rw [hcode]
  exact hasRecv_of_expects hexp

lemma inbox_tail {s : State} {m : Message} {rest : List Message} {timeout : Bool} {r : ℤ × List UInt8 × State}
    (hinbox : (s.peers conn).inbox = ((m :: rest).map Message.bytes).flatten) (hm : m.bytes ≠ [])
    (hr : s.recv (some conn) timeout BUFFER_SIZE m.bytes.length = some r) :
    (r.2.2.peers conn).inbox = (rest.map Message.bytes).flatten := by
  have hne : m.bytes.length ≠ 0 := fun h0 => hm (List.length_eq_zero_iff.mp h0)
  obtain (rfl | rfl) | ⟨c, hc, -, -, rfl⟩ := recv_cases hr
  · simp [State.recv, hne] at hr
  · simp [State.recv, hne] at hr
  · obtain rfl := Option.some.inj hc
    simp [State.setPeer, hinbox]

lemma Kept.gets {u' : Talk} {m : Message} {rest : List Message} {timeout : Bool} {r : ℤ × List UInt8 × State}
    (h : Kept slot conn u)
    (hth : u.state.threads[k]? = some th) (hw : u.waiting = m :: rest)
    (hr : u.state.recv (some conn) timeout BUFFER_SIZE m.bytes.length = some r)
    (hstate : u'.state = r.2.2.setThread k { th with code := code }) (hwaiting : u'.waiting = rest)
    (hnext : Code.Next slot (u.state.clients slot).active th.code code) (hin : th.code.HasRecv)
    (hexpects : ∀ c, code = .check c → ¬Expects u'.state conn c)
    (hown : ∀ j m, (j, m) ∈ u'.taken → m = .answer j)
    (honce : commands u'.received ++ commands u'.waiting = u'.sent) : Kept slot conn u' := by
  have hm : m.bytes ≠ [] := h.nonempty m (by simp [hw])
  have hinbox := inbox_tail (hw ▸ h.inbox) hm hr
  obtain ⟨peers, hpeers⟩ := recv_eq hr
  rw [hpeers] at hinbox hstate
  have hg : Goes slot conn u k th code u'.state := by
    rw [hstate]
    exact ⟨hth, rfl, rfl, rfl, fun _ hi => hi, rfl, fun _ _ hf => hf, hnext.index, hnext.kind,
      guards_keep hth rfl h.guards rfl fun _ => hin, hnext.gone⟩
  refine hg.kept h ?_ ?_ (fun c hc hexp => absurd hexp (hexpects c hc)) ?_ hown honce ?_
  · rw [hstate, hwaiting]
    exact hinbox
  · intro m' hm'
    rw [hwaiting] at hm'
    exact h.nonempty m' (by simp [hw, hm'])
  · intro j th' c hjk hj hcode hexp
    exact absurd hexp (h.not_expects hth hin hjk hj hcode)
  · intro hf
    rw [hstate] at hf
    left
    rw [hwaiting]
    rcases h.settled hf with hnone | ⟨htail, -⟩
    · rw [hw] at hnone
      exact commands_tail hnone
    · rwa [hw] at htail

lemma Kept.receives {x : Input} {m : Message} {rest : List Message} (h : Kept slot conn u)
    (hth : u.state.threads[k]? = some th) (hw : u.waiting = m :: rest) (hrec : th.code.Receives conn)
    (hcount : x.count = m.bytes.length) {window : ℕ} (hs : workerStep window u.state k x = some t) :
    Kept slot conn ({ u with state := t, waiting := rest }.deliver k th.code m) := by
  cases hcode : th.code with
  | handler g =>
    obtain ⟨timeout, hpc⟩ : ∃ timeout, g.pc = .receiving (some conn) timeout := by simpa [hcode] using hrec
    simp only [workerStep, hth, hcode, client_handler, hpc, Option.map_eq_some_iff, hcount] at hs
    obtain ⟨r, hr, rfl⟩ := hs
    refine h.gets hth hw hr rfl rfl ⟨?_, ?_, ?_⟩ (by simp [hcode, hpc]) (fun c hc => by cases hc) h.own ?_
    · have hidx := h.index k th hth
      rwa [hcode] at hidx
    · simp [hcode]
    · simp [Code.Gone]
    · have honce := h.once
      rw [hw] at honce
      simp only [Talk.deliver]
      rw [commands_append, List.append_assoc, ← commands_append]
      exact honce
  | check c =>
    obtain ⟨timeout, hpc⟩ : ∃ timeout, c.pc = .reading (some conn) timeout := by simpa [hcode] using hrec
    have hprobing := h.expects k th c hth hcode (by simp [Expects, hpc])
    simp only [hpc, Probing, hw] at hprobing
    simp only [workerStep, hth, hcode, check_alive, hpc, Option.map_eq_some_iff, hcount] at hs
    obtain ⟨r, hr, rfl⟩ := hs
    have hm : m = .answer k := by
      rcases hprobing with ⟨hnil, -⟩ | ⟨-, rest', hcons⟩
      · cases hnil
      · exact (List.cons.inj hcons).1
    refine h.gets hth hw hr rfl rfl ⟨?_, ?_, ?_⟩ (by simp [hcode, hpc]) ?_ ?_ ?_
    · have hidx := h.index k th hth
      rwa [hcode] at hidx
    · simp
    · simp [Code.Gone]
    · rintro c' ⟨⟩
      simp [Expects]
    · intro j m' hmem
      rcases List.mem_append.mp hmem with hold | hnew
      · exact h.own j m' hold
      · simp only [List.mem_singleton, Prod.mk.injEq] at hnew
        rw [hnew.2, hnew.1, hm]
    · have honce := h.once
      rw [hw, hm] at honce
      exact honce

lemma Kept.asks {x : Input} (h : Kept slot conn u) (hth : u.state.threads[k]? = some th) (hp : Probes u.state conn th.code)
    (hs : workerStep window u.state k x = some t) : Kept slot conn { u with state := t, asked := u.asked ++ [k] } := by
  cases hcode : th.code with
  | handler g =>
    rw [hcode] at hp
    exact hp.elim
  | check c =>
    rw [hcode] at hp
    obtain ⟨hpc, hfd, -⟩ := hp
    have hprobing := h.expects k th c hth hcode (by simp [Expects, hpc, hfd])
    rw [hpc] at hprobing
    obtain ⟨hwaiting, hasked⟩ := hprobing
    simp only [workerStep, hth, hcode] at hs
    have hin : th.code.HasRecv := by simp [hcode, hpc]
    have hindex : c.client_index = slot := by
      have hidx := h.index k th hth
      rwa [hcode] at hidx
    cases check_cases hs with
    | @asks _ peers hpeers =>
      have hg : Goes slot conn u k th (.check { c with pc := .read }) { u.state.checkAt k th c .read with peers := peers } :=
        ⟨hth, rfl, rfl, rfl, fun _ hi => hi, rfl, fun _ _ hf => hf, hindex, fun hf => hf.elim,
          guards_keep hth rfl h.guards rfl fun _ => hin, fun hf => hf.elim⟩
      refine Goes.kept (v := { u with state := _, asked := u.asked ++ [k] }) hg h ((hpeers conn).1.trans h.inbox)
        h.nonempty ?_ ?_ h.own h.once fun hf => ?_
      · rintro c' ⟨⟩ -
        exact .inl ⟨hwaiting, .inr (by rw [hasked]; rfl)⟩
      · intro j th' c' hjk hj hcode' hexp
        exact absurd hexp (h.not_expects hth hin hjk hj hcode')
      · left
        show commands u.waiting = []
        rw [hwaiting]
        rfl
    | _ => simp_all

lemma Kept.worker {x : Input} {u' : Talk} (h : Kept slot conn u) (hheeds : Heeds conn u (.worker k x))
    (hs : talkWorker window conn u k x = some u') : Kept slot conn u' := by
  unfold talkWorker at hs
  split at hs
  · next th t hth ht =>
    obtain ⟨hlock, hretires⟩ := hheeds th hth
    split at hs
    · next hrec =>
      split at hs
      · next m rest hw =>
        split at hs
        · next hcount =>
          cases hs
          exact h.receives hth hw hrec.1 hcount ht
        · cases hs
      · cases hs
    · next hnot =>
      split at hs
      · next hp =>
        cases hs
        exact h.asks hth hp ht
      · cases hs
        cases hcode : th.code with
        | handler g =>
          simp only [workerStep, hth, hcode] at ht
          exact h.handler hth hcode hretires hnot (handler_cases ht)
        | check c =>
          simp only [workerStep, hth, hcode] at ht
          exact h.check hth hcode (hlock c hcode) hretires hnot (check_cases ht)
  · cases hs

/-! ### The other steps -/

lemma Kept.peers {v : Talk} {peers : Conn → Peer} (h : Kept slot conn u) (hstate : v.state = { u.state with peers := peers })
    (hinbox : (peers conn).inbox = (v.waiting.map Message.bytes).flatten) (hnonempty : ∀ m ∈ v.waiting, m.bytes ≠ [])
    (hprobing : ∀ (j : ℕ) (th' : Thread) (c : CheckAlive), u.state.threads[j]? = some th' → th'.code = .check c →
      Expects u.state conn c → Probing v j c.pc)
    (htaken : v.taken = u.taken) (honce : commands v.received ++ commands v.waiting = v.sent)
    (hsettled : (u.state.clients slot).active = false → Settled conn v) : Kept slot conn v := by
  refine ⟨?_, ?_, ?_, ?_, ?_, ?_, hnonempty, ?_, ?_, ?_, honce, ?_, ?_⟩
  · rw [hstate]
    exact h.i
  · rw [hstate]
    exact h.others
  · rw [hstate]
    exact h.checker
  · rw [hstate]
    exact h.index
  · rw [hstate]
    exact h.single
  · rw [hstate]
    exact hinbox
  · rw [hstate]
    exact h.guards
  · rw [hstate]
    exact hprobing
  · rw [htaken]
    exact h.own
  · rw [hstate]
    exact h.gone
  · rw [hstate]
    exact hsettled

lemma Kept.arrives {u' : Talk} {m : Message} (h : Kept slot conn u) (hm : m.bytes ≠ [])
    (hs : step window u.state (.peerSend conn m.bytes) = some u'.state) (hwaiting : u'.waiting = u.waiting ++ [m])
    (hprobing : ∀ (j : ℕ) (th' : Thread) (c : CheckAlive), u.state.threads[j]? = some th' → th'.code = .check c →
      Expects u.state conn c → Probing u' j c.pc)
    (htaken : u'.taken = u.taken) (hreceived : u'.received = u.received) (hsent : u.sent ++ commands [m] = u'.sent)
    (hsettled : (u.state.clients slot).active = false → commands [m] = []) : Kept slot conn u' := by
  simp only [step] at hs
  split at hs
  · cases hs
  · have hstate := (Option.some.inj hs).symm
    refine h.peers hstate ?_ ?_ hprobing htaken ?_ fun hf => ?_
    · rw [hwaiting, Function.update_self, h.inbox]
      simp
    · intro m' hm'
      rw [hwaiting] at hm'
      rcases List.mem_append.mp hm' with hold | hnew
      · exact h.nonempty m' hold
      · rwa [List.mem_singleton.mp hnew]
    · rw [hreceived, hwaiting, commands_append, ← List.append_assoc, h.once, hsent]
    · have hnone := hsettled hf
      rcases h.settled hf with hw | ⟨htail, hthread⟩
      · left
        rw [hwaiting, commands_append, hw, hnone]
        rfl
      · cases hw : u.waiting with
        | nil =>
          left
          rw [hwaiting, hw]
          exact hnone
        | cons m' rest =>
          refine .inr ⟨?_, ?_⟩
          · rw [hw] at htail
            rw [hwaiting, hw, List.cons_append, List.tail_cons, commands_append, hnone]
            simpa using htail
          · rw [hstate]
            exact hthread

lemma Probing.append {pc : CheckPc} {l : List Message} {u' : Talk} (h : Probing u k pc) (hanswer : .answer k ∈ u.waiting)
    (hwaiting : u'.waiting = u.waiting ++ l) (hasked : u'.asked = u.asked) : Probing u' k pc := by
  have hcons : pc ≠ .sendAlive ∧ u.asked = [] ∧ ∃ rest, u.waiting = .answer k :: rest := by
    unfold Probing at h
    split at h
    · rw [h.1] at hanswer
      cases hanswer
    · next hpc =>
      rcases h with ⟨hnil, -⟩ | hrest
      · rw [hnil] at hanswer
        cases hanswer
      · exact ⟨hpc, hrest⟩
  obtain ⟨hpc, hnone, rest, hrest⟩ := hcons
  unfold Probing
  split
  · exact absurd rfl hpc
  · exact .inr ⟨hasked.trans hnone, rest ++ l, by rw [hwaiting, hrest, List.cons_append]⟩

lemma Probing.answered {pc : CheckPc} {j : ℕ} {rest : List ℕ} {u' : Talk} (h : Probing u k pc)
    (hasked : u.asked = j :: rest)
    (hwaiting : u'.waiting = u.waiting ++ [.answer j]) (hrest : u'.asked = rest) : Probing u' k pc := by
  have hcons : pc ≠ .sendAlive ∧ u.waiting = [] ∧ j = k ∧ rest = [] := by
    unfold Probing at h
    rw [hasked] at h
    split at h
    · cases h.2
    · next hpc =>
      rcases h with ⟨hnil, hnone | hself⟩ | ⟨hnone, -⟩
      · cases hnone
      · obtain ⟨rfl, rfl⟩ := List.cons.inj hself
        exact ⟨hpc, hnil, rfl, rfl⟩
      · cases hnone
  obtain ⟨hpc, hnil, rfl, rfl⟩ := hcons
  unfold Probing
  split
  · exact absurd rfl hpc
  · exact .inr ⟨hrest, [], by rw [hwaiting, hnil, List.nil_append]⟩

lemma Kept.say {line : List UInt8} {u' : Talk} (h : Kept slot conn u) (hheeds : Heeds conn u (.say line))
    (hs : talkStep window slot conn u (.say line) = some u') : Kept slot conn u' := by
  simp only [talkStep] at hs
  split at hs
  · cases hs
  · next hline =>
    obtain ⟨t, ht, hu⟩ := Option.map_eq_some_iff.mp hs
    split at hu
    · next hactive =>
      subst hu
      refine h.arrives (m := .command line) hline ht rfl ?_ rfl rfl rfl fun hf => ?_
      · intro j th' c hj hcode hexp
        exact (h.expects j th' c hj hcode hexp).append (hheeds j th' c hj hcode hexp) rfl rfl
      · rw [hactive] at hf
        cases hf
    · subst hu
      refine h.arrives (m := .late line) hline ht rfl ?_ rfl rfl (List.append_nil _) fun _ => rfl
      intro j th' c hj hcode hexp
      exact (h.expects j th' c hj hcode hexp).append (hheeds j th' c hj hcode hexp) rfl rfl

lemma Kept.answer {u' : Talk} (h : Kept slot conn u) (hs : talkStep window slot conn u .answer = some u') :
    Kept slot conn u' := by
  simp only [talkStep] at hs
  split at hs
  · cases hs
  · next j rest hasked =>
    obtain ⟨t, ht, rfl⟩ := Option.map_eq_some_iff.mp hs
    have hbytes : (Message.answer j).bytes ≠ [] := by
      simp only [Message.bytes]
      decide
    refine h.arrives (m := .answer j) hbytes ht rfl ?_ rfl rfl (List.append_nil _) fun _ => rfl
    intro k th' c hk hcode hexp
    exact (h.expects k th' c hk hcode hexp).answered hasked rfl rfl

lemma Kept.sameIncoming {p : Peer} (h : Kept slot conn u) (hp : p.inbox = (u.state.peers conn).inbox) :
    Kept slot conn (u.setState (u.state.setPeer conn p)) := by
  refine h.peers (v := u.setState (u.state.setPeer conn p)) rfl ?_ h.nonempty h.expects rfl h.once h.settled
  rw [Function.update_self, hp]
  exact h.inbox

lemma Kept.loops {pc : CheckerPc} {mutex : Option Owner} (h : Kept slot conn u) (hpc : ∀ i, pc = .create i → i = slot) :
    Kept slot conn (u.setState { u.state with checker := pc, clients_mutex := mutex }) :=
  ⟨h.i, h.others, hpc, h.index, h.single, h.inbox, h.nonempty, h.guards, h.expects, h.own, h.once, h.gone, h.settled⟩

lemma Kept.starts {pc : CheckerPc} {th : Thread} {c : CheckAlive} (h : Kept slot conn u) (hcode : th.code = .check c)
    (hc : c.pc = .setTimeout) (hindex : c.client_index = slot) (hpc : ∀ i, pc = .create i → i = slot) :
    Kept slot conn (u.setState { u.state with checker := pc, threads := u.state.threads ++ [th] }) := by
  have hget : ∀ {j : ℕ} {th' : Thread}, (u.state.threads ++ [th])[j]? = some th' →
      u.state.threads[j]? = some th' ∨ th' = th := by
    intro j th' hj
    rcases get_append hj with hold | ⟨-, rfl⟩
    · exact .inl hold
    · exact .inr rfl
  refine ⟨h.i, h.others, hpc, fun j th' hj => ?_, fun j th' hj hh => ?_, h.inbox, h.nonempty, ?_,
    fun j th' c' hj hcode' hexp => ?_, h.own, h.once, fun j th' hj hgone => ?_, fun hf => ?_⟩
  · rcases hget hj with hold | rfl
    · exact h.index j th' hold
    · rw [hcode]
      exact hindex
  · rcases hget hj with hold | rfl
    · exact h.single j th' hold hh
    · rw [hcode] at hh
      exact hh.elim
  · refine h.guards.keep ?_
    rintro j ⟨th', hj, hin⟩
    rcases hget hj with hold | rfl
    · exact ⟨th', hold, hin⟩
    · simp [hcode, hc] at hin
  · rcases hget hj with hold | rfl
    · exact h.expects j th' c' hold hcode' hexp
    · rw [hcode] at hcode'
      cases hcode'
      simp [Expects, hc] at hexp
  · rcases hget hj with hold | rfl
    · exact h.gone j th' hold hgone
    · rw [hcode] at hgone
      exact hgone.elim
  · rcases h.settled hf with hnone | ⟨htail, th', g, hmem, hrest⟩
    · exact .inl hnone
    · exact .inr ⟨htail, th', g, List.mem_append_left _ hmem, hrest⟩

lemma Kept.checks (h : Kept slot conn u) (hs : CheckerMove u.state t) : Kept slot conn (u.setState t) := by
  cases hs with
  | wakes | locks | skips | ends | unlocks => exact h.loops fun i hi => by cases hi
  | finds hpc hi hactive =>
    refine h.loops ?_
    rintro i ⟨⟩
    exact h.others _ hactive
  | creates hpc => exact h.starts rfl rfl (h.checker _ hpc) fun i hi => by cases hi

lemma Begun.kept (h : Begun slot conn u) : Kept slot conn u := by
  obtain ⟨g, hthreads, hpc, hindex⟩ := h.threads
  have hget : ∀ {j : ℕ} {th : Thread}, u.state.threads[j]? = some th → j = 0 ∧ th.code = .handler g := by
    intro j th hj
    rw [hthreads] at hj
    obtain ⟨hlt, hth⟩ := List.getElem?_eq_some_iff.mp hj
    have hj0 : j = 0 := by simpa using hlt
    subst hj0
    exact ⟨rfl, by rw [← hth]; rfl⟩
  refine ⟨h.i, fun i hi => (h.active i).mp hi, ?_, ?_, ?_, ?_, ?_, ?_, ?_, ?_, ?_, ?_, ?_⟩
  · intro i hi
    rw [h.checker] at hi
    cases hi
  · intro j th hj
    rw [(hget hj).2]
    exact hindex
  · exact fun j th hj _ => (hget hj).1
  · rw [h.peer.1, h.waiting]
    rfl
  · simp [h.waiting]
  · rintro j ⟨th, hj, hin⟩
    simp [(hget hj).2, hpc] at hin
  · intro j th c hj hcode
    rw [(hget hj).2] at hcode
    cases hcode
  · simp [h.taken]
  · simp [h.received, h.waiting, h.sent, commands]
  · intro j th hj hgone
    simp [(hget hj).2, Code.Gone, hpc] at hgone
  · intro hf
    rw [(h.active slot).mpr rfl] at hf
    cases hf

theorem Kept.step {a : TalkAction} {u' : Talk} (h : Kept slot conn u) (hheeds : Heeds conn u a)
    (hs : talkStep window slot conn u a = some u') : Kept slot conn u' := by
  cases a with
  | worker k x => exact h.worker hheeds hs
  | checker =>
    obtain ⟨t, ht, rfl⟩ := Option.map_eq_some_iff.mp hs
    exact h.checks (checker_cases ht)
  | say line => exact h.say hheeds hs
  | answer => exact h.answer hs
  | read | close =>
    simp only [talkStep] at hs
    obtain ⟨t, ht, rfl⟩ := Option.map_eq_some_iff.mp hs
    cases ht
    exact h.sameIncoming rfl

lemma Kept.noneLost (h : Kept slot conn u) : NoneLost u := by
  refine ⟨h.own, h.once, fun th g hmem hcode hpc => ?_⟩
  obtain ⟨k, hk⟩ := List.mem_iff_getElem?.mp hmem
  have hactive := h.gone k th hk (by simp [hcode, Code.Gone, hpc])
  rcases h.settled hactive with hnone | ⟨-, th', g', hmem', hcode', timeout, hpc'⟩
  · exact hnone
  · obtain ⟨j, hj⟩ := List.mem_iff_getElem?.mp hmem'
    -- the client has one handler, and it has ended
    have hk0 := h.single k th hk (by simp [hcode])
    have hj0 := h.single j th' hj (by simp [hcode'])
    rw [hk0, ← hj0] at hk
    obtain rfl := Option.some.inj (hk.symm.trans hj)
    rw [hcode] at hcode'
    cases hcode'
    rw [hpc] at hpc'
    cases hpc'

/-- In a run that heeds the condition, no command is lost to a liveness check. -/
theorem none_lost (h : (talk window slot conn).ReachableBy (Heeds conn) u) : NoneLost u := by
  have hkept : Kept slot conn u := by
    refine h.invariant (I := Kept slot conn) (fun u (hu : Begun slot conn u) => hu.kept) ?_
    exact fun u a u' hu hheeds hs => hu.step hheeds hs
  exact hkept.noneLost

end

/-! ### A command during a check -/

lemma say_eq (window : ℕ) (slot : Slot) {u : Talk} {line : List UInt8} (hline : line ≠ [])
    (hopen : (u.state.peers conn).closed = false) :
    ∃ m v, talkStep window slot conn u (.say line) = some v ∧ m.bytes = line ∧ (∀ k, m ≠ .answer k) ∧
      v.waiting = u.waiting ++ [m] ∧
      v.state = u.state.setPeer conn { u.state.peers conn with inbox := (u.state.peers conn).inbox ++ line } := by
  simp only [talkStep, if_neg hline, step, hopen, Bool.false_eq_true, if_false, Option.map_some]
  split
  · exact ⟨.command line, _, rfl, rfl, by simp, rfl, rfl⟩
  · exact ⟨.late line, _, rfl, rfl, by simp, rfl, rfl⟩

/-- A command that comes while a check waits for the answer goes to the check. -/
theorem takes_command {u : Talk} {k : ℕ} {th : Thread} {c : CheckAlive} {timeout : Bool} {line : List UInt8}
    (hth : u.state.threads[k]? = some th) (hcode : th.code = .check c) (hpc : c.pc = .reading (some conn) timeout)
    (hwaiting : u.waiting = []) (hinbox : (u.state.peers conn).inbox = []) (hopen : (u.state.peers conn).closed = false)
    (hline : line ≠ []) (hfits : line.length ≤ BUFFER_SIZE) :
    ∃ u', (talk window slot conn).exec u [.say line, .worker k (receiving line.length)] = some u' ∧ ¬NoneLost u' := by
  have hne : line.length ≠ 0 := fun h0 => hline (List.length_eq_zero_iff.mp h0)
  obtain ⟨m, v, hsay, hm, hanswer, hv, hstate⟩ := say_eq window slot hline hopen
  rw [hwaiting, List.nil_append] at hv
  rw [hinbox, List.nil_append] at hstate
  have hthread : v.state.threads[k]? = some th := by rw [hstate]; exact hth
  have hheard : (v.state.peers conn).inbox = line := by simp [hstate, State.setPeer]
  have hrecv : ∃ t, workerStep window v.state k (receiving line.length) = some t := by
    simp [workerStep, hthread, hcode, check_alive, hpc, State.recv, receiving, hne, hfits, hheard]
  obtain ⟨t, ht⟩ := hrecv
  have htaken : talkWorker window conn v k (receiving line.length) =
      some ({ v with state := t, waiting := [] }.deliver k th.code m) := by
    have hreceives : th.code.Receives conn := by simp [hcode, hpc]
    simp only [talkWorker, hthread, ht]
    rw [if_pos ⟨hreceives, hne⟩, hv]
    exact if_pos (by rw [hm]; rfl)
  refine ⟨_, Machine.exec_cons_eq_some.mpr ⟨v, hsay, (Machine.exec_singleton _ _ _).trans htaken⟩, fun hlost => ?_⟩
  exact hanswer k (hlost.own k m (by simp [Talk.deliver, hcode]))

/-- The client of the slot has been registered, and its handler starts. -/
def begun (slot : Slot) : Talk where
  state := { start with
    clients := fun i => if i = slot then ⟨3, fun _ => 0, true, none⟩ else ⟨0, fun _ => 0, false, none⟩
    num_clients := 1
    i := slot
    threads := [⟨0, slot, .handler ⟨.start, slot, [], fun _ => 0, 0⟩⟩]
    fds := fun fd => if fd = 3 then some 0 else none
    accepted := 1
    occupant := fun i => if i = slot then some 0 else none }
  waiting := []
  asked := []
  sent := []
  received := []
  taken := []

lemma begun_begun (slot : Slot) : Begun slot 0 (begun slot) where
  threads := ⟨_, rfl, rfl, rfl⟩
  i := rfl
  active i := by
    by_cases hi : i = slot <;> simp [begun, hi]
  recv_mutex := by simp [begun]
  clients_mutex := rfl
  checker := rfl
  fd := by simp [begun]
  peer := ⟨rfl, rfl⟩
  waiting := rfl
  asked := rfl
  sent := rfl
  received := rfl
  taken := rfl

def steps (k n : ℕ) : List TalkAction :=
  List.replicate n (.worker k (receiving 0))

/-- The first check asks, and waits for the answer. -/
def asking : List TalkAction :=
  List.replicate 4 .checker ++ steps 1 4

/-- The client says something when it is asked whether it is alive. -/
theorem not_none_lost : ¬∀ (window : ℕ) (slot : Slot) (conn : Conn) (u : Talk),
    (talk window slot conn).Reachable u → NoneLost u := by
  intro h
  have hrun : ((talk 1 0 0).exec (begun 0) (asking ++ [.say (bytesOf "2ALL hi"), .worker 1 (receiving 7)])).map
      (fun u => u.taken) = some [(1, .command (bytesOf "2ALL hi"))] := by
    decide +kernel
  obtain ⟨u, hu, htaken⟩ := Option.map_eq_some_iff.mp hrun
  have hstart : (talk 1 0 0).Reachable (begun 0) := .start (begun_begun 0)
  have hlost := (h 1 0 0 u (hstart.exec hu)).own 1 (.command (bytesOf "2ALL hi")) (by simp [htaken])
  cases hlost

/-- A check of the condition of a step. -/
def heeds (u : Talk) : TalkAction → Bool
  | .worker k _ =>
    match u.state.threads[k]? with
    | none => true
    | some th =>
      match th.code with
      | .handler g => g.pc ≠ .stopDeactivate
      | .check c => c.pc ≠ .deactivate && (c.pc ≠ .lockRecv || u.waiting.isEmpty && u.asked.isEmpty)
  | .say _ => u.state.threads.all fun th =>
    match th.code with
    | .handler _ => true
    | .check _ => false
  | _ => true

lemma heeds_of_check {u : Talk} {a : TalkAction} (h : heeds u a = true) : Heeds conn u a := by
  cases a with
  | worker k x =>
    intro th hth
    simp only [heeds, hth] at h
    cases hcode : th.code with
    | handler g =>
      simp only [hcode, decide_eq_true_eq] at h
      exact ⟨fun c hc => by simp at hc, fun hretires => absurd hretires h⟩
    | check c =>
      simp only [hcode, Bool.and_eq_true, Bool.or_eq_true, decide_eq_true_eq, List.isEmpty_iff] at h
      refine ⟨?_, fun hretires => absurd hretires h.1⟩
      rintro c' ⟨⟩ hpc -
      exact h.2.resolve_left fun hne => hne hpc
  | say line =>
    intro k th c hth hcode hexp
    simp only [heeds, List.all_eq_true] at h
    have hnone := h th (List.mem_of_getElem? hth)
    simp [hcode] at hnone
  | checker | answer | read | close => trivial

/-- The handler gets a command, and the next check the answer to its probe. -/
theorem none_lost_asked : ∃ u, (talk 1 0 0).ReachableBy (Heeds 0) u ∧ u.sent = [bytesOf "LIST"] ∧
    u.taken = [(1, .answer 1)] ∧ NoneLost u := by
  have hrun : (((talk 1 0 0).guard fun u a => heeds u a = true).exec (begun 0) (steps 0 5 ++
      [.say (bytesOf "LIST"), .worker 0 (receiving 4)] ++ steps 0 1 ++ asking ++ [.answer, .worker 1 (receiving 14)])).map
      (fun u => (u.sent, u.taken)) = some ([bytesOf "LIST"], [(1, .answer 1)]) := by
    decide +kernel
  obtain ⟨u, hu, he⟩ := Option.map_eq_some_iff.mp hrun
  obtain ⟨hsent, htaken⟩ := Prod.mk.inj he
  have hstart : ((talk 1 0 0).guard fun u a => heeds u a = true).Reachable (begun 0) := .start (begun_begun 0)
  have hreach : (talk 1 0 0).ReachableBy (Heeds 0) u :=
    (Machine.reachableBy_of_guard (hstart.exec hu)).mono fun v a hv => heeds_of_check hv
  exact ⟨u, hreach, hsent, htaken, none_lost hreach⟩

end SystemyOperacyjne.ChatServer
