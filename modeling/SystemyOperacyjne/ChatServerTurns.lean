import SystemyOperacyjne.ChatServerTalk

/-!
# The turns at `recv_mutex`

What the handler and the checks of one client know of the messages while they hold `recv_mutex`,
and that a step which receives none keeps it.
-/

namespace SystemyOperacyjne.ChatServer
open Concurrency CString

variable {slot : Slot} {conn : Conn}

/-! ### What is kept -/

/-- A thread between the lock and the unlock of its `recv_mutex`. -/
@[simp] def Code.HasRecv : Code → Prop
  | .handler h =>
    match h.pc with
    | .recv | .receiving _ _ | .unlockRecv => True
    | _ => False
  | .check c =>
    match c.pc with
    | .sendAlive | .read | .reading _ _ | .unlockRecv => True
    | _ => False

/-- Who is between the lock and the unlock of `recv_mutex`. -/
def State.HasRecv (s : State) (k : ℕ) : Prop :=
  ∃ th, s.threads[k]? = some th ∧ th.code.HasRecv

/-- What a check that expects an answer finds: its probe is the only one, and nothing comes before
the answer. -/
def Probing (u : Talk) (k : ℕ) : CheckPc → Prop
  | .sendAlive => u.waiting = [] ∧ u.asked = []
  | _ => u.waiting = [] ∧ (u.asked = [] ∨ u.asked = [k]) ∨ u.asked = [] ∧ ∃ rest, u.waiting = .answer k :: rest

/-- A handler that has marked its slot as free, or left its loop. -/
def Code.Gone : Code → Prop
  | .handler h => h.pc = .stopDecrement ∨ h.pc = .stopUnlock ∨ h.pc = .ended
  | .check _ => False

structure Kept (slot : Slot) (conn : Conn) (u : Talk) : Prop where
  i : u.state.i = slot.val
  others : ∀ i, (u.state.clients i).active = true → i = slot
  checker : ∀ i, u.state.checker = .create i → i = slot
  index : ∀ (k : ℕ) (th : Thread), u.state.threads[k]? = some th → th.code.index = slot
  single : ∀ (k : ℕ) (th : Thread), u.state.threads[k]? = some th → th.code.IsHandler → k = 0
  inbox : (u.state.peers conn).inbox = (u.waiting.map Message.bytes).flatten
  nonempty : ∀ m ∈ u.waiting, m.bytes ≠ []
  guards : Guards (u.state.clients slot).recv_mutex u.state.HasRecv
  expects : ∀ (k : ℕ) (th : Thread) (c : CheckAlive), u.state.threads[k]? = some th → th.code = .check c →
    Expects u.state conn c → Probing u k c.pc
  own : ∀ k m, (k, m) ∈ u.taken → m = .answer k
  once : commands u.received ++ commands u.waiting = u.sent
  gone : ∀ (k : ℕ) (th : Thread), u.state.threads[k]? = some th → th.code.Gone → (u.state.clients slot).active = false
  settled : (u.state.clients slot).active = false → Settled conn u

lemma commands_append (l l' : List Message) : commands (l ++ l') = commands l ++ commands l' :=
  List.filterMap_append

lemma commands_tail {m : Message} {l : List Message} (h : commands (m :: l) = []) : commands l = [] := by
  unfold commands at h ⊢
  rw [List.filterMap_cons] at h
  split at h
  · exact h
  · cases h

lemma hasRecv_of_expects {s : State} {c : CheckAlive} (h : Expects s conn c) : (Code.check c).HasRecv := by
  unfold Expects at h
  split at h
  all_goals simp_all

section
variable {u : Talk} {t : State} {k : ℕ} {th : Thread} {code : Code}

lemma get_set (hth : u.state.threads[k]? = some th) (hthreads : t.threads = u.state.threads.set k { th with code := code })
    {j : ℕ} {th' : Thread} (hj : t.threads[j]? = some th') :
    j = k ∧ th' = { th with code := code } ∨ j ≠ k ∧ u.state.threads[j]? = some th' := by
  rw [hthreads] at hj
  by_cases hjk : j = k
  · subst hjk
    rw [List.getElem?_set_self (List.getElem?_eq_some_iff.mp hth).1] at hj
    exact .inl ⟨rfl, (Option.some.inj hj).symm⟩
  · rw [List.getElem?_set_ne (Ne.symm hjk)] at hj
    exact .inr ⟨hjk, hj⟩

lemma get_self (hth : u.state.threads[k]? = some th)
    (hthreads : t.threads = u.state.threads.set k { th with code := code }) :
    t.threads[k]? = some { th with code := code } := by
  rw [hthreads, List.getElem?_set_self (List.getElem?_eq_some_iff.mp hth).1]

lemma Settled.keep (h : Settled conn u) (hth : u.state.threads[k]? = some th)
    (hthreads : t.threads = u.state.threads.set k { th with code := code }) (hnot : ¬th.code.Receives conn) :
    Settled conn (u.setState t) := by
  rcases h with hnone | ⟨htail, th', h', hmem, hcode, hpc⟩
  · exact .inl hnone
  · refine .inr ⟨htail, th', h', ?_, hcode, hpc⟩
    obtain ⟨j, hj⟩ := List.mem_iff_getElem?.mp hmem
    have hjk : j ≠ k := by
      rintro rfl
      obtain rfl := Option.some.inj (hth.symm.trans hj)
      exact hnot (by simp [hcode, hpc])
    refine List.mem_iff_getElem?.mpr ⟨j, ?_⟩
    rw [hthreads, List.getElem?_set_ne (Ne.symm hjk)]
    exact hj

/-- What a step of the thread `k` leaves as it was, for the threads and their locks. -/
structure Goes (slot : Slot) (conn : Conn) (u : Talk) (k : ℕ) (th : Thread) (code : Code) (t : State) : Prop where
  thread : u.state.threads[k]? = some th
  threads : t.threads = u.state.threads.set k { th with code := code }
  i : t.i = u.state.i
  checker : t.checker = u.state.checker
  active : ∀ i, (t.clients i).active = true → (u.state.clients i).active = true
  socket_fd : (t.clients slot).socket_fd = (u.state.clients slot).socket_fd
  fds : ∀ f c, t.fds f = some c → u.state.fds f = some c
  index : code.index = slot
  kind : code.IsHandler → th.code.IsHandler
  guards : Guards (t.clients slot).recv_mutex t.HasRecv
  gone : code.Gone → th.code.Gone ∨ (t.clients slot).active = false

lemma Goes.expects_other (hg : Goes slot conn u k th code t) (h : Kept slot conn u) {j : ℕ} {th' : Thread}
    {c : CheckAlive} (hj : u.state.threads[j]? = some th') (hcode : th'.code = .check c) (hexp : Expects t conn c) :
    Expects u.state conn c := by
  have hindex : c.client_index = slot := by
    have hidx := h.index j th' hj
    rwa [hcode] at hidx
  unfold Expects at hexp ⊢
  rw [hindex] at hexp ⊢
  rw [hg.socket_fd] at hexp
  split
  · next hpc =>
    rw [hpc] at hexp
    exact hg.fds _ _ hexp
  · next hpc =>
    rw [hpc] at hexp
    exact hg.fds _ _ hexp
  · next hpc =>
    rw [hpc] at hexp
    exact hexp
  · next h1 h2 h3 =>
    split at hexp
    · next hpc => exact h1 hpc
    · next hpc => exact h2 hpc
    · next d timeout hpc => exact h3 d timeout hpc
    · exact hexp

lemma Goes.kept {v : Talk} (hg : Goes slot conn u k th code v.state) (h : Kept slot conn u)
    (hinbox : (v.state.peers conn).inbox = (v.waiting.map Message.bytes).flatten)
    (hnonempty : ∀ m ∈ v.waiting, m.bytes ≠ [])
    (hexpects : ∀ c, code = .check c → Expects v.state conn c → Probing v k c.pc)
    (hothers : ∀ (j : ℕ) (th' : Thread) (c : CheckAlive), j ≠ k → u.state.threads[j]? = some th' → th'.code = .check c →
      Expects u.state conn c → Probing v j c.pc)
    (hown : ∀ j m, (j, m) ∈ v.taken → m = .answer j)
    (honce : commands v.received ++ commands v.waiting = v.sent)
    (hsettled : (v.state.clients slot).active = false → Settled conn v) : Kept slot conn v := by
  refine ⟨hg.i.trans h.i, fun i hi => h.others i (hg.active i hi), fun i hi => h.checker i (hg.checker ▸ hi),
    fun j th' hj => ?_, fun j th' hj hh => ?_, hinbox, hnonempty, hg.guards, fun j th' c hj hcode hexp => ?_, hown, honce,
    fun j th' hj hgone => ?_, hsettled⟩
  · rcases get_set hg.thread hg.threads hj with ⟨rfl, rfl⟩ | ⟨-, hj⟩
    · exact hg.index
    · exact h.index j th' hj
  · rcases get_set hg.thread hg.threads hj with ⟨rfl, rfl⟩ | ⟨-, hj⟩
    · exact h.single j th hg.thread (hg.kind hh)
    · exact h.single j th' hj hh
  · rcases get_set hg.thread hg.threads hj with ⟨rfl, rfl⟩ | ⟨hjk, hj⟩
    · exact hexpects c hcode hexp
    · exact hothers j th' c hjk hj hcode (hg.expects_other h hj hcode hexp)
  · have hfalse : (u.state.clients slot).active = false → (v.state.clients slot).active = false := by
      intro hf
      cases ht : (v.state.clients slot).active with
      | false => rfl
      | true =>
        rw [hg.active slot ht] at hf
        cases hf
    rcases get_set hg.thread hg.threads hj with ⟨rfl, rfl⟩ | ⟨-, hj⟩
    · rcases hg.gone hgone with hold | hdone
      · exact hfalse (h.gone j th hg.thread hold)
      · exact hdone
    · exact hfalse (h.gone j th' hj hgone)

lemma Goes.kept_same (hg : Goes slot conn u k th code t) (h : Kept slot conn u)
    (hinbox : (t.peers conn).inbox = (u.state.peers conn).inbox)
    (hexpects : ∀ c, code = .check c → Expects t conn c → Probing u k c.pc)
    (hsettled : (t.clients slot).active = false → Settled conn (u.setState t)) : Kept slot conn (u.setState t) :=
  Goes.kept (v := u.setState t) hg h (hinbox.trans h.inbox) h.nonempty hexpects
    (fun j th' c _ hj hcode hexp => h.expects j th' c hj hcode hexp) h.own h.once hsettled

/-! ### The locks -/

lemma guards_keep (hth : u.state.threads[k]? = some th) (hthreads : t.threads = u.state.threads.set k { th with code := code })
    (h : Guards (u.state.clients slot).recv_mutex u.state.HasRecv)
    (hmutex : (t.clients slot).recv_mutex = (u.state.clients slot).recv_mutex) (hsame : code.HasRecv → th.code.HasRecv) :
    Guards (t.clients slot).recv_mutex t.HasRecv := by
  rw [hmutex]
  apply h.keep
  rintro j ⟨th', hj, hin⟩
  rcases get_set hth hthreads hj with ⟨rfl, rfl⟩ | ⟨-, hj⟩
  · exact ⟨th, hth, hsame hin⟩
  · exact ⟨th', hj, hin⟩

lemma guards_lock (hth : u.state.threads[k]? = some th) (hthreads : t.threads = u.state.threads.set k { th with code := code })
    (h : Guards (u.state.clients slot).recv_mutex u.state.HasRecv) (hfree : (u.state.clients slot).recv_mutex = none)
    (hmutex : (t.clients slot).recv_mutex = some k) : Guards (t.clients slot).recv_mutex t.HasRecv := by
  rw [hfree] at h
  rw [hmutex]
  apply h.lock
  rintro j hjk ⟨th', hj, hin⟩
  rcases get_set hth hthreads hj with ⟨rfl, -⟩ | ⟨-, hj⟩
  · exact absurd rfl hjk
  · exact ⟨th', hj, hin⟩

lemma guards_unlock (hth : u.state.threads[k]? = some th)
    (hthreads : t.threads = u.state.threads.set k { th with code := code })
    (h : Guards (u.state.clients slot).recv_mutex u.state.HasRecv) (hin : th.code.HasRecv) (hout : ¬code.HasRecv)
    (hmutex : (t.clients slot).recv_mutex = none) : Guards (t.clients slot).recv_mutex t.HasRecv := by
  rw [hmutex]
  refine h.unlock (i := k) ⟨th, hth, hin⟩ ?_ ?_
  · rintro ⟨th', hk, hin'⟩
    obtain rfl := Option.some.inj ((get_self hth hthreads).symm.trans hk)
    exact hout hin'
  · rintro j hjk ⟨th', hj, hin'⟩
    rcases get_set hth hthreads hj with ⟨rfl, -⟩ | ⟨-, hj⟩
    · exact absurd rfl hjk
    · exact ⟨th', hj, hin'⟩

/-! ### A step that receives nothing -/

/-- The thread with the code `c` may go on with `c'`. -/
structure Code.Next (slot : Slot) (active : Bool) (c c' : Code) : Prop where
  index : c'.index = slot
  kind : c'.IsHandler → c.IsHandler
  gone : c'.Gone → c.Gone ∨ active = false

lemma Kept.after {num : ℤ} {mutex : Option Owner} {fds : ℕ → Option Conn} {peers : Conn → Peer} (h : Kept slot conn u)
    (hth : u.state.threads[k]? = some th) (hnext : Code.Next slot (u.state.clients slot).active th.code code)
    (hrecv : code.HasRecv → th.code.HasRecv) (hfds : ∀ f c, fds f = some c → u.state.fds f = some c)
    (hinbox : (peers conn).inbox = (u.state.peers conn).inbox)
    (hexpects : ∀ c, code = .check c → Expects (u.state.after k th code u.state.clients num mutex fds peers) conn c →
      Probing u k c.pc)
    (hreceives : th.code.Receives conn → commands u.waiting = []) :
    Kept slot conn (u.setState (u.state.after k th code u.state.clients num mutex fds peers)) := by
  have hg : Goes slot conn u k th code (u.state.after k th code u.state.clients num mutex fds peers) :=
    ⟨hth, rfl, rfl, rfl, fun _ hi => hi, rfl, hfds, hnext.index, hnext.kind, guards_keep hth rfl h.guards rfl hrecv,
      hnext.gone⟩
  refine hg.kept_same h hinbox hexpects fun hf => ?_
  by_cases hr : th.code.Receives conn
  · exact .inl (hreceives hr)
  · exact (h.settled hf).keep hth rfl hr

lemma Kept.sets {c : ClientInfo} (h : Kept slot conn u) (hth : u.state.threads[k]? = some th)
    (ht : t = (u.state.setThread k { th with code := code }).setClient slot c) (hindex : code.index = slot)
    (hkind : code.IsHandler → th.code.IsHandler) (hfd : c.socket_fd = (u.state.clients slot).socket_fd)
    (hactive : c.active = true → (u.state.clients slot).active = true) (hgone : code.Gone → c.active = false)
    (hguards : Guards (t.clients slot).recv_mutex t.HasRecv)
    (hexpects : ∀ c', code = .check c' → Expects t conn c' → Probing u k c'.pc)
    (hsettled : c.active = false → Settled conn u) (hnorecv : ¬th.code.Receives conn) : Kept slot conn (u.setState t) := by
  have hself : t.clients slot = c := by simp [ht, State.setClient]
  have hg : Goes slot conn u k th code t := by
    refine ⟨hth, by rw [ht]; rfl, by rw [ht]; rfl, by rw [ht]; rfl, fun i hi => ?_, by rw [hself]; exact hfd,
      by rw [ht]; exact fun _ _ hf => hf, hindex, hkind, hguards, fun hgo => .inr (by rw [hself]; exact hgone hgo)⟩
    by_cases his : i = slot
    · subst his
      rw [hself] at hi
      exact hactive hi
    · simp only [ht, State.setClient, Function.update_of_ne his] at hi
      exact hi
  refine hg.kept_same h (by rw [ht]; rfl) hexpects fun hf => ?_
  rw [hself] at hf
  exact (hsettled hf).keep hth hg.threads hnorecv

lemma Kept.locksRecv (code : Code) (h : Kept slot conn u) (hth : u.state.threads[k]? = some th)
    (ht : t = (u.state.setThread k { th with code := code }).setClient slot
      { u.state.clients slot with recv_mutex := some k })
    (hindex : code.index = slot) (hkind : code.IsHandler → th.code.IsHandler) (hgone : ¬code.Gone)
    (hfree : (u.state.clients slot).recv_mutex = none)
    (hexpects : ∀ c, code = .check c → Expects t conn c → Probing u k c.pc) (hnorecv : ¬th.code.Receives conn) :
    Kept slot conn (u.setState t) := by
  refine h.sets hth ht hindex hkind rfl id (fun hg => absurd hg hgone) ?_ hexpects h.settled hnorecv
  exact guards_lock hth (by rw [ht]; rfl) h.guards hfree (by simp [ht, State.setClient])

lemma Kept.unlocksRecv (code : Code) (h : Kept slot conn u) (hth : u.state.threads[k]? = some th)
    (ht : t = (u.state.setThread k { th with code := code }).setClient slot { u.state.clients slot with recv_mutex := none })
    (hindex : code.index = slot) (hkind : code.IsHandler → th.code.IsHandler) (hgone : ¬code.Gone)
    (hin : th.code.HasRecv) (hout : ¬code.HasRecv) (hnorecv : ¬th.code.Receives conn) : Kept slot conn (u.setState t) := by
  refine h.sets hth ht hindex hkind rfl id (fun hg => absurd hg hgone) ?_ ?_ h.settled hnorecv
  · exact guards_unlock hth (by rw [ht]; rfl) h.guards hin hout (by simp [ht, State.setClient])
  · rintro c rfl hexp
    exact absurd (hasRecv_of_expects hexp) hout

lemma Kept.deactivates (code : Code) (h : Kept slot conn u) (hth : u.state.threads[k]? = some th)
    (ht : t = (u.state.setThread k { th with code := code }).setClient slot { u.state.clients slot with active := false })
    (hindex : code.index = slot) (hkind : code.IsHandler → th.code.IsHandler) (hout : ¬code.HasRecv)
    (hsettled : Settled conn u) (hnorecv : ¬th.code.Receives conn) : Kept slot conn (u.setState t) := by
  refine h.sets hth ht hindex hkind rfl (fun hf => by cases hf) (fun _ => rfl) ?_ ?_ (fun _ => hsettled) hnorecv
  · exact guards_keep hth (by rw [ht]; rfl) h.guards (by simp [ht, State.setClient]) fun hin => absurd hin hout
  · rintro c rfl hexp
    exact absurd (hasRecv_of_expects hexp) hout

/-- A thread that receives nothing although it waits for the connection finds nothing there. -/
lemma nothing_waits (h : Kept slot conn u) {timeout : Bool} {count : ℕ} {r : ℤ × List UInt8 × State} (hcount : count = 0)
    (hr : u.state.recv (some conn) timeout BUFFER_SIZE count = some r) : u.waiting = [] := by
  simp only [State.recv, hcount, if_true] at hr
  split at hr
  · cases hr
  · next hempty =>
    rw [not_not, h.inbox, List.flatten_eq_nil_iff] at hempty
    cases hw : u.waiting with
    | nil => rfl
    | cons m rest =>
      have hm : m ∈ u.waiting := by simp [hw]
      exact absurd (hempty m.bytes (List.mem_map_of_mem hm)) (h.nonempty m hm)

lemma inbox_of_recv {s : State} {d : Option Conn} {timeout : Bool} {count : ℕ} {r : ℤ × List UInt8 × State}
    (hr : s.recv d timeout BUFFER_SIZE count = some r) (hnot : ¬(d = some conn ∧ count ≠ 0)) :
    (r.2.2.peers conn).inbox = (s.peers conn).inbox := by
  obtain (rfl | rfl) | ⟨c, rfl, hcount, -, rfl⟩ := recv_cases hr
  · rfl
  · rfl
  · have hc : conn ≠ c := fun he => hnot ⟨congrArg some he.symm, hcount⟩
    simp [State.setPeer, Function.update_of_ne hc]

lemma Kept.misses {d : Option Conn} {timeout : Bool} {count : ℕ} {r : ℤ × List UInt8 × State} (h : Kept slot conn u)
    (hth : u.state.threads[k]? = some th) (ht : t = r.2.2.setThread k { th with code := code })
    (hnext : Code.Next slot (u.state.clients slot).active th.code code) (hin : th.code.HasRecv)
    (hr : u.state.recv d timeout BUFFER_SIZE count = some r) (hnot : ¬(d = some conn ∧ count ≠ 0))
    (hreceives : th.code.Receives conn → d = some conn) (hexpects : ∀ c, code = .check c → ¬Expects t conn c) :
    Kept slot conn (u.setState t) := by
  subst ht
  have hinbox := inbox_of_recv hr hnot
  obtain ⟨peers, hpeers⟩ := recv_eq hr
  rw [hpeers] at hinbox hexpects ⊢
  refine h.after hth hnext (fun _ => hin) (fun _ _ hf => hf) hinbox (fun c hc hexp => absurd hexp (hexpects c hc))
    fun hrec => ?_
  have hd := hreceives hrec
  subst hd
  have hcount : count = 0 := by
    by_contra hne
    exact hnot ⟨rfl, hne⟩
  rw [nothing_waits h hcount hr]
  rfl

/-- The step to `pc` has nothing to do with receiving. -/
def Handler.Passes (g : Handler) (conn : Conn) (pc : HandlerPc) : Prop :=
  ¬(Code.handler { g with pc := pc }).HasRecv ∧ ((Code.handler { g with pc := pc }).Gone → (Code.handler g).Gone) ∧
    ¬(Code.handler g).Receives conn

lemma HandlerPc.Goes.passes {g : Handler} {pc : HandlerPc} (hgo : g.pc.Goes pc) : g.Passes conn pc := by
  unfold Handler.Passes
  generalize hpc : g.pc = from_ at hgo
  cases hgo <;> simp [Code.Gone, hpc]

lemma HandlerPc.Locks.passes {g : Handler} {pc : HandlerPc} (hlocks : g.pc.Locks pc) : g.Passes conn pc := by
  unfold Handler.Passes
  generalize hpc : g.pc = from_ at hlocks
  cases hlocks <;> simp [Code.Gone, hpc]

lemma HandlerPc.Unlocks.passes {g : Handler} {pc : HandlerPc} (hunlocks : g.pc.Unlocks pc) : g.Passes conn pc := by
  unfold Handler.Passes
  generalize hpc : g.pc = from_ at hunlocks
  cases hunlocks <;> simp [Code.Gone, hpc]

lemma passes_dispatch {g : Handler} (hpc : g.pc = .dispatch) (c : Command) : g.Passes conn (dispatchPc c) := by
  cases c <;> simp [Handler.Passes, Code.Gone, dispatchPc, hpc]

lemma Kept.handler (h : Kept slot conn u) {g : Handler} {x : Input} (hth : u.state.threads[k]? = some th)
    (hcode : th.code = .handler g) (hretires : th.code.Retires → Settled conn u)
    (hnot : ¬(th.code.Receives conn ∧ x.count ≠ 0)) (hm : HandlerMove u.state k th g x t) :
    Kept slot conn (u.setState t) := by
  have hindex : g.client_index = slot := by
    have hidx := h.index k th hth
    rwa [hcode] at hidx
  have hnext : ∀ {g' : Handler}, g'.client_index = slot →
      ((Code.handler g').Gone → (Code.handler g).Gone ∨ (u.state.clients slot).active = false) →
      Code.Next slot (u.state.clients slot).active th.code (.handler g') := by
    intro g' hidx hgone
    rw [hcode]
    exact ⟨hidx, id, hgone⟩
  have hpass : ∀ {pc : HandlerPc} {mutex : Option Owner} {peers : Conn → Peer}, g.Passes conn pc →
      SameIncoming u.state.peers peers → Kept slot conn (u.setState (u.state.after k th
        (.handler { g with pc := pc }) u.state.clients u.state.num_clients mutex u.state.fds peers)) := by
    intro pc mutex peers hpasses hpeers
    obtain ⟨hrecv, hgone, hreceives⟩ := hpasses
    rw [← hcode] at hreceives
    exact h.after hth (hnext hindex fun hg => .inl (hgone hg)) (fun hin => absurd hin hrecv) (fun _ _ hf => hf)
      (hpeers conn).1 (fun c hc => by cases hc) fun hr => absurd hr hreceives
  cases hm with
  | starts hpc hi =>
    exact h.after hth (hnext (Fin.ext h.i) (by simp [Code.Gone])) (by simp) (fun _ _ hf => hf) rfl
      (fun c hc => by cases hc) (by simp [hcode, hpc])
  | copiesName hpc | terminates hpc =>
    exact h.after hth (hnext hindex (by simp [Code.Gone])) (by simp) (fun _ _ hf => hf) rfl
      (fun c hc => by cases hc) (by simp [hcode, hpc])
  | goes hgo hpeers => exact hpass hgo.passes hpeers
  | locksRecv hpc hfree =>
    subst hindex
    exact h.locksRecv (.handler { g with pc := .recv }) hth rfl rfl (by simp [hcode]) (by simp [Code.Gone]) hfree
      (fun c hc => by cases hc) (by simp [hcode, hpc])
  | callsRecv hpc =>
    exact h.after hth (hnext hindex (by simp [Code.Gone])) (by simp [hcode, hpc]) (fun _ _ hf => hf) rfl
      (fun c hc => by cases hc) (by simp [hcode, hpc])
  | receives hpc hr =>
    refine h.misses hth rfl (hnext hindex (by simp [Code.Gone])) (by simp [hcode, hpc]) hr (fun hboth => ?_)
      (by simp [hcode, hpc]) fun c hc => by cases hc
    exact hnot ⟨by simp [hcode, hpc, hboth.1], hboth.2⟩
  | unlocksRecv hpc =>
    subst hindex
    exact h.unlocksRecv (.handler { g with pc := .testActive }) hth rfl rfl (by simp [hcode]) (by simp [Code.Gone])
      (by simp [hcode, hpc]) (by simp) (by simp [hcode, hpc])
  | staysActive hpc | retries hpc | overruns hpc =>
    exact hpass (by simp [Handler.Passes, Code.Gone, hpc]) (.refl _)
  | leaves hpc hactive =>
    rw [hindex] at hactive
    exact h.after hth (hnext hindex fun _ => .inr hactive) (by simp) (fun _ _ hf => hf) rfl
      (fun c hc => by cases hc) (by simp [hcode, hpc])
  | dispatches hpc => exact hpass (passes_dispatch hpc _) (.refl _)
  | locks hlocks => exact hpass hlocks.passes (.refl _)
  | unlocks hunlocks => exact hpass hunlocks.passes (.refl _)
  | closes hpc =>
    exact h.after hth (hnext hindex (by simp [Code.Gone])) (by simp) (fun _ _ => open_of_close) rfl
      (fun c hc => by cases hc) (by simp [hcode, hpc])
  | deactivates hpc =>
    subst hindex
    exact h.deactivates (.handler { g with pc := .stopDecrement }) hth rfl rfl (by simp [hcode]) (by simp)
      (hretires (by rw [hcode]; exact hpc)) (by simp [hcode, hpc])
  | decrements hpc =>
    exact h.after hth (hnext hindex (by simp [Code.Gone, hpc])) (by simp) (fun _ _ hf => hf) rfl
      (fun c hc => by cases hc) (by simp [hcode, hpc])

lemma Kept.check (h : Kept slot conn u) {c : CheckAlive} {x : Input} (hth : u.state.threads[k]? = some th)
    (hcode : th.code = .check c) (hlock : c.pc = .lockRecv →
      u.state.fds (u.state.clients c.client_index).socket_fd = some conn → u.waiting = [] ∧ u.asked = [])
    (hretires : th.code.Retires → Settled conn u) (hnot : ¬(th.code.Receives conn ∧ x.count ≠ 0))
    (hm : CheckMove u.state k th c x t) : Kept slot conn (u.setState t) := by
  have hindex : c.client_index = slot := by
    have hidx := h.index k th hth
    rwa [hcode] at hidx
  have hnext : ∀ {c' : CheckAlive}, c'.client_index = slot →
      Code.Next slot (u.state.clients slot).active th.code (.check c') :=
    fun hidx => ⟨hidx, fun hf => hf.elim, fun hf => hf.elim⟩
  have hquiet : ∀ {c' : CheckAlive} {num : ℤ} {mutex : Option Owner} {fds : ℕ → Option Conn} {peers : Conn → Peer},
      c'.client_index = slot → ¬(Code.check c').HasRecv → ¬(Code.check c).Receives conn →
      (∀ f d, fds f = some d → u.state.fds f = some d) → SameIncoming u.state.peers peers →
      Kept slot conn (u.setState (u.state.after k th (.check c') u.state.clients num mutex fds peers)) := by
    intro c' num mutex fds peers hidx hout hrec hfds hpeers
    rw [← hcode] at hrec
    refine h.after hth (hnext hidx) (fun hin => absurd hin hout) hfds (hpeers conn).1 ?_ (fun hr => absurd hr hrec)
    rintro c'' ⟨⟩ hexp
    exact absurd (hasRecv_of_expects hexp) hout
  cases hm with
  | setsTimeout hpc hpeers => exact hquiet hindex (by simp) (by simp [hpc]) (fun _ _ hf => hf) hpeers
  | locksRecv hpc hfree =>
    subst hindex
    refine h.locksRecv (.check { c with pc := .sendAlive }) hth rfl rfl (fun hf => hf.elim) (fun hf => hf.elim) hfree
      ?_ (by simp [hcode, hpc])
    rintro c' ⟨⟩ hexp
    refine hlock hpc ?_
    simpa [Expects, State.setClient, State.checkAt, State.setThread] using hexp
  | asks hpc hpeers =>
    refine h.after hth (hnext hindex) (by simp [hcode, hpc]) (fun _ _ hf => hf) (hpeers conn).1 ?_ (by simp [hcode, hpc])
    rintro c' ⟨⟩ hexp
    have hfd : u.state.fds (u.state.clients c.client_index).socket_fd = some conn := hexp
    have hprobing := h.expects k th c hth hcode (by simpa [Expects, hpc] using hfd)
    rw [hpc] at hprobing
    exact .inl ⟨hprobing.1, .inl hprobing.2⟩
  | callsRead hpc =>
    refine h.after hth (hnext hindex) (by simp [hcode, hpc]) (fun _ _ hf => hf) rfl ?_ (by simp [hcode, hpc])
    rintro c' ⟨⟩ hexp
    have hfd : u.state.fds (u.state.clients c.client_index).socket_fd = some conn := hexp
    have hprobing := h.expects k th c hth hcode (by simpa [Expects, hpc] using hfd)
    rw [hpc] at hprobing
    exact hprobing
  | reads hpc hr =>
    refine h.misses hth rfl (hnext hindex) (by simp [hcode, hpc]) hr (fun hboth => ?_) (by simp [hcode, hpc]) ?_
    · exact hnot ⟨by simp [hcode, hpc, hboth.1], hboth.2⟩
    · rintro c' ⟨⟩
      simp [Expects]
  | unlocksRecv hpc =>
    subst hindex
    exact h.unlocksRecv (.check { c with pc := .testReceived }) hth rfl rfl (fun hf => hf.elim) (fun hf => hf.elim)
      (by simp [hcode, hpc]) (by simp) (by simp [hcode, hpc])
  | findsDead hpc | findsAlive hpc | locks hpc | decrements hpc | unlocks hpc =>
    exact hquiet hindex (by simp) (by simp [hpc]) (fun _ _ hf => hf) (.refl _)
  | closes hpc => exact hquiet hindex (by simp) (by simp [hpc]) (fun _ _ => open_of_close) (.refl _)
  | deactivates hpc =>
    subst hindex
    exact h.deactivates (.check { c with pc := .decrement }) hth rfl rfl (fun hf => hf.elim) (by simp)
      (hretires (by rw [hcode]; exact hpc)) (by simp [hcode, hpc])

end

end SystemyOperacyjne.ChatServer
