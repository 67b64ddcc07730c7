import SystemyOperacyjne.ChatServerSteps

/-!
# The registration of a connection

What `main` of the chat server knows about the connection it has accepted last, from `accept`
to the start of its handler, and which connections have handlers.
-/

namespace SystemyOperacyjne.ChatServer
open Concurrency CString

variable {window : ℕ} {s t : State}

/-- The last accepted connection has no handler yet. -/
def MainPc.Pending : MainPc → Prop
  | .accept | .unlock => False
  | _ => True

/-- Before the search has ended, `main` has the descriptor of the connection. -/
def MainPc.Holds : MainPc → ℕ → Prop
  | .lock fd | .testCapacity fd | .refuse fd | .refuseClose fd | .search fd => fun f => f = fd
  | _ => fun _ => False

/-- The connection has been put into a slot. -/
def MainPc.Registering : MainPc → Slot → Prop
  | .recvName _ j | .receivingName _ _ j | .setActive j | .initMutex j | .increment j | .create j => fun i => i = j
  | _ => fun _ => False

structure Registered (s : State) : Prop where
  opened : ∀ f c, s.fds f = some c → c < s.accepted
  pending : s.main.Pending → 0 < s.accepted
  holds : ∀ fd, s.main.Holds fd → ∀ f, s.fds f = some (s.accepted - 1) → f = fd
  registering : ∀ j, s.main.Registering j → s.occupant j = some (s.accepted - 1)
  handlers : ∀ (k : ℕ) (th : Thread), s.threads[k]? = some th → th.code.IsHandler →
    th.conn < s.accepted ∧ (s.main.Pending → th.conn + 1 < s.accepted)
  distinct : ∀ (j k : ℕ) (u v : Thread), s.threads[j]? = some u → s.threads[k]? = some v → u.code.IsHandler →
    v.code.IsHandler → u.conn = v.conn → j = k

/-- `main` is about to use the slot `i`, which it found free. -/
def MainPc.Filling : MainPc → Slot → Prop
  | .setFd _ j | .recvName _ j | .receivingName _ _ j | .setActive j => fun i => i = j
  | _ => fun _ => False

/-- No slot is activated twice. -/
def FillsFree (s : State) : Prop :=
  ∀ i, s.main.Filling i → (s.clients i).active = false

/-- Each handler was there before. -/
def NoNewHandler (s t : State) : Prop :=
  ∀ (k : ℕ) (u : Thread), t.threads[k]? = some u → u.code.IsHandler →
    ∃ v : Thread, s.threads[k]? = some v ∧ v.code.IsHandler ∧ v.conn = u.conn

lemma noNewHandler_of_eq (h : t.threads = s.threads) : NoNewHandler s t := by
  intro k u hu hh
  rw [h] at hu
  exact ⟨u, hu, hh, rfl⟩

lemma noNewHandler_worker {k : ℕ} {th : Thread} {x : Input} (hth : s.threads[k]? = some th)
    (hs : WorkerStep s k th x t) : NoNewHandler s t := by
  intro j u hu hh
  rcases get_of_worker hth hs hu with ⟨rfl, code, rfl, hmove⟩ | ⟨-, hold⟩
  · exact ⟨th, hth, hmove.kind.mp hh, rfl⟩
  · exact ⟨u, hold, hh, rfl⟩

lemma noNewHandler_checker (hs : CheckerMove s t) : NoNewHandler s t := by
  cases hs with
  | creates hpc =>
    intro k u hu hh
    rcases get_append hu with hold | ⟨-, rfl⟩
    · exact ⟨u, hold, hh, rfl⟩
    · exact hh.elim
  | wakes | locks | finds | skips | ends | unlocks => exact noNewHandler_of_eq rfl

lemma Registered.keep (h : Registered s) (haccepted : t.accepted = s.accepted) (hthreads : NoNewHandler s t)
    (hfds : ∀ f c, t.fds f = some c → s.fds f = some c) (hpending : t.main.Pending → s.main.Pending)
    (hholds : ∀ fd, t.main.Holds fd → s.main.Holds fd)
    (hreg : ∀ j, t.main.Registering j → t.occupant j = some (s.accepted - 1)) : Registered t where
  opened f c hf := by
    rw [haccepted]
    exact h.opened f c (hfds f c hf)
  pending hp := by
    rw [haccepted]
    exact h.pending (hpending hp)
  holds fd hfd f hf := by
    rw [haccepted] at hf
    exact h.holds fd (hholds fd hfd) f (hfds f _ hf)
  registering j hj := by
    rw [haccepted]
    exact hreg j hj
  handlers k u hu hh := by
    obtain ⟨v, hv, hvh, hconn⟩ := hthreads k u hu hh
    rw [haccepted, ← hconn]
    exact ⟨(h.handlers k v hv hvh).1, fun hp => (h.handlers k v hv hvh).2 (hpending hp)⟩
  distinct j k u v hu hv huh hvh hconn := by
    obtain ⟨u', hu', huh', huc⟩ := hthreads j u hu huh
    obtain ⟨v', hv', hvh', hvc⟩ := hthreads k v hv hvh
    exact h.distinct j k u' v' hu' hv' huh' hvh' (by rw [huc, hvc, hconn])

lemma registered_main {x : Input} (h : Registered s) (hs : MainMove s x t) : Registered t := by
  cases hs with
  | accepts hpc hfd =>
    refine ⟨?_, fun _ => Nat.succ_pos _, ?_, fun j hj => hj.elim, ?_, h.distinct⟩
    · intro f c hf
      have hget : Function.update s.fds x.fd (some s.accepted) f = some c := hf
      by_cases he : f = x.fd
      · rw [he, Function.update_self] at hget
        obtain rfl := Option.some.inj hget
        exact Nat.lt_succ_self _
      · rw [Function.update_of_ne he] at hget
        exact Nat.lt_succ_of_lt (h.opened f c hget)
    · rintro fd rfl f hf
      have hget : Function.update s.fds x.fd (some s.accepted) f = some s.accepted := hf
      by_contra hne
      rw [Function.update_of_ne hne] at hget
      exact absurd (h.opened f _ hget) (lt_irrefl _)
    · intro k th hth hh
      have hlt := (h.handlers k th hth hh).1
      exact ⟨Nat.lt_succ_of_lt hlt, fun _ => Nat.succ_lt_succ hlt⟩
  | locks hpc | full hpc | hasRoom hpc | refuses hpc =>
    refine h.keep rfl (noNewHandler_of_eq rfl) (fun _ _ hf => hf) ?_ ?_ fun j hj => hj.elim
    · rw [hpc]
      exact id
    · rw [hpc]
      exact fun _ => id
  | closes hpc =>
    exact h.keep rfl (noNewHandler_of_eq rfl) (fun _ _ => open_of_close) (fun hp => hp.elim) (fun _ hfd => hfd.elim)
      fun _ hj => hj.elim
  | skips hpc =>
    exact h.keep rfl (noNewHandler_of_eq rfl) (fun _ _ hf => hf) id (fun _ => id) h.registering
  | finds hpc =>
    refine h.keep rfl (noNewHandler_of_eq rfl) (fun _ _ hf => hf) ?_ (fun _ hfd => hfd.elim) fun _ hj => hj.elim
    rw [hpc]
    exact id
  | findsNone hpc | unlocks hpc =>
    exact h.keep rfl (noNewHandler_of_eq rfl) (fun _ _ hf => hf) (fun hp => hp.elim) (fun _ hfd => hfd.elim)
      fun _ hj => hj.elim
  | setsFd hpc =>
    refine h.keep rfl (noNewHandler_of_eq rfl) (fun _ _ hf => hf) ?_ (fun _ hfd => hfd.elim) ?_
    · rw [hpc]
      exact id
    · rintro j rfl
      exact Function.update_self _ _ _
  | callsRecv hpc | receives hpc | activates hpc | initsMutex hpc | increments hpc =>
    refine h.keep rfl (noNewHandler_of_eq rfl) (fun _ _ hf => hf) ?_ (fun _ hfd => hfd.elim) ?_
    · rw [hpc]
      exact id
    · rintro j rfl
      exact h.registering j (by rw [hpc]; rfl)
  | @creates slot hpc =>
    have hpending : s.main.Pending := by
      rw [hpc]
      trivial
    have hpos := h.pending hpending
    have hocc : (s.occupant slot).getD 0 = s.accepted - 1 := by
      rw [h.registering slot (by rw [hpc]; rfl), Option.getD_some]
    have hnew : ∀ (k : ℕ) (th : Thread), s.threads[k]? = some th → th.code.IsHandler →
        th.conn ≠ (s.occupant slot).getD 0 := by
      intro k th hth hh he
      have hlt : s.accepted - 1 + 1 < s.accepted := by
        rw [← hocc, ← he]
        exact (h.handlers k th hth hh).2 hpending
      omega
    refine ⟨h.opened, fun hp => hp.elim, fun _ hfd => hfd.elim, fun _ hj => hj.elim, ?_, ?_⟩
    · intro k th hth hh
      refine ⟨?_, fun hp => hp.elim⟩
      rcases get_append hth with hold | ⟨-, rfl⟩
      · exact (h.handlers k th hold hh).1
      · have hlt : s.accepted - 1 < s.accepted := by omega
        simpa only [hocc] using hlt
    · intro j k u v hu hv huh hvh hconn
      rcases get_append hu with hu | ⟨hj, rfl⟩
      · rcases get_append hv with hv | ⟨-, rfl⟩
        · exact h.distinct j k u v hu hv huh hvh hconn
        · exact absurd hconn (hnew j u hu huh)
      · rcases get_append hv with hv | ⟨hk, -⟩
        · exact absurd hconn.symm (hnew k v hv hvh)
        · rw [hj, hk]

theorem registered_step {a : Action} (h : Registered s) (hs : step window s a = some t) : Registered t := by
  obtain ⟨x, -, hm⟩ | ⟨-, hc⟩ | ⟨k, x, th, -, hth, hw⟩ | ⟨peers, rfl⟩ := step_cases hs
  · exact registered_main h hm
  · have hthreads := noNewHandler_checker hc
    cases hc <;> exact h.keep rfl hthreads (fun _ _ hf => hf) id (fun _ => id) h.registering
  · have hthreads := noNewHandler_worker hth hw
    obtain ⟨code, clients, num, mutex, fds, peers, rfl, -, hfds, -⟩ := hw
    exact h.keep rfl hthreads hfds id (fun _ => id) h.registering
  · exact h.keep rfl (noNewHandler_of_eq rfl) (fun _ _ hf => hf) id (fun _ => id) h.registering

lemma Started.registered (h : Started s) : Registered s := by
  have hthread : ∀ (k : ℕ) (th : Thread), s.threads[k]? ≠ some th := by
    intro k th hth
    rw [h.threads] at hth
    cases hth
  refine ⟨?_, ?_, ?_, ?_, fun k th hth => absurd hth (hthread k th), fun j _ u _ hu => absurd hu (hthread j u)⟩
  · intro f c hf
    rw [h.fds] at hf
    cases hf
  · intro hp
    rw [h.main] at hp
    exact hp.elim
  · intro fd hfd
    rw [h.main] at hfd
    exact hfd.elim
  · intro j hj
    rw [h.main] at hj
    exact hj.elim

/-! ### The flags -/

lemma active_of_worker {k : ℕ} {th : Thread} {x : Input} (hs : WorkerStep s k th x t) {i : Slot}
    (hi : (t.clients i).active = true) : (s.clients i).active = true := by
  obtain ⟨code, clients, num, mutex, fds, peers, rfl, heffect, -, -⟩ := hs
  have hclients : (clients i).active = true := hi
  cases heffect with
  | keep hactive => rwa [hactive] at hclients
  | lock | unlock | decrement => exact hclients
  | deactivate =>
    by_cases hj : i = th.code.index
    · rw [hj, Function.update_self] at hclients
      cases hclients
    · rwa [Function.update_of_ne hj] at hclients

lemma inactive_of_worker {k : ℕ} {th : Thread} {x : Input} (hs : WorkerStep s k th x t) {i : Slot}
    (hi : (s.clients i).active = false) : (t.clients i).active = false := by
  by_contra hne
  have hactive := active_of_worker hs (i := i) (by simpa using hne)
  rw [hi] at hactive
  cases hactive

lemma flags_of_worker {k : ℕ} {th : Thread} {x : Input} {o : Owner} (hguards : Guards s.clients_mutex s.Inside)
    (hin : s.Inside o) (ho : o ≠ .worker k) (hth : s.threads[k]? = some th) (hs : WorkerStep s k th x t) (i : Slot) :
    (t.clients i).active = (s.clients i).active := by
  obtain ⟨code, clients, num, mutex, fds, peers, rfl, heffect, -, -⟩ := hs
  cases heffect with
  | keep hactive => exact hactive i
  | deactivate hretires hinside =>
    have hout := hguards.not_inside hin (j := .worker k) ho.symm
    exact absurd ⟨th, hth, hinside⟩ hout
  | lock | unlock | decrement => rfl

lemma main_of_worker {k : ℕ} {th : Thread} {x : Input} (hs : WorkerStep s k th x t) :
    t.main = s.main ∧ t.i = s.i := by
  obtain ⟨code, clients, num, mutex, fds, peers, rfl, -⟩ := hs
  exact ⟨rfl, rfl⟩

lemma active_of_main {x : Input} {i : Slot} (hs : MainMove s x t) (hpc : s.main ≠ .setActive i) :
    (t.clients i).active = (s.clients i).active := by
  cases hs with
  | @activates slot h =>
    have hi : i ≠ slot := by
      rintro rfl
      exact hpc h
    exact congrArg ClientInfo.active (Function.update_of_ne hi _ _)
  | setsFd | receives | initsMutex => exact active_update (by rfl) i
  | _ => rfl

lemma checker_keeps (hs : CheckerMove s t) :
    t.clients = s.clients ∧ t.num_clients = s.num_clients ∧ t.main = s.main ∧ t.i = s.i := by
  cases hs <;> exact ⟨rfl, rfl, rfl, rfl⟩

lemma fillsFree_main {x : Input} (h : FillsFree s) (hs : MainMove s x t) : FillsFree t := by
  cases hs with
  | accepts | locks | full | hasRoom | refuses | closes | findsNone | initsMutex | increments | creates | unlocks
  | activates => exact fun i hi => hi.elim
  | skips hpc => exact h
  | finds hpc hi hactive =>
    intro i he
    obtain rfl : i = _ := he
    exact hactive
  | setsFd hpc | callsRecv hpc | receives hpc =>
    intro i he
    obtain rfl : i = _ := he
    have hfree := h i (by rw [hpc]; rfl)
    simpa using hfree

theorem fillsFree_step {a : Action} (h : FillsFree s) (hs : step window s a = some t) : FillsFree t := by
  obtain ⟨x, -, hm⟩ | ⟨-, hc⟩ | ⟨k, x, th, -, -, hw⟩ | ⟨peers, rfl⟩ := step_cases hs
  · exact fillsFree_main h hm
  · obtain ⟨hclients, -, hmain, -⟩ := checker_keeps hc
    intro i hi
    rw [hmain] at hi
    rw [hclients]
    exact h i hi
  · intro i hi
    rw [(main_of_worker hw).1] at hi
    exact inactive_of_worker hw (h i hi)
  · exact h

lemma Started.fillsFree (h : Started s) : FillsFree s := by
  intro i hi
  rw [h.main] at hi
  exact hi.elim

/-! ### Runs -/

def start : State where
  clients _ := ⟨0, fun _ => 0, false, none⟩
  num_clients := 0
  clients_mutex := none
  i := 0
  main := .accept
  checker := .sleep
  threads := []
  fds _ := none
  peers _ := ⟨[], [], 0, false, false⟩
  accepted := 0
  occupant _ := none

lemma start_started : Started start :=
  ⟨fun _ => rfl, rfl, rfl, rfl, rfl, rfl, fun _ => rfl, rfl, fun _ => rfl⟩

/-- What a step gets that receives `count` bytes. -/
def receiving (count : ℕ) : Input :=
  ⟨5, count, [], [], fun _ => 0, false⟩

/-- `main` accepts the connection `c`, gets its name and starts its handler. -/
def registration (c : Conn) (name : String) : List Action :=
  .main (receiving 0) :: .peerSend c (bytesOf name) :: List.replicate 11 (.main (receiving name.length))

/-- `main` accepts the connection 1 with the descriptor `fd` when the slot 0 is taken. -/
def second (fd : ℕ) (name : String) : List Action :=
  .main { receiving 0 with fd := fd } :: .peerSend 1 (bytesOf name) :: List.replicate 12 (.main (receiving name.length))

/-- The worker `k` goes on. -/
def goOn (k n : ℕ) : List Action :=
  List.replicate n (.worker k (receiving 0))

/-- The handler `k` of the connection `c` starts and receives a command. -/
def command (k : ℕ) (c : Conn) (text : String) : List Action :=
  goOn k 5 ++ [.peerSend c (bytesOf text), .worker k (receiving text.length)]

/-- `alive_checker` looks at all slots, of which one is active, and sleeps again. -/
def probe : List Action :=
  List.replicate 15 .checker

end SystemyOperacyjne.ChatServer
