import SystemyOperacyjne.ChatServerBusy
import SystemyOperacyjne.ChatServerRegistration

/-!
# Commands while a peer is silent

A command that a handler has received can be carried out by the threads of the server alone as
long as the thread with `clients_mutex` does not wait for a peer: `main` for a name, or a relay
for room at its recipient.
-/

namespace SystemyOperacyjne.ChatServer
open Concurrency CString

variable {window : ℕ} {s t : State}

/-! ### What is asked of the peers -/

/-- `recv` on the connection returns at once, if it is called with this timeout. -/
def State.Ready (s : State) (c : Conn) (timeout : Bool) : Prop :=
  (s.peers c).inbox ≠ [] ∨ (s.peers c).closed = true ∨ timeout = true

/-- `main` has `clients_mutex` and is going to receive the name from the connection, with this
timeout. -/
def State.Awaits (s : State) (c : Conn) (timeout : Bool) : Prop :=
  match s.main with
  | .recvName fd _ => s.fds fd = some c ∧ (s.peers c).timeout = timeout
  | .receivingName conn set _ => conn = some c ∧ set = timeout
  | pc => (∃ j, pc.Seats s c j) ∧ (s.peers c).timeout = timeout

/-- The lengths of the texts that the owner is going to send to the connection before it unlocks. -/
def State.load (s : State) (c : Conn) : Owner → List ℕ
  | .main | .checker => []
  | .worker k => match s.threads[k]? with
    | some ⟨_, _, .handler g⟩ => g.pc.relayTexts s g.client_name c
    | _ => []

/-- The load of the thread that `k` has to wait for. -/
def State.owed (s : State) (k : ℕ) (c : Conn) : List ℕ :=
  match s.clients_mutex with
  | some o => if o = .worker k then [] else s.load c o
  | none => []

/-- The name that `main` is going to wait for has come, and each peer has room for what a handler
with a command sends to it, behind what the owner of `clients_mutex` is still going to send. -/
structure Clear (window : ℕ) (s : State) : Prop where
  name : ∀ c timeout, s.Awaits c timeout → s.Ready c timeout
  room : ∀ (k : ℕ) (th : Thread) (g : Handler), s.threads[k]? = some th → th.code = .handler g → g.pc.Busy →
    ∀ garbage : List UInt8, garbage.length < NAME_SIZE → ∀ c, s.Room window c (s.owed k c ++ g.texts s c garbage)

/-- A handler has run over a buffer. -/
def State.Overrun (s : State) : Prop :=
  ∃ th ∈ s.threads, ∃ g, th.code = .handler g ∧ g.pc = .fault

/-- The threads of the server alone do not run over a buffer. -/
def Sound (window : ℕ) (s : State) : Prop :=
  ∀ u, (machine window).Leads Action.ByServer s u → ¬u.Overrun

def Owner.act : Owner → Input → Action
  | .main => .main
  | .checker => fun _ => .checker
  | .worker k => .worker k

/-- No thread that has `clients_mutex` waits for a peer, and each command that a handler has
received can be carried out by the threads of the server alone. -/
structure Served (window : ℕ) (s : State) : Prop where
  moves : ∀ o, s.Inside o → ∃ x t, (o.act x).ByServer ∧ step window s (o.act x) = some t
  completes : ∀ (k : ℕ) (th : Thread) (g : Handler), s.threads[k]? = some th → th.code = .handler g → g.pc.Busy →
    ∃ u th' g', (machine window).Leads Action.ByServer s u ∧ u.threads[k]? = some th' ∧ th'.code = .handler g' ∧ g'.pc.Done

/-! ### The owner of `clients_mutex` -/

lemma guards_of_reachable (h : (machine window).Reachable s) : Guards s.clients_mutex s.Inside :=
  Machine.Reachable.invariant (I := fun s => Guards s.clients_mutex s.Inside) (fun _ (hs : Started _) => hs.guards)
    (fun _ _ _ hs hn => guards_step hs hn) h

/-! ### `main` goes on to its unlock -/

/-- A bound on the steps of `main` to its unlock. -/
def State.mainRest (s : State) : ℕ :=
  match s.main with
  | .testCapacity _ => 40
  | .search _ => 15 + (MAX_CLIENTS - s.i)
  | .setFd _ _ => 14
  | .recvName _ _ => 13
  | .receivingName _ _ _ => 12
  | .setActive _ => 11
  | .initMutex _ => 10
  | .increment _ => 9
  | .create _ => 8
  | .refuse _ | .unlock => 7
  | _ => 0

/-- What a step of `main` does while it has `clients_mutex`. -/
structure MainAdvance (s t : State) : Prop where
  goes : t.clients_mutex = none ∨ t.main.Inside ∧ t.mainRest < s.mainRest
  awaits : ∀ c timeout, t.Awaits c timeout → s.Awaits c timeout ∧ t.peers c = s.peers c
  threads : ∀ (k : ℕ) (th : Thread), s.threads[k]? = some th → t.threads[k]? = some th
  shrinks : Shrinks s t
  peers : ∀ c, (t.peers c).closed = (s.peers c).closed ∧ (t.peers c).unread = (s.peers c).unread

lemma shrinks_of_main (hseats : ∀ c j, t.main.Seats t c j → s.main.Seats s c j)
    (hadmits : ∀ j, t.main.Admits j → s.main.Admits j) (hfds : t.fds = s.fds)
    (hfd : ∀ i, (t.clients i).socket_fd = (s.clients i).socket_fd) (hclients : ∀ j, ¬s.main.Admits j →
      (t.clients j).active = (s.clients j).active ∧ (t.clients j).name = (s.clients j).name) : Shrinks s t := by
  constructor
  · rintro r client_name c j (hp | ⟨hopen, hget⟩)
    · exact .inl (hseats c j hp)
    · rw [hfds, hfd] at hopen
      refine .inr ⟨hopen, ?_⟩
      by_cases hj : s.main.Admits j
      · exact .inl hj
      · obtain ⟨hactive, hname⟩ := hclients j hj
        rw [hactive, hname] at hget
        exact hget.imp (hadmits j) id
  · rintro c j (hp | hopen)
    · exact .inl (hseats c j hp)
    · rw [hfds, hfd] at hopen
      exact .inr hopen

lemma recv_of_not_ready {c : Conn} {timeout : Bool} {size count : ℕ} (h : ¬s.Ready c timeout) :
    s.recv (some c) timeout size count = none := by
  obtain ⟨hinbox, hclosed, htimeout⟩ := by simpa only [State.Ready, not_or, not_not] using h
  by_cases hcount : count = 0
  · simp [State.recv, hcount, hinbox, hclosed, htimeout]
  · simp only [State.recv, if_neg hcount, hinbox, List.length_nil]
    apply if_neg
    omega

lemma MainAdvance.quiet (hgoes : t.clients_mutex = none ∨ t.main.Inside ∧ t.mainRest < s.mainRest)
    (hseats : ∀ c j, t.main.Seats t c j → s.main.Seats s c j) (hadmits : ∀ j, t.main.Admits j → s.main.Admits j)
    (hawaits : ∀ c timeout, t.Awaits c timeout → s.Awaits c timeout)
    (hthreads : ∀ (k : ℕ) (th : Thread), s.threads[k]? = some th → t.threads[k]? = some th)
    (hfds : t.fds = s.fds) (hfd : ∀ i, (t.clients i).socket_fd = (s.clients i).socket_fd)
    (hclients : ∀ j, ¬s.main.Admits j →
      (t.clients j).active = (s.clients j).active ∧ (t.clients j).name = (s.clients j).name)
    (hpeers : t.peers = s.peers) : MainAdvance s t where
  goes := hgoes
  awaits c timeout hc := ⟨hawaits c timeout hc, by rw [hpeers]⟩
  threads := hthreads
  shrinks := shrinks_of_main hseats hadmits hfds hfd hclients
  peers c := by rw [hpeers]; exact ⟨rfl, rfl⟩

/-- `main` neither has a slot for a connection that it has still to register, nor looks for one. -/
def MainPc.Past : MainPc → Prop
  | .testCapacity _ | .search _ | .setFd _ _ | .recvName _ _ | .receivingName _ _ _ | .setActive _ => False
  | _ => True

lemma MainPc.Past.nothing {pc : MainPc} (h : pc.Past) (s : State) :
    (∀ c j, ¬pc.Seats s c j) ∧ (∀ j, ¬pc.Admits j) ∧ ∀ t : State, t.main = pc → ∀ c timeout, ¬t.Awaits c timeout := by
  refine ⟨fun c j hp => ?_, fun j ha => ?_, fun t hmain c timeout hc => ?_⟩
  · cases pc <;> first | exact h | exact hp
  · cases pc <;> first | exact h | exact ha
  · rw [State.Awaits, hmain] at hc
    cases pc <;> first | exact h | exact hc.1.elim fun _ => id

end SystemyOperacyjne.ChatServer
