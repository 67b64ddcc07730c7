import SystemyOperacyjne.ChatServerProgress

/-!
# Commands are carried out while the peers are silent

The owner of `clients_mutex` goes on to its unlock, and then the handler to the end of its command,
with no step of a peer, where `main` has the name that it needs and there is room for the texts.
Nothing but the peers sees to either.
-/

namespace SystemyOperacyjne.ChatServer
open Concurrency CString
open scoped List

variable {window : ℕ} {s t : State}

/-! ### The owner goes on to its unlock -/

/-- A bound on the steps of a check to its unlock. -/
@[simp] def CheckPc.rest : CheckPc → ℕ
  | .deactivate => 3
  | .decrement => 2
  | .unlock => 1
  | _ => 0

@[simp] def Code.rest : Code → ℕ
  | .handler g => g.pc.rest
  | .check c => c.pc.rest

@[simp] def CheckerPc.rest : CheckerPc → ℕ
  | .loop i => 2 * (MAX_CLIENTS - i) + 2
  | .create slot => 2 * (MAX_CLIENTS - slot.val) + 1
  | .unlock => 1
  | _ => 0

/-- A bound on the steps of the owner to its unlock. -/
def State.rest (s : State) : Owner → ℕ
  | .main => s.mainRest
  | .checker => s.checker.rest
  | .worker k => match s.threads[k]? with
    | some th => th.code.rest
    | none => 0

lemma Sound.step {a : Action} (h : Sound window s) (ha : a.ByServer) (hs : ChatServer.step window s a = some t) :
    Sound window t :=
  fun u hu => h u (.step ha hs hu)

lemma load_handler {k : ℕ} {th : Thread} {g : Handler} (hth : s.threads[k]? = some th) (hcode : th.code = .handler g)
    (c : Conn) : s.load c (.worker k) = g.pc.relayTexts s g.client_name c := by
  obtain ⟨conn, slot, code⟩ := th
  obtain rfl : code = .handler g := hcode
  simp only [State.load, hth]

lemma load_check {k : ℕ} {th : Thread} {a : CheckAlive} (hth : s.threads[k]? = some th) (hcode : th.code = .check a)
    (c : Conn) : s.load c (.worker k) = [] := by
  obtain ⟨conn, slot, code⟩ := th
  obtain rfl : code = .check a := hcode
  simp only [State.load, hth]

/-- Before the command is known, nothing counts as being relayed. -/
lemma relayTexts_heading (g : Handler) (garbage : List UInt8) (c : Conn) :
    g.pc.relayTexts s g.client_name c <+ (g.heading garbage).relayTexts s g.client_name c := by
  unfold Handler.heading
  cases g.pc with
  | unlockRecv | testActive | testReceived | dispatch => exact List.nil_sublist _
  | _ => exact List.Sublist.refl _

section
variable {waiting : Handler}

lemma busy_of_inside {pc : HandlerPc} (h : pc.Inside) :
    pc.Busy ∧ ¬pc.AtLock ∧ ¬pc.Done ∧ pc ≠ .stopClose ∧ ∀ text, pc ≠ .listSend text := by
  cases pc <;> simp_all

end

/-! ### The handler goes on to its end -/

lemma Clear.owner (hclear : Clear window s) {o : Owner} (hin : s.Inside o) (c : Conn) : s.Room window c (s.load c o) := by
  cases o with
  | main | checker => exact room_nil c
  | worker k =>
    obtain ⟨th, hth, hin⟩ := hin
    cases hcode : th.code with
    | handler g =>
      rw [hcode] at hin
      rw [load_handler hth hcode]
      have hroom := hclear.room k th g hth hcode (busy_of_inside hin).1 [] (Nat.zero_lt_succ _) c
      refine hroom.sublist (List.Sublist.trans ?_ (List.sublist_append_right _ _))
      exact (relayTexts_heading g [] c).trans (List.sublist_append_left _ _)
    | check a =>
      rw [load_check hth hcode]
      exact room_nil c

/-- A handler that sends nothing. -/
def Handler.idle : Handler :=
  ⟨.ended, ⟨0, by decide⟩, [], fun _ => 0, 0⟩

lemma Served.ready {c : Conn} {timeout : Bool} {slot : Slot} (h : Served window s)
    (hpc : s.main = .receivingName (some c) timeout slot) : s.Ready c timeout := by
  by_contra hsilent
  have hin : s.main.Inside := by
    rw [hpc]
    trivial
  obtain ⟨x, t, -, hs⟩ := h.moves .main hin
  have hmain : mainStep s x = some t := hs
  simp [mainStep, hpc, recv_of_not_ready hsilent] at hmain

lemma main_comes {c : Conn} {timeout : Bool} (hawaits : s.Awaits c timeout)
    (hbefore : ∀ slot, s.main ≠ .receivingName (some c) timeout slot) :
    ∃ x t, mainStep s x = some t ∧ t.Awaits c timeout ∧ t.peers = s.peers ∧ t.mainRest < s.mainRest := by
  refine ⟨proper 0, ?_⟩
  cases hpc : s.main with
  | testCapacity fd =>
    simp only [State.Awaits, hpc] at hawaits
    obtain ⟨⟨j, hnum, hopen, hfree, hfirst⟩, htimeout⟩ := hawaits
    simp only [mainStep, hpc, if_neg (not_le.mpr hnum)]
    refine ⟨_, rfl, ⟨⟨j, Nat.zero_le _, hopen, hfree, fun i hi _ => hfirst i hi⟩, htimeout⟩, rfl, ?_⟩
    simp [State.mainRest, hpc, MAX_CLIENTS]
  | search fd =>
    simp only [State.Awaits, hpc] at hawaits
    obtain ⟨⟨j, hle, hopen, hfree, hfirst⟩, htimeout⟩ := hawaits
    have hi : s.i < MAX_CLIENTS := hle.trans_lt j.isLt
    simp only [mainStep, hpc, dif_pos hi]
    split
    · next hactive =>
      -- the slot that `main` steps over is not the one that it will find
      have hne : s.i ≠ j := by
        intro he
        rw [show (⟨s.i, hi⟩ : Slot) = j from Fin.ext he, hfree] at hactive
        cases hactive
      refine ⟨_, rfl, ?_, rfl, ?_⟩
      · simp only [State.Awaits]
        exact ⟨⟨j, Nat.lt_of_le_of_ne hle hne, hopen, hfree, fun i hij hsi => hfirst i hij (Nat.le_of_succ_le hsi)⟩,
          htimeout⟩
      · simp only [State.mainRest, hpc]
        omega
    · refine ⟨_, rfl, ⟨⟨_, rfl, hopen⟩, htimeout⟩, rfl, ?_⟩
      simp only [State.mainRest, hpc]
      omega
  | setFd fd slot =>
    simp only [State.Awaits, hpc] at hawaits
    obtain ⟨⟨j, -, hopen⟩, htimeout⟩ := hawaits
    simp only [mainStep, hpc]
    exact ⟨_, rfl, ⟨hopen, htimeout⟩, rfl, by simp [State.mainRest, hpc, State.setClient]⟩
  | recvName fd slot =>
    simp only [State.Awaits, hpc] at hawaits
    obtain ⟨hopen, htimeout⟩ := hawaits
    simp only [mainStep, hpc]
    refine ⟨_, rfl, ⟨hopen, ?_⟩, rfl, by simp [State.mainRest, hpc]⟩
    rw [State.timeout, hopen]
    exact htimeout
  | receivingName conn set slot =>
    simp only [State.Awaits, hpc] at hawaits
    obtain ⟨rfl, rfl⟩ := hawaits
    exact absurd hpc (hbefore slot)
  | accept | lock | refuse | refuseClose | setActive | initMutex | increment | create | unlock =>
    simp only [State.Awaits, hpc] at hawaits
    obtain ⟨⟨j, hj⟩, -⟩ := hawaits
    exact hj.elim

/-- Where `main` is going to wait for the name of a silent peer, its own steps lead to a state in
which it waits with the mutex. -/
theorem unserved_of_silent {c : Conn} {timeout : Bool} (hawaits : s.Awaits c timeout) (hsilent : ¬s.Ready c timeout) :
    ∃ t, (machine window).Leads Action.ByServer s t ∧ ¬Served window t := by
  obtain ⟨t, hleads, ⟨-, hsilent⟩, slot, hpc⟩ :=
    Machine.leads_of_rank (M := machine window) (P := Action.ByServer)
      (I := fun u => u.Awaits c timeout ∧ ¬u.Ready c timeout)
      (G := fun u => ∃ slot, u.main = .receivingName (some c) timeout slot) State.mainRest
      (fun u ⟨hawaits, hsilent⟩ hbefore => by
        obtain ⟨x, v, hs, hawaits', hpeers, hcloser⟩ := main_comes hawaits (not_exists.mp hbefore)
        refine ⟨.main x, v, trivial, hs, ⟨hawaits', ?_⟩, .inr hcloser⟩
        rwa [State.Ready, hpeers])
      ⟨hawaits, hsilent⟩
  exact ⟨t, hleads, fun h => hsilent (h.ready hpc)⟩

lemma send_of_no_room {fd : ℕ} {c : Conn} {text : List UInt8} (hopen : s.fds fd = some c)
    (h : ¬((s.peers c).closed = false ∧ (s.peers c).unread < window)) : s.send window true fd text = none := by
  simp only [State.send, hopen]
  split
  · rfl
  · next hclosed => exact if_neg fun hlt => h ⟨Bool.eq_false_of_not_eq_true hclosed, hlt⟩

lemma Served.room {k : ℕ} {th : Thread} {g : Handler} {r : Option (List UInt8)} {message name : List UInt8} {i : Slot}
    {c : Conn} (h : Served window s) (hth : s.threads[k]? = some th) (hcode : th.code = .handler g)
    (hpc : g.pc = .relay r message i) (hactive : (s.clients i).active = true)
    (hname : stringAt (s.clients i).name 0 = some name) (hpicks : picks r g.client_name name = true)
    (hfits : 28 + g.client_name.length + message.length < BUFFER_SIZE) (hopen : s.fds (s.clients i).socket_fd = some c) :
    (s.peers c).closed = false ∧ (s.peers c).unread < window := by
  by_contra hfull
  have hin : s.Inside (.worker k) := by
    refine ⟨th, hth, ?_⟩
    simp [hcode, hpc]
  obtain ⟨x, t, hx, hs⟩ := h.moves _ hin
  obtain ⟨hdate, -, hsigpipe⟩ : x.Proper := hx
  have hcompose : ∃ text, compose x.date g.client_name message = some text := by
    refine ⟨_, if_pos ?_⟩
    have hblank : (bytesOf " ").length = 1 := rfl
    have hcolon : (bytesOf ": ").length = 2 := rfl
    simp only [List.length_append, hdate, hblank, hcolon]
    omega
  obtain ⟨text, htext⟩ := hcompose
  have hstep : workerStep window s k x = some t := hs
  simp only [workerStep, hth, hcode, client_handler, hpc, relayStep, dif_pos i.isLt, Fin.eta, hactive, if_true, hname,
    hpicks, htext, hsigpipe] at hstep
  have hwaits : ∀ u : State, u.fds = s.fds → u.peers = s.peers →
      u.send window true (s.clients i).socket_fd text = none := by
    intro u hfds hpeers
    apply send_of_no_room
    · rw [hfds]
      exact hopen
    · rwa [hpeers]
  rw [hwaits] at hstep
  · cases hstep
  · rfl
  · rfl

instance (s : State) (c : Conn) (timeout : Bool) : Decidable (s.Ready c timeout) :=
  inferInstanceAs (Decidable ((s.peers c).inbox ≠ [] ∨ (s.peers c).closed = true ∨ timeout = true))

/-- Where the handlers are. -/
def State.handlers (s : State) : List (Option HandlerPc) :=
  s.threads.map fun th => match th.code with
    | .handler g => some g.pc
    | .check _ => none

/-- `main` goes on to the name of a connection other than the first. -/
def State.Parked (s : State) : Prop :=
  match s.main with
  | .accept | .refuse _ | .refuseClose _ | .unlock => True
  | .lock fd | .testCapacity fd | .search fd | .setFd fd _ | .recvName fd _ =>
    ∃ c, (0 < c ∧ c < s.accepted) ∧ s.fds fd = some c
  | .receivingName conn timeout _ => ∃ c, (0 < c ∧ c < s.accepted) ∧ conn = some c ∧ (s.peers c).timeout = timeout
  | _ => False

/-- The only client so far is leaving, and the next ones are silent. -/
structure Leaving (s : State) : Prop where
  handler : ∃ th g, s.threads = [th] ∧ th.code = .handler g ∧ (g.pc = .stopDecrement ∨ g.pc = .stopUnlock ∨ g.pc = .ended)
  inactive : ∀ i, (s.clients i).active = false
  checker : ∀ slot, s.checker ≠ .create slot
  accepted : 0 < s.accepted
  silent : ∀ c, 0 < c → c < s.accepted → ¬s.Ready c (s.peers c).timeout
  parked : s.Parked

end SystemyOperacyjne.ChatServer
