import SystemyOperacyjne.QueueChatForward
import SystemyOperacyjne.QueueChatTable

/-!
# The silence of the System V chat

A client of `cw7/clientv.c` begins with INIT, whose client id is -1. `msgsnd` refuses the message, the client
exits, and the server of `cw7/serverv.c` waits for the first message as long as nobody interrupts it.
-/

namespace SystemyOperacyjne.QueueChat
open Concurrency

variable {ftok : List UInt8 → ℤ} {u v : StateV}

/-- The parent of a client is before its INIT, or has exited. -/
def ParentPc.Mute (pc : ParentPc) : Prop :=
  pc = .create ∨ pc = .sendInit ∨ pc = .exited

/-- No message has been sent, no client is registered and none has a child. -/
structure MuteV (u : StateV) : Prop where
  server : u.server.pc = .loop ∨ u.server.pc = .receive ∨ u.server.pc = .done ∨ u.server.pc = .exited
  clients : u.server.clients = fun _ => none
  server_queue : u.server_queue = []
  queues : ∀ key, u.queues key = []
  parent : ∀ p, (u.client p).parent.Mute
  child : ∀ p, (u.client p).child = .unborn

lemma StartedV.mute (h : StartedV u) : MuteV u :=
  ⟨.inl h.pc, h.clients, h.server_queue, h.queues, fun p => .inl (h.parent p), h.child⟩

/-- What the steps of the silent chat can be. -/
inductive MuteMove (u : StateV) : Action → StateV → Prop
  | goesOn {ok : Bool} (hpc : u.server.pc = .loop) : MuteMove u (.server ok) (u.serverAt .receive)
  | leaves {ok : Bool} (hpc : u.server.pc = .loop) : MuteMove u (.server ok) (u.serverAt .done)
  | fails {ok : Bool} (hpc : u.server.pc = .receive) : MuteMove u (.server ok) (u.serverAt .exited)
  | creates {p : Pid} {ok : Bool} {typed : Option (List UInt8)} (hpc : (u.client p).parent = .create) :
      MuteMove u (.parent p ok typed) (u.setClient p { u.client p with parent := .sendInit })
  | exits {p : Pid} {ok : Bool} {typed : Option (List UInt8)}
      (hpc : (u.client p).parent = .create ∨ (u.client p).parent = .sendInit) :
      MuteMove u (.parent p ok typed) (u.setClient p { u.client p with parent := .exited })
  | interruptsServer : MuteMove u .interruptServer { u with server := { u.server with flag := false } }
  | interruptsParent {p : Pid} (flag : Bool) : MuteMove u (.interruptParent p) (u.setClient p { u.client p with flag := flag })

lemma client_queue_nameV_fits (p : Pid) : (client_queue_nameV p ++ [0]).length ≤ MAX_MESSAGE_SIZE := by
  have hfits := client_queue_name_fits p
  have hname : (CString.bytesOf "client_queue_").length = 13 := by decide
  simp only [client_queue_name, queuePrefix, List.length_append, List.length_cons, List.length_nil,
    CLIENT_NAME_SIZE] at hfits
  simp only [client_queue_nameV, List.length_append, hname, List.length_cons, List.length_nil, MAX_MESSAGE_SIZE]
  omega

theorem mute_cases (h : MuteV u) {a : Action} (hs : stepV ftok u a = some v) : MuteMove u a v := by
  cases a with
  | server ok =>
    simp only [stepV] at hs
    rcases h.server with hpc | hpc | hpc | hpc
    · simp only [serverStepV, hpc] at hs
      split at hs <;> cases hs
      · exact .goesOn hpc
      · exact .leaves hpc
    · simp only [serverStepV, hpc, h.server_queue] at hs
      split at hs <;> cases hs
      exact .fails hpc
    · simp [serverStepV, hpc] at hs
    · simp [serverStepV, hpc] at hs
  | parent p ok typed =>
    simp only [stepV] at hs
    rcases h.parent p with hpc | hpc | hpc
    · simp only [parentStepV, hpc] at hs
      split at hs <;> cases hs
      · exact .creates hpc
      · exact .exits (.inl hpc)
    · have hcopy : memcpyText (client_queue_nameV p ++ [0]) = some (textOf (client_queue_nameV p ++ [0])) :=
        if_pos (client_queue_nameV_fits p)
      simp only [parentStepV, hpc, hcopy, mtype_init, and_false, if_false, Option.some.injEq] at hs
      subst hs
      exact .exits (.inr hpc)
    · simp [parentStepV, hpc] at hs
  | child p ok => simp [stepV, childStepV, h.child p] at hs
  | interruptServer =>
    cases hs
    exact .interruptsServer
  | interruptParent p =>
    simp only [stepV] at hs
    split at hs <;> cases hs
    exact .interruptsParent false
  | interruptChild p => simp [stepV, h.child p] at hs

lemma MuteV.setClient (h : MuteV u) {p : Pid} {c : Client} (hparent : c.parent.Mute) (hchild : c.child = .unborn) :
    MuteV (u.setClient p c) := by
  refine ⟨h.server, h.clients, h.server_queue, h.queues, fun q => ?_, fun q => ?_⟩
  · by_cases hq : q = p
    · subst hq
      simpa [StateV.setClient] using hparent
    · simpa [StateV.setClient, Function.update_of_ne hq] using h.parent q
  · by_cases hq : q = p
    · subst hq
      simpa [StateV.setClient] using hchild
    · simpa [StateV.setClient, Function.update_of_ne hq] using h.child q

lemma muteV_step (h : MuteV u) {a : Action} (hm : MuteMove u a v) : MuteV v := by
  cases hm with
  | goesOn => exact ⟨.inr (.inl rfl), h.clients, h.server_queue, h.queues, h.parent, h.child⟩
  | leaves => exact ⟨.inr (.inr (.inl rfl)), h.clients, h.server_queue, h.queues, h.parent, h.child⟩
  | fails => exact ⟨.inr (.inr (.inr rfl)), h.clients, h.server_queue, h.queues, h.parent, h.child⟩
  | @creates p => exact h.setClient (.inr (.inl rfl)) (h.child p)
  | @exits p => exact h.setClient (.inr (.inr rfl)) (h.child p)
  | interruptsServer => exact ⟨h.server, h.clients, h.server_queue, h.queues, h.parent, h.child⟩
  | @interruptsParent p => exact h.setClient (h.parent p) (h.child p)

/-! ### How long it lasts -/

/-- The steps that a client has before it. -/
def ParentPc.left : ParentPc → ℕ
  | .create => 2
  | .sendInit => 1
  | _ => 0

def ServerPc.left : ServerPc → ℕ
  | .loop => 2
  | .receive => 1
  | _ => 0

/-- A step of the processes of a client. -/
def Action.isClient (p : Pid) : Action → Bool
  | .parent q _ _ | .child q _ => q = p
  | .server _ | .interruptServer | .interruptParent _ | .interruptChild _ => false

def Action.isServer : Action → Bool
  | .server _ => true
  | .parent _ _ _ | .child _ _ | .interruptServer | .interruptParent _ | .interruptChild _ => false

lemma client_left (p : Pid) {a : Action} (hm : MuteMove u a v) :
    (v.client p).parent.left + (if a.isClient p then 1 else 0) ≤ (u.client p).parent.left := by
  cases hm with
  | goesOn | leaves | fails | interruptsServer => simp [Action.isClient, StateV.serverAt]
  | @creates q ok typed hpc =>
    by_cases hq : p = q
    · subst hq
      simp [StateV.setClient, Action.isClient, hpc, ParentPc.left]
    · simp [StateV.setClient, Action.isClient, Function.update_of_ne hq, Ne.symm hq]
  | @exits q ok typed hpc =>
    by_cases hq : p = q
    · subst hq
      rcases hpc with hpc | hpc <;> simp [StateV.setClient, Action.isClient, hpc, ParentPc.left]
    · simp [StateV.setClient, Action.isClient, Function.update_of_ne hq, Ne.symm hq]
  | @interruptsParent q flag =>
    by_cases hq : p = q
    · subst hq
      simp [StateV.setClient, Action.isClient]
    · simp [StateV.setClient, Action.isClient, Function.update_of_ne hq]

lemma server_left {a : Action} (hm : MuteMove u a v) :
    v.server.pc.left + (if a.isServer then 1 else 0) ≤ u.server.pc.left := by
  cases hm with
  | goesOn hpc | leaves hpc | fails hpc => simp [Action.isServer, StateV.serverAt, hpc, ServerPc.left]
  | creates | exits | interruptsServer | interruptsParent => simp [Action.isServer, StateV.setClient]

/-- In every run of the System V programs no message is sent, no client is registered and none has a child;
each client makes at most two steps, and so does the server, which gets no further than its first receive. -/
theorem systemV_silent {as : List Action} (hu : StartedV u) (h : (machineV ftok).exec u as = some v) :
    MuteV v ∧ (∀ p, as.countP (Action.isClient p) ≤ 2) ∧ as.countP Action.isServer ≤ 2 := by
  have hkeeps : ∀ s a t, (machineV ftok).next s a = some t → MuteV s → MuteV t :=
    fun s a t hn hs => muteV_step hs (mute_cases hs hn)
  refine ⟨Machine.exec_keeps hkeeps h hu.mute, fun p => ?_, ?_⟩
  · have hcount := Machine.countP_le_of_rank (I := MuteV) (fun s => (s.client p).parent.left) (Action.isClient p)
      (fun s a t hs hn => ⟨hkeeps s a t hn hs, client_left p (mute_cases hs hn)⟩) h hu.mute
    simp only [hu.parent p, ParentPc.left] at hcount
    omega
  · have hcount := Machine.countP_le_of_rank (I := MuteV) (fun s => s.server.pc.left) Action.isServer
      (fun s a t hs hn => ⟨hkeeps s a t hn hs, server_left (mute_cases hs hn)⟩) h hu.mute
    simp only [hu.pc, ServerPc.left] at hcount
    omega

/-- A client comes to its INIT and exits, while the server waits. -/
theorem systemV_silent_one : ∃ v, MuteV v ∧ v.server.pc = .receive ∧
    ∃ as : List Action, as.length = 3 ∧ (machineV fun _ => -1).exec quietV as = some v ∧ as.countP Action.isServer ≤ 2 := by
  let p : Pid := ⟨1, by decide, by decide⟩
  let as : List Action := [.server true, .parent p true none, .parent p true none]
  have hrun : ((machineV fun _ => -1).exec quietV as).map (fun v => v.server.pc) = some .receive := by
    decide +kernel
  obtain ⟨v, hv, hpc⟩ := Option.map_eq_some_iff.mp hrun
  obtain ⟨hmute, -, hserver⟩ := systemV_silent quietV_started hv
  exact ⟨v, hmute, hpc, as, rfl, hv, hserver⟩

end SystemyOperacyjne.QueueChat
