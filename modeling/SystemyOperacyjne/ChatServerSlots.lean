import SystemyOperacyjne.ChatServerRegistration

/-!
# The reuse of the chat server's slots

A thread keeps the index of its slot and nothing that tells it whose slot this is. Its
connection and the connection that was last put into the slot are compared here, for the
runs in which a slot is given away only when its threads are done with it.
-/

namespace SystemyOperacyjne.ChatServer
open Concurrency CString

variable {window : ℕ} {s t : State}

/-! ### What the runs are asked for -/

/-- A handler that is about to read its index through the pointer it got. -/
def Code.Starts : Code → Prop
  | .handler h => h.pc = .start
  | .check _ => False

/-- What `check_alive` waits for, while it waits, and whether with a timeout. -/
def Code.probing : Code → Option (Option Conn × Bool)
  | .check ⟨.reading conn timeout, _, _⟩ => some (conn, timeout)
  | _ => none

/-- The slot that `main` is about to give to a connection. -/
def MainPc.taken : MainPc → Option Slot
  | .setFd _ slot => some slot
  | _ => none

/-- The slot that `main` is about to make active. -/
def MainPc.activated : MainPc → Option Slot
  | .setActive slot => some slot
  | _ => none

/-- Every handler is given the index of its slot. -/
def RightIndex (s : State) : Action → Prop
  | .worker k _ => ∀ th ∈ s.threads[k]?, th.code.Starts → s.i = th.slot
  | _ => True

/-- When `main` gives a slot to a connection, no thread is going to use the slot for an
earlier one or receives from the new one; when it makes the slot active, the earlier
handlers have left their loops; and a probe whose slot was given away is answered. -/
def LeavesFirst (s : State) : Action → Prop
  | .main _ =>
    (∀ slot ∈ s.main.taken, ∀ th ∈ s.threads, th.code.index = slot →
      ¬th.code.Committed ∧ ¬th.code.Receives (s.accepted - 1)) ∧
    ∀ slot ∈ s.main.activated, ∀ th ∈ s.threads, th.code.index = slot → ¬th.code.InLoop
  | .worker k x => ∀ th ∈ s.threads[k]?, ∀ call ∈ th.code.probing,
    s.occupant th.code.index = some th.conn ∨ ∀ r ∈ s.recv call.1 call.2 BUFFER_SIZE x.count, 0 < r.1
  | _ => True

/-! ### Threads and their connections -/

/-- A thread has the right index, is going to use its slot only for its own connection,
does not receive from another one that has got the slot, and is in no other's loop. -/
structure State.Owns (s : State) (th : Thread) : Prop where
  index : th.code.index = th.slot
  committed : th.code.Committed → s.occupant th.code.index = some th.conn
  receives : ∀ conn, th.code.Receives conn → s.occupant th.code.index = some conn → conn = th.conn
  loop : th.code.InLoop → (s.clients th.code.index).active = true → s.occupant th.code.index = some th.conn

lemma State.Owns.keep {th : Thread} (h : s.Owns th) (hocc : t.occupant th.code.index = s.occupant th.code.index)
    (hactive : (t.clients th.code.index).active = true → (s.clients th.code.index).active = true) : t.Owns th where
  index := h.index
  committed hc := by
    rw [hocc]
    exact h.committed hc
  receives conn hr ho := by
    rw [hocc] at ho
    exact h.receives conn hr ho
  loop hl ha := by
    rw [hocc]
    exact h.loop hl (hactive ha)

/-- Slots that are active, or that `alive_checker` has found active, have been given away. -/
structure Occupied (s : State) : Prop where
  active : ∀ i, (s.clients i).active = true → s.occupant i ≠ none
  probed : ∀ slot, s.checker = .create slot → s.occupant slot ≠ none

lemma Code.InLoop.isHandler {c : Code} (h : c.InLoop) : c.IsHandler := by
  cases c with
  | handler a => trivial
  | check a => exact h.elim

lemma inLoop_of_step {k : ℕ} {x : Input} {th : Thread} (hth : s.threads[k]? = some th) (hh : th.code.IsHandler)
    (hs : workerStep window s k x = some t) : th.code.InLoop := by
  simp only [workerStep, hth] at hs
  cases hcode : th.code with
  | handler h =>
    simp only [hcode] at hs
    constructor
    · intro hpc
      simp [client_handler, hpc] at hs
    · intro hpc
      simp [client_handler, hpc] at hs
  | check c =>
    rw [hcode] at hh
    exact hh.elim

lemma State.Owns.step {k : ℕ} {x : Input} {th : Thread} {code : Code} (h : s.Owns th) (hth : s.threads[k]? = some th)
    (hright : RightIndex s (.worker k x)) (hleaves : LeavesFirst s (.worker k x))
    (hs : workerStep window s k x = some t) (hmove : Move s x th.code code) (hocc : t.occupant = s.occupant)
    (hactive : ∀ i, (t.clients i).active = true → (s.clients i).active = true) :
    t.Owns { th with code := code } := by
  have hindex : code.index = th.code.index := by
    rcases hmove.index with hsame | ⟨h', hcode, hpc, hi⟩
    · exact hsame
    · have hstarts : th.code.Starts := by
        rw [hcode]
        exact hpc
      have hslot := hright th hth hstarts
      rw [h.index]
      exact Fin.ext (hi.trans hslot)
  refine ⟨hindex.trans h.index, ?_, ?_, ?_⟩
  · intro hc
    rw [hocc, hindex]
    rcases hmove.commit hc with hbefore | ⟨h', hcode, hpc, hfound⟩ | ⟨c, conn, timeout, r, hcode, hpc, hr, hle⟩
    · exact h.committed hbefore
    · have hloop : th.code.InLoop := by
        rw [hcode]
        exact ⟨by simp [hpc], by simp [hpc]⟩
      apply h.loop hloop
      rw [hcode]
      exact hfound
    · have hprobing : (conn, timeout) ∈ th.code.probing := by
        obtain ⟨pc, client_index, bytes_received⟩ := c
        obtain rfl : pc = .reading conn timeout := hpc
        rw [hcode]
        rfl
      rcases hleaves th hth (conn, timeout) hprobing with hown | hanswered
      · exact hown
      · have hpos := hanswered r hr
        omega
  · intro conn hr ho
    rw [hocc, hindex, h.committed (hmove.receives conn hr)] at ho
    exact (Option.some.inj ho).symm
  · intro hl ha
    rw [hindex] at ha ⊢
    rw [hocc]
    have hhandler := hmove.kind.mp hl.isHandler
    exact h.loop (inLoop_of_step hth hhandler hs) (hactive _ ha)

lemma owns_worker {k : ℕ} {x : Input} (h : ∀ th ∈ s.threads, s.Owns th) (hright : RightIndex s (.worker k x))
    (hleaves : LeavesFirst s (.worker k x)) (hs : workerStep window s k x = some t) :
    ∀ th ∈ t.threads, t.Owns th := by
  obtain ⟨th, hth, hw⟩ := worker_cases hs
  have hactive : ∀ i, (t.clients i).active = true → (s.clients i).active = true := fun i => active_of_worker hw
  have hocc : t.occupant = s.occupant := by
    obtain ⟨code, clients, num, mutex, fds, peers, rfl, -⟩ := hw
    rfl
  intro u hu
  obtain ⟨j, hj⟩ := List.mem_iff_getElem?.mp hu
  rcases get_of_worker hth hw hj with ⟨rfl, code, rfl, hmove⟩ | ⟨-, hold⟩
  · exact (h th (List.mem_of_getElem? hth)).step hth hright hleaves hs hmove hocc hactive
  · exact (h u (List.mem_of_getElem? hold)).keep (by rw [hocc]) (hactive _)

lemma owns_new {conn : Conn} {slot : Slot} {code : Code} (hocc : t.occupant = s.occupant)
    (hconn : s.occupant slot = some conn) (hreceives : ∀ c, ¬code.Receives c) (hindex : code.index = slot) :
    t.Owns ⟨(s.occupant slot).getD 0, slot, code⟩ := by
  have hown : t.occupant code.index = some ((s.occupant slot).getD 0) := by
    rw [hocc, hindex, hconn, Option.getD_some]
  exact ⟨hindex, fun _ => hown, fun c hr => absurd hr (hreceives c), fun _ _ => hown⟩

lemma owns_main {x : Input} (h : ∀ th ∈ s.threads, s.Owns th) (hreg : Registered s) (hfills : FillsFree s)
    (hleaves : LeavesFirst s (.main x)) (hs : MainMove s x t) : ∀ th ∈ t.threads, t.Owns th := by
  have hsame : ∀ i, s.main ≠ .setActive i → (t.clients i).active = (s.clients i).active :=
    fun i => active_of_main hs
  cases hs with
  | accepts | locks | full | hasRoom | refuses | closes | skips | finds | findsNone | callsRecv | increments
  | unlocks => exact fun th hth => (h th hth).keep rfl id
  | receives hpc | initsMutex hpc =>
    intro th hth
    have hactive := hsame th.code.index (by simp [hpc])
    exact (h th hth).keep rfl hactive.symm.trans
  | @setsFd fd slot hpc =>
    intro th hth
    have hactive := hsame th.code.index (by simp [hpc])
    by_cases hslot : th.code.index = slot
    · subst hslot
      have htaken : th.code.index ∈ s.main.taken := by
        rw [hpc]
        rfl
      obtain ⟨hdone, hother⟩ := hleaves.1 _ htaken th hth rfl
      refine ⟨(h th hth).index, fun hc => absurd hc hdone, ?_, ?_⟩
      · intro conn hr ho
        have hnew : Function.update s.occupant th.code.index (some (s.accepted - 1)) th.code.index = some conn := ho
        rw [Function.update_self] at hnew
        rw [Option.some.inj hnew] at hother
        exact absurd hr hother
      · intro hl ha
        have hfree := hfills th.code.index (by rw [hpc]; rfl)
        exact absurd (hfree.symm.trans (hactive.symm.trans ha)) Bool.false_ne_true
    · apply (h th hth).keep
      · exact Function.update_of_ne hslot _ _
      · exact hactive.symm.trans
  | @activates slot hpc =>
    intro th hth
    by_cases hslot : th.code.index = slot
    · have hactivated : slot ∈ s.main.activated := by
        rw [hpc]
        rfl
      have hleft := hleaves.2 slot hactivated th hth hslot
      exact ⟨(h th hth).index, (h th hth).committed, (h th hth).receives, fun hl => absurd hl hleft⟩
    · have hactive := hsame th.code.index (by rw [hpc]; exact fun he => hslot (MainPc.setActive.inj he).symm)
      exact (h th hth).keep rfl hactive.symm.trans
  | @creates slot hpc =>
    intro th hth
    rcases List.mem_append.mp hth with hold | hnew
    · exact (h th hold).keep rfl id
    · obtain rfl := List.mem_singleton.mp hnew
      have hocc := hreg.registering slot (by rw [hpc]; rfl)
      exact owns_new rfl hocc (fun c hr => by simp at hr) rfl

lemma owns_checker (h : ∀ th ∈ s.threads, s.Owns th) (hoccupied : Occupied s) (hs : CheckerMove s t) :
    ∀ th ∈ t.threads, t.Owns th := by
  cases hs with
  | wakes | locks | finds | skips | ends | unlocks => exact fun th hth => (h th hth).keep rfl id
  | @creates slot hpc =>
    intro th hth
    rcases List.mem_append.mp hth with hold | hnew
    · exact (h th hold).keep rfl id
    · obtain rfl := List.mem_singleton.mp hnew
      obtain ⟨conn, hocc⟩ := Option.ne_none_iff_exists'.mp (hoccupied.probed slot hpc)
      exact owns_new rfl hocc (fun c hr => by simp at hr) rfl

/-! ### What the others do -/

lemma recv_leaves {conn : Option Conn} {timeout : Bool} {size count : ℕ} {r : ℤ × List UInt8 × State}
    (h : s.recv conn timeout size count = some r) : r.2.2.fds = s.fds ∧ r.2.2.clients = s.clients ∧
      ∀ c, conn ≠ some c → r.2.2.peers c = s.peers c := by
  obtain (rfl | rfl) | ⟨d, rfl, -, -, rfl⟩ := recv_cases h
  · exact ⟨rfl, rfl, fun _ _ => rfl⟩
  · exact ⟨rfl, rfl, fun _ _ => rfl⟩
  · refine ⟨rfl, rfl, fun c hc => Function.update_of_ne ?_ _ _⟩
    rintro rfl
    exact hc rfl

/-- A thread that is not committed opens and closes nothing, changes no flag, and touches no
peer but the one it receives from. -/
theorem acts_only_committed {k : ℕ} {x : Input} {th : Thread} (hth : s.threads[k]? = some th)
    (hs : workerStep window s k x = some t) (hc : ¬th.code.Committed) :
    t.fds = s.fds ∧ (∀ i, (t.clients i).active = (s.clients i).active) ∧
    ∀ c, ¬th.code.Receives c → t.peers c = s.peers c := by
  simp only [workerStep, hth] at hs
  cases hcode : th.code with
  | handler h =>
    rw [hcode] at hc
    simp only [hcode] at hs
    cases hpc : h.pc with
    | receiving conn timeout =>
      simp only [client_handler, hpc, Option.map_eq_some_iff] at hs
      obtain ⟨r, hr, rfl⟩ := hs
      obtain ⟨hfds, hclients, hpeers⟩ := recv_leaves hr
      refine ⟨hfds, fun i => congrArg (fun f => (f i).active) hclients, fun c hnot => hpeers c ?_⟩
      rintro rfl
      exact hnot ⟨timeout, hpc⟩
    | unlockRecv =>
      simp only [client_handler, hpc, Option.some.injEq] at hs
      subst hs
      exact ⟨rfl, active_update (by rfl), fun _ _ => rfl⟩
    | testActive =>
      simp only [client_handler, hpc] at hs
      split at hs
      · cases hs
        exact ⟨rfl, fun _ => rfl, fun _ _ => rfl⟩
      · cases hs
        exact ⟨rfl, fun _ => rfl, fun _ _ => rfl⟩
    | stopDecrement | stopUnlock =>
      simp only [client_handler, hpc, Option.some.injEq] at hs
      subst hs
      exact ⟨rfl, fun _ => rfl, fun _ _ => rfl⟩
    | ended | fault => simp [client_handler, hpc] at hs
    | _ => exact absurd (by simp [hpc]) hc
  | check a =>
    rw [hcode] at hc
    simp only [hcode] at hs
    cases hpc : a.pc with
    | reading conn timeout =>
      simp only [check_alive, hpc, Option.map_eq_some_iff] at hs
      obtain ⟨r, hr, rfl⟩ := hs
      obtain ⟨hfds, hclients, hpeers⟩ := recv_leaves hr
      refine ⟨hfds, fun i => congrArg (fun f => (f i).active) hclients, fun c hnot => hpeers c ?_⟩
      rintro rfl
      exact hnot ⟨timeout, hpc⟩
    | unlockRecv =>
      simp only [check_alive, hpc, Option.some.injEq] at hs
      subst hs
      exact ⟨rfl, active_update (by rfl), fun _ _ => rfl⟩
    | testReceived =>
      simp only [check_alive, hpc] at hs
      split at hs
      · cases hs
        exact ⟨rfl, fun _ => rfl, fun _ _ => rfl⟩
      · cases hs
        exact ⟨rfl, fun _ => rfl, fun _ _ => rfl⟩
    | decrement | unlock =>
      simp only [check_alive, hpc, Option.some.injEq] at hs
      subst hs
      exact ⟨rfl, fun _ => rfl, fun _ _ => rfl⟩
    | ended => simp [check_alive, hpc] at hs
    | _ => exact absurd (by simp [hpc]) hc

/-! ### Given slots -/

lemma occupied_main {x : Input} (h : Occupied s) (hreg : Registered s) (hs : MainMove s x t) : Occupied t := by
  have hkeep : ∀ u : State, u.checker = s.checker → (∀ i, s.occupant i ≠ none → u.occupant i ≠ none) →
      (∀ i, (u.clients i).active = true → u.occupant i ≠ none) → Occupied u := by
    intro u hchecker hocc hactive
    refine ⟨hactive, fun slot hpc => ?_⟩
    rw [hchecker] at hpc
    exact hocc slot (h.probed slot hpc)
  have hsame : ∀ i, s.main ≠ .setActive i → (t.clients i).active = (s.clients i).active :=
    fun i => active_of_main hs
  cases hs with
  | accepts | locks | full | hasRoom | refuses | closes | skips | finds | findsNone | callsRecv | increments
  | unlocks | creates => exact hkeep _ rfl (fun _ ho => ho) h.active
  | receives hpc | initsMutex hpc =>
    refine hkeep _ rfl (fun _ ho => ho) fun i ha => ?_
    exact h.active i ((hsame i (by simp [hpc])).symm.trans ha)
  | @setsFd fd slot hpc =>
    have hgiven : ∀ i, s.occupant i ≠ none →
        Function.update s.occupant slot (some (s.accepted - 1)) i ≠ none := by
      intro i ho
      by_cases hi : i = slot
      · rw [hi, Function.update_self]
        exact Option.some_ne_none _
      · rwa [Function.update_of_ne hi]
    refine hkeep _ rfl hgiven fun i ha => ?_
    exact hgiven i (h.active i ((hsame i (by simp [hpc])).symm.trans ha))
  | @activates slot hpc =>
    refine hkeep _ rfl (fun _ ho => ho) fun i ha => ?_
    by_cases hi : i = slot
    · rw [hi, hreg.registering slot (by rw [hpc]; rfl)]
      exact Option.some_ne_none _
    · have hactive := hsame i (by rw [hpc]; exact fun he => hi (MainPc.setActive.inj he).symm)
      exact h.active i (hactive.symm.trans ha)

lemma occupied_step {a : Action} (h : Occupied s) (hreg : Registered s) (hs : step window s a = some t) :
    Occupied t := by
  obtain ⟨x, -, hm⟩ | ⟨-, hc⟩ | ⟨k, x, th, -, -, hw⟩ | ⟨peers, rfl⟩ := step_cases hs
  · exact occupied_main h hreg hm
  · cases hc with
    | finds hpc hi hactive =>
      refine ⟨h.active, fun slot he => ?_⟩
      obtain rfl := CheckerPc.create.inj he
      exact h.active _ hactive
    | wakes | locks | skips | ends | creates | unlocks => exact ⟨h.active, fun slot he => by cases he⟩
  · have hactive : ∀ i, (t.clients i).active = true → (s.clients i).active = true := fun i => active_of_worker hw
    obtain ⟨code, clients, num, mutex, fds, peers, rfl, -⟩ := hw
    exact ⟨fun i ha => h.active i (hactive i ha), h.probed⟩
  · exact ⟨h.active, h.probed⟩

/-- How many connections `main` has placed or refused. -/
def State.placed (s : State) : ℕ :=
  match s.main with
  | .lock _ | .testCapacity _ | .refuse _ | .refuseClose _ | .search _ | .setFd _ _ => s.accepted - 1
  | _ => s.accepted

/-- Nobody knows a connection before it is placed. -/
structure Placed (s : State) : Prop where
  threads : ∀ th ∈ s.threads, th.conn < s.placed
  occupants : ∀ i c, s.occupant i = some c → c < s.placed

lemma Placed.keep (h : Placed s) (hle : s.placed ≤ t.placed)
    (hthreads : ∀ u ∈ t.threads, u.conn < s.placed) (hocc : t.occupant = s.occupant) : Placed t where
  threads u hu := lt_of_lt_of_le (hthreads u hu) hle
  occupants i c ho := by
    rw [hocc] at ho
    exact lt_of_lt_of_le (h.occupants i c ho) hle

lemma Placed.getD_lt (h : Placed s) {slot : Slot} {conn : Conn} (hocc : s.occupant slot = some conn) :
    (s.occupant slot).getD 0 < s.placed := by
  have hlt := h.occupants slot conn hocc
  rwa [hocc, Option.getD_some]

lemma placed_main {x : Input} (h : Placed s) (hreg : Registered s) (hs : MainMove s x t) : Placed t := by
  cases hs with
  | accepts hpc | locks hpc | full hpc | hasRoom hpc | refuses hpc | closes hpc | skips hpc | finds hpc | findsNone hpc
  | callsRecv hpc | receives hpc | activates hpc | initsMutex hpc | increments hpc | unlocks hpc =>
    exact h.keep (by simp [State.placed, hpc]) h.threads rfl
  | @setsFd fd slot hpc =>
    have hpos := hreg.pending (by rw [hpc]; trivial)
    have hplaced : s.placed = s.accepted - 1 := by rw [State.placed, hpc]
    have hlt : s.placed < s.accepted := by omega
    refine ⟨fun th hth => (h.threads th hth).trans hlt, fun i c ho => ?_⟩
    have hget : Function.update s.occupant slot (some (s.accepted - 1)) i = some c := ho
    by_cases hi : i = slot
    · rw [hi, Function.update_self] at hget
      rw [← Option.some.inj hget, ← hplaced]
      exact hlt
    · rw [Function.update_of_ne hi] at hget
      exact (h.occupants i c hget).trans hlt
  | @creates slot hpc =>
    have hplaced : s.placed = s.accepted := by rw [State.placed, hpc]
    refine h.keep hplaced.le (fun th hth => ?_) rfl
    rcases List.mem_append.mp hth with hold | hnew
    · exact h.threads th hold
    · obtain rfl := List.mem_singleton.mp hnew
      have hocc := hreg.registering slot (by rw [hpc]; rfl)
      exact h.getD_lt hocc

lemma placed_step {a : Action} (h : Placed s) (hreg : Registered s) (hoccupied : Occupied s)
    (hs : step window s a = some t) : Placed t := by
  obtain ⟨x, -, hm⟩ | ⟨-, hc⟩ | ⟨k, x, th, -, hth, hw⟩ | ⟨peers, rfl⟩ := step_cases hs
  · exact placed_main h hreg hm
  · cases hc with
    | @creates slot hpc =>
      refine h.keep le_rfl (fun th hth => ?_) rfl
      rcases List.mem_append.mp hth with hold | hnew
      · exact h.threads th hold
      · obtain rfl := List.mem_singleton.mp hnew
        obtain ⟨conn, hocc⟩ := Option.ne_none_iff_exists'.mp (hoccupied.probed slot hpc)
        exact h.getD_lt hocc
    | wakes | locks | finds | skips | ends | unlocks => exact h.keep le_rfl h.threads rfl
  · have hthreads : ∀ u ∈ t.threads, u.conn < s.placed := by
      intro u hu
      obtain ⟨j, hj⟩ := List.mem_iff_getElem?.mp hu
      rcases get_of_worker hth hw hj with ⟨-, code, rfl, -⟩ | ⟨-, hold⟩
      · exact h.threads th (List.mem_of_getElem? hth)
      · exact h.threads u (List.mem_of_getElem? hold)
    obtain ⟨code, clients, num, mutex, fds, peers, rfl, -⟩ := hw
    exact h.keep le_rfl hthreads rfl
  · exact h.keep le_rfl h.threads rfl

/-! ### Whole runs -/

/-- What the server promises about its slots: a thread that will use its slot again without
testing it uses it for the connection it was started for; it does not receive from another
connection in its slot; the only handler in the loop on an active slot is that of the
connection in it; and a thread whose slot has been given away closes nothing, changes no flag
and leaves the new connection alone. -/
structure OwnSlots (window : ℕ) (s : State) : Prop where
  committed : ∀ th ∈ s.threads, th.code.Committed → s.occupant th.code.index = some th.conn
  receives : ∀ th ∈ s.threads, ∀ conn, th.code.Receives conn → s.occupant th.code.index = some conn →
    conn = th.conn
  serves : ∀ th ∈ s.threads, th.code.InLoop → (s.clients th.code.index).active = true →
    s.occupant th.code.index = some th.conn
  one : ∀ (j k : ℕ) (u v : Thread), s.threads[j]? = some u → s.threads[k]? = some v → u.code.InLoop →
    v.code.InLoop → u.code.index = v.code.index → (s.clients u.code.index).active = true → j = k
  acts : ∀ k x (th : Thread) t, s.threads[k]? = some th → workerStep window s k x = some t →
    s.occupant th.code.index ≠ some th.conn →
    t.fds = s.fds ∧ (∀ i, (t.clients i).active = (s.clients i).active) ∧
    ∀ c, s.occupant th.code.index = some c → t.peers c = s.peers c

/-- The invariant of the runs in which threads leave their slots first. -/
structure Apart (s : State) : Prop where
  registered : Registered s
  fills : FillsFree s
  occupied : Occupied s
  placed : Placed s
  owns : ∀ th ∈ s.threads, s.Owns th

lemma Started.apart (h : Started s) : Apart s where
  registered := h.registered
  fills := h.fillsFree
  occupied := by
    constructor
    · intro i ha
      rw [h.clients] at ha
      cases ha
    · intro slot hpc
      rw [h.checker] at hpc
      cases hpc
  placed := by
    constructor
    · intro th hth
      rw [h.threads] at hth
      cases hth
    · intro i c ho
      rw [h.occupant] at ho
      cases ho
  owns th hth := by
    rw [h.threads] at hth
    cases hth

lemma Apart.step {a : Action} (h : Apart s) (hright : RightIndex s a) (hleaves : LeavesFirst s a)
    (hs : step window s a = some t) : Apart t where
  registered := registered_step h.registered hs
  fills := fillsFree_step h.fills hs
  occupied := occupied_step h.occupied h.registered hs
  placed := placed_step h.placed h.registered h.occupied hs
  owns := by
    obtain ⟨x, rfl, hm⟩ | ⟨-, hc⟩ | ⟨k, x, th, rfl, -, -⟩ | ⟨peers, rfl⟩ := step_cases hs
    · exact owns_main h.owns h.registered h.fills hleaves hm
    · exact owns_checker h.owns h.occupied hc
    · exact owns_worker h.owns hright hleaves hs
    · exact fun th hth => (h.owns th hth).keep rfl id

lemma Apart.ownSlots (h : Apart s) : OwnSlots window s where
  committed th hth := (h.owns th hth).committed
  receives th hth := (h.owns th hth).receives
  serves th hth := (h.owns th hth).loop
  one j k u v hu hv hul hvl hindex hactive := by
    have huo := (h.owns u (List.mem_of_getElem? hu)).loop hul hactive
    have hvo := (h.owns v (List.mem_of_getElem? hv)).loop hvl (by rwa [← hindex])
    rw [hindex, hvo] at huo
    exact h.registered.distinct j k u v hu hv hul.isHandler hvl.isHandler (Option.some.inj huo).symm
  acts k x th t hth hs hother := by
    have hown := h.owns th (List.mem_of_getElem? hth)
    obtain ⟨hfds, hactive, hpeers⟩ := acts_only_committed hth hs fun hc => hother (hown.committed hc)
    refine ⟨hfds, hactive, fun c hocc => hpeers c fun hr => hother ?_⟩
    rw [hocc, hown.receives c hr hocc]

lemma eq_setFd_of_taken {pc : MainPc} {slot : Slot} (h : slot ∈ pc.taken) : ∃ fd, pc = .setFd fd slot := by
  cases pc with
  | setFd fd j => exact ⟨fd, by rw [Option.some.inj h]⟩
  | _ => cases h

lemma eq_setActive_of_activated {pc : MainPc} {slot : Slot} (h : slot ∈ pc.activated) : pc = .setActive slot := by
  cases pc with
  | setActive j => rw [Option.some.inj h]
  | _ => cases h

lemma eq_reading_of_probing {c : Code} {call : Option Conn × Bool} (h : call ∈ c.probing) :
    ∃ client_index n, c = .check ⟨.reading call.1 call.2, client_index, n⟩ := by
  cases c with
  | handler a => cases h
  | check a =>
    obtain ⟨pc, client_index, n⟩ := a
    cases pc with
    | reading d timeout => exact ⟨client_index, n, by rw [← Option.some.inj h]⟩
    | _ => cases h

lemma leavesFirst_main {x : Input} (h : Apart s) (hs : mainStep s x = some t) (hown : OwnSlots window t) :
    LeavesFirst s (.main x) := by
  constructor
  · intro slot htaken th hth hslot
    obtain ⟨fd, hpc⟩ := eq_setFd_of_taken htaken
    have hne : s.accepted - 1 ≠ th.conn := by
      have hlt := h.placed.threads th hth
      rw [State.placed, hpc] at hlt
      exact (Nat.ne_of_lt hlt).symm
    simp only [mainStep, hpc, Option.some.injEq] at hs
    subst hs
    have hocc : Function.update s.occupant slot (some (s.accepted - 1)) th.code.index = some (s.accepted - 1) := by
      rw [hslot, Function.update_self]
    constructor
    · intro hc
      exact hne (Option.some.inj (hocc.symm.trans (hown.committed th hth hc)))
    · intro hr
      exact hne (hown.receives th hth _ hr hocc)
  · intro slot hactivated th hth hslot hloop
    have hpc := eq_setActive_of_activated hactivated
    have hocc := h.registered.registering slot (by rw [hpc]; rfl)
    obtain ⟨k, hk⟩ := List.mem_iff_getElem?.mp hth
    have hlt := (h.registered.handlers k th hk hloop.isHandler).2 (by rw [hpc]; trivial)
    simp only [mainStep, hpc, Option.some.injEq] at hs
    subst hs
    have hactive : (Function.update s.clients slot { s.clients slot with active := true } slot).active = true := by
      rw [Function.update_self]
    have hserves : s.occupant th.code.index = some th.conn := by
      apply hown.serves th hth hloop
      rw [hslot]
      exact hactive
    rw [hslot, hocc] at hserves
    have hlast : s.accepted - 1 + 1 < s.accepted := by
      rw [Option.some.inj hserves]
      exact hlt
    omega

lemma leavesFirst_worker {k : ℕ} {x : Input} (hs : workerStep window s k x = some t) (hown : OwnSlots window t) :
    LeavesFirst s (.worker k x) := by
  rintro th hth ⟨conn, timeout⟩ hprobing
  by_contra hnot
  obtain ⟨hother, hsilent⟩ := not_or.mp hnot
  apply hsilent
  intro r hr
  by_contra hle
  obtain ⟨c, slot, code⟩ := th
  obtain ⟨client_index, n, rfl⟩ := eq_reading_of_probing hprobing
  have hget : s.threads[k]? = some ⟨c, slot, .check ⟨.reading conn timeout, client_index, n⟩⟩ := hth
  have hrecv : s.recv conn timeout BUFFER_SIZE x.count = some r := hr
  simp only [workerStep, hget, check_alive, hrecv, Option.map_some, Option.some.injEq] at hs
  obtain ⟨peers, hpeers⟩ := recv_eq hrecv
  rw [hpeers] at hs
  subst hs
  have hlt := (List.getElem?_eq_some_iff.mp hget).1
  have hmem := List.mem_of_getElem?
    (List.getElem?_set_self (a := ⟨c, slot, .check ⟨.unlockRecv, client_index, r.1⟩⟩) hlt)
  have hocc := hown.committed _ hmem (not_lt.mp hle)
  exact hother hocc

/-- The condition is exact: a step that breaks it makes a thread act on a later connection, or
lets an old handler serve an active slot. -/
theorem leavesFirst_iff {a : Action} (h : Apart s) (hright : RightIndex s a) (hs : step window s a = some t) :
    LeavesFirst s a ↔ OwnSlots window t := by
  constructor
  · exact fun hleaves => (h.step hright hleaves hs).ownSlots
  · intro hown
    cases a with
    | main x => exact leavesFirst_main h hs hown
    | worker k x => exact leavesFirst_worker hs hown
    | checker | peerSend | peerRead | peerClose => trivial

/-- In a run in which a slot is given away only when its threads are done with it, no thread
acts on a later connection in its slot. -/
theorem own_slots (h : (machine window).ReachableBy (fun s a => RightIndex s a ∧ LeavesFirst s a) s) :
    OwnSlots window s := by
  apply Apart.ownSlots
  apply h.invariant (I := Apart)
  · exact fun s hs => hs.apart
  · exact fun s a t hok hP hs => hok.step hP.1 hP.2 hs

/-! ### An old handler with a new client -/

instance : DecidablePred HandlerPc.Committed
  | .receiving _ _ | .unlockRecv | .testActive | .stopDecrement | .stopUnlock | .ended | .fault => isFalse id
  | .start | .copyName | .setTimeout | .lockRecv | .recv | .testReceived | .dispatch | .relayLock _ _
  | .relay _ _ _ | .relayUnlock | .listLock | .listing _ _ | .listUnlock _ | .listSend _ | .stopClose | .stopLock
  | .stopDeactivate => isTrue trivial

instance : DecidablePred Code.Committed
  | .handler h => inferInstanceAs (Decidable h.pc.Committed)
  | .check ⟨.setTimeout, _, _⟩ | .check ⟨.lockRecv, _, _⟩ | .check ⟨.sendAlive, _, _⟩
  | .check ⟨.read, _, _⟩ | .check ⟨.close, _, _⟩ | .check ⟨.lock, _, _⟩
  | .check ⟨.deactivate, _, _⟩ => isTrue trivial
  | .check ⟨.unlockRecv, _, n⟩ | .check ⟨.testReceived, _, n⟩ => inferInstanceAs (Decidable (n ≤ 0))
  | .check ⟨.reading _ _, _, _⟩ | .check ⟨.decrement, _, _⟩ | .check ⟨.unlock, _, _⟩
  | .check ⟨.ended, _, _⟩ => isFalse id

instance (conn : Conn) : DecidablePred fun c : Code => c.Receives conn
  | .handler h => inferInstanceAs (Decidable (∃ timeout, h.pc = .receiving (some conn) timeout))
  | .check c => inferInstanceAs (Decidable (∃ timeout, c.pc = .reading (some conn) timeout))

instance : DecidablePred Code.InLoop
  | .handler h => inferInstanceAs (Decidable (h.pc ≠ .ended ∧ h.pc ≠ .fault))
  | .check _ => isFalse id

instance : DecidablePred Code.Starts
  | .handler h => inferInstanceAs (Decidable (h.pc = .start))
  | .check _ => isFalse id

instance (s : State) : DecidablePred (RightIndex s)
  | .worker k _ => inferInstanceAs (Decidable (∀ th ∈ s.threads[k]?, th.code.Starts → s.i = th.slot))
  | .main _ | .checker | .peerSend _ _ | .peerRead _ | .peerClose _ => isTrue trivial

instance (s : State) : DecidablePred (LeavesFirst s)
  | .main _ => inferInstanceAs (Decidable ((∀ slot ∈ s.main.taken, ∀ th ∈ s.threads, th.code.index = slot →
      ¬th.code.Committed ∧ ¬th.code.Receives (s.accepted - 1)) ∧
      ∀ slot ∈ s.main.activated, ∀ th ∈ s.threads, th.code.index = slot → ¬th.code.InLoop))
  | .worker k x => inferInstanceAs (Decidable (∀ th ∈ s.threads[k]?, ∀ call ∈ th.code.probing,
      s.occupant th.code.index = some th.conn ∨ ∀ r ∈ s.recv call.1 call.2 BUFFER_SIZE x.count, 0 < r.1))
  | .checker | .peerSend _ _ | .peerRead _ | .peerClose _ => isTrue trivial

/-- The handler of a client that did not answer is still in `recv` when its slot is given to
the next client; it finds the slot active and receives from the new connection. -/
theorem not_own_slots :
    ¬∀ (window : ℕ) (s : State), (machine window).ReachableBy RightIndex s → OwnSlots window s := by
  intro h
  have hrun : (((machine 1).guard RightIndex).exec start (registration 0 "ala" ++ goOn 0 3 ++ probe ++ goOn 1 7 ++
      goOn 0 2 ++ goOn 1 5 ++ registration 1 "ola" ++ goOn 0 7)).map (fun s => s.threads.head?.map fun th =>
      (th.conn, s.occupant th.code.index, decide (th.code.Receives 1))) = some (some (0, some 1, true)) := by
    decide +kernel
  obtain ⟨s, hs, he⟩ := Option.map_eq_some_iff.mp hrun
  obtain ⟨th, hth, he⟩ := Option.map_eq_some_iff.mp he
  obtain ⟨hconn, hocc, hreceives⟩ := by simpa only [Prod.mk.injEq] using he
  have hstart : ((machine 1).guard RightIndex).Reachable start := .start start_started
  have hown := h 1 s (Machine.reachableBy_of_guard (hstart.exec hs))
  have hsame := hown.receives th (List.mem_of_mem_head? hth) 1 (of_decide_eq_true hreceives) hocc
  rw [hconn] at hsame
  cases hsame

/-- A client says STOP, and its handler is gone when another takes the slot. -/
theorem own_slots_stop : ∃ s, (machine 1).ReachableBy (fun s a => RightIndex s a ∧ LeavesFirst s a) s ∧
    s.occupant 0 = some 1 ∧
    s.threads.map (fun th => (th.conn, decide th.code.Committed)) = [(0, false), (1, true)] ∧ OwnSlots 1 s := by
  have hrun : (((machine 1).guard fun s a => RightIndex s a ∧ LeavesFirst s a).exec start (registration 0 "ala" ++
      command 0 0 "STOP" ++ goOn 0 9 ++ registration 1 "ola" ++ goOn 1 4)).map (fun s =>
      (s.occupant 0, s.threads.map fun th => (th.conn, decide th.code.Committed))) =
      some (some 1, [(0, false), (1, true)]) := by
    decide +kernel
  obtain ⟨s, hs, he⟩ := Option.map_eq_some_iff.mp hrun
  obtain ⟨hocc, hthreads⟩ := Prod.mk.inj he
  have hstart : ((machine 1).guard fun s a => RightIndex s a ∧ LeavesFirst s a).Reachable start :=
    .start start_started
  have hreach := Machine.reachableBy_of_guard (hstart.exec hs)
  exact ⟨s, hreach, hocc, hthreads, own_slots hreach⟩

end SystemyOperacyjne.ChatServer
