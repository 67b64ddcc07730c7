import SystemyOperacyjne.QueueChatOrder
import SystemyOperacyjne.QueueChatV

/-!
# The table of the queue chat servers

Both servers look at slots of a table of ten: INIT searches for a free one, and STOP takes the
index from the message. They stay inside the table exactly as long as INIT finds it not full
and STOP names a slot of it.
-/

namespace SystemyOperacyjne.QueueChat
open Concurrency CString

variable {s t : State} {ftok : List UInt8 → ℤ} {u v : StateV}

/-- The server can deal with the message inside its table. -/
def FitsTable {κ : Type} (m : message_msg) (clients : Fin 10 → Option κ) : Prop :=
  (m.type = .INIT → ∃ id, clients id = none) ∧ (m.type = .STOP → 0 ≤ m.client_id ∧ m.client_id < 10)

/-- A message that the server turns to fits its table. -/
def InTable (s : State) : SenderAction QueueName → Prop
  | .server _ => s.server.pc = .dispatch → FitsTable s.server.recive_msg s.server.clients
  | _ => True

def InTableV (s : StateV) : SenderAction ℤ → Prop
  | .server _ => s.server.pc = .dispatch → FitsTable s.server.recive_msg s.server.clients
  | _ => True

lemma find_isNone_eq_none {κ : Type} {clients : Fin 10 → Option κ} :
    ((List.finRange 10).find? fun id => (clients id).isNone) = none ↔ ¬∃ id, clients id = none := by
  rw [List.find?_eq_none]
  constructor
  · rintro h ⟨id, hid⟩
    exact h id (List.mem_finRange id) (by rw [hid]; rfl)
  · intro h id _ hid
    exact h ⟨id, Option.isNone_iff_eq_none.mp hid⟩

lemma slot?_eq_none {id : ℤ} : slot? id = none ↔ ¬(0 ≤ id ∧ id < 10) := by
  unfold slot?
  by_cases h : 0 ≤ id ∧ id < 10
  · simp [h]
  · simp [h]

/-! ### The POSIX server -/

lemma overruns_iff : s.server.Overruns ↔ ¬FitsTable s.server.recive_msg s.server.clients := by
  unfold Server.Overruns FitsTable freeSlot
  rw [find_isNone_eq_none, slot?_eq_none]
  tauto

lemma fault_of_step {a : SenderAction QueueName} (hs : senderStep s a = some t) (hpc : s.server.pc ≠ .fault) :
    t.server.pc ≠ .fault ↔ InTable s a := by
  obtain ⟨ok, rfl, hm⟩ | ⟨e, rfl, rfl⟩ | ⟨n, rfl, rfl⟩ | ⟨rfl, rfl⟩ := sender_cases hs
  · have hother : s.server.pc ≠ .dispatch → t.server.pc ≠ .fault → (t.server.pc ≠ .fault ↔ InTable s (.server ok)) :=
      fun hne ht => iff_of_true ht fun he => absurd he hne
    have hfits : ¬s.server.Overruns → t.server.pc ≠ .fault → (t.server.pc ≠ .fault ↔ InTable s (.server ok)) :=
      fun hin ht => iff_of_true ht fun _ => not_not.mp (mt overruns_iff.mpr hin)
    cases hm with
    | overruns hd hout => exact iff_of_false (not_not.mpr rfl) fun hin => overruns_iff.mp hout (hin hd)
    | admits hd htype hid => exact hfits (by simp [Server.Overruns, htype, hid]) (by simp)
    | cannotOpen hd htype hid hok =>
      exact hfits (by simp [Server.Overruns, htype, hid]) (by simp [State.serverAt])
    | passesOn hd htype => exact hfits (by simp [Server.Overruns, htype]) (by simp [State.serverAt])
    | dismisses hd htype hid hslot => exact hfits (by simp [Server.Overruns, htype, hid]) (by simp [State.serverAt])
    | ignores hd hignores =>
      refine hfits ?_ (by simp [State.serverAt, State.finish])
      rcases hignores with htype | ⟨htype, id, hid, -⟩
      · simp [Server.Overruns, htype]
      · simp [Server.Overruns, htype, hid]
    | goesOn hd | leaves hd | receives hd | repeats hd | tells hd | tellsNothing hd | forwards hd | skips hd | ends hd
    | saysGoodbye hd | goodbyeFails hd | closes hd =>
      exact hother (by simp [hd]) (by simp [State.serverAt, State.finish, State.deliver])
  · exact iff_of_true hpc trivial
  · exact iff_of_true hpc trivial
  · exact iff_of_true hpc trivial

lemma fault_stays {a : SenderAction QueueName} (hs : senderStep s a = some t) (hpc : s.server.pc = .fault) :
    t.server.pc = .fault := by
  obtain ⟨ok, rfl, -⟩ | ⟨e, rfl, rfl⟩ | ⟨n, rfl, rfl⟩ | ⟨rfl, rfl⟩ := sender_cases hs
  · simp [senderStep, serverStep, hpc] at hs
  · exact hpc
  · exact hpc
  · exact hpc

/-! ### The System V server -/

lemma msgsnd_eq_some {key : ℤ} {m : message_msg} (hs : u.msgsnd key m = some v) : v.server = u.server := by
  unfold StateV.msgsnd at hs
  split at hs
  · cases hs
    rfl
  · cases hs

lemma sendStepV_pc {pc : ServerPc} {key : ℤ} {m : message_msg} {ok : Bool}
    (hs : sendStepV (u.serverAt pc) key m ok = some v) : v.server.pc = pc ∨ v.server.pc = .exited := by
  unfold sendStepV at hs
  split at hs
  · exact .inl (congrArg ServerV.pc (msgsnd_eq_some hs))
  · cases hs
    exact .inr rfl

lemma dispatchV_pc (ok : Bool) :
    (dispatchStepV ftok u ok).server.pc ≠ .fault ↔ FitsTable u.server.recive_msg u.server.clients := by
  cases htype : u.server.recive_msg.type with
  | INIT =>
    cases hid : freeSlotV u.server.clients with
    | none =>
      have hfull := find_isNone_eq_none.mp hid
      refine iff_of_false ?_ fun hfits => hfull (hfits.1 htype)
      simp [dispatchStepV, htype, hid, StateV.serverAt]
    | some id =>
      have hfree : ∃ id, u.server.clients id = none := by
        by_contra hne
        have hnone : freeSlotV u.server.clients = none := find_isNone_eq_none.mpr hne
        rw [hid] at hnone
        cases hnone
      cases ok <;> simp [dispatchStepV, htype, hid, StateV.serverAt, StateV.setSlot, FitsTable, hfree]
  | MESSAGE => simp [dispatchStepV, htype, StateV.serverAt, FitsTable]
  | STOP =>
    cases hid : slot? u.server.recive_msg.client_id with
    | none =>
      have hout := slot?_eq_none.mp hid
      refine iff_of_false ?_ fun hfits => hout (hfits.2 htype)
      simp [dispatchStepV, htype, hid, StateV.serverAt]
    | some id =>
      have hin : 0 ≤ u.server.recive_msg.client_id ∧ u.server.recive_msg.client_id < 10 := by
        by_contra hne
        rw [slot?_eq_none.mpr hne] at hid
        cases hid
      simp only [dispatchStepV, htype, hid, FitsTable, hin]
      split <;> simp [StateV.serverAt]
  | IDENTIFIER => simp [dispatchStepV, htype, StateV.serverAt, FitsTable]

lemma fault_of_stepV {a : SenderAction ℤ} (hs : senderStepV ftok u a = some v) (hpc : u.server.pc ≠ .fault) :
    v.server.pc ≠ .fault ↔ InTableV u a := by
  cases a with
  | server ok =>
    have hother : u.server.pc ≠ .dispatch → v.server.pc ≠ .fault → (v.server.pc ≠ .fault ↔ InTableV u (.server ok)) :=
      fun hne hv => iff_of_true hv fun he => absurd he hne
    have hsends : ∀ pc key m, pc ≠ .fault → sendStepV (u.serverAt pc) key m ok = some v → v.server.pc ≠ .fault := by
      intro pc key m hne hs
      rcases sendStepV_pc hs with hv | hv
      · rwa [hv]
      · rw [hv]
        simp
    cases hd : u.server.pc with
    | loop =>
      simp only [senderStepV, serverStepV, hd] at hs
      refine hother (by simp [hd]) ?_
      split at hs <;> cases hs <;> simp [StateV.serverAt]
    | receive =>
      simp only [senderStepV, serverStepV, hd] at hs
      refine hother (by simp [hd]) ?_
      split at hs
      · split at hs <;> cases hs
        simp
      · cases hs
        simp [StateV.serverAt]
    | dispatch =>
      simp only [senderStepV, serverStepV, hd, Option.some.injEq] at hs
      subst hs
      rw [dispatchV_pc]
      exact ⟨fun hfits _ => hfits, fun hin => hin hd⟩
    | sendIdentifier id =>
      simp only [senderStepV, serverStepV, hd] at hs
      refine hother (by simp [hd]) ?_
      split at hs
      · exact hsends _ _ _ (by simp) hs
      · cases hs
        simp [StateV.serverAt]
    | broadcast i =>
      simp only [senderStepV, serverStepV, hd, broadcastStepV] at hs
      refine hother (by simp [hd]) ?_
      split at hs
      · split at hs
        · split at hs
          · exact hsends _ _ _ (by simp) hs
          · cases hs
            simp [StateV.serverAt]
        · cases hs
          simp [StateV.serverAt]
      · cases hs
        simp [StateV.serverAt]
    | sendGoodbye id =>
      simp only [senderStepV, serverStepV, hd] at hs
      refine hother (by simp [hd]) ?_
      split at hs
      · exact hsends _ _ _ (by simp) hs
      · cases hs
        simp [StateV.serverAt]
    | close id =>
      simp only [senderStepV, serverStepV, hd, Option.some.injEq] at hs
      subst hs
      exact hother (by simp [hd]) (by simp [StateV.serverAt])
    | done | exited | fault => simp [senderStepV, serverStepV, hd] at hs
  | arrive e =>
    simp only [senderStepV, StateV.sendToServer] at hs
    split at hs <;> cases hs
    exact iff_of_true hpc trivial
  | take key =>
    simp only [senderStepV] at hs
    split at hs <;> cases hs
    exact iff_of_true hpc trivial
  | interrupt =>
    cases hs
    exact iff_of_true hpc trivial

lemma fault_staysV {a : SenderAction ℤ} (hs : senderStepV ftok u a = some v) (hpc : u.server.pc = .fault) :
    v.server.pc = .fault := by
  cases a with
  | server ok => simp [senderStepV, serverStepV, hpc] at hs
  | arrive e =>
    simp only [senderStepV, StateV.sendToServer] at hs
    split at hs <;> cases hs
    exact hpc
  | take key =>
    simp only [senderStepV] at hs
    split at hs <;> cases hs
    exact hpc
  | interrupt =>
    cases hs
    exact hpc

/-! ### Whole runs -/

/-- Both servers stay inside their tables exactly in the runs in which INIT always finds a free
slot and STOP always names a slot of the table. -/
theorem table_bounds (ftok : List UInt8 → ℤ) :
    (∀ s t as, Started s → anySenders.exec s as = some t →
      (t.server.pc ≠ .fault ↔ anySenders.Along InTable s as)) ∧
    ∀ u v as, StartedV u → (anySendersV ftok).exec u as = some v →
      (v.server.pc ≠ .fault ↔ (anySendersV ftok).Along InTableV u as) := by
  constructor
  · intro s t as hstart hrun
    refine Machine.along_iff (B := fun s => s.server.pc = .fault) ?_ ?_ hrun ?_
    · exact fun s a t hs hpc => fault_of_step hs hpc
    · exact fun s a t hs hpc => fault_stays hs hpc
    · rw [hstart.pc]
      simp
  · intro u v as hstart hrun
    refine Machine.along_iff (B := fun u => u.server.pc = .fault) ?_ ?_ hrun ?_
    · exact fun u a v hs hpc => fault_of_stepV hs hpc
    · exact fun u a v hs hpc => fault_staysV hs hpc
    · rw [hstart.pc]
      simp

/-- Nothing has happened yet. -/
def quietV : StateV where
  server := ⟨true, .loop, ⟨.INIT, 0, textOf []⟩, fun _ => none⟩
  server_queue := []
  client _ := ⟨.create, .unborn, true, true, 0, [], ⟨.INIT, 0, textOf []⟩⟩
  queues _ := []

lemma quietV_started : StartedV quietV :=
  ⟨rfl, rfl, rfl, rfl, fun _ => rfl, fun _ => rfl, fun _ => rfl, fun _ => rfl, fun _ => rfl⟩

/-- A message arrives, and the server takes `n` steps. -/
def deal {κ : Type} (p : Pid) (m : message_msg) (n : ℕ) : List (SenderAction κ) :=
  .arrive ⟨p, m⟩ :: List.replicate n (.server true)

/-- The first `n` processes send INIT. -/
def inits (n : ℕ) (h : n ≤ 11) : List (SenderAction QueueName) :=
  (List.finRange n).flatMap fun k =>
    let p : Pid := ⟨k.val + 1, Nat.succ_pos _, by have := k.isLt; omega⟩
    deal p (initMessage p) 4

/-- The eleventh INIT finds no free slot; a STOP with the id 10 looks behind the table. -/
theorem not_table_bounds : (¬∀ s, anySenders.Reachable s → s.server.pc ≠ .fault) ∧
    ¬∀ u, (anySendersV fun _ => -1).Reachable u → u.server.pc ≠ .fault := by
  constructor
  · intro h
    have hrun : (anySenders.exec quiet ((inits 11 le_rfl).take 54)).map (fun s => s.server.pc) = some .fault := by
      decide +kernel
    obtain ⟨s, hs, hpc⟩ := Option.map_eq_some_iff.mp hrun
    have hstart : anySenders.Reachable quiet := .start quiet_started
    exact h s (hstart.exec hs) hpc
  · intro h
    have hrun : ((anySendersV fun _ => -1).exec quietV (deal ⟨1, by decide, by decide⟩ ⟨.STOP, 10, textOf []⟩ 3)).map
        (fun u => u.server.pc) = some .fault := by
      decide +kernel
    obtain ⟨u, hu, hpc⟩ := Option.map_eq_some_iff.mp hrun
    have hstart : (anySendersV fun _ => -1).Reachable quietV := .start quietV_started
    exact h u (hstart.exec hu) hpc

/-- Ten clients join and the last slot is given back; and a STOP for an empty slot. -/
theorem table_bounds_full :
    anySenders.Along InTable quiet (inits 10 (by decide) ++ deal ⟨10, by decide, by decide⟩ ⟨.STOP, 9, textOf []⟩ 5) ∧
    (anySendersV fun _ => -1).Along InTableV quietV (deal ⟨1, by decide, by decide⟩ ⟨.STOP, 3, textOf []⟩ 3) := by
  constructor
  · have hrun : (anySenders.exec quiet (inits 10 (by decide) ++
        deal ⟨10, by decide, by decide⟩ ⟨.STOP, 9, textOf []⟩ 5)).map (fun s => s.server.pc) = some .loop := by
      decide +kernel
    obtain ⟨s, hs, hpc⟩ := Option.map_eq_some_iff.mp hrun
    refine ((table_bounds fun _ => -1).1 quiet s _ quiet_started hs).mp ?_
    rw [hpc]
    simp
  · have hrun : ((anySendersV fun _ => -1).exec quietV (deal ⟨1, by decide, by decide⟩ ⟨.STOP, 3, textOf []⟩ 3)).map
        (fun u => u.server.pc) = some .loop := by
      decide +kernel
    obtain ⟨u, hu, hpc⟩ := Option.map_eq_some_iff.mp hrun
    refine ((table_bounds fun _ => -1).2 quietV u _ quietV_started hu).mp ?_
    rw [hpc]
    simp

end SystemyOperacyjne.QueueChat
