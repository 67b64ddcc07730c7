import SystemyOperacyjne.ChatServerFraming
import SystemyOperacyjne.ChatServerNames
import SystemyOperacyjne.ChatServerProgress

/-!
# Whom the relays reach

`send_to_all` and `send_to_one` as functions of the table of clients: to which slots they send,
and what. While a handler relays, no other thread changes the names and the flags, so its section
does what the function says.
-/

namespace SystemyOperacyjne.ChatServer
open Concurrency CString

variable {window : ℕ} {s t : State}

/-- One iteration of the loop over the slots: the text that is sent, if one is sent. -/
def relayText (recipient_name : Option (List UInt8)) (sender_name message date : List UInt8) (c : ClientInfo) :
    Option (Option (List UInt8)) :=
  if c.active then
    match stringAt c.name 0 with
    | none => none
    | some name => if picks recipient_name sender_name name then (compose date sender_name message).map some else some none
  else some none

/-- The loop over the slots, which ends for one recipient at the `break`; `date` is what `ctime`
returns in each iteration. -/
def relayLoop (clients : Slot → ClientInfo) (recipient_name : Option (List UInt8)) (sender_name message : List UInt8)
    (date : Slot → List UInt8) : List Slot → Option (List (Slot × List UInt8))
  | [] => some []
  | i :: is =>
    match relayText recipient_name sender_name message (date i) (clients i) with
    | none => none
    | some none => relayLoop clients recipient_name sender_name message date is
    | some (some text) =>
      if recipient_name = none then
        (relayLoop clients recipient_name sender_name message date is).map fun calls => (i, text) :: calls
      else some [(i, text)]

def send_to_all (clients : Slot → ClientInfo) (message sender_name : List UInt8) (date : Slot → List UInt8) :
    Option (List (Slot × List UInt8)) :=
  relayLoop clients none sender_name message date (List.finRange MAX_CLIENTS)

def send_to_one (clients : Slot → ClientInfo) (message sender_name recipient_name : List UInt8)
    (date : Slot → List UInt8) : Option (List (Slot × List UInt8)) :=
  relayLoop clients (some recipient_name) sender_name message date (List.finRange MAX_CLIENTS)

/-- What is sent goes to each active slot but `slot` once, and not to `slot`. -/
structure ReachesOthers (clients : Slot → ClientInfo) (slot : Slot) (calls : List (Slot × List UInt8)) : Prop where
  others : ∀ i, (clients i).active = true → i ≠ slot → (calls.map Prod.fst).count i = 1
  never_self : (calls.map Prod.fst).count slot = 0

/-- Of the active slots, `slot` and no other has the sender's name, and the text fits if there is
another one. -/
structure Distinguished (clients : Slot → ClientInfo) (slot : Slot) (message sender_name : List UInt8)
    (date : Slot → List UInt8) : Prop where
  names : ∀ i, (clients i).active = true → ∃ name, stringAt (clients i).name 0 = some name ∧
    (name = sender_name ↔ i = slot)
  fits : ∀ i, (clients i).active = true → i ≠ slot →
    (date i).length + sender_name.length + message.length + 3 < BUFFER_SIZE

lemma compose_isSome {date sender_name message : List UInt8} : (compose date sender_name message).isSome = true ↔
    date.length + sender_name.length + message.length + 3 < BUFFER_SIZE := by
  have hlength : (date ++ bytesOf " " ++ sender_name ++ bytesOf ": " ++ message).length =
      date.length + sender_name.length + message.length + 3 := by
    have hblank : (bytesOf " ").length = 1 := rfl
    have hcolon : (bytesOf ": ").length = 2 := rfl
    simp only [List.length_append, hblank, hcolon]
    omega
  unfold compose
  simp only [hlength]
  split <;> simp [*]

section
variable {clients : Slot → ClientInfo} {recipient_name : Option (List UInt8)} {sender_name message : List UInt8}
  {date : Slot → List UInt8}

/-- The slots that the test picks. -/
def Picked (clients : Slot → ClientInfo) (recipient_name : Option (List UInt8)) (sender_name : List UInt8) (i : Slot) :
    Bool :=
  (clients i).active && (stringAt (clients i).name 0).any (picks recipient_name sender_name)

lemma relayText_eq_some {text : Option (List UInt8)} {d : List UInt8} {i : Slot}
    (h : relayText recipient_name sender_name message d (clients i) = some text) :
    text.isSome = Picked clients recipient_name sender_name i := by
  unfold relayText at h
  split at h
  · next hactive =>
    split at h
    · cases h
    · next name hname =>
      split at h
      · next hpicks =>
        obtain ⟨text, -, rfl⟩ := Option.map_eq_some_iff.mp h
        simp [Picked, hactive, hname, hpicks]
      · next hpicks =>
        cases h
        simp [Picked, hactive, hname, hpicks]
  · next hactive =>
    cases h
    simp [Picked, hactive]

lemma slots_of_relayLoop {slots : List Slot} {calls : List (Slot × List UInt8)}
    (h : relayLoop clients none sender_name message date slots = some calls) :
    calls.map Prod.fst = slots.filter (Picked clients none sender_name) := by
  induction slots generalizing calls with
  | nil =>
    obtain rfl := Option.some.inj h
    rfl
  | cons i is ih =>
    simp only [relayLoop] at h
    split at h
    · cases h
    · next htext =>
      have hpicked := relayText_eq_some htext
      rw [List.filter_cons, ← hpicked, ih h]
      rfl
    · next text htext =>
      have hpicked := relayText_eq_some htext
      simp only [if_true, Option.map_eq_some_iff] at h
      obtain ⟨rest, hrest, rfl⟩ := h
      rw [List.filter_cons, ← hpicked, List.map_cons, ih hrest]
      rfl

lemma relayLoop_all_isSome {slots : List Slot} :
    (relayLoop clients none sender_name message date slots).isSome = true ↔
      ∀ i ∈ slots, (relayText none sender_name message (date i) (clients i)).isSome = true := by
  induction slots with
  | nil => simp [relayLoop]
  | cons i is ih =>
    simp only [relayLoop, List.forall_mem_cons]
    cases relayText none sender_name message (date i) (clients i) with
    | none => simp
    | some text => cases text <;> simp [ih]

lemma count_picked (slot : Slot) : ((List.finRange MAX_CLIENTS).filter (Picked clients none sender_name)).count slot =
    if Picked clients none sender_name slot then 1 else 0 := by
  rw [List.Nodup.count ((List.nodup_finRange _).filter _)]
  simp

lemma relayText_isSome_iff {i : Slot} : (relayText none sender_name message (date i) (clients i)).isSome = true ↔
    ((clients i).active = true → ∃ name, stringAt (clients i).name 0 = some name) ∧
      (Picked clients none sender_name i = true →
        (date i).length + sender_name.length + message.length + 3 < BUFFER_SIZE) := by
  cases hactive : (clients i).active with
  | false => simp [relayText, Picked, hactive]
  | true =>
    cases hname : stringAt (clients i).name 0 with
    | none => simp [relayText, hactive, hname]
    | some name =>
      cases hpicks : picks none sender_name name with
      | false => simp [relayText, Picked, hactive, hname, hpicks]
      | true => simp [relayText, Picked, hactive, hname, hpicks, compose_isSome]

lemma reachesOthers_iff {calls : List (Slot × List UInt8)}
    (hcalls : send_to_all clients message sender_name date = some calls) (slot : Slot) :
    ReachesOthers clients slot calls ↔
      ∀ i, (clients i).active = true → (Picked clients none sender_name i = true ↔ i ≠ slot) := by
  have hcount : ∀ i, (calls.map Prod.fst).count i = if Picked clients none sender_name i then 1 else 0 := by
    intro i
    rw [slots_of_relayLoop hcalls, count_picked]
  constructor
  · intro hreaches i hactive
    have hi := hcount i
    by_cases hslot : i = slot
    · subst hslot
      rw [hreaches.never_self] at hi
      simpa using hi
    · rw [hreaches.others i hactive hslot] at hi
      simpa [hslot] using hi
  · intro hpicked
    refine ⟨fun i hactive hne => ?_, ?_⟩
    · rw [hcount, if_pos ((hpicked i hactive).mpr hne)]
    · rw [hcount, if_neg]
      intro hself
      by_cases hactive : (clients slot).active = true
      · exact (hpicked slot hactive).mp hself rfl
      · simp [Picked, hactive] at hself

lemma picked_iff {i : Slot} {name : List UInt8} (hactive : (clients i).active = true)
    (hname : stringAt (clients i).name 0 = some name) :
    Picked clients none sender_name i = true ↔ name ≠ sender_name := by
  simp [Picked, hactive, hname, picks]

lemma distinguished_iff {slot : Slot} : Distinguished clients slot message sender_name date ↔
    (∀ i, (relayText none sender_name message (date i) (clients i)).isSome = true) ∧
      ∀ i, (clients i).active = true → (Picked clients none sender_name i = true ↔ i ≠ slot) := by
  constructor
  · intro h
    have hpicked : ∀ i, (clients i).active = true → (Picked clients none sender_name i = true ↔ i ≠ slot) := by
      intro i hactive
      obtain ⟨name, hname, hown⟩ := h.names i hactive
      rw [picked_iff hactive hname, ne_eq, hown]
    refine ⟨fun i => relayText_isSome_iff.mpr ⟨fun hactive => ?_, fun hi => ?_⟩, hpicked⟩
    · obtain ⟨name, hname, -⟩ := h.names i hactive
      exact ⟨name, hname⟩
    · have hactive : (clients i).active = true := by
        simp only [Picked, Bool.and_eq_true] at hi
        exact hi.1
      exact h.fits i hactive ((hpicked i hactive).mp hi)
  · rintro ⟨htexts, hpicked⟩
    refine ⟨fun i hactive => ?_, fun i hactive hne => ?_⟩
    · obtain ⟨name, hname⟩ := (relayText_isSome_iff.mp (htexts i)).1 hactive
      have hi := hpicked i hactive
      rw [picked_iff hactive hname] at hi
      exact ⟨name, hname, not_iff_not.mp hi⟩
    · exact (relayText_isSome_iff.mp (htexts i)).2 ((hpicked i hactive).mpr hne)

/-- A relay to all reaches each other client once, and not its sender, exactly if the sender's name
is that of its own slot alone. -/
theorem reaches_others_iff (clients : Slot → ClientInfo) (slot : Slot) (message sender_name : List UInt8)
    (date : Slot → List UInt8) :
    (∃ calls, send_to_all clients message sender_name date = some calls ∧ ReachesOthers clients slot calls) ↔
      Distinguished clients slot message sender_name date := by
  have hsome : (send_to_all clients message sender_name date).isSome = true ↔
      ∀ i, (relayText none sender_name message (date i) (clients i)).isSome = true := by
    simp only [send_to_all, relayLoop_all_isSome, List.mem_finRange, forall_const]
  rw [distinguished_iff, ← hsome]
  constructor
  · rintro ⟨calls, hcalls, hreaches⟩
    exact ⟨Option.isSome_iff_exists.mpr ⟨calls, hcalls⟩, (reachesOthers_iff hcalls slot).mp hreaches⟩
  · rintro ⟨hall, hpicked⟩
    obtain ⟨calls, hcalls⟩ := Option.isSome_iff_exists.mp hall
    exact ⟨calls, hcalls, (reachesOthers_iff hcalls slot).mpr hpicked⟩

end

/-- Two clients of one name. -/
def namesakes : List Action :=
  registration 0 "ala" ++ second 6 "ala"

/-- What the first of them sends to all reaches nobody. -/
theorem namesake_missed : ∃ s, (machine 1).Reachable s ∧ (s.clients 0).active = true ∧
    stringAt (s.clients 0).name 0 = some (bytesOf "ala") ∧
    ¬∃ calls, send_to_all s.clients (bytesOf "hi") (bytesOf "ala") (fun _ => bytesOf "Thu Jan  1 00:00:00 1970\n") =
      some calls ∧ ReachesOthers s.clients 0 calls := by
  have hrun : ((machine 1).exec start namesakes).map (fun s => ((s.clients 0).active, (s.clients 1).active,
      stringAt (s.clients 0).name 0, (send_to_all s.clients (bytesOf "hi") (bytesOf "ala")
        fun _ => bytesOf "Thu Jan  1 00:00:00 1970\n").map List.length)) =
      some (true, true, some (bytesOf "ala"), some 0) := by
    decide +kernel
  obtain ⟨s, hs, heq⟩ := Option.map_eq_some_iff.mp hrun
  simp only [Prod.mk.injEq] at heq
  obtain ⟨hfirst, hsecond, hname, hcalls⟩ := heq
  refine ⟨s, Machine.Reachable.exec (.start start_started) hs, hfirst, hname, ?_⟩
  rintro ⟨calls, hsome, hreaches⟩
  rw [hsome, Option.map_some, Option.some.injEq, List.length_eq_zero_iff] at hcalls
  subst hcalls
  exact absurd (hreaches.others 1 hsecond (by decide)) (by decide)

/-! ### The section of a relay -/

lemma relayStep_eq (goto : HandlerPc → State) (recipient_name : Option (List UInt8))
    (client_name message : List UInt8) (x : Input) (i : ℕ) :
    relayStep window s goto recipient_name client_name message x i =
      if hi : i < MAX_CLIENTS then
        match relayText recipient_name client_name message x.date (s.clients ⟨i, hi⟩) with
        | none => some (goto .fault)
        | some none => some (goto (.relay recipient_name message (i + 1)))
        | some (some text) =>
          (goto (if recipient_name = none then .relay recipient_name message (i + 1) else .relayUnlock)).send window
            x.sigpipe (s.clients ⟨i, hi⟩).socket_fd text
      else some (goto .relayUnlock) := by
  simp only [relayStep, relayText]
  split
  · next hi =>
    cases (s.clients ⟨i, hi⟩).active with
    | false => rfl
    | true =>
      simp only [if_true]
      cases stringAt (s.clients ⟨i, hi⟩).name 0 with
      | none => rfl
      | some name =>
        by_cases hpicks : picks recipient_name client_name name = true
        · simp only [hpicks, if_true]
          cases compose x.date client_name message <;> rfl
        · simp only [hpicks]
          rfl
  · rfl

/-- The `send` that the thread `k` calls in this step while it relays. -/
def relayCall (k : ℕ) (s : State) : Action → Option (Slot × List UInt8)
  | .worker j x =>
    if j = k then
      match s.threads[k]? with
      | some ⟨_, _, .handler h⟩ =>
        match h.pc with
        | .relay recipient_name message i =>
          if hi : i < MAX_CLIENTS then
            (relayText recipient_name h.client_name message x.date (s.clients ⟨i, hi⟩)).join.map fun text => (⟨i, hi⟩, text)
          else none
        | _ => none
      | _ => none
    else none
  | _ => none

/-- The thread `k` is between the lock and the unlock of `send_to_all` or `send_to_one`. -/
def Relaying (k : ℕ) (s : State) : Prop :=
  ∃ th h recipient_name message i, s.threads[k]? = some th ∧ th.code = .handler h ∧
    h.pc = .relay recipient_name message i

/-- The first slot that the loop has not looked at. -/
def HandlerPc.upcoming : HandlerPc → ℕ
  | .relay _ _ i => i
  | _ => MAX_CLIENTS

/-- What the loop is still going to send. -/
def remaining (clients : Slot → ClientInfo) (sender_name : List UInt8) (date : Slot → List UInt8) :
    HandlerPc → Option (List (Slot × List UInt8))
  | .relay recipient_name message i =>
    relayLoop clients recipient_name sender_name message date ((List.finRange MAX_CLIENTS).drop i)
  | .fault => none
  | _ => some []

section
variable {clients clients' : Slot → ClientInfo} {sender_name : List UInt8} {date date' : Slot → List UInt8}

lemma relayLoop_congr {recipient_name : Option (List UInt8)} {message : List UInt8} {slots : List Slot}
    (h : ∀ i ∈ slots, (clients i).active = (clients' i).active ∧ (clients i).name = (clients' i).name ∧ date i = date' i) :
    relayLoop clients recipient_name sender_name message date slots =
      relayLoop clients' recipient_name sender_name message date' slots := by
  induction slots with
  | nil => rfl
  | cons i is ih =>
    obtain ⟨hactive, hname, hdate⟩ := h i (by simp)
    have htext : relayText recipient_name sender_name message (date i) (clients i) =
        relayText recipient_name sender_name message (date' i) (clients' i) := by
      simp only [relayText, hactive, hname, hdate]
    simp only [relayLoop, htext, ih fun j hj => h j (by simp [hj])]

lemma drop_finRange {n : ℕ} {i : ℕ} (hi : i < n) :
    (List.finRange n).drop i = ⟨i, hi⟩ :: (List.finRange n).drop (i + 1) := by
  rw [List.drop_eq_getElem_cons (by simpa using hi), List.getElem_finRange]
  rfl

lemma mem_drop_finRange {n : ℕ} {i : ℕ} {j : Fin n} (h : j ∈ (List.finRange n).drop i) : i ≤ j.val := by
  obtain ⟨m, hm, rfl⟩ := List.getElem_of_mem h
  simp

lemma remaining_congr {pc : HandlerPc} (hclients : ∀ i, (clients i).active = (clients' i).active ∧
    (clients i).name = (clients' i).name) (hdate : ∀ i : Slot, pc.upcoming ≤ i → date i = date' i) :
    remaining clients sender_name date pc = remaining clients' sender_name date' pc := by
  cases pc with
  | relay recipient_name message i =>
    apply relayLoop_congr
    intro j hj
    exact ⟨(hclients j).1, (hclients j).2, hdate j (mem_drop_finRange hj)⟩
  | _ => rfl

end

/-- While a worker is inside, the other threads change no name and no flag. -/
lemma frozen_of_inside {k : ℕ} {a : Action} (hguards : Guards s.clients_mutex s.Inside) (hin : s.Inside (.worker k))
    (ha : ∀ x, a ≠ .worker k x) (hs : step window s a = some t) (i : Slot) :
    (t.clients i).active = (s.clients i).active ∧ (t.clients i).name = (s.clients i).name := by
  have hmain : ¬s.main.Inside := by
    have hout : ¬s.Inside .main := hguards.not_inside hin (by simp)
    exact hout
  constructor
  · obtain ⟨x, -, hm⟩ | ⟨-, hc⟩ | ⟨j, x, th, rfl, hth, hw⟩ | ⟨peers, rfl⟩ := step_cases hs
    · apply active_of_main hm
      intro hpc
      rw [hpc] at hmain
      exact hmain trivial
    · rw [(checker_keeps hc).1]
    · apply flags_of_worker hguards hin ?_ hth hw
      rintro ⟨⟩
      exact ha x rfl
    · rfl
  · have hnone : s.delivers a = none := by
      cases a with
      | main x =>
        unfold State.delivers
        cases hpc : s.main with
        | receivingName conn timeout slot =>
          rw [hpc] at hmain
          exact absurd trivial hmain
        | _ => rfl
      | _ => rfl
    have hname := names_of_step hs i
    simpa only [hnone] using hname

lemma relays_step {k : ℕ} {th : Thread} {h : Handler} {x : Input} {recipient_name : Option (List UInt8)}
    {message : List UInt8} {i : ℕ} (hth : s.threads[k]? = some th) (hcode : th.code = .handler h)
    (hpc : h.pc = .relay recipient_name message i) (hs : step window s (.worker k x) = some t) :
    ∃ pc, t.threads[k]? = some { th with code := .handler { h with pc := pc } } ∧ t.clients = s.clients ∧
      (∀ j : Slot, pc.upcoming ≤ j → i < j.val) ∧
      ∀ date : Slot → List UInt8, (∀ hi : i < MAX_CLIENTS, date ⟨i, hi⟩ = x.date) →
        remaining s.clients h.client_name date h.pc =
          (remaining s.clients h.client_name date pc).map ((relayCall k s (.worker k x)).toList ++ ·) := by
  have hat : ∀ pc, (s.handlerAt k th h pc).threads[k]? = some { th with code := .handler { h with pc := pc } } :=
    fun pc => List.getElem?_set_self (List.getElem?_eq_some_iff.mp hth).1
  obtain ⟨conn, slot, code⟩ := th
  obtain rfl : code = .handler h := hcode
  have hstep : relayStep window s (s.handlerAt k ⟨conn, slot, .handler h⟩ h) recipient_name h.client_name message x i =
      some t := by
    simp only [step, workerStep, hth, client_handler, hpc] at hs
    exact hs
  have hover : ∀ j : Slot, MAX_CLIENTS ≤ j.val → i < j.val := fun j hj => absurd j.isLt (not_lt.mpr hj)
  rw [relayStep_eq] at hstep
  split at hstep
  · next hi =>
    have hloop : ∀ date : Slot → List UInt8, date ⟨i, hi⟩ = x.date → remaining s.clients h.client_name date h.pc =
        match relayText recipient_name h.client_name message x.date (s.clients ⟨i, hi⟩) with
        | none => none
        | some none => remaining s.clients h.client_name date (.relay recipient_name message (i + 1))
        | some (some text) =>
          if recipient_name = none then (remaining s.clients h.client_name date
            (.relay recipient_name message (i + 1))).map fun calls => (⟨i, hi⟩, text) :: calls
          else some [(⟨i, hi⟩, text)] := by
      intro date hdate
      simp only [remaining, hpc, drop_finRange hi, relayLoop, hdate]
    have hcall : relayCall k s (.worker k x) =
        (relayText recipient_name h.client_name message x.date (s.clients ⟨i, hi⟩)).join.map fun text => (⟨i, hi⟩, text) := by
      simp only [relayCall, if_true, hth, hpc, dif_pos hi]
    rw [hcall]
    split at hstep
    · next htext =>
      cases hstep
      refine ⟨.fault, hat _, rfl, hover, fun date hdate => ?_⟩
      rw [hloop date (hdate hi), htext]
      rfl
    · next htext =>
      cases hstep
      refine ⟨.relay recipient_name message (i + 1), hat _, rfl, fun j hj => hj, fun date hdate => ?_⟩
      rw [hloop date (hdate hi), htext]
      simp
    · next text htext =>
      obtain ⟨peers, rfl, -⟩ := send_eq hstep
      refine ⟨_, hat _, rfl, ?_, fun date hdate => ?_⟩
      · split
        · exact fun j hj => hj
        · exact hover
      · rw [hloop date (hdate hi), htext]
        by_cases hall : recipient_name = none
        · simp [hall]
        · simp [hall, remaining]
  · next hi =>
    cases hstep
    have hend : i ≥ (List.finRange MAX_CLIENTS).length := by simpa using hi
    have hcall : relayCall k s (.worker k x) = none := by
      simp only [relayCall, if_true, hth, hpc, dif_neg hi]
    refine ⟨.relayUnlock, hat _, rfl, hover, fun date hdate => ?_⟩
    simp only [hcall, remaining, hpc, List.drop_eq_nil_of_le hend, relayLoop]
    rfl

lemma relayCall_of_other {k : ℕ} {a : Action} (ha : ∀ x, a ≠ .worker k x) : relayCall k s a = none := by
  cases a with
  | worker j x =>
    have hj : j ≠ k := by
      rintro rfl
      exact ha x rfl
    simp only [relayCall, if_neg hj]
  | _ => rfl

/-- What is left of the loop, after a part of the section in which the other threads go on too. -/
lemma section_runs {k : ℕ} {as : List Action} {th : Thread} {h : Handler}
    (hguards : Guards s.clients_mutex s.Inside) (hth : s.threads[k]? = some th) (hcode : th.code = .handler h)
    (hrun : (machine window).exec s as = some t) (hrelays : (machine window).Along (fun u _ => Relaying k u) s as) :
    ∃ (date : Slot → List UInt8) (pc : HandlerPc),
      t.threads[k]? = some { th with code := .handler { h with pc := pc } } ∧
      (∀ j : Slot, pc.upcoming ≤ j → h.pc.upcoming ≤ j) ∧
      remaining s.clients h.client_name date h.pc =
        (remaining s.clients h.client_name date pc).map ((machine window).visible (relayCall k) s as ++ ·) := by
  induction as generalizing s th h with
  | nil =>
    obtain rfl : s = t := by simpa using hrun
    obtain ⟨conn, slot, code⟩ := th
    obtain rfl : code = .handler h := hcode
    refine ⟨fun _ => [], h.pc, hth, fun _ hj => hj, ?_⟩
    cases remaining s.clients h.client_name (fun _ => []) h.pc <;> rfl
  | cons a as ih =>
    obtain ⟨u, hs, hu⟩ := Machine.exec_cons_eq_some.mp hrun
    obtain ⟨⟨th', h', recipient_name, message, i, hth', hcode', hpc⟩, hrest⟩ := hrelays
    obtain rfl := Option.some.inj (hth.symm.trans hth')
    obtain rfl := Code.handler.inj (hcode.symm.trans hcode')
    have hguards' := guards_step hguards hs
    have hvisible : (machine window).visible (relayCall k) s (a :: as) =
        (relayCall k s a).toList ++ (machine window).visible (relayCall k) u as := by
      simp only [Machine.visible, hs]
    by_cases ha : ∃ x, a = .worker k x
    · obtain ⟨x, rfl⟩ := ha
      obtain ⟨pc, hthu, hclients, hover, hloop⟩ := relays_step hth hcode hpc hs
      obtain ⟨date, pc', hpc', hbehind, hremaining⟩ := ih hguards' hthu rfl hu (hrest u hs)
      have hstart : h.pc.upcoming = i := by rw [hpc]; rfl
      let date' : Slot → List UInt8 := fun j => if j.val = i then x.date else date j
      have hdate : ∀ {pc}, (∀ j : Slot, HandlerPc.upcoming pc ≤ j → i < j.val) →
          remaining s.clients h.client_name date' pc = remaining s.clients h.client_name date pc := by
        intro pc hlt
        apply remaining_congr (fun _ => ⟨rfl, rfl⟩)
        intro j hj
        exact if_neg (hlt j hj).ne'
      refine ⟨date', pc', hpc', fun j hj => hstart ▸ (hover j (hbehind j hj)).le, ?_⟩
      rw [hloop date' (fun _ => if_pos rfl), hdate hover, hdate fun j hj => hover j (hbehind j hj), hvisible]
      rw [hclients] at hremaining
      rw [hremaining, Option.map_map]
      simp [Function.comp_def]
    · have ha' := not_exists.mp ha
      have hin : s.Inside (.worker k) := by
        refine ⟨th, hth, ?_⟩
        simp [hcode, hpc]
      have hfrozen := frozen_of_inside hguards hin ha' hs
      obtain ⟨date, pc, hthread, hbehind, hremaining⟩ := ih hguards' (thread_stays hth ha' hs) hcode hu (hrest u hs)
      refine ⟨date, pc, hthread, hbehind, ?_⟩
      rw [hvisible, relayCall_of_other ha']
      rw [remaining_congr hfrozen fun _ _ => rfl, remaining_congr hfrozen fun _ _ => rfl] at hremaining
      exact hremaining

/-- Whatever the other threads do while a handler relays, it has sent what `send_to_all` or
`send_to_one` says when it comes to the unlock. -/
theorem relay_runs (hreach : (machine window).Reachable s) {k : ℕ} {as : List Action} {th th' : Thread} {h h' : Handler}
    {recipient_name : Option (List UInt8)} {message : List UInt8} (hth : s.threads[k]? = some th)
    (hcode : th.code = .handler h) (hpc : h.pc = .relay recipient_name message 0)
    (hrun : (machine window).exec s as = some t) (hrelays : (machine window).Along (fun u _ => Relaying k u) s as)
    (hth' : t.threads[k]? = some th') (hcode' : th'.code = .handler h') (hpc' : h'.pc = .relayUnlock) :
    ∃ date, relayLoop s.clients recipient_name h.client_name message date (List.finRange MAX_CLIENTS) =
      some ((machine window).visible (relayCall k) s as) := by
  obtain ⟨date, pc, hthread, -, hremaining⟩ := section_runs (guards_of_reachable hreach) hth hcode hrun hrelays
  obtain rfl := Option.some.inj (hthread.symm.trans hth')
  obtain rfl := Code.handler.inj hcode'
  obtain rfl : pc = .relayUnlock := hpc'
  refine ⟨date, ?_⟩
  simpa [remaining, hpc] using hremaining

end SystemyOperacyjne.ChatServer
