import SystemyOperacyjne.ChatServerRegistration

/-!
# The names in the slots

`main` receives each name into the field of its slot, over what the field held, and adds no
terminator. What the field holds is a function of all the names that were ever received into it.
-/

namespace SystemyOperacyjne.ChatServer
open Concurrency CString

variable {window : ℕ} {s t : State}

/-- What `main` receives into the field `name` of a slot. -/
def State.delivers (s : State) : Action → Option (Slot × List UInt8)
  | .main x =>
    match s.main with
    | .receivingName conn timeout slot => (s.recv conn timeout NAME_SIZE x.count).map fun r => (slot, r.2.1)
    | _ => none
  | _ => none

/-- The server with a record of what was received into each field. -/
structure Names where
  state : State
  delivered : Slot → List (List UInt8)

def namesStep (window : ℕ) (u : Names) (a : Action) : Option Names :=
  (step window u.state a).map fun t =>
    match u.state.delivers a with
    | some (i, bytes) => ⟨t, Function.update u.delivered i (u.delivered i ++ [bytes])⟩
    | none => ⟨t, u.delivered⟩

def names (window : ℕ) : Machine Names Action where
  init u := Started u.state ∧ ∀ i, u.delivered i = []
  next := namesStep window

/-- The name has no zero byte, and of the earlier names the last one that is longer has a zero right
behind this one. -/
def StandsAlone (history : List (List UInt8)) (bytes : List UInt8) : Prop :=
  0 ∉ bytes ∧ ∀ longer, history.reverse.find? (fun name => bytes.length < name.length) = some longer →
    longer[bytes.length]? = some 0

/-! ### Who writes the names -/

lemma name_update {clients : Slot → ClientInfo} {i : Slot} {c : ClientInfo} (h : c.name = (clients i).name) (j : Slot) :
    (Function.update clients i c j).name = (clients j).name := by
  by_cases hj : j = i
  · rw [hj, Function.update_self, h]
  · rw [Function.update_of_ne hj]

lemma names_of_worker {k : ℕ} {x : Input} (hs : workerStep window s k x = some t) (i : Slot) :
    (t.clients i).name = (s.clients i).name := by
  cases hth : s.threads[k]? with
  | none => simp [workerStep, hth] at hs
  | some th =>
    simp only [workerStep, hth] at hs
    cases hcode : th.code with
    | handler h =>
      simp only [hcode] at hs
      cases handler_cases hs with
      | receives hpc hr =>
        obtain ⟨peers, hpeers⟩ := recv_eq hr
        rw [hpeers]
        rfl
      | locksRecv | unlocksRecv | deactivates => exact name_update (by rfl) i
      | starts | copiesName | goes | callsRecv | staysActive | leaves | retries | terminates | overruns | dispatches
      | locks | unlocks | closes | decrements => rfl
    | check c =>
      simp only [hcode] at hs
      cases check_cases hs with
      | reads hpc hr =>
        obtain ⟨peers, hpeers⟩ := recv_eq hr
        rw [hpeers]
        rfl
      | locksRecv | unlocksRecv | deactivates => exact name_update (by rfl) i
      | setsTimeout | asks | callsRead | findsDead | findsAlive | closes | locks | decrements | unlocks => rfl

/-- Only what `main` receives changes a name. -/
theorem names_of_step {a : Action} (hs : step window s a = some t) : ∀ i, (t.clients i).name =
    match s.delivers a with
    | some (j, bytes) => if i = j then overwrite (s.clients i).name bytes else (s.clients i).name
    | none => (s.clients i).name := by
  intro i
  cases a with
  | main x =>
    cases main_cases hs with
    | @receives conn timeout slot hpc name peers =>
      simp only [step, mainStep, hpc, Option.map_eq_some_iff] at hs
      obtain ⟨r, hr, ht⟩ := hs
      have hname : overwrite (s.clients slot).name r.2.1 = name := by
        have hclients := congrFun (congrArg State.clients ht) slot
        simpa [State.setClient] using congrArg ClientInfo.name hclients
      simp only [State.delivers, hpc, hr, Option.map_some]
      by_cases hi : i = slot
      · rw [if_pos hi, hi, Function.update_self, hname]
      · rw [if_neg hi, Function.update_of_ne hi]
    | setsFd hpc | activates hpc | initsMutex hpc =>
      simp only [State.delivers, hpc]
      exact name_update (by rfl) i
    | accepts hpc | locks hpc | full hpc | hasRoom hpc | refuses hpc | closes hpc | skips hpc | finds hpc | findsNone hpc
    | callsRecv hpc | increments hpc | creates hpc | unlocks hpc => simp only [State.delivers, hpc]
  | checker =>
    rw [(checker_keeps (checker_cases hs)).1]
    rfl
  | worker k x => exact names_of_worker hs i
  | peerSend c bytes =>
    simp only [step] at hs
    split at hs
    · cases hs
    · cases hs
      rfl
  | peerRead c | peerClose c =>
    simp only [step, Option.some.injEq] at hs
    subst hs
    rfl

/-- A field holds what was received into it, one name over the other. -/
lemma name_of_reachable {u : Names} (h : (names window).Reachable u) :
    ∀ i, (u.state.clients i).name = (u.delivered i).foldl overwrite fun _ => 0 := by
  apply h.invariant (I := fun u => ∀ i, (u.state.clients i).name = (u.delivered i).foldl overwrite fun _ => 0)
  · rintro v ⟨hv, hnone⟩ i
    rw [hv.clients i, hnone i]
    rfl
  · intro v a w hv hs i
    obtain ⟨t, ht, hw⟩ := Option.map_eq_some_iff.mp hs
    have hname := names_of_step ht i
    split at hw
    · next j bytes hdelivers =>
      subst hw
      simp only [hdelivers] at hname
      by_cases hi : i = j
      · subst hi
        rw [hname, if_pos rfl, hv i]
        simp
      · rw [hname, if_neg hi, hv i]
        simp [Function.update_of_ne hi]
    · next hdelivers =>
      subst hw
      simp only [hdelivers] at hname
      rw [hname, hv i]

/-- After every history of names in its slot, a name of 1 to 49 bytes is the string in the field
exactly if it stands alone there. -/
theorem name_kept_iff {u : Names} (h : (names window).Reachable u) {i : Slot} {history : List (List UInt8)}
    {bytes : List UInt8} (hdelivered : u.delivered i = history ++ [bytes])
    (hsize : 1 ≤ bytes.length ∧ bytes.length < NAME_SIZE) :
    stringAt (u.state.clients i).name 0 = some bytes ↔ StandsAlone history bytes := by
  rw [name_of_reachable h i, hdelivered, List.foldl_append, List.foldl_cons, List.foldl_nil,
    stringAt_overwrite_eq_self hsize.2, StandsAlone, foldl_overwrite_apply]
  apply and_congr_right
  intro _
  cases hfind : history.reverse.find? fun name => bytes.length < name.length with
  | none => simp
  | some longer =>
    have hlt : bytes.length < longer.length := by simpa using List.find?_some hfind
    simp [List.getD, hlt]

/-- A client registers with the name `abcd` and stops. -/
def departure : List Action :=
  registration 0 "abcd" ++ command 0 0 "STOP" ++ goOn 0 9

/-- What a name is after a run, and what was delivered into its field. -/
def nameAfter (as : List Action) (i : Slot) : Option (List (List UInt8) × Option (List UInt8)) :=
  ((names 1).exec ⟨start, fun _ => []⟩ as).map fun u => (u.delivered i, stringAt (u.state.clients i).name 0)

lemma reached_of_nameAfter {as : List Action} {i : Slot} {delivered : List (List UInt8)} {name : Option (List UInt8)}
    (h : nameAfter as i = some (delivered, name)) :
    ∃ u, (names 1).Reachable u ∧ u.delivered i = delivered ∧ stringAt (u.state.clients i).name 0 = name := by
  obtain ⟨u, hu, heq⟩ := Option.map_eq_some_iff.mp h
  obtain ⟨hdelivered, hname⟩ := Prod.mk.inj heq
  exact ⟨u, Machine.Reachable.exec (.start ⟨start_started, fun _ => rfl⟩) hu, hdelivered, hname⟩

/-- A client that registers as `kasia` in the slot that `abcd` left keeps its name. -/
theorem name_kept_longer : ∃ u, (names 1).Reachable u ∧ u.delivered 0 = [bytesOf "abcd", bytesOf "kasia"] ∧
    stringAt (u.state.clients 0).name 0 = some (bytesOf "kasia") := by
  have hrun : (nameAfter (departure ++ registration 1 "kasia") 0).map Prod.fst =
      some [bytesOf "abcd", bytesOf "kasia"] := by
    decide +kernel
  obtain ⟨⟨delivered, name⟩, hafter, rfl⟩ := Option.map_eq_some_iff.mp hrun
  obtain ⟨u, hreach, hdelivered, -⟩ := reached_of_nameAfter hafter
  have halone : StandsAlone [bytesOf "abcd"] (bytesOf "kasia") := by
    refine ⟨by decide, fun longer hlonger => ?_⟩
    cases hlonger
  have hkept : stringAt (u.state.clients 0).name 0 = some (bytesOf "kasia") ↔ StandsAlone [bytesOf "abcd"] (bytesOf "kasia") :=
    name_kept_iff hreach hdelivered (by decide)
  exact ⟨u, hreach, hdelivered, hkept.mpr halone⟩

/-- A client that registers as `xy` in the slot that `abcd` left is called `xycd`. -/
theorem name_not_kept : ¬∀ (u : Names) (i : Slot) (history : List (List UInt8)) (bytes : List UInt8),
    (names 1).Reachable u → u.delivered i = history ++ [bytes] → 1 ≤ bytes.length ∧ bytes.length < NAME_SIZE →
    stringAt (u.state.clients i).name 0 = some bytes := by
  intro hall
  have hrun : nameAfter (departure ++ registration 1 "xy") 0 =
      some ([bytesOf "abcd", bytesOf "xy"], some (bytesOf "xycd")) := by
    decide +kernel
  obtain ⟨u, hreach, hdelivered, hname⟩ := reached_of_nameAfter hrun
  have hkept := hall u 0 [bytesOf "abcd"] (bytesOf "xy") hreach hdelivered (by decide)
  rw [hname] at hkept
  exact absurd hkept (by decide)

end SystemyOperacyjne.ChatServer
