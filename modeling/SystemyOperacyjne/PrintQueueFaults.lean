import SystemyOperacyjne.PrintQueueFifo

/-!
# The print queue with failing semaphore calls

No program looks at what a semaphore call returns. A call that returns -1 leaves the semaphore as it
is, and the process goes on as if it had succeeded.
-/

namespace SystemyOperacyjne.PrintQueue
open Concurrency

/-- Where a producer goes on after a failed call, if it is before one that can fail: a wait, or any
`semop` of the System V programs. -/
def ProducerPc.afterFailure (v : Variant) : ProducerPc → Option ProducerPc
  | .waitEmpty => some .waitUsed
  | .waitUsed => some .compose
  | .postUsed => if v = .systemV then some .postFull else none
  | .postFull => if v = .systemV then some .waitEmpty else none
  | _ => none

def PrinterPc.afterFailure (v : Variant) : PrinterPc → Option PrinterPc
  | .waitFull => some .waitUsed
  | .waitUsed => some .strcpy
  | .postUsed => if v = .systemV then some .postEmpty else none
  | .postEmpty => if v = .systemV then some .waitFull else none
  | _ => none

variable {N M : ℕ}

def failStep (v : Variant) (s : State N M) : Action N M → Option (State N M)
  | .producer i _ => ((s.producers i).pc.afterFailure v).map fun pc =>
      { s with producers := Function.update s.producers i { s.producers i with pc := pc } }
  | .printer j => ((s.printers j).pc.afterFailure v).map fun pc =>
      { s with printers := Function.update s.printers j { s.printers j with pc := pc } }

/-- Whether a process got its counting semaphore and the mutex in this pass through its loop. -/
structure Obtained where
  counting : Bool
  mutex : Bool

/-- The system with a record of what the processes really obtained, and of the tasks written less
those taken. -/
structure Faulty (N M : ℕ) where
  state : State N M
  producers : Fin N → Obtained
  printers : Fin M → Obtained
  tasks : ℤ

def ProducerPc.obtains (o : Obtained) (succeeds : Bool) : ProducerPc → Obtained
  | .waitEmpty => ⟨succeeds, false⟩
  | .waitUsed => { o with mutex := succeeds }
  | _ => o

def PrinterPc.obtains (o : Obtained) (succeeds : Bool) : PrinterPc → Obtained
  | .waitFull => ⟨succeeds, false⟩
  | .waitUsed => { o with mutex := succeeds }
  | _ => o

def Faulty.after (u : Faulty N M) (succeeds : Bool) (t : State N M) : Action N M → Faulty N M
  | .producer i _ =>
    let pc := (u.state.producers i).pc
    { u with
      state := t
      producers := Function.update u.producers i (pc.obtains (u.producers i) succeeds)
      tasks := u.tasks + pc.inserts }
  | .printer j =>
    let pc := (u.state.printers j).pc
    { u with
      state := t
      printers := Function.update u.printers j (pc.obtains (u.printers j) succeeds)
      tasks := u.tasks - pc.removes }

/-- A process moves; its semaphore call succeeds, or it fails. -/
structure FaultyAction (N M : ℕ) where
  action : Action N M
  succeeds : Bool

def faultyStep (v : Variant) (u : Faulty N M) (a : FaultyAction N M) : Option (Faulty N M) :=
  (if a.succeeds then step v u.state a.action else failStep v u.state a.action).map fun t =>
    u.after a.succeeds t a.action

def faulty (v : Variant) (N M : ℕ) : Machine (Faulty N M) (FaultyAction N M) where
  init u := Initialised u.state ∧ u.tasks = 0
  next := faultyStep v

/-- A wait returns -1. -/
def Faulty.FailsWait (u : Faulty N M) (a : FaultyAction N M) : Prop :=
  a.succeeds = false ∧
    match a.action with
    | .producer i _ => (u.state.producers i).pc = .waitEmpty ∨ (u.state.producers i).pc = .waitUsed
    | .printer j => (u.state.printers j).pc = .waitFull ∨ (u.state.printers j).pc = .waitUsed

/-- Before a statement that touches the buffer, advances `in` or posts a semaphore. -/
def ProducerPc.Touches : ProducerPc → Prop
  | .strcpy | .copy _ _ | .advance | .postUsed | .postFull | .overrun => True
  | .waitEmpty | .waitUsed | .compose => False

def PrinterPc.Touches : PrinterPc → Prop
  | .strcpy | .copy _ _ | .advance | .postUsed | .postEmpty | .overrun => True
  | .waitFull | .waitUsed => False

/-- Who touches the buffer or posts has obtained both semaphores, one process at a time is in the
critical section, and the buffer holds between none and ten tasks. -/
structure Orderly (u : Faulty N M) : Prop where
  producers : ∀ i, (u.state.producers i).pc.Touches → (u.producers i).counting = true ∧ (u.producers i).mutex = true
  printers : ∀ j, (u.state.printers j).pc.Touches → (u.printers j).counting = true ∧ (u.printers j).mutex = true
  exclusion : ∀ x y, Inside u.state x → Inside u.state y → x = y
  tasks : 0 ≤ u.tasks ∧ u.tasks ≤ BUFFER_SIZE

/-! ### Accounts -/

/-- Past a wait the process has what it waited for. -/
def ProducerPc.Obtains (o : Obtained) : ProducerPc → Prop
  | .waitEmpty => True
  | .waitUsed => o.counting = true
  | _ => o.counting = true ∧ o.mutex = true

def PrinterPc.Obtains (o : Obtained) : PrinterPc → Prop
  | .waitFull => True
  | .waitUsed => o.counting = true
  | _ => o.counting = true ∧ o.mutex = true

/-- No step makes units of a semaphore, and none is lost but in a failed post. -/
structure Safe (u : Faulty N M) : Prop where
  mutex : u.state.buffer.sem .used + tokens (fun p => p.pc.inside) u.state.producers +
    tokens (fun p => p.pc.inside) u.state.printers ≤ 1
  fulls : ((u.state.buffer.sem .full + tokens (fun p => p.pc.owesRemoval) u.state.printers +
    tokens (fun p => p.pc.owesFull) u.state.producers : ℕ) : ℤ) ≤ u.tasks
  empties : ((u.state.buffer.sem .empty + tokens (fun p => p.pc.owesTask) u.state.producers +
    tokens (fun p => p.pc.owesEmpty) u.state.printers : ℕ) : ℤ) + u.tasks ≤ BUFFER_SIZE
  producers : ∀ i, (u.state.producers i).pc.Obtains (u.producers i)
  printers : ∀ j, (u.state.printers j).pc.Obtains (u.printers j)

/-- What a step of a producer does to the semaphores and to its own tokens. -/
structure ProducerAccount (sem sem' : Sem → ℕ) (pc pc' : ProducerPc) : Prop where
  full : sem' .full + pc'.owesFull ≤ sem .full + pc.owesFull + pc.inserts
  empty : sem' .empty + pc'.owesTask + pc.inserts ≤ sem .empty + pc.owesTask
  used : sem' .used + pc'.inside ≤ sem .used + pc.inside

structure PrinterAccount (sem sem' : Sem → ℕ) (pc pc' : PrinterPc) : Prop where
  full : sem' .full + pc'.owesRemoval + pc.removes ≤ sem .full + pc.owesRemoval
  empty : sem' .empty + pc'.owesEmpty ≤ sem .empty + pc.owesEmpty + pc.removes
  used : sem' .used + pc'.inside ≤ sem .used + pc.inside

lemma producer_account {letters : Fin 10 → Fin 26} {b b' : Buffer} {p p' : Producer}
    (hm : ProducerMove letters b p b' p') : ProducerAccount b.sem b'.sem p.pc p'.pc ∧
      ∀ o, p.pc.Obtains o → p'.pc.Obtains (p.pc.obtains o true) := by
  obtain ⟨hfull, hempty, hused⟩ := producer_exact hm
  refine ⟨⟨hfull.le, hempty.le, hused.le⟩, ?_⟩
  cases hm with
  | takesEmpty hpc | takesUsed hpc =>
    rw [hpc]
    simp [ProducerPc.Obtains, ProducerPc.obtains]
  | composes hpc | finds hpc | copies hpc | copiesLast hpc | overruns hpc | advances hpc | postsUsed hpc =>
    rw [hpc]
    exact fun _ ho => ho
  | postsFull => exact fun _ _ => trivial

lemma printer_account {b b' : Buffer} {p p' : Printer} (hm : PrinterMove b p b' p') :
    PrinterAccount b.sem b'.sem p.pc p'.pc ∧ ∀ o, p.pc.Obtains o → p'.pc.Obtains (p.pc.obtains o true) := by
  obtain ⟨hfull, hempty, hused⟩ := printer_exact hm
  refine ⟨⟨hfull.le, hempty.le, hused.le⟩, ?_⟩
  cases hm with
  | takesFull hpc | takesUsed hpc =>
    rw [hpc]
    simp [PrinterPc.Obtains, PrinterPc.obtains]
  | finds hpc | copies hpc | copiesLast hpc | overruns hpc | advances hpc | postsUsed hpc =>
    rw [hpc]
    exact fun _ ho => ho
  | postsEmpty => exact fun _ _ => trivial

lemma producer_failed {v : Variant} {pc pc' : ProducerPc} (hf : pc.afterFailure v = some pc') (hempty : pc ≠ .waitEmpty)
    (hused : pc ≠ .waitUsed) (sem : Sem → ℕ) :
    ProducerAccount sem sem pc pc' ∧ ∀ o, pc.Obtains o → pc'.Obtains (pc.obtains o false) := by
  cases pc with
  | waitEmpty => exact absurd rfl hempty
  | waitUsed => exact absurd rfl hused
  | postUsed =>
    simp only [ProducerPc.afterFailure] at hf
    split at hf
    · cases hf
      exact ⟨⟨by simp [ProducerPc.owesFull], by simp [ProducerPc.owesTask, ProducerPc.inserts],
        by simp [ProducerPc.inside]⟩, fun _ ho => ho⟩
    · cases hf
  | postFull =>
    simp only [ProducerPc.afterFailure] at hf
    split at hf
    · cases hf
      exact ⟨⟨by simp [ProducerPc.owesFull, ProducerPc.inserts], by simp [ProducerPc.owesTask, ProducerPc.inserts],
        by simp [ProducerPc.inside]⟩, fun _ _ => trivial⟩
    · cases hf
  | compose | strcpy | copy slot k | advance | overrun => cases hf

lemma printer_failed {v : Variant} {pc pc' : PrinterPc} (hf : pc.afterFailure v = some pc') (hfull : pc ≠ .waitFull)
    (hused : pc ≠ .waitUsed) (sem : Sem → ℕ) :
    PrinterAccount sem sem pc pc' ∧ ∀ o, pc.Obtains o → pc'.Obtains (pc.obtains o false) := by
  cases pc with
  | waitFull => exact absurd rfl hfull
  | waitUsed => exact absurd rfl hused
  | postUsed =>
    simp only [PrinterPc.afterFailure] at hf
    split at hf
    · cases hf
      exact ⟨⟨by simp [PrinterPc.owesRemoval, PrinterPc.removes], by simp [PrinterPc.owesEmpty],
        by simp [PrinterPc.inside]⟩, fun _ ho => ho⟩
    · cases hf
  | postEmpty =>
    simp only [PrinterPc.afterFailure] at hf
    split at hf
    · cases hf
      exact ⟨⟨by simp [PrinterPc.owesRemoval, PrinterPc.removes], by simp [PrinterPc.owesEmpty, PrinterPc.removes],
        by simp [PrinterPc.inside]⟩, fun _ _ => trivial⟩
    · cases hf
  | strcpy | copy slot k | advance | overrun => cases hf

/-! ### Runs -/

section
variable {u : Faulty N M}

lemma Safe.producer (h : Safe u) {i : Fin N} {letters : Fin 10 → Fin 26} {b : Buffer} {p : Producer} {succeeds : Bool}
    (ha : ProducerAccount u.state.buffer.sem b.sem (u.state.producers i).pc p.pc)
    (ho : ∀ o, (u.state.producers i).pc.Obtains o → p.pc.Obtains ((u.state.producers i).pc.obtains o succeeds)) :
    Safe (u.after succeeds { u.state with buffer := b, producers := Function.update u.state.producers i p }
      (.producer i letters)) := by
  have h₁ := tokens_update (fun p : Producer => p.pc.owesFull) u.state.producers i p
  have h₂ := tokens_update (fun p : Producer => p.pc.owesTask) u.state.producers i p
  have h₃ := tokens_update (fun p : Producer => p.pc.inside) u.state.producers i p
  have hm := h.mutex
  have hf := h.fulls
  have he := h.empties
  obtain ⟨hfull, hempty, hused⟩ := ha
  refine ⟨?_, ?_, ?_, ?_, h.printers⟩
  · simp only [Faulty.after] at h₃ ⊢
    omega
  · simp only [Faulty.after] at h₁ ⊢
    omega
  · simp only [Faulty.after] at h₂ ⊢
    omega
  · intro i'
    by_cases hi : i' = i
    · subst hi
      simpa [Faulty.after] using ho _ (h.producers i')
    · simpa [Faulty.after, Function.update_of_ne hi] using h.producers i'

lemma Safe.printer (h : Safe u) {j : Fin M} {b : Buffer} {p : Printer} {succeeds : Bool}
    (ha : PrinterAccount u.state.buffer.sem b.sem (u.state.printers j).pc p.pc)
    (ho : ∀ o, (u.state.printers j).pc.Obtains o → p.pc.Obtains ((u.state.printers j).pc.obtains o succeeds)) :
    Safe (u.after succeeds { u.state with buffer := b, printers := Function.update u.state.printers j p }
      (.printer j)) := by
  have h₁ := tokens_update (fun p : Printer => p.pc.owesRemoval) u.state.printers j p
  have h₂ := tokens_update (fun p : Printer => p.pc.owesEmpty) u.state.printers j p
  have h₃ := tokens_update (fun p : Printer => p.pc.inside) u.state.printers j p
  have hm := h.mutex
  have hf := h.fulls
  have he := h.empties
  obtain ⟨hfull, hempty, hused⟩ := ha
  refine ⟨?_, ?_, ?_, h.producers, ?_⟩
  · simp only [Faulty.after] at h₃ ⊢
    omega
  · simp only [Faulty.after] at h₁ ⊢
    omega
  · simp only [Faulty.after] at h₂ ⊢
    omega
  · intro j'
    by_cases hj : j' = j
    · subst hj
      simpa [Faulty.after] using ho _ (h.printers j')
    · simpa [Faulty.after, Function.update_of_ne hj] using h.printers j'

lemma Safe.step {v : Variant} {w : Faulty N M} {a : FaultyAction N M} (h : Safe u) (hwait : ¬u.FailsWait a)
    (hs : faultyStep v u a = some w) : Safe w := by
  obtain ⟨action, succeeds⟩ := a
  obtain ⟨t, ht, rfl⟩ := Option.map_eq_some_iff.mp hs
  cases succeeds with
  | true =>
    cases action with
    | producer i letters =>
      obtain ⟨⟨b, p⟩, hp, rfl⟩ := Option.map_eq_some_iff.mp ht
      obtain ⟨haccount, hobtains⟩ := producer_account (producer_cases hp)
      exact h.producer haccount hobtains
    | printer j =>
      obtain ⟨⟨b, p⟩, hp, rfl⟩ := Option.map_eq_some_iff.mp ht
      obtain ⟨haccount, hobtains⟩ := printer_account (printer_cases hp)
      exact h.printer haccount hobtains
  | false =>
    cases action with
    | producer i letters =>
      obtain ⟨pc, hpc, rfl⟩ := Option.map_eq_some_iff.mp ht
      obtain ⟨haccount, hobtains⟩ := producer_failed hpc (fun he => hwait ⟨rfl, .inl he⟩)
        (fun he => hwait ⟨rfl, .inr he⟩) u.state.buffer.sem
      exact h.producer haccount hobtains
    | printer j =>
      obtain ⟨pc, hpc, rfl⟩ := Option.map_eq_some_iff.mp ht
      obtain ⟨haccount, hobtains⟩ := printer_failed hpc (fun he => hwait ⟨rfl, .inl he⟩)
        (fun he => hwait ⟨rfl, .inr he⟩) u.state.buffer.sem
      exact h.printer haccount hobtains

lemma safe_of_initialised (h : Initialised u.state) (htasks : u.tasks = 0) : Safe u := by
  have hp0 : ∀ w : ProducerPc → ℕ, w .waitEmpty = 0 → tokens (fun p => w p.pc) u.state.producers = 0 :=
    fun w hw => tokens_eq_zero fun i => by rw [h.producers i, hw]
  have hq0 : ∀ w : PrinterPc → ℕ, w .waitFull = 0 → tokens (fun p => w p.pc) u.state.printers = 0 :=
    fun w hw => tokens_eq_zero fun j => by rw [h.printers j, hw]
  refine ⟨?_, ?_, ?_, fun i => ?_, fun j => ?_⟩
  · rw [hp0 _ rfl, hq0 _ rfl, h.used]
  · rw [hp0 _ rfl, hq0 _ rfl, h.full, htasks]
    rfl
  · rw [hp0 _ rfl, hq0 _ rfl, h.empty, htasks]
    rfl
  · rw [h.producers i]
    trivial
  · rw [h.printers j]
    trivial

lemma Safe.exclusion (h : Safe u) {x y : Fin N ⊕ Fin M} (hx : Inside u.state x) (hy : Inside u.state y) : x = y := by
  have hm := h.mutex
  by_contra hne
  cases x with
  | inl i =>
    have hxi : (u.state.producers i).pc.inside = 1 := hx
    cases y with
    | inl i' =>
      have hyi : (u.state.producers i').pc.inside = 1 := hy
      have := add_le_tokens (fun p : Producer => p.pc.inside) u.state.producers fun he : i = i' => hne (by rw [he])
      omega
    | inr j =>
      have hyj : (u.state.printers j).pc.inside = 1 := hy
      have := le_tokens (fun p : Producer => p.pc.inside) u.state.producers i
      have := le_tokens (fun p : Printer => p.pc.inside) u.state.printers j
      omega
  | inr j =>
    have hxj : (u.state.printers j).pc.inside = 1 := hx
    cases y with
    | inl i =>
      have hyi : (u.state.producers i).pc.inside = 1 := hy
      have := le_tokens (fun p : Producer => p.pc.inside) u.state.producers i
      have := le_tokens (fun p : Printer => p.pc.inside) u.state.printers j
      omega
    | inr j' =>
      have hyj : (u.state.printers j').pc.inside = 1 := hy
      have := add_le_tokens (fun p : Printer => p.pc.inside) u.state.printers fun he : j = j' => hne (by rw [he])
      omega

lemma Safe.orderly (h : Safe u) : Orderly u where
  producers i hi := by
    have hobtains := h.producers i
    cases hpc : (u.state.producers i).pc with
    | waitEmpty | waitUsed | compose =>
      rw [hpc] at hi
      exact hi.elim
    | strcpy | copy slot k | advance | postUsed | postFull | overrun =>
      rw [hpc] at hobtains
      exact hobtains
  printers j hj := by
    have hobtains := h.printers j
    cases hpc : (u.state.printers j).pc with
    | waitFull | waitUsed =>
      rw [hpc] at hj
      exact hj.elim
    | strcpy | copy slot k | advance | postUsed | postEmpty | overrun =>
      rw [hpc] at hobtains
      exact hobtains
  exclusion _ _ := h.exclusion
  tasks := by
    have hf := h.fulls
    have he := h.empties
    omega

/-- In every run in which no wait fails, whatever posts do, nobody enters without the semaphores. -/
theorem faults_orderly {v : Variant} (h : (faulty v N M).ReachableBy (fun u a => ¬u.FailsWait a) u) : Orderly u := by
  have hsafe : Safe u := by
    apply h.invariant (I := Safe)
    · exact fun w hw => safe_of_initialised hw.1 hw.2
    · exact fun w a w' hw hwait hs => hw.step hwait hs
  exact hsafe.orderly

lemma compose_harms {v : Variant} {i : Fin N} (letters : Fin 10 → Fin 26) (hpc : (u.state.producers i).pc = .compose)
    (hnot : (u.producers i).mutex = false) :
    ∃ t, (faulty v N M).Leads (fun b => b.action = .producer i letters) u t ∧ ¬Orderly t := by
  let p : Producer := ⟨.strcpy, composeTask letters⟩
  have hs : faultyStep v u ⟨.producer i letters, true⟩ =
      some (u.after true { u.state with producers := Function.update u.state.producers i p } (.producer i letters)) := by
    simp [faultyStep, step, producerStep, hpc, p]
  refine ⟨_, .step rfl hs (.refl _), fun h => ?_⟩
  have hmutex := (h.producers i (by simp [Faulty.after, p, ProducerPc.Touches])).2
  simp [Faulty.after, hpc, ProducerPc.obtains, hnot] at hmutex

lemma waitUsed_harms {v : Variant} {i : Fin N} (letters : Fin 10 → Fin 26)
    (hpc : (u.state.producers i).pc = .waitUsed) : ∃ w t, faultyStep v u ⟨.producer i letters, false⟩ = some w ∧
      (faulty v N M).Leads (fun b => b.action = .producer i letters) w t ∧ ¬Orderly t := by
  let p : Producer := ⟨.compose, (u.state.producers i).task⟩
  let w := u.after false { u.state with producers := Function.update u.state.producers i p } (.producer i letters)
  have hs : faultyStep v u ⟨.producer i letters, false⟩ = some w := by
    simp [faultyStep, failStep, hpc, ProducerPc.afterFailure, w, p]
  obtain ⟨t, ht, hbad⟩ := compose_harms (u := w) (v := v) (i := i) letters (by simp [w, Faulty.after, p])
    (by simp [w, Faulty.after, hpc, ProducerPc.obtains])
  exact ⟨w, t, hs, ht, hbad⟩

lemma waitUsed_harms_printer {v : Variant} {j : Fin M} (hpc : (u.state.printers j).pc = .waitUsed) :
    ∃ w, faultyStep v u ⟨.printer j, false⟩ = some w ∧ ¬Orderly w := by
  let p : Printer := ⟨.strcpy, (u.state.printers j).task⟩
  let w := u.after false { u.state with printers := Function.update u.state.printers j p } (.printer j)
  have hs : faultyStep v u ⟨.printer j, false⟩ = some w := by
    simp [faultyStep, failStep, hpc, PrinterPc.afterFailure, w, p]
  refine ⟨w, hs, fun h => ?_⟩
  have hmutex := (h.printers j (by simp [w, Faulty.after, p, PrinterPc.Touches])).2
  simp [w, Faulty.after, hpc, PrinterPc.obtains] at hmutex

/-- After a failed wait the process comes to the buffer without the semaphore, by its own steps. -/
theorem failed_wait_harms {v : Variant} {w : Faulty N M} {a : FaultyAction N M} (hwait : u.FailsWait a)
    (hs : faultyStep v u a = some w) :
    ∃ t, (faulty v N M).Leads (fun b => b.action = a.action) w t ∧ ¬Orderly t := by
  obtain ⟨action, succeeds⟩ := a
  obtain ⟨rfl, hat⟩ := hwait
  cases action with
  | producer i letters =>
    rcases hat with hpc | hpc
    · have hpc' : (w.state.producers i).pc = .waitUsed := by
        obtain ⟨t, ht, rfl⟩ := Option.map_eq_some_iff.mp hs
        obtain ⟨pc, hafter, rfl⟩ := Option.map_eq_some_iff.mp ht
        rw [hpc] at hafter
        obtain rfl := Option.some.inj hafter
        simp [Faulty.after]
      obtain ⟨w', t, hw', ht, hbad⟩ := waitUsed_harms (v := v) letters hpc'
      exact ⟨t, .step rfl hw' ht, hbad⟩
    · obtain ⟨w', t, hw', ht, hbad⟩ := waitUsed_harms (v := v) letters hpc
      obtain rfl := Option.some.inj (hs.symm.trans hw')
      exact ⟨t, ht, hbad⟩
  | printer j =>
    rcases hat with hpc | hpc
    · have hpc' : (w.state.printers j).pc = .waitUsed := by
        obtain ⟨t, ht, rfl⟩ := Option.map_eq_some_iff.mp hs
        obtain ⟨pc, hafter, rfl⟩ := Option.map_eq_some_iff.mp ht
        rw [hpc] at hafter
        obtain rfl := Option.some.inj hafter
        simp [Faulty.after]
      obtain ⟨w', hw', hbad⟩ := waitUsed_harms_printer (v := v) hpc'
      exact ⟨w', .step rfl hw' (.refl _), hbad⟩
    · obtain ⟨w', hw', hbad⟩ := waitUsed_harms_printer (v := v) hpc
      obtain rfl := Option.some.inj (hs.symm.trans hw')
      exact ⟨w, .refl _, hbad⟩

end

/-- Nothing is in the buffer, and nobody has a semaphore. -/
def idle : Faulty 1 1 :=
  ⟨onePair, fun _ => ⟨false, false⟩, fun _ => ⟨false, false⟩, 0⟩

/-- The unit of `full` is lost, and all is in order. -/
theorem faults_orderly_lostPost : ∃ u, (faulty .systemV 1 1).ReachableBy (fun u a => ¬u.FailsWait a) u ∧
    u.state.buffer.sem .full = 0 ∧ u.tasks = 1 ∧ Orderly u := by
  have hrun : ((faulty .systemV 1 1).exec idle (List.replicate 17 ⟨.producer 0 fun _ => 0, true⟩)).map
      (fun u => ((u.state.producers 0).pc, u.state.buffer.sem .full, u.tasks)) = some (.postFull, 0, 1) := by
    decide +kernel
  obtain ⟨u, hu, heq⟩ := Option.map_eq_some_iff.mp hrun
  simp only [Prod.mk.injEq] at heq
  obtain ⟨hpc, hfull, htasks⟩ := heq
  have hreach : (faulty .systemV 1 1).ReachableBy (fun u a => ¬u.FailsWait a) u := by
    refine Machine.ReachableBy.exec (.start ⟨onePair_initialised, rfl⟩) (fun w a ha hwait => ?_) hu
    rw [List.eq_of_mem_replicate ha] at hwait
    cases hwait.1
  have hs : faultyStep .systemV u ⟨.producer 0 fun _ => 0, false⟩ = some (u.after false
      { u.state with producers := Function.update u.state.producers 0 { u.state.producers 0 with pc := .waitEmpty } }
      (.producer 0 fun _ => 0)) := by
    simp [faultyStep, failStep, hpc, ProducerPc.afterFailure]
  have hlast := Machine.ReachableBy.step hreach (fun hwait => by simp [Faulty.FailsWait, hpc] at hwait) hs
  refine ⟨_, hlast, hfull, ?_, faults_orderly hlast⟩
  simp [Faulty.after, hpc, ProducerPc.inserts, htasks]

/-- A printer whose wait for `full` fails takes a task from the empty buffer. -/
theorem not_faults_orderly : ¬∀ u, (faulty .systemV 1 1).Reachable u → Orderly u := by
  intro hall
  have hrun : ((faulty .systemV 1 1).exec idle
      (⟨.printer 0, false⟩ :: List.replicate 4 ⟨.printer 0, true⟩)).map Faulty.tasks = some (-1) := by
    decide +kernel
  obtain ⟨u, hu, htasks⟩ := Option.map_eq_some_iff.mp hrun
  have hreach : (faulty .systemV 1 1).Reachable u := Machine.Reachable.exec (.start ⟨onePair_initialised, rfl⟩) hu
  have hpos := (hall u hreach).tasks.1
  rw [htasks] at hpos
  exact absurd hpos (by decide)

end SystemyOperacyjne.PrintQueue
