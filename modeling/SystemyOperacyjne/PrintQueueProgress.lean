import SystemyOperacyjne.PrintQueueFifo

/-!
# The print queue never blocks all its processes

Both roles wait for their counting semaphore before the mutex. With the token sums of
the invariant this leaves some process enabled in every reachable state.
-/

namespace SystemyOperacyjne.PrintQueue
open Concurrency

variable {N M : ℕ}

theorem reachable_represents {v : Variant} {s : State N M} (h : (machine v N M).Reachable s) :
    ∃ q, Represents s q := by
  refine Machine.Reachable.invariant (I := fun s => ∃ q, Represents s q)
    (fun s hs => ⟨[], Represents.init hs⟩) ?_ h
  rintro s a t ⟨q, hq⟩ hn
  obtain ⟨q', -, hq'⟩ := (machine_refines v N M).step s q a t hq hn
  exact ⟨q', hq'⟩

lemma producer_enabled {v : Variant} {s : State N M} {q : List Task} (h : Represents s q) {i : Fin N}
    (hempty : (s.producers i).pc = .waitEmpty → 0 < s.buffer.sem .empty)
    (hused : (s.producers i).pc = .waitUsed → 0 < s.buffer.sem .used) :
    ∃ t, step v s (.producer i fun _ => 0) = some t := by
  have hok := h.producing i
  have hdown {x : Sem} (hx : 0 < s.buffer.sem x) :
      v.down s.buffer.sem x = some (Function.update s.buffer.sem x (s.buffer.sem x - 1)) :=
    Variant.down_eq_some.mpr ⟨hx, rfl⟩
  cases hpc : (s.producers i).pc with
  | waitEmpty => simp [step, producerStep, hpc, hdown (hempty hpc)]
  | waitUsed => simp [step, producerStep, hpc, hdown (hused hpc)]
  | copy slot k => by_cases hk : k < 11 <;> simp [step, producerStep, hpc, hk]
  | overrun => simp [ProducerOk, hpc] at hok
  | compose | strcpy | advance => simp [step, producerStep, hpc]
  | postUsed | postFull => simp [step, producerStep, hpc, Variant.up_eq]

lemma printer_enabled {v : Variant} {s : State N M} {q : List Task} (h : Represents s q) {j : Fin M}
    (hfull : (s.printers j).pc = .waitFull → 0 < s.buffer.sem .full)
    (hused : (s.printers j).pc = .waitUsed → 0 < s.buffer.sem .used) :
    ∃ t, step v s (.printer j) = some t := by
  have hok := h.printing j
  have hdown {x : Sem} (hx : 0 < s.buffer.sem x) :
      v.down s.buffer.sem x = some (Function.update s.buffer.sem x (s.buffer.sem x - 1)) :=
    Variant.down_eq_some.mpr ⟨hx, rfl⟩
  cases hpc : (s.printers j).pc with
  | waitFull => simp [step, printerStep, hpc, hdown (hfull hpc)]
  | waitUsed => simp [step, printerStep, hpc, hdown (hused hpc)]
  | copy slot k => by_cases hk : k < 11 <;> simp [step, printerStep, hpc, hk]
  | overrun => simp [PrinterOk, hpc] at hok
  | strcpy | advance => simp [step, printerStep, hpc]
  | postUsed | postEmpty => simp [step, printerStep, hpc, Variant.up_eq]

/-- The step begins no new task. -/
def State.Continues (s : State N M) : Action N M → Prop
  | .producer i _ => (s.producers i).pc ≠ .waitEmpty
  | .printer _ => True

lemma Represents.used_of_stuck {v : Variant} {s : State N M} {q : List Task} (h : Represents s q)
    (hstuck : ∀ a, s.Continues a → step v s a = none) : s.buffer.sem .used = 1 := by
  have hprod : ∀ i, (s.producers i).pc.inside = 0 := by
    intro i
    by_contra hin
    have hne : (s.producers i).pc ≠ .waitEmpty := fun hpc => hin (by rw [hpc]; rfl)
    obtain ⟨t, ht⟩ := producer_enabled (v := v) h (i := i)
      (fun hpc => absurd hpc hne) (fun hpc => absurd (by rw [hpc]; rfl) hin)
    rw [hstuck (.producer i _) hne] at ht
    cases ht
  have hprint : ∀ j, (s.printers j).pc.inside = 0 := by
    intro j
    by_contra hin
    obtain ⟨t, ht⟩ := printer_enabled (v := v) h (j := j)
      (fun hpc => absurd (by rw [hpc]; rfl) hin) (fun hpc => absurd (by rw [hpc]; rfl) hin)
    rw [hstuck (.printer j) trivial] at ht
    cases ht
  have hm := h.mutex
  rw [tokens_eq_zero (w := fun p : Producer => p.pc.inside) hprod,
    tokens_eq_zero (w := fun p : Printer => p.pc.inside) hprint] at hm
  omega

/-- The mutex being free, a producer has posted its task and a printer without a step waits for one. -/
lemma Represents.waiting_of_stuck {v : Variant} {s : State N M} {q : List Task} (h : Represents s q)
    (hstuck : ∀ a, s.Continues a → step v s a = none) :
    (∀ i, (s.producers i).pc = .waitEmpty) ∧ ∀ j, (s.printers j).pc = .waitFull ∧ s.buffer.sem .full = 0 := by
  have hused := h.used_of_stuck hstuck
  constructor
  · intro i
    by_contra hne
    obtain ⟨t, ht⟩ := producer_enabled (v := v) h (i := i) (fun hpc => absurd hpc hne) (fun _ => by omega)
    rw [hstuck (.producer i _) hne] at ht
    cases ht
  · intro j
    by_contra hne
    obtain ⟨t, ht⟩ := printer_enabled (v := v) h (j := j)
      (fun hpc => Nat.pos_of_ne_zero fun h0 => hne ⟨hpc, h0⟩) (fun _ => by omega)
    rw [hstuck (.printer j) trivial] at ht
    cases ht

/-- While a task waits, a printer or the producer that has to post it has a step. -/
theorem Represents.progress_of_nonempty {v : Variant} {s : State N M} {q : List Task} (h : Represents s q)
    (hM : 1 ≤ M) (hq : q ≠ []) : ∃ a t, s.Continues a ∧ step v s a = some t := by
  by_contra hnone
  have hstuck : ∀ a, s.Continues a → step v s a = none := by
    intro a hcontinues
    cases ha : step v s a with
    | none => rfl
    | some t => exact absurd ⟨a, t, hcontinues, ha⟩ hnone
  obtain ⟨hprod, hprint⟩ := h.waiting_of_stuck hstuck
  have hf := h.fulls
  rw [(hprint ⟨0, hM⟩).2, tokens_eq_zero (fun j => by rw [(hprint j).1]; rfl),
    tokens_eq_zero (fun i => by rw [hprod i]; rfl)] at hf
  have hpos := List.length_pos_iff.mpr hq
  omega

/-- One producer and one printer cannot both wait. -/
theorem Represents.progress {v : Variant} {s : State N M} {q : List Task} (h : Represents s q)
    (hN : 1 ≤ N) (hM : 1 ≤ M) : ∃ a t, step v s a = some t := by
  by_cases hq : q = []
  · by_contra hnone
    have hstuck : ∀ a, step v s a = none := by
      intro a
      cases ha : step v s a with
      | none => rfl
      | some t => exact absurd ⟨a, t, ha⟩ hnone
    obtain ⟨hprod, hprint⟩ := h.waiting_of_stuck fun a _ => hstuck a
    have he := h.empties
    rw [tokens_eq_zero (fun i => by rw [hprod i]; rfl), tokens_eq_zero (fun j => by rw [(hprint j).1]; rfl), hq] at he
    simp only [BUFFER_SIZE, List.length_nil] at he
    obtain ⟨t, ht⟩ := producer_enabled (v := v) h (i := ⟨0, hN⟩)
      (fun _ => by omega) (fun hpc => absurd ((hprod _).symm.trans hpc) (by decide))
    rw [hstuck] at ht
    cases ht
  · obtain ⟨a, t, -, ht⟩ := h.progress_of_nonempty (v := v) hM hq
    exact ⟨a, t, ht⟩

/-- The processes between their counting wait and the matching post. -/
def midway (s : State N M) : ℕ :=
  (Finset.univ.filter fun i => (s.producers i).pc ≠ .waitEmpty).card +
    (Finset.univ.filter fun j => (s.printers j).pc ≠ .waitFull).card

lemma midway_eq (s : State N M) : midway s =
    tokens (fun p => p.pc.owesTask) s.producers + tokens (fun p => p.pc.owesFull) s.producers +
      (tokens (fun p => p.pc.owesRemoval) s.printers + tokens (fun p => p.pc.owesEmpty) s.printers) := by
  simp only [midway, Finset.card_filter, tokens, ← Finset.sum_add_distrib]
  congr 1
  · refine Finset.sum_congr rfl fun i _ => ?_
    cases (s.producers i).pc <;> rfl
  · refine Finset.sum_congr rfl fun j _ => ?_
    cases (s.printers j).pc <;> rfl

lemma Represents.conservation {s : State N M} {q : List Task} (h : Represents s q) :
    s.buffer.sem .empty + s.buffer.sem .full + midway s = BUFFER_SIZE := by
  have hf := h.fulls
  have he := h.empties
  rw [midway_eq]
  omega

/-- Some process always has a step, the semaphores stay within their capacities, and
`empty`, `full` and the processes between their counting wait and the matching post add
up to the size of the buffer. -/
theorem print_queue_progress (v : Variant) (hN : 1 ≤ N) (hM : 1 ≤ M) {s : State N M}
    (h : (machine v N M).Reachable s) :
    (∃ a t, (machine v N M).next s a = some t) ∧
      s.buffer.sem .empty ≤ BUFFER_SIZE ∧ s.buffer.sem .full ≤ BUFFER_SIZE ∧ s.buffer.sem .used ≤ 1 ∧
      s.buffer.sem .empty + s.buffer.sem .full + midway s = BUFFER_SIZE := by
  obtain ⟨q, hq⟩ := reachable_represents h
  have hc := hq.conservation
  have hm := hq.mutex
  exact ⟨hq.progress hN hM, by omega, by omega, by omega, hc⟩

/-- The producer has posted a task and copies the next one; the printer waits for the buffer. -/
def midCopy : List (Action 1 1) :=
  onePass.take 18 ++ onePass.take 8 ++ (onePass.drop 18).take 1

theorem print_queue_progress_midCopy : ∃ s, (machine .posix 1 1).Reachable s ∧ s.buffer.sem .used = 0 ∧
    (∃ a t, (machine .posix 1 1).next s a = some t) ∧
      s.buffer.sem .empty + s.buffer.sem .full + 2 = BUFFER_SIZE := by
  have hrun : ((machine .posix 1 1).exec onePair midCopy).map (fun s => (s.buffer.sem .used, midway s)) =
      some (0, 2) := by
    decide +kernel
  obtain ⟨s, hs, heq⟩ := Option.map_eq_some_iff.mp hrun
  obtain ⟨hused, hmidway⟩ := Prod.mk.inj heq
  have hreach : (machine .posix 1 1).Reachable s := Machine.Reachable.exec (.start onePair_initialised) hs
  obtain ⟨hnext, -, -, -, hcount⟩ := print_queue_progress .posix le_rfl le_rfl hreach
  rw [hmidway] at hcount
  exact ⟨s, hreach, hused, hnext, hcount⟩

end SystemyOperacyjne.PrintQueue
