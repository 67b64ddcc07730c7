import SystemyOperacyjne.PrintQueueInvariant

/-!
# The print queue is an atomic queue

Every step of a producer or a printer either leaves the represented queue alone or is
one operation of the atomic queue of capacity ten. Runs of the programs are therefore
runs of that queue, for any number of processes and any interleaving.
-/

namespace SystemyOperacyjne.PrintQueue
open Concurrency

variable {N M : ℕ}

lemma setByte_prefix {tasks : Fin BUFFER_SIZE → Task} {slot : Fin BUFFER_SIZE} {t : Task} {k : ℕ}
    (hk : k < 11) (h : ∀ c : Fin 11, c.val < k → tasks slot c = t c) :
    ∀ c : Fin 11, c.val < k + 1 → setByte tasks slot ⟨k, hk⟩ (t ⟨k, hk⟩) slot c = t c := by
  intro c hc
  by_cases he : c = ⟨k, hk⟩
  · subst he; simp [setByte]
  · have hlt : c.val < k := by
      have : c.val ≠ k := fun hv => he (Fin.ext hv)
      omega
    simp [setByte, he, h c hlt]

lemma copied_prefix {t u : Task} {k : ℕ} (hk : k < 11) (h : ∀ c : Fin 11, c.val < k → t c = u c) :
    ∀ c : Fin 11, c.val < k + 1 → Function.update t ⟨k, hk⟩ (u ⟨k, hk⟩) c = u c := by
  intro c hc
  by_cases he : c = ⟨k, hk⟩
  · subst he; simp
  · have hlt : c.val < k := by
      have : c.val ≠ k := fun hv => he (Fin.ext hv)
      omega
    simp [he, h c hlt]

lemma ProducerOk.congr {b b' : Buffer} {p : Producer} (h : ProducerOk b p) (htasks : b'.tasks = b.tasks)
    (hin : b'.inIdx = b.inIdx) : ProducerOk b' p := by
  cases hpc : p.pc <;> simp only [ProducerOk, hpc, htasks, hin] at h ⊢ <;> exact h

lemma PrinterOk.congr {b b' : Buffer} {p : Printer} (h : PrinterOk b p) (htasks : b'.tasks = b.tasks)
    (hout : b'.outIdx = b.outIdx) : PrinterOk b' p := by
  cases hpc : p.pc <;> simp only [PrinterOk, hpc, htasks, hout] at h ⊢ <;> exact h

lemma producerOk_step {letters : Fin 10 → Fin 26} {b b' : Buffer} {p p' : Producer} (h : ProducerOk b p)
    (hm : ProducerMove letters b p b' p') : ProducerOk b' p' := by
  cases hm with
  | takesEmpty | takesUsed | advances | postsUsed | postsFull => trivial
  | composes => exact isTask_composeTask letters
  | finds hpc =>
    simp only [ProducerOk, hpc] at h
    exact ⟨h, rfl, Nat.zero_le _, fun _ hc => absurd hc (Nat.not_lt_zero _)⟩
  | @copies slot k hpc hk hbyte =>
    simp only [ProducerOk, hpc] at h
    obtain ⟨htask, hslot, hk10, hpre⟩ := h
    have hne : k ≠ 10 := fun he => hbyte (htask.byte_eq_zero.mpr he)
    exact ⟨htask, hslot, by omega, setByte_prefix hk hpre⟩
  | @copiesLast slot k hpc hk hbyte =>
    simp only [ProducerOk, hpc] at h
    obtain ⟨htask, hslot, -, hpre⟩ := h
    have hk10 : k = 10 := htask.byte_eq_zero.mp hbyte
    refine ⟨htask, ?_⟩
    funext c
    rw [← hslot]
    exact setByte_prefix hk hpre c (by omega)
  | overruns hpc hk =>
    simp only [ProducerOk, hpc] at h
    omega

/-- Before it advances `in`, a producer changes at most the slot at `in`. -/
lemma producer_frame {letters : Fin 10 → Fin 26} {b b' : Buffer} {p p' : Producer} (h : ProducerOk b p)
    (hm : ProducerMove letters b p b' p') (hne : p.pc ≠ .advance) :
    b'.inIdx = b.inIdx ∧ b'.outIdx = b.outIdx ∧ (b'.tasks = b.tasks ∨
      p.pc.owesTask = 1 ∧ p.pc.inside = 1 ∧ ∃ t, b'.tasks = Function.update b.tasks b.inIdx t) := by
  cases hm with
  | takesEmpty | takesUsed | composes | finds | overruns | postsUsed | postsFull => exact ⟨rfl, rfl, .inl rfl⟩
  | copies hpc | copiesLast hpc =>
    simp only [ProducerOk, hpc] at h
    refine ⟨rfl, rfl, .inr ⟨by rw [hpc]; rfl, by rw [hpc]; rfl, ?_⟩⟩
    rw [← h.2.1]
    exact ⟨_, rfl⟩
  | advances hpc => exact absurd hpc hne

lemma printerOk_step {b b' : Buffer} {p p' : Printer} (h : PrinterOk b p) (hm : PrinterMove b p b' p')
    (htask : p.pc.owesRemoval = 1 → IsTask (b.tasks b.outIdx)) : PrinterOk b' p' := by
  cases hm with
  | takesFull | takesUsed | advances | postsUsed | postsEmpty => trivial
  | finds => exact ⟨rfl, Nat.zero_le _, fun _ hc => absurd hc (Nat.not_lt_zero _)⟩
  | @copies slot k hpc hk hbyte =>
    simp only [PrinterOk, hpc] at h
    obtain ⟨hslot, hk10, hpre⟩ := h
    have hhead := htask (by rw [hpc]; rfl)
    rw [hslot] at hbyte
    have hne : k ≠ 10 := fun he => hbyte (hhead.byte_eq_zero.mpr he)
    exact ⟨hslot, by omega, copied_prefix hk hpre⟩
  | @copiesLast slot k hpc hk hbyte =>
    simp only [PrinterOk, hpc] at h
    obtain ⟨hslot, -, hpre⟩ := h
    have hhead := htask (by rw [hpc]; rfl)
    rw [hslot] at hbyte
    have hk10 : k = 10 := hhead.byte_eq_zero.mp hbyte
    simp only [PrinterOk]
    funext c
    rw [← hslot]
    exact copied_prefix hk hpre c (by omega)
  | overruns hpc hk =>
    simp only [PrinterOk, hpc] at h
    omega

lemma printer_frame {b b' : Buffer} {p p' : Printer} (hm : PrinterMove b p b' p') (hne : p.pc ≠ .advance) :
    b'.tasks = b.tasks ∧ b'.inIdx = b.inIdx ∧ b'.outIdx = b.outIdx := by
  cases hm with
  | takesFull | takesUsed | finds | copies | copiesLast | overruns | postsUsed | postsEmpty => exact ⟨rfl, rfl, rfl⟩
  | advances hpc => exact absurd hpc hne

/-- A producer that has not advanced `in` leaves a free slot behind the last task. -/
lemma Represents.room {s : State N M} {q : List Task} (h : Represents s q) {i : Fin N}
    (hi : (s.producers i).pc.owesTask = 1) : q.length < BUFFER_SIZE := by
  have he := h.empties
  have hle := le_tokens (fun p : Producer => p.pc.owesTask) s.producers i
  omega

lemma Represents.nonempty {s : State N M} {q : List Task} (h : Represents s q) {j : Fin M}
    (hj : (s.printers j).pc.owesRemoval = 1) : ∃ t r, q = t :: r := by
  have hf := h.fulls
  have hle := le_tokens (fun p : Printer => p.pc.owesRemoval) s.printers j
  cases q with
  | nil =>
    simp only [List.length_nil] at hf hle
    omega
  | cons t r => exact ⟨t, r, rfl⟩

lemma Represents.producer_advance {s : State N M} {q : List Task} (h : Represents s q) {i : Fin N}
    (hpc : (s.producers i).pc = .advance) :
    q.length < BUFFER_SIZE ∧
      Represents { s with
        buffer := { s.buffer with inIdx := ringSlot s.buffer.inIdx 1 }
        producers := Function.update s.producers i { s.producers i with pc := .postUsed } }
        (q ++ [(s.producers i).task]) := by
  have hok := h.producing i
  simp only [ProducerOk, hpc] at hok
  obtain ⟨htask, hcopied⟩ := hok
  obtain ⟨hprod, hprint⟩ := h.alone_producer (i := i) (by rw [hpc]; rfl)
  refine ⟨h.room (i := i) (by rw [hpc]; rfl), h.of_producer ?_ ?_ ?_ ?_ ?_ ?_ trivial ?_ ?_⟩
  · simp only [hpc, ProducerPc.owesFull, List.length_append, List.length_singleton]
    omega
  · simp only [hpc, ProducerPc.owesTask, List.length_append, List.length_singleton]
    omega
  · rw [hpc]; rfl
  · simp only [h.inIdx, ringSlot_ringSlot, List.length_append, List.length_singleton]
  · have happ := h.slots.append
    rwa [← h.inIdx, hcopied] at happ
  · intro t ht
    rcases List.mem_append.mp ht with ht | ht
    · exact h.isTask t ht
    · obtain rfl : t = (s.producers i).task := by simpa using ht
      exact htask
  · exact fun j hj => (h.producing j).of_outside (hprod j hj)
  · exact fun j => (h.printing j).of_outside (hprint j)

lemma Represents.printer_advance {s : State N M} {q : List Task} (h : Represents s q) {j : Fin M}
    (hpc : (s.printers j).pc = .advance) :
    ∃ r, q = (s.printers j).task :: r ∧
      Represents { s with
        buffer := { s.buffer with outIdx := ringSlot s.buffer.outIdx 1 }
        printers := Function.update s.printers j { s.printers j with pc := .postUsed } } r := by
  have hok := h.printing j
  simp only [PrinterOk, hpc] at hok
  obtain ⟨hprod, hprint⟩ := h.alone_printer (j := j) (by rw [hpc]; rfl)
  obtain ⟨t, r, rfl⟩ := h.nonempty (j := j) (by rw [hpc]; rfl)
  refine ⟨r, by rw [hok, h.slots.head], h.of_printer ?_ ?_ ?_ ?_ h.slots.tail ?_ trivial ?_ ?_⟩
  · simp only [hpc, PrinterPc.owesRemoval, List.length_cons]
    omega
  · simp only [hpc, PrinterPc.owesEmpty, List.length_cons]
    omega
  · rw [hpc]; rfl
  · simp only [h.inIdx, ringSlot_ringSlot, List.length_cons, Nat.add_comm 1]
  · exact fun u hu => h.isTask u (by simp [hu])
  · exact fun i => (h.producing i).of_outside (hprod i)
  · exact fun k hk => (h.printing k).of_outside (hprint k hk)

/-- The queue after a step: changed by the operation the step completes, if any. -/
theorem Represents.producer_step {s : State N M} {q : List Task} (h : Represents s q) {i : Fin N}
    {letters : Fin 10 → Fin 26} {b : Buffer} {p : Producer}
    (hm : ProducerMove letters s.buffer (s.producers i) b p) :
    ∃ q', (boundedFifo Task BUFFER_SIZE).exec q
        (queueOp s (Action.producer (M := M) i letters)).toList = some q' ∧
      Represents { s with buffer := b, producers := Function.update s.producers i p } q' := by
  by_cases hpc : (s.producers i).pc = .advance
  · obtain ⟨rfl, rfl⟩ := hm.of_advance hpc
    obtain ⟨hlt, hrep⟩ := h.producer_advance hpc
    refine ⟨q ++ [(s.producers i).task], ?_, hrep⟩
    simp only [queueOp, hpc, if_true, Option.toList_some, Machine.exec_singleton]
    exact boundedFifo_enqueue_eq_some.mpr ⟨hlt, rfl⟩
  · obtain ⟨hfull, hempty, hused⟩ := producer_exact hm
    obtain ⟨hin, hout, htasks⟩ := producer_frame (h.producing i) hm hpc
    have hinserts : (s.producers i).pc.inserts = 0 := if_neg hpc
    have hslots : RingHolds b.tasks b.outIdx q := by
      rw [hout]
      rcases htasks with htasks | ⟨howes, -, t, htasks⟩
      · rw [htasks]
        exact h.slots
      · rw [htasks, h.inIdx]
        exact h.slots.write_free (h.room howes) t
    refine ⟨q, by simp [queueOp, hpc], h.of_producer (by omega) (by omega) hused ?_ hslots h.isTask
      (producerOk_step (h.producing i) hm) (fun j hj => ?_) fun j => ?_⟩
    · rw [hin, hout]
      exact h.inIdx
    · rcases htasks with htasks | ⟨-, hinside, -⟩
      · exact (h.producing j).congr htasks hin
      · exact (h.producing j).of_outside ((h.alone_producer hinside).1 j hj)
    · rcases htasks with htasks | ⟨-, hinside, -⟩
      · exact (h.printing j).congr htasks hout
      · exact (h.printing j).of_outside ((h.alone_producer hinside).2 j)

theorem Represents.printer_step {s : State N M} {q : List Task} (h : Represents s q) {j : Fin M} {b : Buffer}
    {p : Printer} (hm : PrinterMove s.buffer (s.printers j) b p) :
    ∃ q', (boundedFifo Task BUFFER_SIZE).exec q
        (queueOp s (Action.printer (N := N) j)).toList = some q' ∧
      Represents { s with buffer := b, printers := Function.update s.printers j p } q' := by
  by_cases hpc : (s.printers j).pc = .advance
  · obtain ⟨rfl, rfl⟩ := hm.of_advance hpc
    obtain ⟨r, hq, hrep⟩ := h.printer_advance hpc
    refine ⟨r, ?_, hrep⟩
    simp only [queueOp, hpc, if_true, Option.toList_some, Machine.exec_singleton]
    exact boundedFifo_dequeue_eq_some.mpr hq
  · obtain ⟨hfull, hempty, hused⟩ := printer_exact hm
    obtain ⟨htasks, hin, hout⟩ := printer_frame hm hpc
    have hremoves : (s.printers j).pc.removes = 0 := if_neg hpc
    have hhead : (s.printers j).pc.owesRemoval = 1 → IsTask (s.buffer.tasks s.buffer.outIdx) := by
      intro howes
      obtain ⟨t, r, rfl⟩ := h.nonempty howes
      rw [h.slots.head]
      exact h.isTask t List.mem_cons_self
    refine ⟨q, by simp [queueOp, hpc], h.of_printer (by omega) (by omega) hused ?_ ?_ h.isTask
      (printerOk_step (h.printing j) hm hhead) (fun i => ?_) fun k _ => ?_⟩
    · rw [hin, hout]
      exact h.inIdx
    · rw [htasks, hout]
      exact h.slots
    · exact (h.producing i).congr htasks hin
    · exact (h.printing k).congr htasks hout

/-- The programs refine the atomic queue through `Represents`. -/
theorem machine_refines (v : Variant) (N M : ℕ) :
    (machine v N M).Refines (boundedFifo Task BUFFER_SIZE) queueOp Represents where
  init _ hs := ⟨[], rfl, Represents.init hs⟩
  step s q a s' h hs := by
    cases a with
    | producer i letters =>
      obtain ⟨⟨b, p⟩, hp, rfl⟩ := Option.map_eq_some_iff.mp hs
      exact h.producer_step (producer_cases hp)
    | printer j =>
      obtain ⟨⟨b, p⟩, hp, rfl⟩ := Option.map_eq_some_iff.mp hs
      exact h.printer_step (printer_cases hp)

/-- A process is between its `used--` and its `used++`. -/
def Inside (s : State N M) : Fin N ⊕ Fin M → Prop
  | .inl i => (s.producers i).pc.inside = 1
  | .inr j => (s.printers j).pc.inside = 1

lemma Represents.inside_unique {s : State N M} {q : List Task} (h : Represents s q)
    {x y : Fin N ⊕ Fin M} (hx : Inside s x) (hy : Inside s y) : x = y := by
  by_contra hne
  cases x with
  | inl i =>
    obtain ⟨hprod, hprint⟩ := h.alone_producer hx
    cases y with
    | inl i' =>
      have := hprod i' fun he => hne (by rw [he])
      simp only [Inside] at hy
      omega
    | inr j =>
      have := hprint j
      simp only [Inside] at hy
      omega
  | inr j =>
    obtain ⟨hprod, hprint⟩ := h.alone_printer hx
    cases y with
    | inl i =>
      have := hprod i
      simp only [Inside] at hy
      omega
    | inr j' =>
      have := hprint j' fun he => hne (by rw [he])
      simp only [Inside] at hy
      omega

lemma isTask_of_enqueued {v : Variant} {s s' : State N M} {q : List Task} {as : List (Action N M)}
    (h : Represents s q) (he : (machine v N M).exec s as = some s') :
    ∀ t ∈ enqueued ((machine v N M).visible queueOp s as), IsTask t := by
  induction as generalizing s q with
  | nil => simp [Machine.visible, enqueued]
  | cons a as ih =>
    obtain ⟨u, hn, hu⟩ := Machine.exec_cons_eq_some.mp he
    obtain ⟨q', hq', hrep⟩ := (machine_refines v N M).step s q a u h hn
    have hrest := ih hrep hu
    intro t ht
    simp only [Machine.visible, hn, enqueued, List.filterMap_append, List.mem_append] at ht
    rcases ht with ht | ht
    · cases a with
      | producer i letters =>
        by_cases hpc : (s.producers i).pc = .advance
        · obtain rfl : t = (s.producers i).task := by simpa [queueOp, hpc] using ht
          have hok := h.producing i
          simp only [ProducerOk, hpc] at hok
          exact hok.1
        · simp [queueOp, hpc] at ht
      | printer j => by_cases hpc : (s.printers j).pc = .advance <;> simp [queueOp, hpc] at ht
    · exact hrest t ht

/-- For every number of producers and printers and every interleaving, the tasks written
and taken form a run of the atomic queue of capacity ten: the `k`th task taken is the
`k`th written, whole, those not yet taken are in the slots, and one process at a time is
in the critical section. -/
theorem print_queue_fifo (v : Variant) {s₀ s : State N M} {as : List (Action N M)}
    (h₀ : Initialised s₀) (h : (machine v N M).exec s₀ as = some s) :
    let ops := (machine v N M).visible queueOp s₀ as
    (∃ q, (boundedFifo Task BUFFER_SIZE).exec [] ops = some q ∧
      enqueued ops = dequeued ops ++ q ∧ RingHolds s.buffer.tasks s.buffer.outIdx q) ∧
    (∀ (k : ℕ) (t : Task), (dequeued ops)[k]? = some t → (enqueued ops)[k]? = some t) ∧
    (∀ t ∈ enqueued ops, IsTask t) ∧
    (∀ x y, Inside s x → Inside s y → x = y) ∧
    (dequeued ops).length ≤ (enqueued ops).length ∧
    (enqueued ops).length ≤ (dequeued ops).length + BUFFER_SIZE := by
  intro ops
  have hinit : Represents s₀ [] := Represents.init (v := v) h₀
  obtain ⟨q, hq, hrep⟩ := (machine_refines v N M).exec hinit h
  obtain ⟨horder, hle, hcap⟩ := boundedFifo_order hq
  exact ⟨⟨q, hq, by simpa using boundedFifo_exec hq, hrep.slots⟩, horder,
    isTask_of_enqueued hinit h, fun x y hx hy => hrep.inside_unique hx hy, hle, hcap⟩

/-- One producer, one printer, nothing in the buffer. -/
def onePair : State 1 1 where
  buffer := { tasks := fun _ _ => 0, inIdx := 0, outIdx := 0
              sem := fun
                | .empty => BUFFER_SIZE
                | .full => 0
                | .used => 1 }
  producers _ := ⟨.waitEmpty, fun _ => 0⟩
  printers _ := ⟨.waitFull, fun _ => 0⟩

lemma onePair_initialised : Initialised onePair :=
  ⟨rfl, rfl, rfl, rfl, rfl, fun _ => rfl, fun _ => rfl⟩

/-- The producer makes a full pass and the printer takes the task. -/
def onePass : List (Action 1 1) :=
  List.replicate 18 (.producer 0 fun c => ⟨c.val, by omega⟩) ++ List.replicate 17 (.printer 0)

theorem print_queue_fifo_onePass :
    ∃ s, (machine .systemV 1 1).exec onePair onePass = some s ∧
      let ops := (machine .systemV 1 1).visible queueOp onePair onePass
      (dequeued ops).length = 1 ∧ (dequeued ops)[0]? = (enqueued ops)[0]? ∧
      ∀ x y, Inside s x → Inside s y → x = y := by
  have hsome : ((machine .systemV 1 1).exec onePair onePass).isSome = true := by decide +kernel
  obtain ⟨s, hs⟩ := Option.isSome_iff_exists.mp hsome
  have hlen : (dequeued ((machine .systemV 1 1).visible queueOp onePair onePass)).length = 1 := by
    decide +kernel
  obtain ⟨-, horder, -, hmutex, -, -⟩ := print_queue_fifo .systemV onePair_initialised hs
  refine ⟨s, hs, hlen, ?_, hmutex⟩
  have hget := List.getElem?_eq_getElem (l := dequeued _) (i := 0) (by rw [hlen]; exact Nat.one_pos)
  rw [hget, horder 0 _ hget]

end SystemyOperacyjne.PrintQueue
