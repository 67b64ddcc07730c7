import SystemyOperacyjne.PrintQueueMoves

/-!
# The invariant of the print queue

`Represents s q` says that the buffer of `s` holds the tasks `q`: the ring slots, the
three semaphores and the program counters of all processes agree with `q`. Each step
keeps it, for the queue that the atomic queue operation of the step yields.
-/

namespace SystemyOperacyjne.PrintQueue
open Concurrency

/-- Ten letters and the terminator. -/
structure IsTask (t : Task) : Prop where
  letter : ∀ c : Fin 11, c.val < 10 → 97 ≤ t c ∧ t c ≤ 122
  terminator : t 10 = 0

lemma IsTask.byte_eq_zero {t : Task} (h : IsTask t) {c : Fin 11} : t c = 0 ↔ c.val = 10 := by
  constructor
  · intro hc
    by_contra hne
    have hle := (h.letter c (by omega)).1
    rw [hc] at hle
    exact absurd hle (by decide)
  · intro hc
    have : c = 10 := Fin.ext hc
    rw [this, h.terminator]

lemma isTask_composeTask (letters : Fin 10 → Fin 26) : IsTask (composeTask letters) := by
  constructor
  · intro c hc
    have hl := (letters ⟨c.val, hc⟩).isLt
    simp only [composeTask, hc, dite_true, UInt8.le_iff_toNat_le, UInt8.toNat_ofNat']
    simp only [UInt8.reduceToNat]
    omega
  · rfl

/-! ### Tokens -/

/-- Holds a unit of `empty` for a task not yet inserted. -/
def ProducerPc.owesTask : ProducerPc → ℕ
  | .waitUsed | .compose | .strcpy | .copy _ _ | .advance | .overrun => 1
  | .waitEmpty | .postUsed | .postFull => 0

/-- Has inserted a task and not yet posted `full`. -/
def ProducerPc.owesFull : ProducerPc → ℕ
  | .postUsed | .postFull => 1
  | _ => 0

/-- Between `used--` and `used++`. -/
def ProducerPc.inside : ProducerPc → ℕ
  | .compose | .strcpy | .copy _ _ | .advance | .postUsed | .overrun => 1
  | .waitEmpty | .waitUsed | .postFull => 0

/-- Holds a unit of `full` for a task not yet removed. -/
def PrinterPc.owesRemoval : PrinterPc → ℕ
  | .waitUsed | .strcpy | .copy _ _ | .advance | .overrun => 1
  | .waitFull | .postUsed | .postEmpty => 0

/-- Has removed a task and not yet posted `empty`. -/
def PrinterPc.owesEmpty : PrinterPc → ℕ
  | .postUsed | .postEmpty => 1
  | _ => 0

def PrinterPc.inside : PrinterPc → ℕ
  | .strcpy | .copy _ _ | .advance | .postUsed | .overrun => 1
  | .waitFull | .waitUsed | .postEmpty => 0

/-! ### Accounts -/

def ProducerPc.inserts (pc : ProducerPc) : ℕ :=
  if pc = .advance then 1 else 0

def PrinterPc.removes (pc : PrinterPc) : ℕ :=
  if pc = .advance then 1 else 0

/-- What a step of a producer does to the semaphores, it does to its own tokens. -/
lemma producer_exact {letters : Fin 10 → Fin 26} {b b' : Buffer} {p p' : Producer}
    (hm : ProducerMove letters b p b' p') :
    b'.sem .full + p'.pc.owesFull = b.sem .full + p.pc.owesFull + p.pc.inserts ∧
      b'.sem .empty + p'.pc.owesTask + p.pc.inserts = b.sem .empty + p.pc.owesTask ∧
      b'.sem .used + p'.pc.inside = b.sem .used + p.pc.inside := by
  cases hm with
  | takesEmpty hpc hpos | takesUsed hpc hpos =>
    refine ⟨?_, ?_, ?_⟩ <;>
      simp [hpc, ProducerPc.owesFull, ProducerPc.owesTask, ProducerPc.inside, ProducerPc.inserts]
    omega
  | composes hpc | finds hpc | copies hpc | copiesLast hpc | overruns hpc | advances hpc =>
    rw [hpc]
    exact ⟨rfl, rfl, rfl⟩
  | postsUsed hpc | postsFull hpc =>
    refine ⟨?_, ?_, ?_⟩ <;>
      simp [hpc, ProducerPc.owesFull, ProducerPc.owesTask, ProducerPc.inside, ProducerPc.inserts]

lemma printer_exact {b b' : Buffer} {p p' : Printer} (hm : PrinterMove b p b' p') :
    b'.sem .full + p'.pc.owesRemoval + p.pc.removes = b.sem .full + p.pc.owesRemoval ∧
      b'.sem .empty + p'.pc.owesEmpty = b.sem .empty + p.pc.owesEmpty + p.pc.removes ∧
      b'.sem .used + p'.pc.inside = b.sem .used + p.pc.inside := by
  cases hm with
  | takesFull hpc hpos | takesUsed hpc hpos =>
    refine ⟨?_, ?_, ?_⟩ <;>
      simp [hpc, PrinterPc.owesRemoval, PrinterPc.owesEmpty, PrinterPc.inside, PrinterPc.removes]
    omega
  | finds hpc | copies hpc | copiesLast hpc | overruns hpc | advances hpc =>
    rw [hpc]
    exact ⟨rfl, rfl, rfl⟩
  | postsUsed hpc | postsEmpty hpc =>
    refine ⟨?_, ?_, ?_⟩ <;>
      simp [hpc, PrinterPc.owesRemoval, PrinterPc.owesEmpty, PrinterPc.inside, PrinterPc.removes]

/-- What a producer in its critical section knows: the bytes copied so far are in the
slot at `in`. -/
def ProducerOk (b : Buffer) (p : Producer) : Prop :=
  match p.pc with
  | .strcpy => IsTask p.task
  | .copy slot k => IsTask p.task ∧ slot = b.inIdx ∧ k ≤ 10 ∧
      ∀ c : Fin 11, c.val < k → b.tasks slot c = p.task c
  | .advance => IsTask p.task ∧ b.tasks b.inIdx = p.task
  | .overrun => False
  | _ => True

/-- What a printer in its critical section knows: its local bytes are those of the slot
at `out`. -/
def PrinterOk (b : Buffer) (p : Printer) : Prop :=
  match p.pc with
  | .copy slot k => slot = b.outIdx ∧ k ≤ 10 ∧ ∀ c : Fin 11, c.val < k → p.task c = b.tasks slot c
  | .advance => p.task = b.tasks b.outIdx
  | .overrun => False
  | _ => True

lemma ProducerOk.of_outside {b b' : Buffer} {p : Producer} (h : ProducerOk b p)
    (hout : p.pc.inside = 0) : ProducerOk b' p := by
  cases hp : p.pc <;> simp_all [ProducerOk, ProducerPc.inside]

lemma PrinterOk.of_outside {b b' : Buffer} {p : Printer} (h : PrinterOk b p)
    (hout : p.pc.inside = 0) : PrinterOk b' p := by
  cases hp : p.pc <;> simp_all [PrinterOk, PrinterPc.inside]

section

variable {N M : ℕ}

/-- The buffer and the processes agree that the tasks `q` are waiting. -/
structure Represents (s : State N M) (q : List Task) : Prop where
  fulls : s.buffer.sem .full + tokens (fun p => p.pc.owesRemoval) s.printers +
    tokens (fun p => p.pc.owesFull) s.producers = q.length
  empties : s.buffer.sem .empty + tokens (fun p => p.pc.owesTask) s.producers +
    tokens (fun p => p.pc.owesEmpty) s.printers + q.length = BUFFER_SIZE
  mutex : s.buffer.sem .used + tokens (fun p => p.pc.inside) s.producers +
    tokens (fun p => p.pc.inside) s.printers = 1
  inIdx : s.buffer.inIdx = ringSlot s.buffer.outIdx q.length
  slots : RingHolds s.buffer.tasks s.buffer.outIdx q
  isTask : ∀ t ∈ q, IsTask t
  producing : ∀ i, ProducerOk s.buffer (s.producers i)
  printing : ∀ j, PrinterOk s.buffer (s.printers j)

lemma Represents.init {v : Variant} {s : State N M} (h : (machine v N M).init s) :
    Represents s [] := by
  have hp : ∀ i, (s.producers i).pc = .waitEmpty := Initialised.producers h
  have hq : ∀ j, (s.printers j).pc = .waitFull := Initialised.printers h
  have hp0 : ∀ w : ProducerPc → ℕ, w .waitEmpty = 0 → tokens (fun p => w p.pc) s.producers = 0 :=
    fun w hw => tokens_eq_zero fun i => by rw [hp i, hw]
  have hq0 : ∀ w : PrinterPc → ℕ, w .waitFull = 0 → tokens (fun p => w p.pc) s.printers = 0 :=
    fun w hw => tokens_eq_zero fun j => by rw [hq j, hw]
  refine ⟨?_, ?_, ?_, ?_, ?_, by simp, ?_, ?_⟩
  · rw [hq0 _ rfl, hp0 _ rfl, h.full]; rfl
  · rw [hq0 _ rfl, hp0 _ rfl, h.empty]; rfl
  · rw [hq0 _ rfl, hp0 _ rfl, h.used]
  · rw [h.inIdx, h.outIdx]; rfl
  · intro j hj
    simp at hj
  · intro i
    simp [ProducerOk, hp i]
  · intro j
    simp [PrinterOk, hq j]

lemma Represents.alone_producer {s : State N M} {q : List Task} (h : Represents s q) {i : Fin N}
    (hi : (s.producers i).pc.inside = 1) :
    (∀ j, j ≠ i → (s.producers j).pc.inside = 0) ∧ ∀ j, (s.printers j).pc.inside = 0 := by
  have hm := h.mutex
  have hle := le_tokens (fun p : Producer => p.pc.inside) s.producers i
  constructor
  · intro j hj
    have := add_le_tokens (fun p : Producer => p.pc.inside) s.producers hj
    omega
  · intro j
    have := le_tokens (fun p : Printer => p.pc.inside) s.printers j
    omega

lemma Represents.alone_printer {s : State N M} {q : List Task} (h : Represents s q) {j : Fin M}
    (hj : (s.printers j).pc.inside = 1) :
    (∀ i, (s.producers i).pc.inside = 0) ∧ ∀ k, k ≠ j → (s.printers k).pc.inside = 0 := by
  have hm := h.mutex
  have hle := le_tokens (fun p : Printer => p.pc.inside) s.printers j
  constructor
  · intro i
    have := le_tokens (fun p : Producer => p.pc.inside) s.producers i
    omega
  · intro k hk
    have := add_le_tokens (fun p : Printer => p.pc.inside) s.printers hk
    omega

lemma Represents.of_producer {s : State N M} {q q' : List Task} (h : Represents s q) {i : Fin N}
    {b : Buffer} {p : Producer}
    (hfull : b.sem .full + q.length + p.pc.owesFull =
      s.buffer.sem .full + q'.length + (s.producers i).pc.owesFull)
    (hempty : b.sem .empty + q'.length + p.pc.owesTask =
      s.buffer.sem .empty + q.length + (s.producers i).pc.owesTask)
    (hused : b.sem .used + p.pc.inside = s.buffer.sem .used + (s.producers i).pc.inside)
    (hin : b.inIdx = ringSlot b.outIdx q'.length) (hslots : RingHolds b.tasks b.outIdx q')
    (htask : ∀ t ∈ q', IsTask t) (hp : ProducerOk b p)
    (hothers : ∀ j, j ≠ i → ProducerOk b (s.producers j)) (hprint : ∀ j, PrinterOk b (s.printers j)) :
    Represents { s with buffer := b, producers := Function.update s.producers i p } q' := by
  have h₁ := tokens_update (fun p : Producer => p.pc.owesFull) s.producers i p
  have h₂ := tokens_update (fun p : Producer => p.pc.owesTask) s.producers i p
  have h₃ := tokens_update (fun p : Producer => p.pc.inside) s.producers i p
  have hf := h.fulls
  have he := h.empties
  have hm := h.mutex
  refine ⟨?_, ?_, ?_, hin, hslots, htask, ?_, hprint⟩
  · simp only at h₁ ⊢; omega
  · simp only at h₂ ⊢; omega
  · simp only at h₃ ⊢; omega
  · intro j
    by_cases hj : j = i
    · subst hj; simpa using hp
    · simpa [hj] using hothers j hj

lemma Represents.of_printer {s : State N M} {q q' : List Task} (h : Represents s q) {j : Fin M}
    {b : Buffer} {p : Printer}
    (hfull : b.sem .full + q.length + p.pc.owesRemoval =
      s.buffer.sem .full + q'.length + (s.printers j).pc.owesRemoval)
    (hempty : b.sem .empty + q'.length + p.pc.owesEmpty =
      s.buffer.sem .empty + q.length + (s.printers j).pc.owesEmpty)
    (hused : b.sem .used + p.pc.inside = s.buffer.sem .used + (s.printers j).pc.inside)
    (hin : b.inIdx = ringSlot b.outIdx q'.length) (hslots : RingHolds b.tasks b.outIdx q')
    (htask : ∀ t ∈ q', IsTask t) (hp : PrinterOk b p)
    (hprod : ∀ i, ProducerOk b (s.producers i))
    (hothers : ∀ k, k ≠ j → PrinterOk b (s.printers k)) :
    Represents { s with buffer := b, printers := Function.update s.printers j p } q' := by
  have h₁ := tokens_update (fun p : Printer => p.pc.owesRemoval) s.printers j p
  have h₂ := tokens_update (fun p : Printer => p.pc.owesEmpty) s.printers j p
  have h₃ := tokens_update (fun p : Printer => p.pc.inside) s.printers j p
  have hf := h.fulls
  have he := h.empties
  have hm := h.mutex
  refine ⟨?_, ?_, ?_, hin, hslots, htask, hprod, ?_⟩
  · simp only at h₁ ⊢; omega
  · simp only at h₂ ⊢; omega
  · simp only at h₃ ⊢; omega
  · intro k
    by_cases hk : k = j
    · subst hk; simpa using hp
    · simpa [hk] using hothers k hk

end

end SystemyOperacyjne.PrintQueue
