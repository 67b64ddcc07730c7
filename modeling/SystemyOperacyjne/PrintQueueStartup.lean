import SystemyOperacyjne.PrintQueueDrain

/-!
# The printers program starts while clients run

`main` of the printers program sets the three semaphores and then the two indices, and forks the
printers after that. A client needs only the segment and the semaphores, so its producers may be
anywhere in their loops while this happens, and what the segment holds before is arbitrary.
-/

namespace SystemyOperacyjne.PrintQueue
open Concurrency

/-- The next statement of the initialisation: the semaphore or the index it sets. -/
inductive Stage
  | empty
  | full
  | used
  | inIdx
  | outIdx
  | done
  deriving DecidableEq, Repr

/-- The system with a record of the producers whose last `empty--` was on the new semaphore, of the
tasks they have written since, and of those the printers have taken. -/
structure Startup (N M : ℕ) where
  stage : Stage
  state : State N M
  fresh : Fin N → Bool
  written : List Task
  taken : List Task

inductive StartupAction (N M : ℕ)
  | initialise
  | process (a : Action N M)

lemma buffer_size_pos : 0 < BUFFER_SIZE := by decide

def firstSlot : Fin BUFFER_SIZE :=
  ⟨0, buffer_size_pos⟩

variable {N M : ℕ}

/-- `sem_init`, or `semctl` with `SETVAL`. -/
def State.setSem (s : State N M) (x : Sem) (value : ℕ) : State N M :=
  { s with buffer := { s.buffer with sem := Function.update s.buffer.sem x value } }

def State.setIn (s : State N M) (k : Fin BUFFER_SIZE) : State N M :=
  { s with buffer := { s.buffer with inIdx := k } }

def State.setOut (s : State N M) (k : Fin BUFFER_SIZE) : State N M :=
  { s with buffer := { s.buffer with outIdx := k } }

/-- One statement of the initialisation. -/
def Startup.initialise (u : Startup N M) : Option (Startup N M) :=
  match u.stage with
  | .empty => some { u with stage := .full, state := u.state.setSem .empty BUFFER_SIZE }
  | .full => some { u with stage := .used, state := u.state.setSem .full 0 }
  | .used => some { u with stage := .inIdx, state := u.state.setSem .used 1 }
  | .inIdx => some { u with stage := .outIdx, state := u.state.setIn firstSlot }
  | .outIdx => some { u with stage := .done, state := u.state.setOut firstSlot }
  | .done => none

/-- The printers are forked after the initialisation. -/
def Startup.started (u : Startup N M) : Action N M → Bool
  | .producer _ _ => true
  | .printer _ => decide (u.stage = .done)

def Startup.after (u : Startup N M) (t : State N M) : Action N M → Startup N M
  | .producer i _ =>
    let p := u.state.producers i
    { u with
      state := t
      fresh := if p.pc = .waitEmpty then Function.update u.fresh i (decide (u.stage ≠ .empty)) else u.fresh
      written := if p.pc = .advance ∧ u.fresh i = true then u.written ++ [p.task] else u.written }
  | .printer j =>
    let p := u.state.printers j
    { u with
      state := t
      taken := if p.pc = .advance then u.taken ++ [p.task] else u.taken }

def startupStep (v : Variant) (u : Startup N M) : StartupAction N M → Option (Startup N M)
  | .initialise => u.initialise
  | .process a => if u.started a then (step v u.state a).map fun t => u.after t a else none

/-- No process is in its loop yet; the shared segment holds anything. -/
structure Startup.Begins (u : Startup N M) : Prop where
  stage : u.stage = .empty
  producers : ∀ i, (u.state.producers i).pc = .waitEmpty
  printers : ∀ j, (u.state.printers j).pc = .waitFull
  fresh : ∀ i, u.fresh i = false
  written : u.written = []
  taken : u.taken = []

def startup (v : Variant) (N M : ℕ) : Machine (Startup N M) (StartupAction N M) where
  init := Startup.Begins
  next := startupStep v

/-- Once the printers run, the tasks written with the new semaphores are those taken and those in the
slots from `out` on, in this order. Each is taken before many more steps are made, and until then there is
a step that begins no new task. -/
structure Delivered (v : Variant) (u : Startup N M) : Prop where
  order : ∃ q, u.written = u.taken ++ q ∧ RingHolds u.state.buffer.tasks u.state.buffer.outIdx q
  bounded : ∃ n, ∀ as t, (startup v N M).exec u as = some t → n ≤ as.length → u.written <+: t.taken
  goesOn : u.written ≠ u.taken → 0 < M → ∃ a t, u.state.Continues a ∧ startupStep v u (.process a) = some t

/-- Between the computation of the destination and the advance of `in`. -/
def ProducerPc.AtSlot : ProducerPc → Prop
  | .copy _ _ | .advance => True
  | _ => False

/-- What the producers do in time: nobody is past its `empty--` on the old semaphore, and nothing written
has been posted, when `full` is set; nobody is in the critical section when `used` is set; and setting
`in` takes it from no producer and from no task written. -/
def Clean (u : Startup N M) : StartupAction N M → Prop
  | .process _ => True
  | .initialise =>
    match u.stage with
    | .full => (∀ i, (u.state.producers i).pc ≠ .waitEmpty → u.fresh i = true) ∧
        tokens (fun p => p.pc.owesFull) u.state.producers = u.written.length
    | .used => ∀ i, (u.state.producers i).pc.inside = 0
    | .inIdx => (u.written = [] ∧ ∀ i, ¬(u.state.producers i).pc.AtSlot) ∨
        (u.state.buffer.inIdx = firstSlot ∧ RingHolds u.state.buffer.tasks firstSlot u.written ∧
          (u.written = [] ∨ u.written.length = BUFFER_SIZE))
    | .empty | .outIdx | .done => True

/-! ### Before the printers run -/

/-- What a producer knows of its own task. -/
def Composed (p : Producer) : Prop :=
  match p.pc with
  | .strcpy | .advance => IsTask p.task
  | .copy _ k => IsTask p.task ∧ k ≤ 10
  | .overrun => False
  | _ => True

structure Unstarted (u : Startup N M) : Prop where
  printers : ∀ j, (u.state.printers j).pc = .waitFull
  taken : u.taken = []
  composed : ∀ i, Composed (u.state.producers i)
  isTask : ∀ t ∈ u.written, IsTask t

/-- Nobody is past its `empty--` on the old semaphore. -/
def AllFresh (u : Startup N M) : Prop :=
  ∀ i, (u.state.producers i).pc ≠ .waitEmpty → u.fresh i = true

/-- What the producers past their `empty--` on the new semaphore owe. -/
def freshOwes (x : Producer × Bool) : ℕ :=
  if x.2 then x.1.pc.owesTask else 0

def FreshCounted (u : Startup N M) : Prop :=
  u.state.buffer.sem .empty + tokens freshOwes (fun i => (u.state.producers i, u.fresh i)) + u.written.length = BUFFER_SIZE

structure Counted (u : Startup N M) : Prop where
  empties : u.state.buffer.sem .empty + tokens (fun p => p.pc.owesTask) u.state.producers + u.written.length = BUFFER_SIZE
  fulls : u.state.buffer.sem .full + tokens (fun p => p.pc.owesFull) u.state.producers = u.written.length

structure Exclusive (u : Startup N M) : Prop where
  mutex : u.state.buffer.sem .used + tokens (fun p => p.pc.inside) u.state.producers = 1
  producing : ∀ i, ProducerOk u.state.buffer (u.state.producers i)

/-- What holds at each stage of a run whose initialisation meets `Clean`. -/
def Settled (u : Startup N M) : Prop :=
  match u.stage with
  | .empty => Unstarted u ∧ (∀ i, u.fresh i = false) ∧ u.written = []
  | .full => Unstarted u ∧ FreshCounted u
  | .used => Unstarted u ∧ AllFresh u ∧ Counted u
  | .inIdx => Unstarted u ∧ AllFresh u ∧ Counted u ∧ Exclusive u
  | .outIdx => Unstarted u ∧ AllFresh u ∧ Represents (u.state.setOut firstSlot) u.written
  | .done => AllFresh u ∧ ∃ q, u.written = u.taken ++ q ∧ Represents u.state q

lemma composed_step {letters : Fin 10 → Fin 26} {b b' : Buffer} {p p' : Producer} (h : Composed p)
    (hm : ProducerMove letters b p b' p') : Composed p' := by
  cases hm with
  | takesEmpty | takesUsed | advances | postsUsed | postsFull => trivial
  | composes => exact isTask_composeTask letters
  | finds hpc =>
    simp only [Composed, hpc] at h
    exact ⟨h, Nat.zero_le _⟩
  | @copies slot k hpc hk hbyte =>
    simp only [Composed, hpc] at h
    obtain ⟨htask, hk10⟩ := h
    have hne : k ≠ 10 := fun he => hbyte (htask.byte_eq_zero.mpr he)
    exact ⟨htask, by omega⟩
  | copiesLast hpc =>
    simp only [Composed, hpc] at h
    exact h.1
  | overruns hpc hk =>
    simp only [Composed, hpc] at h
    omega

lemma producer_keeps_empty {letters : Fin 10 → Fin 26} {b b' : Buffer} {p p' : Producer} (hne : p.pc ≠ .waitEmpty)
    (hm : ProducerMove letters b p b' p') : b'.sem .empty = b.sem .empty := by
  cases hm with
  | takesEmpty hpc => exact absurd hpc hne
  | takesUsed | postsUsed | postsFull => simp
  | composes | finds | copies | copiesLast | overruns | advances => rfl

/-! ### A producer moves -/

/-- The state of the system after a producer's step. -/
def Startup.moved (u : Startup N M) (i : Fin N) (letters : Fin 10 → Fin 26) (b : Buffer) (p : Producer) :
    Startup N M :=
  u.after { u.state with buffer := b, producers := Function.update u.state.producers i p } (.producer i letters)

section
variable {u : Startup N M} {v : Variant} {i : Fin N} {letters : Fin 10 → Fin 26} {b : Buffer} {p : Producer}

lemma moved_fresh_of_ne {j : Fin N} (hj : j ≠ i) : (u.moved i letters b p).fresh j = u.fresh j := by
  simp only [Startup.moved, Startup.after]
  split
  · exact Function.update_of_ne hj _ _
  · rfl

lemma moved_written (hfresh : (u.state.producers i).pc = .advance → u.fresh i = true) :
    (u.moved i letters b p).written =
      if (u.state.producers i).pc = .advance then u.written ++ [(u.state.producers i).task] else u.written := by
  by_cases hpc : (u.state.producers i).pc = .advance
  · simp [Startup.moved, Startup.after, hpc, hfresh hpc]
  · simp [Startup.moved, Startup.after, hpc]

lemma moved_written_length (hfresh : (u.state.producers i).pc = .advance → u.fresh i = true) :
    (u.moved i letters b p).written.length = u.written.length + (u.state.producers i).pc.inserts := by
  rw [moved_written hfresh]
  by_cases hpc : (u.state.producers i).pc = .advance
  · simp [hpc, ProducerPc.inserts]
  · simp [hpc, ProducerPc.inserts]

lemma AllFresh.of_advance (h : AllFresh u) (hpc : (u.state.producers i).pc = .advance) : u.fresh i = true :=
  h i (by rw [hpc]; decide)

lemma AllFresh.moved (h : AllFresh u) (hstage : u.stage ≠ .empty) : AllFresh (u.moved i letters b p) := by
  intro i' hi'
  by_cases hi : i' = i
  · subst hi
    by_cases hpc : (u.state.producers i').pc = .waitEmpty
    · simp [Startup.moved, Startup.after, hpc, hstage]
    · simpa [Startup.moved, Startup.after, hpc] using h i' hpc
  · have hpc : (u.state.producers i').pc ≠ .waitEmpty := by
      simpa [Startup.moved, Startup.after, Function.update_of_ne hi] using hi'
    rw [moved_fresh_of_ne hi]
    exact h i' hpc

lemma Unstarted.moved (h : Unstarted u) (hm : ProducerMove letters u.state.buffer (u.state.producers i) b p) :
    Unstarted (u.moved i letters b p) := by
  refine ⟨h.printers, h.taken, fun i' => ?_, fun t ht => ?_⟩
  · by_cases hi : i' = i
    · subst hi
      simpa [Startup.moved, Startup.after] using composed_step (h.composed i') hm
    · simpa [Startup.moved, Startup.after, Function.update_of_ne hi] using h.composed i'
  · simp only [Startup.moved, Startup.after] at ht
    split at ht
    case isTrue hadvance =>
      rcases List.mem_append.mp ht with hold | hnew
      · exact h.isTask t hold
      · have hcomposed := h.composed i
        simp only [Composed, hadvance.1] at hcomposed
        rwa [List.mem_singleton.mp hnew]
    case isFalse => exact h.isTask t ht

lemma Counted.moved (h : Counted u) (hfresh : AllFresh u)
    (hm : ProducerMove letters u.state.buffer (u.state.producers i) b p) :
    Counted (u.moved i letters b p) := by
  obtain ⟨hfull, hempty, -⟩ := producer_exact hm
  have htask := tokens_update (fun p : Producer => p.pc.owesTask) u.state.producers i p
  have hpost := tokens_update (fun p : Producer => p.pc.owesFull) u.state.producers i p
  have hlength : (u.moved i letters b p).written.length = u.written.length + (u.state.producers i).pc.inserts :=
    moved_written_length hfresh.of_advance
  have he := h.empties
  have hf := h.fulls
  constructor
  · rw [hlength]
    simp only [Startup.moved, Startup.after] at htask ⊢
    omega
  · rw [hlength]
    simp only [Startup.moved, Startup.after] at hpost ⊢
    omega

lemma Exclusive.alone (h : Exclusive u) (hi : (u.state.producers i).pc.inside = 1) {j : Fin N} (hj : j ≠ i) :
    (u.state.producers j).pc.inside = 0 := by
  have hmutex := h.mutex
  have := add_le_tokens (fun p : Producer => p.pc.inside) u.state.producers hj
  omega

lemma ProducerPc.inside_eq (pc : ProducerPc) : pc.inside = 0 ∨ pc.inside = 1 := by
  cases pc <;> simp [ProducerPc.inside]

lemma Exclusive.moved (h : Exclusive u) (hm : ProducerMove letters u.state.buffer (u.state.producers i) b p) :
    Exclusive (u.moved i letters b p) := by
  have hok := producerOk_step (h.producing i) hm
  obtain ⟨-, -, hused⟩ := producer_exact hm
  have htokens := tokens_update (fun p : Producer => p.pc.inside) u.state.producers i p
  have hmutex := h.mutex
  constructor
  · simp only [Startup.moved, Startup.after] at htokens ⊢
    omega
  · intro j
    by_cases hj : j = i
    · subst hj
      simpa [Startup.moved, Startup.after] using hok
    · simp only [Startup.moved, Startup.after, Function.update_of_ne hj]
      rcases ProducerPc.inside_eq (u.state.producers i).pc with hout | hin
      · have hne : (u.state.producers i).pc ≠ .advance := by
          intro hpc
          rw [hpc] at hout
          cases hout
        obtain ⟨hsame, -, htasks | ⟨-, hinside, -⟩⟩ := producer_frame (h.producing i) hm hne
        · exact (h.producing j).congr htasks hsame
        · omega
      · exact (h.producing j).of_outside (h.alone hin hj)

lemma freshCounted_of_none (hfresh : ∀ i, u.fresh i = false) (hwritten : u.written = [])
    (hempty : u.state.buffer.sem .empty = BUFFER_SIZE) : FreshCounted u := by
  have hzero : tokens freshOwes (fun i => (u.state.producers i, u.fresh i)) = 0 := by
    apply tokens_eq_zero
    intro i
    simp [freshOwes, hfresh i]
  simp only [FreshCounted, hzero, hwritten, hempty, List.length_nil]

/-- What a step changes in the account of `empty`. A producer past its `empty--` on the old semaphore
changes nothing. -/
lemma fresh_account (hstage : u.stage ≠ .empty)
    (hm : ProducerMove letters u.state.buffer (u.state.producers i) b p) :
    b.sem .empty + freshOwes (p, (u.moved i letters b p).fresh i) + (u.moved i letters b p).written.length =
      u.state.buffer.sem .empty + freshOwes (u.state.producers i, u.fresh i) + u.written.length := by
  obtain ⟨-, hempty, -⟩ := producer_exact hm
  by_cases hpc : (u.state.producers i).pc = .waitEmpty
  · have hfresh : (u.moved i letters b p).fresh i = true := by
      simp [Startup.moved, Startup.after, hpc, hstage]
    have hwritten : (u.moved i letters b p).written = u.written := by
      simp [Startup.moved, Startup.after, hpc]
    have howes : freshOwes (u.state.producers i, u.fresh i) = 0 := by
      simp [freshOwes, hpc, ProducerPc.owesTask]
    have hzero : (u.state.producers i).pc.owesTask = 0 ∧ (u.state.producers i).pc.inserts = 0 := by
      rw [hpc]
      exact ⟨rfl, rfl⟩
    rw [hfresh, hwritten, howes]
    simp only [freshOwes, if_true]
    omega
  · have hfresh : (u.moved i letters b p).fresh = u.fresh := by
      simp [Startup.moved, Startup.after, hpc]
    have hsame := producer_keeps_empty hpc hm
    rw [hfresh, hsame]
    cases hi : u.fresh i with
    | true =>
      have hlength : (u.moved i letters b p).written.length =
          u.written.length + (u.state.producers i).pc.inserts := moved_written_length fun _ => hi
      simp only [freshOwes, if_true]
      omega
    | false =>
      have hwritten : (u.moved i letters b p).written = u.written := by
        simp [Startup.moved, Startup.after, hi]
      rw [hwritten]
      rfl

lemma FreshCounted.moved (h : FreshCounted u) (hstage : u.stage ≠ .empty)
    (hm : ProducerMove letters u.state.buffer (u.state.producers i) b p) :
    FreshCounted (u.moved i letters b p) := by
  have hpairs : (fun j => ((u.moved i letters b p).state.producers j, (u.moved i letters b p).fresh j)) =
      Function.update (fun j => (u.state.producers j, u.fresh j)) i (p, (u.moved i letters b p).fresh i) := by
    funext j
    by_cases hj : j = i
    · subst hj
      simp [Startup.moved, Startup.after]
    · rw [moved_fresh_of_ne hj, Function.update_of_ne hj]
      simp [Startup.moved, Startup.after, Function.update_of_ne hj]
  have htokens := tokens_update freshOwes (fun j => (u.state.producers j, u.fresh j)) i
    (p, (u.moved i letters b p).fresh i)
  have haccount := fresh_account hstage hm
  have hbuffer : (u.moved i letters b p).state.buffer = b := rfl
  simp only [FreshCounted] at h ⊢
  rw [hpairs, hbuffer]
  omega

end

/-! ### Runs -/

lemma ProducerMove.setOut {letters : Fin 10 → Fin 26} {b b' : Buffer} {p p' : Producer} (k : Fin BUFFER_SIZE)
    (hm : ProducerMove letters b p b' p') :
    ProducerMove letters { b with outIdx := k } p { b' with outIdx := k } p' := by
  cases hm with
  | takesEmpty hpc hpos => exact .takesEmpty hpc hpos
  | takesUsed hpc hpos => exact .takesUsed hpc hpos
  | composes hpc => exact .composes hpc
  | finds hpc => exact .finds (b := { b with outIdx := k }) hpc
  | copies hpc hk hbyte => exact .copies (b := { b with outIdx := k }) hpc hk hbyte
  | copiesLast hpc hk hbyte => exact .copiesLast (b := { b with outIdx := k }) hpc hk hbyte
  | overruns hpc hk => exact .overruns hpc hk
  | advances hpc => exact .advances (b := { b with outIdx := k }) hpc
  | postsUsed hpc => exact .postsUsed (b := { b with outIdx := k }) hpc
  | postsFull hpc => exact .postsFull (b := { b with outIdx := k }) hpc

lemma written_of_queueOp {s : State N M} {q q' : List Task} {i : Fin N} {letters : Fin 10 → Fin 26}
    (h : (boundedFifo Task BUFFER_SIZE).exec q (queueOp s (Action.producer (M := M) i letters)).toList = some q') :
    q' = if (s.producers i).pc = .advance then q ++ [(s.producers i).task] else q := by
  by_cases hpc : (s.producers i).pc = .advance
  · simp only [queueOp, hpc, if_true, Option.toList_some, Machine.exec_singleton] at h ⊢
    exact (boundedFifo_enqueue_eq_some.mp h).2.symm
  · simp only [queueOp, if_neg hpc, Option.toList_none, Machine.exec_nil, Option.some.injEq] at h ⊢
    exact h.symm

lemma taken_of_queueOp {s : State N M} {q q' : List Task} {j : Fin M}
    (h : (boundedFifo Task BUFFER_SIZE).exec q (queueOp s (Action.printer (N := N) j)).toList = some q') :
    q = if (s.printers j).pc = .advance then (s.printers j).task :: q' else q' := by
  by_cases hpc : (s.printers j).pc = .advance
  · simp only [queueOp, hpc, if_true, Option.toList_some, Machine.exec_singleton] at h ⊢
    exact boundedFifo_dequeue_eq_some.mp h
  · simp only [queueOp, if_neg hpc, Option.toList_none, Machine.exec_nil, Option.some.injEq] at h ⊢
    exact h

section
variable {u w : Startup N M} {v : Variant}

lemma Settled.producer {i : Fin N} {letters : Fin 10 → Fin 26} {b : Buffer} {p : Producer} (h : Settled u)
    (hm : ProducerMove letters u.state.buffer (u.state.producers i) b p) :
    Settled (u.moved i letters b p) := by
  have hsame : (u.moved i letters b p).stage = u.stage := rfl
  cases hstage : u.stage with
  | empty =>
    simp only [Settled, hstage] at h
    obtain ⟨hun, hfresh, hwritten⟩ := h
    simp only [Settled, hsame, hstage]
    refine ⟨hun.moved hm, fun i' => ?_, ?_⟩
    · by_cases hi : i' = i
      · subst hi
        by_cases hpc : (u.state.producers i').pc = .waitEmpty
        · simp [Startup.moved, Startup.after, hpc, hstage]
        · simpa [Startup.moved, Startup.after, hpc] using hfresh i'
      · rw [moved_fresh_of_ne hi]
        exact hfresh i'
    · simpa [Startup.moved, Startup.after, hfresh i] using hwritten
  | full =>
    simp only [Settled, hstage] at h
    obtain ⟨hun, hcount⟩ := h
    simp only [Settled, hsame, hstage]
    exact ⟨hun.moved hm, hcount.moved (by rw [hstage]; decide) hm⟩
  | used =>
    simp only [Settled, hstage] at h
    obtain ⟨hun, hfresh, hcount⟩ := h
    simp only [Settled, hsame, hstage]
    exact ⟨hun.moved hm, hfresh.moved (by rw [hstage]; decide), hcount.moved hfresh hm⟩
  | inIdx =>
    simp only [Settled, hstage] at h
    obtain ⟨hun, hfresh, hcount, hexclusive⟩ := h
    simp only [Settled, hsame, hstage]
    exact ⟨hun.moved hm, hfresh.moved (by rw [hstage]; decide), hcount.moved hfresh hm, hexclusive.moved hm⟩
  | outIdx =>
    simp only [Settled, hstage] at h
    obtain ⟨hun, hfresh, hrep⟩ := h
    obtain ⟨q, hq, hnext⟩ := hrep.producer_step (i := i) (hm.setOut firstSlot)
    have hwritten := written_of_queueOp hq
    simp only [Settled, hsame, hstage]
    refine ⟨hun.moved hm, hfresh.moved (by rw [hstage]; decide), ?_⟩
    rw [moved_written hfresh.of_advance]
    simp only [State.setOut] at hwritten
    rwa [hwritten] at hnext
  | done =>
    simp only [Settled, hstage] at h
    obtain ⟨hfresh, q, hsplit, hrep⟩ := h
    obtain ⟨q', hq, hnext⟩ := hrep.producer_step hm
    have hwritten := written_of_queueOp hq
    simp only [Settled, hsame, hstage]
    refine ⟨hfresh.moved (by rw [hstage]; decide), q', ?_, hnext⟩
    rw [moved_written hfresh.of_advance, hwritten, hsplit]
    simp only [Startup.moved, Startup.after]
    split
    · rw [List.append_assoc]
    · rfl

lemma Settled.printer {j : Fin M} {b : Buffer} {p : Printer} (h : Settled u) (hdone : u.stage = .done)
    (hm : PrinterMove u.state.buffer (u.state.printers j) b p) :
    Settled (u.after { u.state with buffer := b, printers := Function.update u.state.printers j p } (.printer j)) := by
  simp only [Settled, hdone] at h
  obtain ⟨hfresh, q, hsplit, hrep⟩ := h
  obtain ⟨q', hq, hnext⟩ := hrep.printer_step hm
  have htaken := taken_of_queueOp hq
  simp only [Settled, Startup.after, hdone]
  refine ⟨hfresh, q', ?_, hnext⟩
  rw [hsplit, htaken]
  split
  · rw [List.append_assoc, List.singleton_append]
  · rfl

/-- Setting `full` makes up for nothing that has been posted. -/
lemma counted_of_freshCounted (h : FreshCounted u) (hfresh : AllFresh u)
    (hposts : tokens (fun p => p.pc.owesFull) u.state.producers = u.written.length) :
    Counted { u with stage := .used, state := u.state.setSem .full 0 } := by
  have howes : tokens freshOwes (fun i => (u.state.producers i, u.fresh i)) =
      tokens (fun p => p.pc.owesTask) u.state.producers := by
    refine Finset.sum_congr rfl fun i _ => ?_
    by_cases hpc : (u.state.producers i).pc = .waitEmpty
    · simp [freshOwes, hpc, ProducerPc.owesTask]
    · simp [freshOwes, hfresh i hpc]
  constructor
  · have hcount := h
    simp only [FreshCounted, howes] at hcount
    simpa [State.setSem] using hcount
  · simpa [State.setSem] using hposts

lemma producerOk_of_outside {b : Buffer} {p : Producer} (h : p.pc.inside = 0) : ProducerOk b p := by
  cases hpc : p.pc <;> simp [ProducerOk, hpc, ProducerPc.inside] at h ⊢

/-- With both indices at the first slot the buffer holds what has been written. -/
lemma represents_of_clean (hun : Unstarted u) (hcount : Counted u) (hexclusive : Exclusive u)
    (hclean : (u.written = [] ∧ ∀ i, ¬(u.state.producers i).pc.AtSlot) ∨
      (u.state.buffer.inIdx = firstSlot ∧ RingHolds u.state.buffer.tasks firstSlot u.written ∧
        (u.written = [] ∨ u.written.length = BUFFER_SIZE))) :
    Represents ((u.state.setIn firstSlot).setOut firstSlot) u.written := by
  have hwaiting : ∀ w : PrinterPc → ℕ, w .waitFull = 0 → tokens (fun p => w p.pc) u.state.printers = 0 :=
    fun w hw => tokens_eq_zero fun j => by rw [hun.printers j, hw]
  have hf := hcount.fulls
  have he := hcount.empties
  have hm := hexclusive.mutex
  refine ⟨?_, ?_, ?_, ?_, ?_, hun.isTask, fun i => ?_, fun j => ?_⟩
  · simp only [State.setIn, State.setOut, hwaiting PrinterPc.owesRemoval rfl]
    omega
  · simp only [State.setIn, State.setOut, hwaiting PrinterPc.owesEmpty rfl]
    omega
  · simp only [State.setIn, State.setOut, hwaiting PrinterPc.inside rfl]
    omega
  · rcases hclean with ⟨hnone, -⟩ | ⟨-, -, hnone | hall⟩
    · simp [State.setIn, State.setOut, hnone]
    · simp [State.setIn, State.setOut, hnone]
    · simp only [State.setIn, State.setOut, hall]
      rfl
  · rcases hclean with ⟨hnone, -⟩ | ⟨-, hholds, -⟩
    · rw [hnone]
      exact fun k hk => absurd hk (Nat.not_lt_zero k)
    · exact hholds
  · have hok := hexclusive.producing i
    rcases hclean with ⟨-, hslot⟩ | ⟨hin, -⟩
    · have hi := hslot i
      cases hpc : (u.state.producers i).pc <;>
        simp only [ProducerOk, ProducerPc.AtSlot, State.setIn, State.setOut, hpc] at hok hi ⊢
      · exact hok
      · exact (hi trivial).elim
      · exact (hi trivial).elim
    · exact hok.congr rfl hin.symm
  · simp [PrinterOk, State.setIn, State.setOut, hun.printers j]

lemma Settled.initialise (h : Settled u) (hclean : Clean u .initialise) (hs : u.initialise = some w) : Settled w := by
  cases hstage : u.stage with
  | empty =>
    simp only [Startup.initialise, hstage, Option.some.injEq] at hs
    subst hs
    simp only [Settled, hstage] at h
    obtain ⟨hun, hfresh, hwritten⟩ := h
    refine ⟨⟨hun.printers, hun.taken, hun.composed, hun.isTask⟩, freshCounted_of_none hfresh hwritten ?_⟩
    simp [State.setSem]
  | full =>
    simp only [Startup.initialise, hstage, Option.some.injEq] at hs
    subst hs
    simp only [Settled, hstage] at h
    simp only [Clean, hstage] at hclean
    obtain ⟨hun, hcount⟩ := h
    obtain ⟨hfresh, hposts⟩ := hclean
    exact ⟨⟨hun.printers, hun.taken, hun.composed, hun.isTask⟩, hfresh, counted_of_freshCounted hcount hfresh hposts⟩
  | used =>
    simp only [Startup.initialise, hstage, Option.some.injEq] at hs
    subst hs
    simp only [Settled, hstage] at h
    simp only [Clean, hstage] at hclean
    obtain ⟨hun, hfresh, hcount⟩ := h
    refine ⟨⟨hun.printers, hun.taken, hun.composed, hun.isTask⟩, hfresh, ⟨?_, ?_⟩, ?_, fun i => ?_⟩
    · simpa [State.setSem] using hcount.empties
    · simpa [State.setSem] using hcount.fulls
    · simp only [State.setSem, Function.update_self]
      rw [tokens_eq_zero (w := fun p : Producer => p.pc.inside) hclean]
    · exact producerOk_of_outside (hclean i)
  | inIdx =>
    simp only [Startup.initialise, hstage, Option.some.injEq] at hs
    subst hs
    simp only [Settled, hstage] at h
    simp only [Clean, hstage] at hclean
    obtain ⟨hun, hfresh, hcount, hexclusive⟩ := h
    exact ⟨⟨hun.printers, hun.taken, hun.composed, hun.isTask⟩, hfresh,
      represents_of_clean hun hcount hexclusive hclean⟩
  | outIdx =>
    simp only [Startup.initialise, hstage, Option.some.injEq] at hs
    subst hs
    simp only [Settled, hstage] at h
    obtain ⟨hun, hfresh, hrep⟩ := h
    exact ⟨hfresh, u.written, by simp [hun.taken], hrep⟩
  | done => simp [Startup.initialise, hstage] at hs

lemma startupStep_process {a : Action N M} (hs : startupStep v u (.process a) = some w) :
    u.started a = true ∧ ∃ t, step v u.state a = some t ∧ w = u.after t a := by
  simp only [startupStep] at hs
  split at hs
  case isTrue hstarted =>
    obtain ⟨t, ht, rfl⟩ := Option.map_eq_some_iff.mp hs
    exact ⟨hstarted, t, ht, rfl⟩
  case isFalse => cases hs

lemma Settled.step {a : StartupAction N M} (h : Settled u) (hclean : Clean u a) (hs : startupStep v u a = some w) :
    Settled w := by
  cases a with
  | initialise => exact h.initialise hclean hs
  | process a =>
    obtain ⟨hstarted, t, ht, rfl⟩ := startupStep_process hs
    cases a with
    | producer i letters =>
      obtain ⟨⟨b, p⟩, hp, rfl⟩ := Option.map_eq_some_iff.mp ht
      exact h.producer (producer_cases hp)
    | printer j =>
      obtain ⟨⟨b, p⟩, hp, rfl⟩ := Option.map_eq_some_iff.mp ht
      exact h.printer (of_decide_eq_true hstarted) (printer_cases hp)

lemma settled_of_reachable (h : (startup v N M).ReachableBy Clean u) : Settled u := by
  apply h.invariant (I := Settled)
  · intro w hw
    simp only [Settled, hw.stage]
    refine ⟨⟨hw.printers, hw.taken, fun i => ?_, ?_⟩, hw.fresh, hw.written⟩
    · simp [Composed, hw.producers i]
    · simp [hw.written]
  · exact fun w a w' hw hclean hs => hw.step hclean hs

end

/-! ### All tasks are taken -/

section
variable {u w : Startup N M} {v : Variant}

lemma process_work {a : StartupAction N M} (hdone : u.stage = .done) (hs : startupStep v u a = some w) :
    w.stage = .done ∧ u.written <+: w.written ∧
      w.state.work + 37 * u.taken.length < u.state.work + 37 * w.taken.length := by
  cases a with
  | initialise => simp [startupStep, Startup.initialise, hdone] at hs
  | process a =>
    obtain ⟨-, t, ht, rfl⟩ := startupStep_process hs
    have hwork := step_work ht
    cases a with
    | producer i letters =>
      simp only [takes] at hwork
      refine ⟨hdone, ?_, ?_⟩
      · simp only [Startup.after]
        split
        · exact List.prefix_append _ _
        · exact List.prefix_refl _
      · simp only [Startup.after]
        omega
    | printer j =>
      refine ⟨hdone, List.prefix_refl _, ?_⟩
      by_cases hpc : (u.state.printers j).pc = .advance
      · simp only [takes, PrinterPc.removes, hpc, if_true] at hwork
        simp only [Startup.after, hpc, if_true, List.length_append, List.length_singleton]
        omega
      · simp only [takes, PrinterPc.removes, if_neg hpc] at hwork
        simp only [Startup.after, if_neg hpc]
        omega

lemma run_work {as : List (StartupAction N M)} (hdone : u.stage = .done)
    (hrun : (startup v N M).exec u as = some w) :
    w.stage = .done ∧ u.written <+: w.written ∧
      w.state.work + 37 * u.taken.length + as.length ≤ u.state.work + 37 * w.taken.length := by
  induction as generalizing u with
  | nil =>
    obtain rfl : u = w := by simpa using hrun
    exact ⟨hdone, List.prefix_refl _, le_rfl⟩
  | cons a as ih =>
    obtain ⟨x, hx, hrest⟩ := Machine.exec_cons_eq_some.mp hrun
    obtain ⟨hdone', hwritten, hwork⟩ := process_work hdone hx
    obtain ⟨hw, hwritten', hwork'⟩ := ih hdone' hrest
    refine ⟨hw, hwritten.trans hwritten', ?_⟩
    rw [List.length_cons]
    omega

/-- Every step that is made once the printers run meets the condition on the initialisation. -/
lemma settled_of_run {as : List (StartupAction N M)} (h : Settled u) (hdone : u.stage = .done)
    (hrun : (startup v N M).exec u as = some w) : Settled w := by
  have hboth : Settled w ∧ w.stage = .done := by
    refine Machine.exec_keeps (M := startup v N M) (I := fun x => Settled x ∧ x.stage = .done) ?_ hrun ⟨h, hdone⟩
    rintro x a y hy ⟨hx, hstage⟩
    refine ⟨hx.step ?_ hy, (process_work hstage hy).1⟩
    cases a with
    | initialise => simp [Clean, hstage]
    | process a => trivial
  exact hboth.1

/-- In every run whose initialisation finds the producers in time, each task written with the new semaphores
is taken, in the order in which they are written. -/
theorem startup_delivered (h : (startup v N M).ReachableBy Clean u) (hdone : u.stage = .done) : Delivered v u := by
  have hsettled := settled_of_reachable h
  have hu := hsettled
  simp only [Settled, hdone] at hu
  obtain ⟨-, q, hsplit, hrep⟩ := hu
  refine ⟨⟨q, hsplit, hrep.slots⟩, ⟨u.state.work + 37 * q.length, ?_⟩, ?_⟩
  · intro as t hrun hlong
    obtain ⟨ht, hwritten, hwork⟩ := run_work hdone hrun
    have hlast := settled_of_run hsettled hdone hrun
    simp only [Settled, ht] at hlast
    obtain ⟨-, r, hsplit', -⟩ := hlast
    have htaken : t.taken <+: t.written := by
      rw [hsplit']
      exact List.prefix_append _ _
    apply List.prefix_of_prefix_length_le hwritten htaken
    rw [hsplit, List.length_append]
    omega
  · intro hne hM
    have hq : q ≠ [] := by
      rintro rfl
      exact hne (by rw [hsplit, List.append_nil])
    obtain ⟨a, t, hcontinues, ht⟩ := hrep.progress_of_nonempty (v := v) hM hq
    have hstarted : u.started a = true := by
      cases a with
      | producer i letters => rfl
      | printer j => exact decide_eq_true hdone
    exact ⟨a, u.after t a, hcontinues, by simp only [startupStep, hstarted, if_true, ht, Option.map_some]⟩

end

/-- Five producers of one client and three printers, and a segment of zeros. -/
def zeros : Startup 5 3 where
  stage := .empty
  state := { buffer := { tasks := fun _ _ => 0, inIdx := firstSlot, outIdx := firstSlot, sem := fun _ => 0 }
             producers := fun _ => ⟨.waitEmpty, fun _ => 0⟩
             printers := fun _ => ⟨.waitFull, fun _ => 0⟩ }
  fresh _ := false
  written := []
  taken := []

lemma zeros_begins : zeros.Begins :=
  ⟨rfl, fun _ => rfl, fun _ => rfl, fun _ => rfl, rfl, rfl⟩

/-- So many steps of the first producer, which composes a task of one letter. -/
def passes (n : ℕ) (letter : Fin 26) : List (StartupAction 5 3) :=
  List.replicate n (.process (.producer 0 fun _ => letter))

/-- A producer that has computed no destination when the indices are set. -/
theorem startup_delivered_inTime : ∃ u, (startup .posix 5 3).ReachableBy Clean u ∧ u.stage = .done ∧
    u.written.length = 1 ∧ Delivered .posix u := by
  have hclean : ∀ n letter, ∀ u, ∀ a ∈ passes n letter, Clean u a := by
    intro n letter u a ha
    rw [List.eq_of_mem_replicate ha]
    trivial
  have hempty := Machine.ReachableBy.step (M := startup .posix 5 3) (P := Clean) (a := .initialise)
    (.start zeros_begins) trivial rfl
  have hfull := Machine.ReachableBy.step (a := .initialise) hempty
    (by exact ⟨fun i hi => absurd rfl hi, rfl⟩) rfl
  have hused := Machine.ReachableBy.step (a := .initialise) hfull (by exact fun i => rfl) rfl
  have hrun : ((startup .posix 5 3).exec zeros ([.initialise, .initialise, .initialise] ++ passes 3 0)).map
      (fun u => (u.stage, u.written.length, List.ofFn fun i => (u.state.producers i).pc)) =
      some (.inIdx, 0, [.strcpy, .waitEmpty, .waitEmpty, .waitEmpty, .waitEmpty]) := by
    decide +kernel
  have hrest : ((startup .posix 5 3).exec zeros (([.initialise, .initialise, .initialise] ++ passes 3 0) ++
      .initialise :: .initialise :: passes 15 0)).map (fun u => (u.stage, u.written.length)) = some (.done, 1) := by
    decide +kernel
  obtain ⟨u, hu, heq⟩ := Option.map_eq_some_iff.mp hrun
  simp only [Prod.mk.injEq] at heq
  obtain ⟨hstage, hwritten, hpcs⟩ := heq
  obtain ⟨t, ht, hlast⟩ := Option.map_eq_some_iff.mp hrest
  simp only [Prod.mk.injEq] at hlast
  rw [Machine.exec_append_of_eq hu] at ht
  obtain ⟨x, hx, hxt⟩ := Machine.exec_cons_eq_some.mp ht
  obtain ⟨y, hy, hyt⟩ := Machine.exec_cons_eq_some.mp hxt
  have hin : (startup .posix 5 3).ReachableBy Clean u := Machine.ReachableBy.exec hused (hclean 3 0) hu
  have hcleanIn : Clean u .initialise := by
    simp only [Clean, hstage]
    refine .inl ⟨List.length_eq_zero_iff.mp hwritten, ?_⟩
    have hpc := List.ofFn_injective (hpcs.trans (by rfl : _ = List.ofFn fun i : Fin 5 =>
      if i = 0 then ProducerPc.strcpy else ProducerPc.waitEmpty))
    intro i
    rw [congrFun hpc i]
    split
    · exact not_false
    · exact not_false
  have hxstage : x.stage = .outIdx := by
    simp only [startup, startupStep, Startup.initialise, hstage, Option.some.injEq] at hx
    rw [← hx]
  have hcleanOut : Clean x .initialise := by
    simp only [Clean, hxstage]
  have hreach := Machine.ReachableBy.exec (.step (.step hin hcleanIn hx) hcleanOut hy) (hclean 15 0) hyt
  exact ⟨t, hreach, hlast.1, hlast.2, startup_delivered hreach hlast.1⟩

/-- A task written before `in` is set is overwritten by the next one. -/
lemma overwritten (v : Variant) : ¬∀ u, (startup v 5 3).Reachable u → u.stage = .done → Delivered v u := by
  intro hall
  have hrun : ((startup v 5 3).exec zeros ([.initialise, .initialise, .initialise] ++ passes 18 0 ++
      [.initialise, .initialise] ++ passes 18 1)).map (fun u => (u.stage, u.taken.length,
        u.state.buffer.tasks u.state.buffer.outIdx 0, u.written.map fun t => t 0)) = some (.done, 0, 98, [97, 98]) := by
    cases v <;> decide +kernel
  obtain ⟨u, hu, heq⟩ := Option.map_eq_some_iff.mp hrun
  simp only [Prod.mk.injEq] at heq
  obtain ⟨hdone, htaken, hslot, hwritten⟩ := heq
  have hreach : (startup v 5 3).Reachable u := Machine.Reachable.exec (.start zeros_begins) hu
  obtain ⟨q, hsplit, hholds⟩ := (hall u hreach hdone).order
  rw [List.length_eq_zero_iff.mp htaken, List.nil_append] at hsplit
  subst hsplit
  have hlength : 0 < u.written.length := by
    rw [← List.length_map (fun t : Task => t 0), hwritten]
    decide
  have hfirst : (u.written.get ⟨0, hlength⟩) 0 = 97 := by
    have hmap : (u.written.map fun t => t 0)[0]? = some 97 := by rw [hwritten]; rfl
    rw [List.getElem?_map, List.getElem?_eq_getElem hlength] at hmap
    exact Option.some.inj hmap
  have hhead := hholds 0 hlength
  rw [ringSlot_zero] at hhead
  rw [hhead] at hslot
  exact absurd (hslot.symm.trans hfirst) (by decide)

theorem not_startup_delivered : (¬∀ u, (startup .posix 5 3).Reachable u → u.stage = .done → Delivered .posix u) ∧
    ¬∀ u, (startup .systemV 5 3).Reachable u → u.stage = .done → Delivered .systemV u :=
  ⟨overwritten .posix, overwritten .systemV⟩

end SystemyOperacyjne.PrintQueue
