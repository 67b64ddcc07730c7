import SystemyOperacyjne.Library.CString
import SystemyOperacyjne.Library.Journal
import SystemyOperacyjne.PrintQueueProgress

/-!
# What the print queue prints

Between two tasks a printer writes the letters of its task on the terminal, one line each, and a blank
line. A client announces each task, in `client.c` before it copies the task into the buffer, in
`clientv.c` after it has posted it. The processes of all programs write on one terminal.
-/

namespace SystemyOperacyjne.PrintQueue
open Concurrency CString

variable {N M : ℕ}

/-- What one call of `printf` writes: the announcement of a task, one character of a task, or the blank
line after it. -/
inductive Text
  | zlecilem (task : List UInt8)
  | znak (c : UInt8)
  | newline
  deriving DecidableEq

/-- The print queue with its terminal. `announcing` tells which producers are before their `printf`, and
`printing` is the counter of a printer's loop. `written` are the tasks that producers have put into the
buffer, and `taken` those that printers have taken out, both in order. `behind n` is what the memory of the
process that writes line `n` holds behind ten letters, up to the next zero byte. -/
structure Spool (N M : ℕ) where
  queue : State N M
  announcing : Fin N → Bool
  printing : Fin M → Option ℕ
  terminal : List ((Fin N ⊕ Fin M) × Text)
  written : List Task
  taken : List (Fin M × Task)
  behind : ℕ → List UInt8

/-- The ten characters of a task. -/
def letters (task : Task) : List UInt8 :=
  List.ofFn fun c : Fin 10 => task c.castSucc

/-- What `%s` writes in an announcement: `client.c` prints the ten letters before it stores the
terminator behind them. -/
def shown (v : Variant) (task : Task) (behind : List UInt8) : List UInt8 :=
  match v with
  | .posix => letters task ++ behind
  | .systemV => cString task

/-- The statement after which a producer announces its task. -/
def Variant.announcedAfter : Variant → ProducerPc
  | .posix => .compose
  | .systemV => .postFull

/-- The character that iteration `i` of the printing loop writes, if the loop does not end before. The
POSIX program stops at the terminator, the System V program after ten characters. -/
def nextChar (v : Variant) (task : Task) (i : ℕ) : Option UInt8 :=
  match v with
  | .posix => if h : i < 11 then if task ⟨i, h⟩ ≠ 0 then some (task ⟨i, h⟩) else none else none
  | .systemV => if h : i < 10 then some (task ⟨i, by omega⟩) else none

/-- One `printf` of a printer whose loop is at `i`. -/
def printLine (v : Variant) (s : Spool N M) (j : Fin M) (i : ℕ) : Spool N M :=
  match nextChar v (s.queue.printers j).task i with
  | some c => { s with
      printing := Function.update s.printing j (some (i + 1))
      terminal := s.terminal ++ [(.inr j, .znak c)] }
  | none => { s with
      printing := Function.update s.printing j none
      terminal := s.terminal ++ [(.inr j, .newline)] }

/-- The `printf` of a producer. -/
def announce (v : Variant) (s : Spool N M) (i : Fin N) : Spool N M :=
  { s with
    announcing := Function.update s.announcing i false
    terminal := s.terminal ++ [(.inl i, .zlecilem (shown v (s.queue.producers i).task (s.behind s.terminal.length)))] }

/-- What a step of the queue means for the rest. -/
def follow (v : Variant) (s : Spool N M) (queue : State N M) : Action N M → Spool N M
  | .producer i _ => { s with
      queue
      announcing := if (s.queue.producers i).pc = v.announcedAfter then Function.update s.announcing i true
        else s.announcing
      written := if (s.queue.producers i).pc = .advance then s.written ++ [(s.queue.producers i).task]
        else s.written }
  | .printer j => { s with
      queue
      printing := if (s.queue.printers j).pc = .postEmpty then Function.update s.printing j (some 0) else s.printing
      taken := if (s.queue.printers j).pc = .advance then s.taken ++ [(j, (s.queue.printers j).task)] else s.taken }

/-- One step of one process: its `printf` where it is before one, else a step of the queue. -/
def spoolStep (v : Variant) (s : Spool N M) (a : Action N M) : Option (Spool N M) :=
  match a with
  | .producer i _ => if s.announcing i then some (announce v s i)
      else (step v s.queue a).map fun queue => follow v s queue a
  | .printer j => match s.printing j with
    | some i => some (printLine v s j i)
    | none => (step v s.queue a).map fun queue => follow v s queue a

/-- The queue as the printers program leaves it, and an empty terminal. -/
structure Fresh (s : Spool N M) : Prop where
  queue : Initialised s.queue
  announcing : ∀ i, s.announcing i = false
  printing : ∀ j, s.printing j = none
  terminal : s.terminal = []
  written : s.written = []
  taken : s.taken = []

def spool (v : Variant) (N M : ℕ) : Machine (Spool N M) (Action N M) where
  init := Fresh
  next := spoolStep v

/-- One client, one printer, nothing printed. -/
def quiet : Spool 1 1 where
  queue := onePair
  announcing _ := false
  printing _ := none
  terminal := []
  written := []
  taken := []
  behind n := List.replicate n 63

lemma quiet_fresh : Fresh quiet :=
  ⟨onePair_initialised, fun _ => rfl, fun _ => rfl, rfl, rfl, rfl⟩

/-- The producer makes a full pass with its announcement. -/
def oneOrder : List (Action 1 1) :=
  List.replicate 19 (.producer ⟨0, Nat.one_pos⟩ (Fin.castLE (by decide)))

/-! ### Steps -/

/-- What a step can be. -/
inductive SpoolMove (v : Variant) (s : Spool N M) : Spool N M → Prop
  | announces {i : Fin N} (hi : s.announcing i = true) : SpoolMove v s (announce v s i)
  | prints {j : Fin M} {i : ℕ} (hj : s.printing j = some i) : SpoolMove v s (printLine v s j i)
  | produces {i : Fin N} {letters : Fin 10 → Fin 26} {b : Buffer} {p : Producer} (hi : s.announcing i = false)
      (hm : ProducerMove letters s.queue.buffer (s.queue.producers i) b p) :
      SpoolMove v s (follow v s { s.queue with buffer := b, producers := Function.update s.queue.producers i p }
        (.producer i letters))
  | takes {j : Fin M} {b : Buffer} {p : Printer} (hj : s.printing j = none)
      (hm : PrinterMove s.queue.buffer (s.queue.printers j) b p) :
      SpoolMove v s (follow v s { s.queue with buffer := b, printers := Function.update s.queue.printers j p }
        (.printer j))

theorem spool_cases {v : Variant} {s t : Spool N M} {a : Action N M} (hs : spoolStep v s a = some t) :
    SpoolMove v s t := by
  cases a with
  | producer i letters =>
    simp only [spoolStep] at hs
    by_cases hi : s.announcing i = true
    · rw [if_pos hi, Option.some.injEq] at hs
      subst hs
      exact .announces hi
    · rw [if_neg hi] at hs
      obtain ⟨queue, hqueue, rfl⟩ := Option.map_eq_some_iff.mp hs
      obtain ⟨⟨b, p⟩, hp, rfl⟩ := Option.map_eq_some_iff.mp hqueue
      exact .produces (Bool.eq_false_of_not_eq_true hi) (producer_cases hp)
  | printer j =>
    simp only [spoolStep] at hs
    cases hj : s.printing j with
    | some i =>
      rw [hj] at hs
      cases hs
      exact .prints hj
    | none =>
      rw [hj] at hs
      obtain ⟨queue, hqueue, rfl⟩ := Option.map_eq_some_iff.mp hs
      obtain ⟨⟨b, p⟩, hp, rfl⟩ := Option.map_eq_some_iff.mp hqueue
      exact .takes hj (printer_cases hp)

/-! ### The lines of a printer -/

/-- The lines that one task gives. -/
def block (task : Task) : List Text :=
  (letters task).map .znak ++ [.newline]

@[simp] lemma length_letters (task : Task) : (letters task).length = 10 := by
  simp [letters]

@[simp] lemma length_block (task : Task) : (block task).length = 11 := by
  simp [block]

lemma nextChar_of_isTask {v : Variant} {task : Task} (h : IsTask task) {i : ℕ} (hi : i ≤ 10) :
    nextChar v task i = (letters task)[i]? := by
  have hletters : (letters task)[i]? = if hlt : i < 10 then some (task ⟨i, by omega⟩) else none := by
    rw [letters, List.getElem?_ofFn]
    rfl
  rw [hletters]
  cases v with
  | systemV => rfl
  | posix =>
    have h11 : i < 11 := by omega
    simp only [nextChar, h11, dite_true]
    by_cases hlt : i < 10
    · have hne : task ⟨i, h11⟩ ≠ 0 := by
        intro h0
        have hlast : i = 10 := h.byte_eq_zero.mp h0
        omega
      rw [if_pos hne, dif_pos hlt]
    · have h0 : task ⟨i, h11⟩ = 0 := by
        apply h.byte_eq_zero.mpr
        simp only
        omega
      rw [if_neg (not_not_intro h0), dif_neg hlt]

lemma drop_block {task : Task} {i : ℕ} (hi : i ≤ 10) :
    (block task).drop i = match (letters task)[i]? with
      | some c => .znak c :: (block task).drop (i + 1)
      | none => [.newline] := by
  have hlt : i < (block task).length := by
    rw [length_block]
    omega
  by_cases h10 : i < (letters task).length
  · have hget : (block task)[i] = .znak (letters task)[i] := by
      simp only [block]
      rw [List.getElem_append_left (by rwa [List.length_map]), List.getElem_map]
    rw [List.getElem?_eq_getElem h10, List.drop_eq_getElem_cons hlt, hget]
  · have hlast : i = 10 := by
      rw [length_letters] at h10
      omega
    rw [List.getElem?_eq_none (by omega), hlast]
    simp [block]

/-- A printer that has taken `tasks` has written `lines`. -/
def PrintedOk (lines : List Text) (tasks : List Task) (p : Printer) : Option ℕ → Prop
  | some i => p.pc = .waitFull ∧ i ≤ 10 ∧ IsTask p.task ∧ lines ++ (block p.task).drop i = tasks.flatMap block
  | none => if p.pc.owesEmpty = 1 then IsTask p.task ∧ lines ++ block p.task = tasks.flatMap block
      else lines = tasks.flatMap block

/-- The tasks taken and those that wait are the tasks written, in order, and each printer has written
the lines of its own. -/
structure SpoolOk (s : Spool N M) : Prop where
  queue : ∃ q, Represents s.queue q ∧ s.written = s.taken.map Prod.snd ++ q
  tasks : ∀ t ∈ s.written, IsTask t
  printed : ∀ j, PrintedOk (signedBy (.inr j) s.terminal) (signedBy j s.taken) (s.queue.printers j) (s.printing j)

lemma SpoolOk.init {s : Spool N M} (h : Fresh s) : SpoolOk s := by
  constructor
  · refine ⟨[], Represents.init (v := .posix) h.queue, ?_⟩
    rw [h.written, h.taken]
    rfl
  · rw [h.written]
    simp
  · intro j
    rw [h.printing j, h.terminal, h.taken]
    simp only [PrintedOk, h.queue.printers j, PrinterPc.owesEmpty]
    rfl

section
variable {v : Variant} {s : Spool N M}

lemma SpoolOk.announces (h : SpoolOk s) (i : Fin N) : SpoolOk (announce v s i) where
  queue := h.queue
  tasks := h.tasks
  printed j := by
    have hj := h.printed j
    simpa [announce] using hj

lemma SpoolOk.prints (h : SpoolOk s) {j : Fin M} {i : ℕ} (hi : s.printing j = some i) :
    SpoolOk (printLine v s j i) := by
  have hj := h.printed j
  rw [hi] at hj
  obtain ⟨hpc, hle, htask, hlines⟩ := hj
  rw [drop_block hle] at hlines
  cases hchar : (letters (s.queue.printers j).task)[i]? with
  | some c =>
    rw [hchar] at hlines
    have hlt : i < 10 := by
      obtain ⟨hlt, -⟩ := List.getElem?_eq_some_iff.mp hchar
      rwa [length_letters] at hlt
    simp only [printLine, nextChar_of_isTask htask hle, hchar]
    refine ⟨h.queue, h.tasks, fun k => ?_⟩
    by_cases hk : k = j
    · subst hk
      simp only [Function.update_self, signedBy_concat_self]
      refine ⟨hpc, hlt, htask, ?_⟩
      rw [List.append_assoc]
      exact hlines
    · have hne : (Sum.inr j : Fin N ⊕ Fin M) ≠ .inr k := fun he => hk (Sum.inr.inj he).symm
      simp only [Function.update_of_ne hk, signedBy_concat_of_ne hne]
      exact h.printed k
  | none =>
    rw [hchar] at hlines
    simp only [printLine, nextChar_of_isTask htask hle, hchar]
    refine ⟨h.queue, h.tasks, fun k => ?_⟩
    by_cases hk : k = j
    · subst hk
      simp only [Function.update_self, signedBy_concat_self, PrintedOk, hpc]
      exact hlines
    · have hne : (Sum.inr j : Fin N ⊕ Fin M) ≠ .inr k := fun he => hk (Sum.inr.inj he).symm
      simp only [Function.update_of_ne hk, signedBy_concat_of_ne hne]
      exact h.printed k

lemma SpoolOk.produces (h : SpoolOk s) {i : Fin N} {letters : Fin 10 → Fin 26} {b : Buffer} {p : Producer}
    (hm : ProducerMove letters s.queue.buffer (s.queue.producers i) b p) :
    SpoolOk (follow v s { s.queue with buffer := b, producers := Function.update s.queue.producers i p }
      (.producer i letters)) := by
  obtain ⟨q, hq, hwritten⟩ := h.queue
  obtain ⟨q', hq', hrep⟩ := hq.producer_step hm
  by_cases hpc : (s.queue.producers i).pc = .advance
  · have htask := hq.producing i
    simp only [ProducerOk, hpc] at htask
    simp only [queueOp, hpc, if_true, Option.toList_some, Machine.exec_singleton] at hq'
    obtain ⟨-, rfl⟩ := boundedFifo_enqueue_eq_some.mp hq'
    simp only [follow, if_pos hpc]
    refine ⟨⟨_, hrep, ?_⟩, ?_, h.printed⟩
    · rw [hwritten, List.append_assoc]
    · intro t ht
      rcases List.mem_append.mp ht with ht | ht
      · exact h.tasks t ht
      · rw [List.mem_singleton.mp ht]
        exact htask.1
  · simp only [queueOp, hpc, if_false, Option.toList_none, Machine.exec_nil, Option.some.injEq] at hq'
    subst hq'
    simp only [follow, if_neg hpc]
    exact ⟨⟨q, hrep, hwritten⟩, h.tasks, h.printed⟩

lemma SpoolOk.takes (h : SpoolOk s) {j : Fin M} {b : Buffer} {p : Printer} (hj : s.printing j = none)
    (hm : PrinterMove s.queue.buffer (s.queue.printers j) b p) :
    SpoolOk (follow v s { s.queue with buffer := b, printers := Function.update s.queue.printers j p }
      (.printer j)) := by
  obtain ⟨q, hq, hwritten⟩ := h.queue
  obtain ⟨q', hq', hrep⟩ := hq.printer_step hm
  have hlines := h.printed j
  rw [hj] at hlines
  have hothers : ∀ k, k ≠ j → ∀ taken printing, signedBy k taken = signedBy k s.taken → printing = s.printing k →
      PrintedOk (signedBy (.inr k) s.terminal) (signedBy k taken)
        (Function.update s.queue.printers j p k) printing := by
    intro k hk taken printing htaken hprinting
    rw [Function.update_of_ne hk, htaken, hprinting]
    exact h.printed k
  by_cases hpc : (s.queue.printers j).pc = .advance
  · have hnot : (s.queue.printers j).pc ≠ .postEmpty := by
      rw [hpc]
      decide
    simp only [queueOp, hpc, if_true, Option.toList_some, Machine.exec_singleton] at hq'
    obtain rfl := boundedFifo_dequeue_eq_some.mp hq'
    have htask := hq.isTask (s.queue.printers j).task List.mem_cons_self
    simp only [follow, if_pos hpc, if_neg hnot]
    refine ⟨⟨q', hrep, ?_⟩, h.tasks, fun k => ?_⟩
    · rw [hwritten]
      simp
    · by_cases hk : k = j
      · subst hk
        obtain ⟨-, rfl⟩ := hm.of_advance hpc
        simp only [Function.update_self, hj, signedBy_concat_self]
        simp only [PrintedOk, hpc, PrinterPc.owesEmpty] at hlines ⊢
        refine ⟨htask, ?_⟩
        rw [hlines]
        simp
      · exact hothers k hk _ _ (signedBy_concat_of_ne (Ne.symm hk) _ _) rfl
  · simp only [queueOp, hpc, if_false, Option.toList_none, Machine.exec_nil, Option.some.injEq] at hq'
    subst hq'
    simp only [follow, if_neg hpc]
    refine ⟨⟨q, hrep, hwritten⟩, h.tasks, fun k => ?_⟩
    by_cases hk : k = j
    · subst hk
      simp only [Function.update_self]
      cases hm with
      | takesFull h | takesUsed h | finds h | copies h | copiesLast h | overruns h =>
        simpa [PrintedOk, h, hj, PrinterPc.owesEmpty] using hlines
      | advances h => exact absurd h hpc
      | postsUsed h =>
        simpa [PrintedOk, h, hj, PrinterPc.owesEmpty] using hlines
      | postsEmpty h =>
        simpa [PrintedOk, h, PrinterPc.owesEmpty] using hlines
    · by_cases hpost : (s.queue.printers j).pc = .postEmpty
      · simp only [if_pos hpost, Function.update_of_ne hk]
        exact h.printed k
      · simp only [if_neg hpost]
        exact hothers k hk _ _ rfl rfl

theorem spoolOk_step {t : Spool N M} (h : SpoolOk s) (hm : SpoolMove v s t) : SpoolOk t := by
  cases hm with
  | announces => exact h.announces _
  | prints hj => exact h.prints hj
  | produces _ hm => exact h.produces hm
  | takes hj hm => exact h.takes hj hm

theorem spoolOk_of_reachable (h : (spool v N M).Reachable s) : SpoolOk s := by
  apply h.invariant (I := SpoolOk)
  · exact fun u hu => .init hu
  · exact fun u a t hu hs => spoolOk_step hu (spool_cases hs)

/-- The tasks taken are the first ones written, at most ten wait, each is ten letters, and every printer
has written the lines of the tasks it took, one task after the other: those of the last may be still to
come. -/
theorem printed_in_order (h : (spool v N M).Reachable s) :
    (∃ q, s.written = s.taken.map Prod.snd ++ q ∧ q.length ≤ BUFFER_SIZE) ∧ (∀ t ∈ s.written, IsTask t) ∧
      ∀ j, ∃ rest, signedBy (.inr j) s.terminal ++ rest = (signedBy j s.taken).flatMap block ∧ rest.length ≤ 11 := by
  have hok := spoolOk_of_reachable h
  obtain ⟨q, hq, hwritten⟩ := hok.queue
  have hempties := hq.empties
  refine ⟨⟨q, hwritten, by omega⟩, hok.tasks, fun j => ?_⟩
  have hj := hok.printed j
  cases hi : s.printing j with
  | some i =>
    rw [hi] at hj
    refine ⟨_, hj.2.2.2, ?_⟩
    rw [List.length_drop, length_block]
    omega
  | none =>
    rw [hi] at hj
    simp only [PrintedOk] at hj
    split at hj
    · exact ⟨_, hj.2, by rw [length_block]⟩
    · exact ⟨[], by rw [List.append_nil, hj], Nat.zero_le _⟩

end

theorem printed_in_order_quiet : ∃ s : Spool 1 1, s.terminal.length = 12 ∧ s.written.length = 1 ∧
    ∃ rest, signedBy (.inr 0) s.terminal ++ rest = (signedBy 0 s.taken).flatMap block ∧ rest.length ≤ 11 := by
  have hrun : ((spool .systemV 1 1).exec quiet (oneOrder ++ List.replicate 28 (.printer 0))).map
      (fun s => (s.terminal.length, s.written.length)) = some (12, 1) := by
    decide +kernel
  obtain ⟨s, hs, heq⟩ := Option.map_eq_some_iff.mp hrun
  simp only [Prod.mk.injEq] at heq
  have hreach : (spool .systemV 1 1).Reachable s := Machine.Reachable.exec (.start quiet_fresh) hs
  exact ⟨s, heq.1, heq.2, (printed_in_order hreach).2.2 0⟩

end SystemyOperacyjne.PrintQueue
