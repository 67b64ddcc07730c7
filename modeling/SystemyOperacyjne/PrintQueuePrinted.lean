import SystemyOperacyjne.PrintQueueOutput

/-!
# Every task is printed

Each step of a process that is busy with a task uses up one of the steps that are left for the tasks begun.
When no client begins another one, the processes come to a stop, and nothing is then left to be printed.
-/

namespace SystemyOperacyjne.PrintQueue
open Concurrency

variable {N M : ℕ}

/-- The steps between a producer and its next wait, with those that a printer will make for the task
posted. -/
def ProducerPc.left : ProducerPc → ℕ
  | .waitUsed => 50
  | .compose => 49
  | .strcpy => 47
  | .copy _ k => 35 + (11 - k)
  | .advance => 34
  | .postUsed => 33
  | .postFull => 32
  | .waitEmpty | .overrun => 0

def PrinterPc.left : PrinterPc → ℕ
  | .waitUsed => 29
  | .strcpy => 28
  | .copy _ k => 16 + (11 - k)
  | .advance => 15
  | .postUsed => 14
  | .postEmpty => 13
  | .waitFull | .overrun => 0

/-- The lines that a printer has before it. -/
def linesLeft : Option ℕ → ℕ
  | some i => 12 - i
  | none => 0

def Spool.left (s : Spool N M) : ℕ :=
  30 * s.queue.buffer.sem .full + tokens (fun p => p.pc.left) s.queue.producers +
    tokens (fun b => if b = true then 1 else 0) s.announcing + tokens (fun p => p.pc.left) s.queue.printers +
    tokens linesLeft s.printing

/-- The step begins no new task. -/
def Spool.Continues (s : Spool N M) : Action N M → Prop
  | .producer i _ => s.announcing i = true ∨ (s.queue.producers i).pc ≠ .waitEmpty
  | .printer _ => True

instance (s : Spool N M) : (a : Action N M) → Decidable (s.Continues a)
  | .producer i _ => inferInstanceAs (Decidable (s.announcing i = true ∨ (s.queue.producers i).pc ≠ .waitEmpty))
  | .printer _ => isTrue trivial

lemma producer_left {v : Variant} {letters : Fin 10 → Fin 26} {b b' : Buffer} {p p' : Producer}
    (hm : ProducerMove letters b p b' p') (hne : p.pc ≠ .waitEmpty) :
    30 * b'.sem .full + p'.pc.left + (if p.pc = v.announcedAfter then 1 else 0) <
      30 * b.sem .full + p.pc.left := by
  cases hm with
  | takesEmpty hpc => exact absurd hpc hne
  | takesUsed hpc | composes hpc | finds hpc | advances hpc | postsUsed hpc | postsFull hpc =>
    cases v <;> simp [hpc, ProducerPc.left, Variant.announcedAfter] <;> omega
  | copies hpc | copiesLast hpc | overruns hpc =>
    cases v <;> simp [hpc, ProducerPc.left, Variant.announcedAfter] <;> omega

lemma printer_left {b b' : Buffer} {p p' : Printer} (hm : PrinterMove b p b' p') :
    30 * b'.sem .full + p'.pc.left + (if p.pc = .postEmpty then 12 else 0) < 30 * b.sem .full + p.pc.left := by
  cases hm with
  | takesFull hpc hpos =>
    simp [hpc, PrinterPc.left]
    omega
  | takesUsed hpc | finds hpc | advances hpc | postsUsed hpc | postsEmpty hpc =>
    simp [hpc, PrinterPc.left]
  | copies hpc | copiesLast hpc | overruns hpc =>
    simp only [hpc, PrinterPc.left, reduceCtorEq, if_false]
    omega

lemma spool_left {v : Variant} {s t : Spool N M} {a : Action N M} (hok : SpoolOk s) (hc : s.Continues a)
    (hs : spoolStep v s a = some t) : t.left < s.left := by
  cases a with
  | producer i letters =>
    simp only [spoolStep] at hs
    by_cases hi : s.announcing i = true
    · rw [if_pos hi, Option.some.injEq] at hs
      subst hs
      have htokens := tokens_update (fun b => if b = true then 1 else 0) s.announcing i false
      simp only [hi, if_true, Bool.false_eq_true, if_false] at htokens
      simp only [Spool.left, announce]
      omega
    · rw [if_neg hi] at hs
      obtain ⟨queue, hqueue, rfl⟩ := Option.map_eq_some_iff.mp hs
      obtain ⟨⟨b, p⟩, hp, rfl⟩ := Option.map_eq_some_iff.mp hqueue
      have hne := hc.resolve_left hi
      have hlt := producer_left (v := v) (producer_cases hp) hne
      have hproducers := tokens_update (fun p : Producer => p.pc.left) s.queue.producers i p
      by_cases hafter : (s.queue.producers i).pc = v.announcedAfter
      · have htokens := tokens_update (fun b => if b = true then 1 else 0) s.announcing i true
        simp only [Bool.eq_false_of_not_eq_true hi, if_true, Bool.false_eq_true, if_false] at htokens
        rw [if_pos hafter] at hlt
        simp only [Spool.left, follow, if_pos hafter]
        omega
      · rw [if_neg hafter] at hlt
        simp only [Spool.left, follow, if_neg hafter]
        omega
  | printer j =>
    simp only [spoolStep] at hs
    cases hj : s.printing j with
    | some i =>
      rw [hj] at hs
      cases hs
      have hprinted := hok.printed j
      rw [hj] at hprinted
      have hle := hprinted.2.1
      have hnext := tokens_update linesLeft s.printing j (some (i + 1))
      have hlast := tokens_update linesLeft s.printing j none
      simp only [hj, linesLeft] at hnext hlast
      unfold printLine
      split
      · simp only [Spool.left]
        omega
      · simp only [Spool.left]
        omega
    | none =>
      rw [hj] at hs
      obtain ⟨queue, hqueue, rfl⟩ := Option.map_eq_some_iff.mp hs
      obtain ⟨⟨b, p⟩, hp, rfl⟩ := Option.map_eq_some_iff.mp hqueue
      have hlt := printer_left (printer_cases hp)
      have hprinters := tokens_update (fun p : Printer => p.pc.left) s.queue.printers j p
      by_cases hpost : (s.queue.printers j).pc = .postEmpty
      · have htokens := tokens_update linesLeft s.printing j (some 0)
        simp only [hj, linesLeft] at htokens
        rw [if_pos hpost] at hlt
        simp only [Spool.left, follow, if_pos hpost]
        omega
      · rw [if_neg hpost] at hlt
        simp only [Spool.left, follow, if_neg hpost]
        omega

lemma SpoolOk.complete_of_stuck {v : Variant} {s : Spool N M} (h : SpoolOk s) (hM : 1 ≤ M)
    (hstuck : ∀ a, s.Continues a → spoolStep v s a = none) :
    s.written = s.taken.map Prod.snd ∧
      ∀ j, signedBy (.inr j) s.terminal = (signedBy j s.taken).flatMap block := by
  have hannouncing : ∀ i, ¬s.announcing i = true := by
    intro i hi
    have hnone := hstuck (.producer i fun _ => 0) (.inl hi)
    simp only [spoolStep, if_pos hi] at hnone
    cases hnone
  have hprinting : ∀ j, s.printing j = none := by
    intro j
    cases hj : s.printing j with
    | none => rfl
    | some i =>
      have hnone := hstuck (.printer j) trivial
      simp only [spoolStep, hj] at hnone
      cases hnone
  have hqueue : ∀ a, s.queue.Continues a → step v s.queue a = none := by
    intro a ha
    cases a with
    | producer i letters =>
      have hnone := hstuck (.producer i letters) (.inr ha)
      simpa only [spoolStep, if_neg (hannouncing i), Option.map_eq_none_iff] using hnone
    | printer j =>
      have hnone := hstuck (.printer j) trivial
      simpa only [spoolStep, hprinting j, Option.map_eq_none_iff] using hnone
  obtain ⟨q, hq, hwritten⟩ := h.queue
  obtain ⟨hproducers, hprinters⟩ := hq.waiting_of_stuck hqueue
  constructor
  · have hf := hq.fulls
    rw [(hprinters ⟨0, hM⟩).2, tokens_eq_zero (fun j => by rw [(hprinters j).1]; rfl),
      tokens_eq_zero (fun i => by rw [hproducers i]; rfl)] at hf
    have hnil : q = [] := List.length_eq_zero_iff.mp hf.symm
    rw [hwritten, hnil, List.append_nil]
  · intro j
    have hj := h.printed j
    rw [hprinting j] at hj
    simp only [PrintedOk, (hprinters j).1, PrinterPc.owesEmpty] at hj
    exact hj

lemma SpoolOk.left_le {s : Spool N M} (h : SpoolOk s) : s.left ≤ 300 + 51 * N + 41 * M := by
  obtain ⟨q, hq, -⟩ := h.queue
  have hfulls := hq.fulls
  have hempties := hq.empties
  have hproducers : tokens (fun p : Producer => p.pc.left) s.queue.producers ≤ Fintype.card (Fin N) * 50 := by
    apply tokens_le
    intro i
    cases (s.queue.producers i).pc with
    | copy slot k =>
      simp only [ProducerPc.left]
      omega
    | waitEmpty | waitUsed | compose | strcpy | advance | postUsed | postFull | overrun => simp [ProducerPc.left]
  have hannouncing : tokens (fun b => if b = true then 1 else 0) s.announcing ≤ Fintype.card (Fin N) * 1 := by
    apply tokens_le
    intro i
    split <;> omega
  have hprinters : tokens (fun p : Printer => p.pc.left) s.queue.printers ≤ Fintype.card (Fin M) * 29 := by
    apply tokens_le
    intro j
    cases (s.queue.printers j).pc with
    | copy slot k =>
      simp only [PrinterPc.left]
      omega
    | waitFull | waitUsed | strcpy | advance | postUsed | postEmpty | overrun => simp [PrinterPc.left]
  have hprinting : tokens linesLeft s.printing ≤ Fintype.card (Fin M) * 12 := by
    apply tokens_le
    intro j
    cases s.printing j with
    | some i => exact Nat.sub_le 12 i
    | none => exact Nat.zero_le _
  rw [Fintype.card_fin] at hproducers hannouncing hprinters hprinting
  simp only [Spool.left, BUFFER_SIZE] at hempties ⊢
  omega

/-- When the clients begin no new task, the programs come to a stop after so many steps, whatever their
order, and then every task written has been printed whole. -/
theorem all_printed {v : Variant} {s t : Spool N M} {as : List (Action N M)} (hM : 1 ≤ M)
    (h : (spool v N M).Reachable s) (ht : ((spool v N M).guard Spool.Continues).exec s as = some t) :
    as.length ≤ 300 + 51 * N + 41 * M ∧
      ((∀ a, t.Continues a → spoolStep v t a = none) → t.written = t.taken.map Prod.snd ∧
        ∀ j, signedBy (.inr j) t.terminal = (signedBy j t.taken).flatMap block) := by
  have hok := spoolOk_of_reachable h
  have hstep : ∀ u a w, SpoolOk u → ((spool v N M).guard Spool.Continues).next u a = some w →
      SpoolOk w ∧ w.left < u.left := by
    intro u a w hu hn
    obtain ⟨hc, hs⟩ := Machine.guard_next_eq_some.mp hn
    exact ⟨spoolOk_step hu (spool_cases hs), spool_left hu hc hs⟩
  constructor
  · have hlength := Machine.length_le_of_rank Spool.left hstep ht hok
    have hle := hok.left_le
    omega
  · have htok : SpoolOk t := by
      have hkeeps : ∀ u a w, ((spool v N M).guard Spool.Continues).next u a = some w → SpoolOk u → SpoolOk w :=
        fun u a w hn hu => (hstep u a w hu hn).1
      exact Machine.exec_keeps hkeeps ht hok
    exact htok.complete_of_stuck hM

/-- The printer prints the task that the producer has posted, and no process goes on after that. -/
theorem all_printed_quiet : ∃ s t : Spool 1 1, s.terminal.length = 1 ∧
    ((spool .posix 1 1).guard Spool.Continues).exec s (List.replicate 28 (.printer 0)) = some t ∧
    t.written.length = 1 ∧ t.written = t.taken.map Prod.snd ∧
    signedBy (.inr 0) t.terminal = (signedBy 0 t.taken).flatMap block := by
  have hfirst : ((spool .posix 1 1).exec quiet oneOrder).map (fun s => s.terminal.length) = some 1 := by
    decide +kernel
  obtain ⟨s, hs, hlines⟩ := Option.map_eq_some_iff.mp hfirst
  have hreach : (spool .posix 1 1).Reachable s := Machine.Reachable.exec (.start quiet_fresh) hs
  have hrun : (((spool .posix 1 1).exec quiet oneOrder).bind fun s =>
      ((spool .posix 1 1).guard Spool.Continues).exec s (List.replicate 28 (.printer 0))).map
      (fun t => (t.written.length, t.announcing 0, (t.queue.producers 0).pc,
        (spoolStep .posix t (.printer 0)).isNone)) = some (1, false, .waitEmpty, true) := by
    decide +kernel
  rw [hs, Option.bind_some] at hrun
  obtain ⟨t, ht, heq⟩ := Option.map_eq_some_iff.mp hrun
  simp only [Prod.mk.injEq] at heq
  obtain ⟨hwritten, hannouncing, hpc, hprinter⟩ := heq
  have hstuck : ∀ a, t.Continues a → spoolStep .posix t a = none := by
    intro a ha
    cases a with
    | producer i letters =>
      obtain rfl : i = 0 := Subsingleton.elim i 0
      rcases ha with ha | ha
      · rw [hannouncing] at ha
        cases ha
      · exact absurd hpc ha
    | printer j =>
      obtain rfl : j = 0 := Subsingleton.elim j 0
      exact Option.isNone_iff_eq_none.mp hprinter
  obtain ⟨hall, hprinted⟩ := (all_printed le_rfl hreach ht).2 hstuck
  exact ⟨s, t, hlines, ht, hwritten, hall, hprinted 0⟩

end SystemyOperacyjne.PrintQueue
