import SystemyOperacyjne.PrintQueue

/-!
# The moves of the print queue

What a step of a producer and of a printer can be. The POSIX and the System V programs make the same
moves.
-/

namespace SystemyOperacyjne.PrintQueue
open Concurrency

lemma Variant.down_eq_some {v : Variant} {sem sem' : Sem → ℕ} {x : Sem} :
    v.down sem x = some sem' ↔ 0 < sem x ∧ Function.update sem x (sem x - 1) = sem' := by
  cases v with
  | posix =>
    by_cases h : sem x = 0
    · simp [Variant.down, sem_wait, h]
    · simp [Variant.down, sem_wait, h, Nat.pos_of_ne_zero h]
  | systemV =>
    by_cases h : sem x = 0
    · simp [Variant.down, sem_op, h]
    · have hneg : ¬((sem x : ℤ) + -1 < 0) := by omega
      have hval : ((sem x : ℤ) + -1).toNat = sem x - 1 := by omega
      simp [Variant.down, sem_op, hneg, hval, Nat.pos_of_ne_zero h]

lemma Variant.up_eq (v : Variant) (sem : Sem → ℕ) (x : Sem) :
    v.up sem x = some (Function.update sem x (sem x + 1)) := by
  cases v with
  | posix => rfl
  | systemV =>
    have hneg : ¬((sem x : ℤ) + 1 < 0) := by omega
    have hval : ((sem x : ℤ) + 1).toNat = sem x + 1 := by omega
    simp [Variant.up, sem_op, hneg, hval]

/-- The buffer with one unit of a semaphore less. -/
def Buffer.take (b : Buffer) (x : Sem) : Buffer :=
  { b with sem := Function.update b.sem x (b.sem x - 1) }

/-- The buffer with one unit of a semaphore more. -/
def Buffer.post (b : Buffer) (x : Sem) : Buffer :=
  { b with sem := Function.update b.sem x (b.sem x + 1) }

/-- What a step of a producer can be. -/
inductive ProducerMove (letters : Fin 10 → Fin 26) (b : Buffer) (p : Producer) : Buffer → Producer → Prop
  | takesEmpty (hpc : p.pc = .waitEmpty) (hpos : 0 < b.sem .empty) :
      ProducerMove letters b p (b.take .empty) { p with pc := .waitUsed }
  | takesUsed (hpc : p.pc = .waitUsed) (hpos : 0 < b.sem .used) :
      ProducerMove letters b p (b.take .used) { p with pc := .compose }
  | composes (hpc : p.pc = .compose) :
      ProducerMove letters b p b { pc := .strcpy, task := composeTask letters }
  | finds (hpc : p.pc = .strcpy) : ProducerMove letters b p b { p with pc := .copy b.inIdx 0 }
  | copies {slot : Fin BUFFER_SIZE} {k : ℕ} (hpc : p.pc = .copy slot k) (hk : k < 11) (hbyte : p.task ⟨k, hk⟩ ≠ 0) :
      ProducerMove letters b p { b with tasks := setByte b.tasks slot ⟨k, hk⟩ (p.task ⟨k, hk⟩) }
        { p with pc := .copy slot (k + 1) }
  | copiesLast {slot : Fin BUFFER_SIZE} {k : ℕ} (hpc : p.pc = .copy slot k) (hk : k < 11) (hbyte : p.task ⟨k, hk⟩ = 0) :
      ProducerMove letters b p { b with tasks := setByte b.tasks slot ⟨k, hk⟩ (p.task ⟨k, hk⟩) }
        { p with pc := .advance }
  | overruns {slot : Fin BUFFER_SIZE} {k : ℕ} (hpc : p.pc = .copy slot k) (hk : ¬k < 11) :
      ProducerMove letters b p b { p with pc := .overrun }
  | advances (hpc : p.pc = .advance) :
      ProducerMove letters b p { b with inIdx := ringSlot b.inIdx 1 } { p with pc := .postUsed }
  | postsUsed (hpc : p.pc = .postUsed) : ProducerMove letters b p (b.post .used) { p with pc := .postFull }
  | postsFull (hpc : p.pc = .postFull) : ProducerMove letters b p (b.post .full) { p with pc := .waitEmpty }

theorem producer_cases {v : Variant} {letters : Fin 10 → Fin 26} {b b' : Buffer} {p p' : Producer}
    (hs : producerStep v letters b p = some (b', p')) : ProducerMove letters b p b' p' := by
  cases hpc : p.pc with
  | waitEmpty =>
    simp only [producerStep, hpc, Option.map_eq_some_iff] at hs
    obtain ⟨sem, hdown, heq⟩ := hs
    obtain ⟨hpos, rfl⟩ := Variant.down_eq_some.mp hdown
    cases heq
    exact .takesEmpty hpc hpos
  | waitUsed =>
    simp only [producerStep, hpc, Option.map_eq_some_iff] at hs
    obtain ⟨sem, hdown, heq⟩ := hs
    obtain ⟨hpos, rfl⟩ := Variant.down_eq_some.mp hdown
    cases heq
    exact .takesUsed hpc hpos
  | compose =>
    simp only [producerStep, hpc, Option.some.injEq] at hs
    cases hs
    exact .composes hpc
  | strcpy =>
    simp only [producerStep, hpc, Option.some.injEq] at hs
    cases hs
    exact .finds hpc
  | copy slot k =>
    by_cases hk : k < 11
    · simp only [producerStep, hpc, hk, dite_true, Option.some.injEq] at hs
      cases hs
      split
      · next hbyte => exact .copiesLast hpc hk hbyte
      · next hbyte => exact .copies hpc hk hbyte
    · simp only [producerStep, hpc, hk, dite_false, Option.some.injEq] at hs
      cases hs
      exact .overruns hpc hk
  | advance =>
    simp only [producerStep, hpc, Option.some.injEq] at hs
    cases hs
    exact .advances hpc
  | postUsed =>
    simp only [producerStep, hpc, Variant.up_eq, Option.map_some, Option.some.injEq] at hs
    cases hs
    exact .postsUsed hpc
  | postFull =>
    simp only [producerStep, hpc, Variant.up_eq, Option.map_some, Option.some.injEq] at hs
    cases hs
    exact .postsFull hpc
  | overrun => simp [producerStep, hpc] at hs

lemma ProducerMove.of_advance {letters : Fin 10 → Fin 26} {b b' : Buffer} {p p' : Producer}
    (hm : ProducerMove letters b p b' p') (hpc : p.pc = .advance) :
    b' = { b with inIdx := ringSlot b.inIdx 1 } ∧ p' = { p with pc := .postUsed } := by
  cases hm with
  | advances => exact ⟨rfl, rfl⟩
  | takesEmpty h | takesUsed h | composes h | finds h | copies h | copiesLast h | overruns h | postsUsed h | postsFull h =>
    rw [hpc] at h
    cases h

/-- What a step of a printer can be. -/
inductive PrinterMove (b : Buffer) (p : Printer) : Buffer → Printer → Prop
  | takesFull (hpc : p.pc = .waitFull) (hpos : 0 < b.sem .full) :
      PrinterMove b p (b.take .full) { p with pc := .waitUsed }
  | takesUsed (hpc : p.pc = .waitUsed) (hpos : 0 < b.sem .used) :
      PrinterMove b p (b.take .used) { p with pc := .strcpy }
  | finds (hpc : p.pc = .strcpy) : PrinterMove b p b { p with pc := .copy b.outIdx 0 }
  | copies {slot : Fin BUFFER_SIZE} {k : ℕ} (hpc : p.pc = .copy slot k) (hk : k < 11)
      (hbyte : b.tasks slot ⟨k, hk⟩ ≠ 0) :
      PrinterMove b p b
        { pc := .copy slot (k + 1), task := Function.update p.task ⟨k, hk⟩ (b.tasks slot ⟨k, hk⟩) }
  | copiesLast {slot : Fin BUFFER_SIZE} {k : ℕ} (hpc : p.pc = .copy slot k) (hk : k < 11)
      (hbyte : b.tasks slot ⟨k, hk⟩ = 0) :
      PrinterMove b p b { pc := .advance, task := Function.update p.task ⟨k, hk⟩ (b.tasks slot ⟨k, hk⟩) }
  | overruns {slot : Fin BUFFER_SIZE} {k : ℕ} (hpc : p.pc = .copy slot k) (hk : ¬k < 11) :
      PrinterMove b p b { p with pc := .overrun }
  | advances (hpc : p.pc = .advance) :
      PrinterMove b p { b with outIdx := ringSlot b.outIdx 1 } { p with pc := .postUsed }
  | postsUsed (hpc : p.pc = .postUsed) : PrinterMove b p (b.post .used) { p with pc := .postEmpty }
  | postsEmpty (hpc : p.pc = .postEmpty) : PrinterMove b p (b.post .empty) { p with pc := .waitFull }

theorem printer_cases {v : Variant} {b b' : Buffer} {p p' : Printer} (hs : printerStep v b p = some (b', p')) :
    PrinterMove b p b' p' := by
  cases hpc : p.pc with
  | waitFull =>
    simp only [printerStep, hpc, Option.map_eq_some_iff] at hs
    obtain ⟨sem, hdown, heq⟩ := hs
    obtain ⟨hpos, rfl⟩ := Variant.down_eq_some.mp hdown
    cases heq
    exact .takesFull hpc hpos
  | waitUsed =>
    simp only [printerStep, hpc, Option.map_eq_some_iff] at hs
    obtain ⟨sem, hdown, heq⟩ := hs
    obtain ⟨hpos, rfl⟩ := Variant.down_eq_some.mp hdown
    cases heq
    exact .takesUsed hpc hpos
  | strcpy =>
    simp only [printerStep, hpc, Option.some.injEq] at hs
    cases hs
    exact .finds hpc
  | copy slot k =>
    by_cases hk : k < 11
    · simp only [printerStep, hpc, hk, dite_true, Option.some.injEq] at hs
      cases hs
      split
      · next hbyte => exact .copiesLast hpc hk hbyte
      · next hbyte => exact .copies hpc hk hbyte
    · simp only [printerStep, hpc, hk, dite_false, Option.some.injEq] at hs
      cases hs
      exact .overruns hpc hk
  | advance =>
    simp only [printerStep, hpc, Option.some.injEq] at hs
    cases hs
    exact .advances hpc
  | postUsed =>
    simp only [printerStep, hpc, Variant.up_eq, Option.map_some, Option.some.injEq] at hs
    cases hs
    exact .postsUsed hpc
  | postEmpty =>
    simp only [printerStep, hpc, Variant.up_eq, Option.map_some, Option.some.injEq] at hs
    cases hs
    exact .postsEmpty hpc
  | overrun => simp [printerStep, hpc] at hs

lemma PrinterMove.of_advance {b b' : Buffer} {p p' : Printer} (hm : PrinterMove b p b' p') (hpc : p.pc = .advance) :
    b' = { b with outIdx := ringSlot b.outIdx 1 } ∧ p' = { p with pc := .postUsed } := by
  cases hm with
  | advances => exact ⟨rfl, rfl⟩
  | takesFull h | takesUsed h | finds h | copies h | copiesLast h | overruns h | postsUsed h | postsEmpty h =>
    rw [hpc] at h
    cases h

/-! ### Semaphores -/

section
variable (b : Buffer) (x : Sem)

@[simp] lemma Buffer.take_tasks : (b.take x).tasks = b.tasks := rfl

@[simp] lemma Buffer.take_inIdx : (b.take x).inIdx = b.inIdx := rfl

@[simp] lemma Buffer.take_outIdx : (b.take x).outIdx = b.outIdx := rfl

@[simp] lemma Buffer.take_sem (y : Sem) : (b.take x).sem y = if y = x then b.sem x - 1 else b.sem y := by
  simp [Buffer.take, Function.update_apply]

@[simp] lemma Buffer.post_tasks : (b.post x).tasks = b.tasks := rfl

@[simp] lemma Buffer.post_inIdx : (b.post x).inIdx = b.inIdx := rfl

@[simp] lemma Buffer.post_outIdx : (b.post x).outIdx = b.outIdx := rfl

@[simp] lemma Buffer.post_sem (y : Sem) : (b.post x).sem y = if y = x then b.sem x + 1 else b.sem y := by
  simp [Buffer.post, Function.update_apply]

end

end SystemyOperacyjne.PrintQueue
