import SystemyOperacyjne.PrintQueueProgress

/-!
# The printers empty the buffer

Every step of a process uses up some of the work that the units of the semaphores stand for, and only
the taking of a task brings new work. Tasks that wait are therefore taken in every run that is long
enough, and while they wait no run is at its end.
-/

namespace SystemyOperacyjne.PrintQueue
open Concurrency

variable {N M : ℕ}

/-- The steps a producer has before it until it waits again, and those for the task it will write. -/
def ProducerPc.work : ProducerPc → ℕ
  | .waitUsed => 36
  | .compose => 35
  | .strcpy => 34
  | .copy _ k => 22 + (11 - k)
  | .advance => 21
  | .postUsed => 20
  | .postFull => 19
  | .waitEmpty | .overrun => 0

/-- The steps a printer has before it until it takes its task, or those for the unit of `empty` that it
will post. -/
def PrinterPc.work : PrinterPc → ℕ
  | .waitUsed => 17
  | .strcpy => 16
  | .copy _ k => 4 + (11 - k)
  | .advance => 3
  | .postUsed => 39
  | .postEmpty => 38
  | .waitFull | .overrun => 0

/-- The steps that the units of `empty` and of `full` stand for, until their tasks are taken. -/
def semWork (sem : Sem → ℕ) : ℕ :=
  37 * sem .empty + 18 * sem .full

def State.work (s : State N M) : ℕ :=
  semWork s.buffer.sem + tokens (fun p => p.pc.work) s.producers + tokens (fun p => p.pc.work) s.printers

lemma producer_work {letters : Fin 10 → Fin 26} {b b' : Buffer} {p p' : Producer}
    (hm : ProducerMove letters b p b' p') : semWork b'.sem + p'.pc.work < semWork b.sem + p.pc.work := by
  cases hm with
  | takesEmpty hpc hpos =>
    simp [semWork, hpc, ProducerPc.work]
    omega
  | takesUsed hpc | composes hpc | finds hpc | advances hpc | postsUsed hpc =>
    simp [semWork, hpc, ProducerPc.work]
  | copies hpc | copiesLast hpc | overruns hpc =>
    simp only [hpc, ProducerPc.work]
    omega
  | postsFull hpc =>
    simp [semWork, hpc, ProducerPc.work]
    omega

lemma printer_work {b b' : Buffer} {p p' : Printer} (hm : PrinterMove b p b' p') :
    semWork b'.sem + p'.pc.work < semWork b.sem + p.pc.work + 37 * p.pc.removes := by
  cases hm with
  | takesFull hpc hpos =>
    simp [semWork, hpc, PrinterPc.work, PrinterPc.removes]
    omega
  | takesUsed hpc | finds hpc | advances hpc | postsUsed hpc =>
    simp [semWork, hpc, PrinterPc.work, PrinterPc.removes]
  | copies hpc | copiesLast hpc | overruns hpc =>
    simp only [hpc, PrinterPc.work]
    omega
  | postsEmpty hpc =>
    simp [semWork, hpc, PrinterPc.work, PrinterPc.removes]
    omega

/-- The tasks that a step takes. -/
def takes (s : State N M) : Action N M → ℕ
  | .producer _ _ => 0
  | .printer j => (s.printers j).pc.removes

lemma step_work {v : Variant} {s t : State N M} {a : Action N M} (hs : step v s a = some t) :
    t.work < s.work + 37 * takes s a := by
  cases a with
  | producer i letters =>
    obtain ⟨⟨b, p⟩, hp, rfl⟩ := Option.map_eq_some_iff.mp hs
    have hwork := producer_work (producer_cases hp)
    have htokens := tokens_update (fun p : Producer => p.pc.work) s.producers i p
    simp only [State.work, takes] at htokens ⊢
    omega
  | printer j =>
    obtain ⟨⟨b, p⟩, hp, rfl⟩ := Option.map_eq_some_iff.mp hs
    have hwork := printer_work (printer_cases hp)
    have htokens := tokens_update (fun p : Printer => p.pc.work) s.printers j p
    simp only [State.work, takes] at htokens ⊢
    omega

end SystemyOperacyjne.PrintQueue
