import SystemyOperacyjne.Library.BoundedFifo
import SystemyOperacyjne.Library.Ring
import SystemyOperacyjne.Library.Tokens

/-!
# The print queue

Producers (`cw8/client.c`, `cw8/clientv.c`) and printers (`cw8/printers.c`,
`cw8/printersv.c`) share a buffer of ten tasks and three semaphores. Every process is
a program counter with its local task; one step of one process is a semaphore
operation, one byte of a `strcpy`, or an update of an index.
-/

namespace SystemyOperacyjne.PrintQueue
open Concurrency

abbrev BUFFER_SIZE : ℕ := 10

/-- `char task[11]`. -/
abbrev Task := Fin 11 → UInt8

/-- The semaphores, in the order in which the System V programs number them. -/
inductive Sem
  | empty
  | full
  | used
  deriving DecidableEq, Repr

/-- The shared segment. Both indices are reduced modulo `BUFFER_SIZE` when written. -/
structure Buffer where
  tasks : Fin BUFFER_SIZE → Task
  inIdx : Fin BUFFER_SIZE
  outIdx : Fin BUFFER_SIZE
  sem : Sem → ℕ

/-- `sem_wait`: blocks on a semaphore whose value is zero. -/
def sem_wait (sem : Sem → ℕ) (x : Sem) : Option (Sem → ℕ) :=
  if sem x = 0 then none else some (Function.update sem x (sem x - 1))

/-- `sem_post`. -/
def sem_post (sem : Sem → ℕ) (x : Sem) : Sem → ℕ :=
  Function.update sem x (sem x + 1)

/-- `semop` with one operation: blocks while the value would become negative. -/
def sem_op (sem : Sem → ℕ) (sem_num : Sem) (op : ℤ) : Option (Sem → ℕ) :=
  if (sem sem_num : ℤ) + op < 0 then none
  else some (Function.update sem sem_num ((sem sem_num : ℤ) + op).toNat)

/-- The two versions of the programs: POSIX (`client.c`, `printers.c`) and System V
(`clientv.c`, `printersv.c`). -/
inductive Variant
  | posix
  | systemV
  deriving DecidableEq, Repr

def Variant.down : Variant → (Sem → ℕ) → Sem → Option (Sem → ℕ)
  | .posix, sem, x => sem_wait sem x
  | .systemV, sem, x => sem_op sem x (-1)

def Variant.up : Variant → (Sem → ℕ) → Sem → Option (Sem → ℕ)
  | .posix, sem, x => some (sem_post sem x)
  | .systemV, sem, x => sem_op sem x 1

/-- Where a producer is in its loop: before the call named, or inside `strcpy` with the
destination slot and the byte to copy next. `overrun` is a copy past the eleventh byte. -/
inductive ProducerPc
  | waitEmpty
  | waitUsed
  | compose
  | strcpy
  | copy (slot : Fin BUFFER_SIZE) (k : ℕ)
  | advance
  | postUsed
  | postFull
  | overrun
  deriving DecidableEq, Repr

structure Producer where
  pc : ProducerPc
  task : Task

/-- Where a printer is in its loop. -/
inductive PrinterPc
  | waitFull
  | waitUsed
  | strcpy
  | copy (slot : Fin BUFFER_SIZE) (k : ℕ)
  | advance
  | postUsed
  | postEmpty
  | overrun
  deriving DecidableEq, Repr

structure Printer where
  pc : PrinterPc
  task : Task

/-- `task[i] = 'a' + rand() % 26` for ten letters, then the terminator. -/
def composeTask (letters : Fin 10 → Fin 26) : Task := fun c =>
  if h : c.val < 10 then UInt8.ofNat (97 + (letters ⟨c.val, h⟩).val) else 0

/-- Replaces byte `k` of slot `slot`. -/
def setByte (tasks : Fin BUFFER_SIZE → Task) (slot : Fin BUFFER_SIZE) (k : Fin 11) (byte : UInt8) :
    Fin BUFFER_SIZE → Task :=
  Function.update tasks slot (Function.update (tasks slot) k byte)

/-- One step of the producer loop. -/
def producerStep (v : Variant) (letters : Fin 10 → Fin 26) (b : Buffer) (p : Producer) :
    Option (Buffer × Producer) :=
  match p.pc with
  | .waitEmpty => (v.down b.sem .empty).map fun sem => ({ b with sem }, { p with pc := .waitUsed })
  | .waitUsed => (v.down b.sem .used).map fun sem => ({ b with sem }, { p with pc := .compose })
  | .compose => some (b, { pc := .strcpy, task := composeTask letters })
  -- the destination is computed once, from the value of `in` at the call
  | .strcpy => some (b, { p with pc := .copy b.inIdx 0 })
  | .copy slot k =>
    if hk : k < 11 then
      let byte := p.task ⟨k, hk⟩
      some ({ b with tasks := setByte b.tasks slot ⟨k, hk⟩ byte },
        { p with pc := if byte = 0 then .advance else .copy slot (k + 1) })
    else some (b, { p with pc := .overrun })
  | .advance => some ({ b with inIdx := ringSlot b.inIdx 1 }, { p with pc := .postUsed })
  | .postUsed => (v.up b.sem .used).map fun sem => ({ b with sem }, { p with pc := .postFull })
  | .postFull => (v.up b.sem .full).map fun sem => ({ b with sem }, { p with pc := .waitEmpty })
  | .overrun => none

/-- One step of the printer loop. Printing the local task happens between `postEmpty`
and the next `waitFull` and touches nothing shared. -/
def printerStep (v : Variant) (b : Buffer) (p : Printer) : Option (Buffer × Printer) :=
  match p.pc with
  | .waitFull => (v.down b.sem .full).map fun sem => ({ b with sem }, { p with pc := .waitUsed })
  | .waitUsed => (v.down b.sem .used).map fun sem => ({ b with sem }, { p with pc := .strcpy })
  | .strcpy => some (b, { p with pc := .copy b.outIdx 0 })
  | .copy slot k =>
    if hk : k < 11 then
      let byte := b.tasks slot ⟨k, hk⟩
      some (b, { pc := if byte = 0 then .advance else .copy slot (k + 1),
                 task := Function.update p.task ⟨k, hk⟩ byte })
    else some (b, { p with pc := .overrun })
  | .advance => some ({ b with outIdx := ringSlot b.outIdx 1 }, { p with pc := .postUsed })
  | .postUsed => (v.up b.sem .used).map fun sem => ({ b with sem }, { p with pc := .postEmpty })
  | .postEmpty => (v.up b.sem .empty).map fun sem => ({ b with sem }, { p with pc := .waitFull })
  | .overrun => none

/-- The whole system: `N` producers and `M` printers. -/
structure State (N M : ℕ) where
  buffer : Buffer
  producers : Fin N → Producer
  printers : Fin M → Printer

/-- Which process moves; `letters` is what a producer's calls of `rand` give. -/
inductive Action (N M : ℕ)
  | producer (i : Fin N) (letters : Fin 10 → Fin 26)
  | printer (j : Fin M)

def step (v : Variant) {N M : ℕ} (s : State N M) : Action N M → Option (State N M)
  | .producer i letters => (producerStep v letters s.buffer (s.producers i)).map fun (b, p) =>
      { s with buffer := b, producers := Function.update s.producers i p }
  | .printer j => (printerStep v s.buffer (s.printers j)).map fun (b, p) =>
      { s with buffer := b, printers := Function.update s.printers j p }

/-- After the printers program has set the semaphores and the indices; what the slots
and the local tasks hold is arbitrary. -/
structure Initialised {N M : ℕ} (s : State N M) : Prop where
  empty : s.buffer.sem .empty = BUFFER_SIZE
  full : s.buffer.sem .full = 0
  used : s.buffer.sem .used = 1
  inIdx : s.buffer.inIdx = 0
  outIdx : s.buffer.outIdx = 0
  producers : ∀ i, (s.producers i).pc = .waitEmpty
  printers : ∀ j, (s.printers j).pc = .waitFull

def machine (v : Variant) (N M : ℕ) : Machine (State N M) (Action N M) where
  init := Initialised
  next := step v

/-- The queue operation that a step completes: a producer's task is written, and a
printer's is taken, when it advances its index. -/
def queueOp {N M : ℕ} (s : State N M) : Action N M → Option (QueueOp Task)
  | .producer i _ => if (s.producers i).pc = .advance then some (.enqueue (s.producers i).task) else none
  | .printer j => if (s.printers j).pc = .advance then some (.dequeue (s.printers j).task) else none

end SystemyOperacyjne.PrintQueue
