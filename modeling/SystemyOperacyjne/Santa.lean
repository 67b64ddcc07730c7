import SystemyOperacyjne.Library.Machine
import SystemyOperacyjne.Library.Mutex
import Mathlib.Data.Fintype.Pi

/-!
# Santa and his reindeer

The threads of `cw10/zad10.c`, one statement of one thread at a time: nine times
`reindeer_mechanic` and once `santa_mechanic`, over one mutex and two condition
variables. A thread in `pthread_cond_wait` has released the mutex; it is woken by a
signal, by a broadcast or spuriously, and then has to lock the mutex again.
-/

namespace SystemyOperacyjne.Santa
open Concurrency

abbrev REINDEERS_NUM : ℕ := 9
def MAX_REINDEERS_IN_QUEUE : ℤ := 9
def presents_delivery : ℕ := 4

abbrev Reindeer := Fin REINDEERS_NUM

/-- `locked` is before the increment, `counted` before the comparison with
`MAX_REINDEERS_IN_QUEUE`, `signal` before `pthread_cond_signal`, `test` before the test of
the wait loop, and `leave` before the unlock. -/
inductive ReindeerPc
  | vacation
  | locked
  | counted
  | signal
  | test
  | waiting
  | woken
  | leave
  deriving DecidableEq, Repr

/-- `top` is before the test of the outer loop, `test` before that of the wait loop;
`deliver` is the delivery, followed by the increment of `delivered_presents`, the reset of
the queue, the broadcast and the unlock. -/
inductive SantaPc
  | top
  | locking
  | test
  | waiting
  | woken
  | deliver
  | count
  | reset
  | broadcast
  | unlock
  | done
  deriving DecidableEq, Repr

inductive Thread
  | santa
  | reindeer (r : Reindeer)
  deriving DecidableEq, Repr

/-- `arrivals` records how often each reindeer has incremented the queue since Santa last
set it to 0. -/
structure State where
  reindeers_in_queue : ℤ
  delivered_presents : ℕ
  mutex : Option Thread
  santa : SantaPc
  reindeers : Reindeer → ReindeerPc
  arrivals : Reindeer → ℕ
  deriving DecidableEq

def State.initial : State where
  reindeers_in_queue := 0
  delivered_presents := 0
  mutex := none
  santa := .top
  reindeers _ := .vacation
  arrivals _ := 0

/-- A wake-up reaches only a thread that waits. -/
def ReindeerPc.wake : ReindeerPc → ReindeerPc
  | .waiting => .woken
  | pc => pc

def SantaPc.wake : SantaPc → SantaPc
  | .waiting => .woken
  | pc => pc

def State.setReindeer (s : State) (r : Reindeer) (pc : ReindeerPc) : State :=
  { s with reindeers := Function.update s.reindeers r pc }

/-- `pthread_mutex_lock`, which blocks while the mutex is taken. -/
def State.lock (s : State) (t : Thread) : Option State :=
  if s.mutex = none then some { s with mutex := some t } else none

def State.unlock (s : State) : State :=
  { s with mutex := none }

def reindeer_mechanic (s : State) (r : Reindeer) : Option State :=
  match s.reindeers r with
  | .vacation => (s.setReindeer r .locked).lock (.reindeer r)
  | .locked =>
    some { s.setReindeer r .counted with
      reindeers_in_queue := s.reindeers_in_queue + 1
      arrivals := Function.update s.arrivals r (s.arrivals r + 1) }
  | .counted =>
    if s.reindeers_in_queue = MAX_REINDEERS_IN_QUEUE then some (s.setReindeer r .signal)
    else some (s.setReindeer r .test)
  | .signal => some { s.setReindeer r .test with santa := s.santa.wake }
  | .test =>
    if s.reindeers_in_queue > 0 then some (s.setReindeer r .waiting).unlock
    else some (s.setReindeer r .leave)
  | .waiting => none
  | .woken => (s.setReindeer r .test).lock (.reindeer r)
  | .leave => some (s.setReindeer r .vacation).unlock

def santa_mechanic (s : State) : Option State :=
  match s.santa with
  | .top =>
    if s.delivered_presents < presents_delivery then some { s with santa := .locking }
    else some { s with santa := .done }
  | .locking => { s with santa := .test }.lock .santa
  | .test =>
    if s.reindeers_in_queue < MAX_REINDEERS_IN_QUEUE then some { s with santa := .waiting }.unlock
    else some { s with santa := .deliver }
  | .waiting => none
  | .woken => { s with santa := .test }.lock .santa
  | .deliver => some { s with santa := .count }
  | .count => some { s with santa := .reset, delivered_presents := s.delivered_presents + 1 }
  | .reset => some { s with santa := .broadcast, reindeers_in_queue := 0, arrivals := fun _ => 0 }
  | .broadcast => some { s with santa := .unlock, reindeers := fun r => (s.reindeers r).wake }
  | .unlock => some { s with santa := .top }.unlock
  | .done => none

/-- A step of a thread, or a spurious wake-up of one. -/
inductive Action
  | santa
  | reindeer (r : Reindeer)
  | wakeSanta
  | wakeReindeer (r : Reindeer)
  deriving DecidableEq, Repr

def step (s : State) : Action → Option State
  | .santa => santa_mechanic s
  | .reindeer r => reindeer_mechanic s r
  | .wakeSanta => if s.santa = .waiting then some { s with santa := .woken } else none
  | .wakeReindeer r => if s.reindeers r = .waiting then some (s.setReindeer r .woken) else none

def machine : Machine State Action where
  init s := s = .initial
  next := step

end SystemyOperacyjne.Santa
