import Mathlib.Logic.Basic
import Mathlib.Tactic.Common

/-!
# Named pipes

A FIFO of the file system, on which `open` waits until the other end has been opened, too. The counters
tell a process that waits that somebody came, even if the other has gone again.
-/

namespace Concurrency

structure NamedPipe (V : Type) where
  present : Bool
  readers : ℕ
  writers : ℕ
  r_counter : ℕ
  w_counter : ℕ
  buffer : List V

namespace NamedPipe

variable {V : Type}

/-- `mkfifo`, which fails without harm if the FIFO exists. -/
def mkfifo (f : NamedPipe V) : NamedPipe V :=
  { f with present := true }

/-- The beginning of `open` for reading. -/
def addReader (f : NamedPipe V) : NamedPipe V :=
  { f with readers := f.readers + 1, r_counter := f.r_counter + 1 }

/-- The beginning of `open` for writing. -/
def addWriter (f : NamedPipe V) : NamedPipe V :=
  { f with writers := f.writers + 1, w_counter := f.w_counter + 1 }

/-- The next value, or nothing at the end of the file; waits while there may still come one. A descriptor
that is not open gives an error, and nothing. -/
def read (f : NamedPipe V) (fd : Bool) : Option (Option V × NamedPipe V) :=
  if fd then
    match f.buffer with
    | v :: rest => some (some v, { f with buffer := rest })
    | [] => if f.writers = 0 then some (none, f) else none
  else some (none, f)

/-- Writes a value; without a reader there is SIGPIPE instead. -/
def write (f : NamedPipe V) (fd : Bool) (v : V) : Option (NamedPipe V) :=
  if fd then
    if f.readers = 0 then none else some { f with buffer := f.buffer ++ [v] }
  else some f

/-- With its last end, a FIFO loses its contents. -/
def closeReader (f : NamedPipe V) (fd : Bool) : NamedPipe V :=
  if fd then
    { f with
      readers := f.readers - 1
      buffer := if f.readers - 1 = 0 ∧ f.writers = 0 then [] else f.buffer }
  else f

def closeWriter (f : NamedPipe V) (fd : Bool) : NamedPipe V :=
  if fd then
    { f with
      writers := f.writers - 1
      buffer := if f.writers - 1 = 0 ∧ f.readers = 0 then [] else f.buffer }
  else f

end NamedPipe
end Concurrency
