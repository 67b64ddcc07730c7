import SystemyOperacyjne.Library.CString
import Mathlib.Data.Nat.Digits.Lemmas
import Mathlib.Data.Fintype.Pi

/-!
# The messages of the queue chat

The messages of `cw7/messeage.h` as the client and the server of the POSIX variant build
them, and the name of a client's queue.
-/

namespace SystemyOperacyjne.QueueChat
open CString

def MAX_MESSAGE_SIZE : ℕ := 4096
def CLIENT_NAME_SIZE : ℕ := 30

inductive message_type
  | INIT
  | IDENTIFIER
  | MESSAGE
  | STOP
  deriving DecidableEq, Repr

/-- `char text[MAX_MESSAGE_SIZE]`. -/
abbrev Text := Fin MAX_MESSAGE_SIZE → UInt8

structure message_msg where
  type : message_type
  client_id : ℤ
  text : Text
  deriving DecidableEq

/-- A text that starts with the given bytes; the rest is zero, as after an initializer
that names other members only. -/
def textOf (bytes : List UInt8) : Text :=
  overwrite (fun _ => 0) bytes

/-- `memcpy` of the bytes into a zeroed text. -/
def memcpyText (bytes : List UInt8) : Option Text :=
  memcpy (fun _ => 0) bytes

/-- What `%d` prints for a positive number. -/
def decimal (n : ℕ) : List UInt8 :=
  (Nat.digits 10 n).reverse.map fun d => (48 + d).toUInt8

/-- A process id: a positive `int`. -/
structure Pid where
  val : ℕ
  pos : 0 < val
  lt : val < 2 ^ 31
  deriving DecidableEq

/-- The name by which a message queue is opened. -/
abbrev QueueName := List UInt8

def queuePrefix : List UInt8 := [47, 99, 108, 105, 101, 110, 116, 95, 113, 117, 101, 117, 101, 95]

/-- `sprintf(client_queue_name, "/client_queue_%d\n", PID1)`. -/
def client_queue_name (p : Pid) : QueueName :=
  queuePrefix ++ decimal p.val ++ [10]

example : queuePrefix = bytesOf "/client_queue_" := by decide

/-- The reply to INIT. -/
def identifierMessage (id : Fin 10) : message_msg where
  type := .IDENTIFIER
  client_id := id
  text := textOf []

def goodbye : List UInt8 :=
  bytesOf "Dziekujemy za skorzystanie z naszych uslug, do zobaczenia!"

/-- The reply to STOP. -/
def endMessage (id : Fin 10) : message_msg where
  type := .STOP
  client_id := id
  text := textOf goodbye

/-- The first message of a client. -/
def initMessage (p : Pid) : message_msg where
  type := .INIT
  client_id := -1
  text := textOf (client_queue_name p)

lemma decimal_mem {n : ℕ} {b : UInt8} (h : b ∈ decimal n) : ∃ d, d < 10 ∧ b = (48 + d).toUInt8 := by
  unfold decimal at h
  obtain ⟨d, hd, rfl⟩ := List.mem_map.mp h
  exact ⟨d, Nat.digits_lt_base (by omega) (List.mem_reverse.mp hd), rfl⟩

lemma client_queue_name_ne_zero (p : Pid) : ∀ b ∈ client_queue_name p, b ≠ 0 := by
  intro b hb
  unfold client_queue_name at hb
  rcases List.mem_append.mp hb with hb | hb
  · rcases List.mem_append.mp hb with hb | hb
    · have hall : ∀ c ∈ queuePrefix, c ≠ 0 := by decide +kernel
      exact hall b hb
    · obtain ⟨d, hd, rfl⟩ := decimal_mem hb
      interval_cases d <;> decide
  · rw [List.mem_singleton.mp hb]
    decide

lemma client_queue_name_fits (p : Pid) : (client_queue_name p).length + 1 ≤ CLIENT_NAME_SIZE := by
  have hdigits : (Nat.digits 10 p.val).length ≤ 10 :=
    (Nat.digits_length_le_iff (by omega) p.val).mpr (by have := p.lt; omega)
  simp only [client_queue_name, queuePrefix, decimal, List.length_append, List.length_map, List.length_reverse,
    List.length_cons, List.length_nil, CLIENT_NAME_SIZE]
  omega

lemma memcpyText_client_queue_name (p : Pid) :
    memcpyText (client_queue_name p) = some (textOf (client_queue_name p)) := by
  have := client_queue_name_fits p
  exact if_pos (by unfold CLIENT_NAME_SIZE at this; unfold MAX_MESSAGE_SIZE; omega)

/-- The server opens the queue that the client created. -/
lemma cString_initMessage (p : Pid) : cString (initMessage p).text = client_queue_name p := by
  have := client_queue_name_fits p
  exact cString_overwrite_zero (by unfold CLIENT_NAME_SIZE at this; unfold MAX_MESSAGE_SIZE; omega) (client_queue_name_ne_zero p)

lemma map_decimal (n : ℕ) : (decimal n).map (fun b => b.toNat - 48) = (Nat.digits 10 n).reverse := by
  unfold decimal
  rw [List.map_map]
  refine (List.map_congr_left fun d hd => ?_).trans (List.map_id _)
  have hlt : d < 10 := Nat.digits_lt_base (by omega) (List.mem_reverse.mp hd)
  interval_cases d <;> rfl

lemma client_queue_name_injective : Function.Injective client_queue_name := by
  intro p q h
  unfold client_queue_name at h
  have hdec : decimal p.val = decimal q.val :=
    List.append_cancel_left (List.append_cancel_right h)
  have hdigits : (Nat.digits 10 p.val).reverse = (Nat.digits 10 q.val).reverse := by
    rw [← map_decimal, ← map_decimal, hdec]
  have hval : p.val = q.val := Nat.digits_inj_iff.mp (List.reverse_injective hdigits)
  cases p
  cases q
  simp only at hval
  subst hval
  rfl

end SystemyOperacyjne.QueueChat
