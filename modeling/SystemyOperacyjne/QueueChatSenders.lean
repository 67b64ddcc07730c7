import SystemyOperacyjne.QueueChatMoves

/-!
# The queue chat server with any senders

The server on its own: any process can send it any message, and somebody takes the messages out
of the clients' queues.
-/

namespace SystemyOperacyjne.QueueChat
open Concurrency CString

variable {s t : State}

/-- A step of the server, a message from anybody, a message taken out of a client's queue,
or a SIGINT for the server. -/
inductive SenderAction (κ : Type)
  | server (ok : Bool)
  | arrive (e : Entry)
  | take (n : κ)
  | interrupt

def senderStep (s : State) : SenderAction QueueName → Option State
  | .server ok => serverStep s ok
  | .arrive e => s.sendToServer e.sender e.msg
  | .take n => if s.queues n = [] then none else some { s with queues := Function.update s.queues n (s.queues n).tail }
  | .interrupt => some { s with server := { s.server with flag := false } }

def anySenders : Machine State (SenderAction QueueName) where
  init := Started
  next := senderStep

/-- What a step of the server among its senders can be. -/
theorem sender_cases {a : SenderAction QueueName} (hs : senderStep s a = some t) :
    (∃ ok, a = .server ok ∧ ServerMove s ok t) ∨
    (∃ e, a = .arrive e ∧ { s with server_queue := s.server_queue ++ [e] } = t) ∨
    (∃ n, a = .take n ∧ { s with queues := Function.update s.queues n (s.queues n).tail } = t) ∨
    a = .interrupt ∧ { s with server := { s.server with flag := false } } = t := by
  cases a with
  | server ok => exact .inl ⟨ok, rfl, server_cases hs⟩
  | arrive e => exact .inr (.inl ⟨e, rfl, (sendToServer_eq_some.mp hs).2⟩)
  | take n =>
    simp only [senderStep] at hs
    split at hs
    · cases hs
    · cases hs
      exact .inr (.inr (.inl ⟨n, rfl, rfl⟩))
  | interrupt => exact .inr (.inr (.inr ⟨rfl, Option.some.inj hs⟩))

end SystemyOperacyjne.QueueChat
