import SystemyOperacyjne.Library.Words
import SystemyOperacyjne.QueueChatV

/-!
# What is typed in the queue chat

The sender loops of `cw7/client.c` and `cw7/clientv.c` on a standard input that ends. Each word is sent as
a MESSAGE. The test of the result of `scanf` takes the end of the input for a success.
-/

namespace SystemyOperacyjne.QueueChat
open Concurrency CString Words

def isspace (b : UInt8) : Bool :=
  b == 32 || 9 ≤ b && b ≤ 13

/-- The value that `scanf` returns at the end of the input. -/
def EOF : ℤ := -1

/-- `scanf("%ms", &buffer)`: its result, the bytes to which `buffer` points, if any, and what is left of
the input. -/
def scanf (input : List UInt8) (buffer : Option (List UInt8)) : ℤ × Option (List UInt8) × List UInt8 :=
  match skip isspace input with
  | [] => (EOF, buffer, [])
  | b :: rest => (1, some (word isspace (b :: rest)), afterWord isspace (b :: rest))

/-- The string at `buffer`, of `strlen(buffer)` bytes. -/
def stringOf (buffer : List UInt8) : List UInt8 :=
  buffer.takeWhile (· ≠ 0)

/-- How the loop is left: SIGINT has cleared `flag`, a send has failed, `strlen` was called without a
buffer, or `memcpy` has left the text. -/
inductive LoopEnd
  | interrupted
  | sendFailed
  | missingBuffer
  | outsideText
  deriving DecidableEq

/-- The messages that are sent, and the end of the loop. `copied` are the bytes that `memcpy` copies,
`accepts` tells which messages can be sent, and the number is how often `flag` is still set. -/
def senderLoop (copied : List UInt8 → List UInt8) (accepts : message_msg → Bool) (client_id : ℤ) :
    ℕ → List UInt8 → Option (List UInt8) → List message_msg × LoopEnd
  | 0, _, _ => ([], .interrupted)
  | n + 1, input, buffer =>
    let (result, buffer, input) := scanf input buffer
    if result ≠ 0 then
      match buffer with
      | none => ([], .missingBuffer)
      | some bytes =>
        match memcpyText (copied (stringOf bytes)) with
        | none => ([], .outsideText)
        | some text =>
          if accepts ⟨.MESSAGE, client_id, text⟩ then
            let (sent, loopEnd) := senderLoop copied accepts client_id n input none
            (⟨.MESSAGE, client_id, text⟩ :: sent, loopEnd)
          else ([], .sendFailed)
    else senderLoop copied accepts client_id n input buffer

/-- The loop of `client.c`, for which `mq_send` succeeds. -/
def clientLoop (client_id : ℤ) (n : ℕ) (input : List UInt8) : List message_msg × LoopEnd :=
  senderLoop (fun s => s) (fun _ => true) client_id n input none

/-- The loop of `clientv.c`, which copies the terminator too; `msgsnd` succeeds if it takes the message. -/
def clientvLoop (client_id : ℤ) (n : ℕ) (input : List UInt8) : List message_msg × LoopEnd :=
  senderLoop (fun s => s ++ [0]) (fun m => 0 < m.mtype) client_id n input none

/-- Each word has been sent as a MESSAGE and nothing else has, and no access was outside an array. -/
structure SendsTyped (tokens : List (List UInt8)) (run : List message_msg × LoopEnd) : Prop where
  sent : run.1.map (fun m => (m.type, stringAt m.text 0)) = tokens.map fun token => (.MESSAGE, some token)
  buffer : run.2 ≠ .missingBuffer
  text : run.2 ≠ .outsideText

/-- The word leaves room for a terminator, and does not contain one. -/
def FitsText (token : List UInt8) : Prop :=
  token.length < MAX_MESSAGE_SIZE ∧ 0 ∉ token

instance (token : List UInt8) : Decidable (FitsText token) :=
  inferInstanceAs (Decidable (_ ∧ _))

/-! ### One iteration -/

section
variable {copied : List UInt8 → List UInt8} {accepts : message_msg → Bool} {client_id : ℤ}

/-- The word is sent as it was typed. -/
def SentRight (copied : List UInt8 → List UInt8) (accepts : message_msg → Bool) (client_id : ℤ)
    (token : List UInt8) : Prop :=
  ∃ text, memcpyText (copied (stringOf token)) = some text ∧ accepts ⟨.MESSAGE, client_id, text⟩ = true ∧
    stringAt text 0 = some token

lemma senderLoop_eof {input : List UInt8} (h : skip isspace input = []) (n : ℕ) :
    senderLoop copied accepts client_id (n + 1) input none = ([], .missingBuffer) := by
  simp [senderLoop, scanf, h, EOF]

lemma senderLoop_word {input : List UInt8} (h : skip isspace input ≠ []) (n : ℕ) :
    senderLoop copied accepts client_id (n + 1) input none =
      match memcpyText (copied (stringOf (word isspace (skip isspace input)))) with
      | none => ([], .outsideText)
      | some text =>
        if accepts ⟨.MESSAGE, client_id, text⟩ then
          let rest := senderLoop copied accepts client_id n (afterWord isspace (skip isspace input)) none
          (⟨.MESSAGE, client_id, text⟩ :: rest.1, rest.2)
        else ([], .sendFailed) := by
  obtain ⟨b, rest, hskip⟩ := List.exists_cons_of_ne_nil h
  simp only [senderLoop, scanf, hskip]
  rfl

lemma sendsTyped_nil {tokens : List (List UInt8)} {loopEnd : LoopEnd} :
    SendsTyped tokens ([], loopEnd) ↔ tokens = [] ∧ loopEnd ≠ .missingBuffer ∧ loopEnd ≠ .outsideText := by
  constructor
  · rintro ⟨hsent, hbuffer, htext⟩
    exact ⟨List.map_eq_nil_iff.mp hsent.symm, hbuffer, htext⟩
  · rintro ⟨rfl, hbuffer, htext⟩
    exact ⟨rfl, hbuffer, htext⟩

lemma sendsTyped_cons {token : List UInt8} {tokens : List (List UInt8)} {m : message_msg} {sent : List message_msg}
    {loopEnd : LoopEnd} : SendsTyped (token :: tokens) (m :: sent, loopEnd) ↔
      (m.type = .MESSAGE ∧ stringAt m.text 0 = some token) ∧ SendsTyped tokens (sent, loopEnd) := by
  constructor
  · rintro ⟨hsent, hbuffer, htext⟩
    simp only [List.map_cons, List.cons.injEq, Prod.mk.injEq] at hsent
    exact ⟨hsent.1, hsent.2, hbuffer, htext⟩
  · rintro ⟨⟨htype, hstring⟩, hsent, hbuffer, htext⟩
    refine ⟨?_, hbuffer, htext⟩
    simp only [List.map_cons, htype, hstring, hsent]

/-- The loop sends what was typed exactly if it is interrupted behind the last word, before it comes to
the end of the input, and has sent each word right. -/
theorem sendsTyped_iff (n : ℕ) (input : List UInt8) :
    SendsTyped (words isspace input) (senderLoop copied accepts client_id n input none) ↔
      n = (words isspace input).length ∧ ∀ token ∈ words isspace input, SentRight copied accepts client_id token := by
  induction n generalizing input with
  | zero =>
    rw [senderLoop, sendsTyped_nil]
    constructor
    · rintro ⟨hnil, -, -⟩
      simp [hnil]
    · rintro ⟨hlength, -⟩
      exact ⟨List.length_eq_zero_iff.mp hlength.symm, by simp, by simp⟩
  | succ n ih =>
    by_cases h : skip isspace input = []
    · rw [senderLoop_eof h, words_of_skip_eq_nil h]
      exact iff_of_false (fun hsends => hsends.buffer rfl) (by simp)
    · rw [senderLoop_word h, words_of_skip_ne_nil h, List.length_cons, Nat.succ_inj, List.forall_mem_cons]
      by_cases hright : SentRight copied accepts client_id (word isspace (skip isspace input))
      · obtain ⟨text, htext, haccepts, hstring⟩ := id hright
        simp only [htext, haccepts, if_true]
        rw [sendsTyped_cons, and_iff_right ⟨rfl, hstring⟩, ih, and_iff_right hright]
      · refine iff_of_false (fun hsends => hright ?_) fun hall => hright hall.2.1
        cases htext : memcpyText (copied (stringOf (word isspace (skip isspace input)))) with
        | none =>
          simp only [htext, sendsTyped_nil] at hsends
          exact absurd hsends.1 (List.cons_ne_nil _ _)
        | some text =>
          simp only [htext] at hsends
          split at hsends
          · next haccepts => exact ⟨text, htext, haccepts, (sendsTyped_cons.mp hsends).1.2⟩
          · exact absurd (sendsTyped_nil.mp hsends).1 (List.cons_ne_nil _ _)

/-- Unless it is interrupted, the loop does not come to an orderly end. -/
theorem loopEnd_ne_interrupted (n : ℕ) (input : List UInt8) (hn : (words isspace input).length < n) :
    (senderLoop copied accepts client_id n input none).2 ≠ .interrupted := by
  induction n generalizing input with
  | zero => exact absurd hn (Nat.not_lt_zero _)
  | succ n ih =>
    by_cases h : skip isspace input = []
    · rw [senderLoop_eof h]
      simp
    · rw [senderLoop_word h]
      rw [words_of_skip_ne_nil h, List.length_cons] at hn
      split
      · simp
      · split
        · exact ih _ (by omega)
        · simp

end

/-! ### The two clients -/

lemma stringOf_eq_self {token : List UInt8} (h : 0 ∉ token) : stringOf token = token := by
  rw [stringOf, List.takeWhile_eq_self_iff]
  intro b hb
  simpa using fun hzero : b = 0 => h (hzero ▸ hb)

lemma fitsText_of_stringAt {text : Text} {token : List UInt8} (h : stringAt text 0 = some token) : FitsText token := by
  obtain ⟨rest, hcells, hne⟩ := ofFn_of_stringAt h
  have hlength := congrArg List.length hcells
  rw [List.length_ofFn, List.length_append, List.length_cons] at hlength
  exact ⟨by omega, fun hzero => hne 0 hzero rfl⟩

lemma stringAt_textOf {token : List UInt8} (h : FitsText token) : stringAt (textOf token) 0 = some token :=
  (stringAt_overwrite_eq_self h.1).mpr ⟨h.2, rfl⟩

/-- The text is zeroed, so that the terminator may be copied or not. -/
lemma textOf_terminated {token : List UInt8} (h : FitsText token) : textOf (token ++ [0]) = textOf token := by
  have hzero : textOf token ⟨token.length, h.1⟩ = 0 := by simp [textOf, overwrite]
  rw [textOf, ← update_overwrite _ h.1]
  exact Function.update_eq_self_iff.mpr hzero.symm

lemma memcpyText_eq {bytes : List UInt8} (h : bytes.length ≤ MAX_MESSAGE_SIZE) :
    memcpyText bytes = some (textOf bytes) :=
  if_pos h

lemma sentRight_client_iff (client_id : ℤ) (token : List UInt8) :
    SentRight (fun s => s) (fun _ => true) client_id token ↔ FitsText token := by
  constructor
  · rintro ⟨text, -, -, hstring⟩
    exact fitsText_of_stringAt hstring
  · intro h
    refine ⟨textOf token, ?_, rfl, stringAt_textOf h⟩
    rw [stringOf_eq_self h.2, memcpyText_eq h.1.le]

lemma mtype_message (client_id : ℤ) (text : Text) :
    0 < message_msg.mtype ⟨.MESSAGE, client_id, text⟩ ↔ 0 ≤ client_id := by
  simp only [mtype_pos_iff, ne_eq, reduceCtorEq, not_false_eq_true, and_true]
  omega

lemma sentRight_clientv_iff (client_id : ℤ) (token : List UInt8) :
    SentRight (fun s => s ++ [0]) (fun m => 0 < m.mtype) client_id token ↔ FitsText token ∧ 0 ≤ client_id := by
  constructor
  · rintro ⟨text, -, haccepts, hstring⟩
    exact ⟨fitsText_of_stringAt hstring, (mtype_message client_id text).mp (of_decide_eq_true haccepts)⟩
  · rintro ⟨h, hid⟩
    refine ⟨textOf token, ?_, decide_eq_true ((mtype_message client_id _).mpr hid), stringAt_textOf h⟩
    have hle : (token ++ [0]).length ≤ MAX_MESSAGE_SIZE := by
      rw [List.length_append]
      exact h.1
    rw [stringOf_eq_self h.2, memcpyText_eq hle, textOf_terminated h]

/-- The clients send what was typed exactly if SIGINT ends the loop behind the last word, before the end
of the input, and each word fits; and `clientv.c` sends words only with an id that is not negative. -/
theorem sends_typed (client_id : ℤ) (n : ℕ) (input : List UInt8) :
    (SendsTyped (words isspace input) (clientLoop client_id n input) ↔
      n = (words isspace input).length ∧ ∀ token ∈ words isspace input, FitsText token) ∧
    (SendsTyped (words isspace input) (clientvLoop client_id n input) ↔
      n = (words isspace input).length ∧ ∀ token ∈ words isspace input, FitsText token ∧ 0 ≤ client_id) := by
  constructor
  · rw [clientLoop, sendsTyped_iff]
    simp only [sentRight_client_iff]
  · rw [clientvLoop, sendsTyped_iff]
    simp only [sentRight_clientv_iff]

/-- Nothing is typed, and the end of the input is taken for a word. -/
theorem not_sends_typed : (¬∀ (client_id : ℤ) (n : ℕ) (input : List UInt8), (words isspace input).length < n →
      SendsTyped (words isspace input) (clientLoop client_id n input)) ∧
    ¬∀ (client_id : ℤ) (n : ℕ) (input : List UInt8), (words isspace input).length < n →
      SendsTyped (words isspace input) (clientvLoop client_id n input) := by
  constructor
  · intro h
    exact (h 0 1 [] (by decide)).buffer rfl
  · intro h
    exact (h 0 1 [] (by decide)).buffer rfl

/-! ### The loop in the chat -/

section
variable {p : Pid}

/-- The parent after the loop: its messages are in the server queue, and a fault ends it. -/
def State.afterLoop (s : State) (p : Pid) (run : List message_msg × LoopEnd) : State :=
  let t := { s with server_queue := s.server_queue ++ run.1.map fun m => ⟨p, m⟩ }
  if run.2 = .interrupted then t else t.parentAt p .crashed

/-- What the parent does for a word. -/
def iteration (p : Pid) (token : List UInt8) : List Action :=
  [.parent p true none, .parent p true (some (stringOf token)), .parent p true none]

lemma exec_iteration {s : State} (hpc : (s.client p).parent = .loop) (hflag : (s.client p).flag = true)
    (hroom : s.server_queue.length < mq_maxmsg) {token : List UInt8} {text : Text}
    (htext : memcpyText (stringOf token) = some text) :
    machine.exec s (iteration p token) = some (s.enqueue ⟨p, .MESSAGE, (s.client p).client_id, text⟩) := by
  -- the parent is back where it was
  have hclient : ({ s.client p with parent := .loop, flag := true } : Client) = s.client p := by
    rw [← hpc, ← hflag]
  simp [iteration, Machine.exec, machine, step, parentStep, hpc, hflag, htext, State.setClient, State.sendToServer,
    State.enqueue, hroom]
  exact hclient

lemma exec_fault {s : State} (hpc : (s.client p).parent = .loop) (hflag : (s.client p).flag = true)
    (buffer : Option (List UInt8)) (hfault : (buffer.map stringOf).bind memcpyText = none) :
    machine.exec s [.parent p true none, .parent p true (buffer.map stringOf)] = some (s.parentAt p .crashed) := by
  simp [Machine.exec, machine, step, parentStep, hpc, hflag, hfault, State.setClient, State.parentAt]

/-- The loop is what the parent does in the chat, as long as the server queue has room. -/
theorem exec_clientLoop (n : ℕ) (input : List UInt8) (s : State) (hpc : (s.client p).parent = .loop)
    (hflag : (s.client p).flag = true)
    (hroom : s.server_queue.length + (clientLoop (s.client p).client_id n input).1.length ≤ mq_maxmsg) :
    ∃ as, machine.exec s as = some (s.afterLoop p (clientLoop (s.client p).client_id n input)) := by
  induction n generalizing input s with
  | zero => exact ⟨[], by simp [clientLoop, senderLoop, State.afterLoop]⟩
  | succ n ih =>
    unfold clientLoop at *
    by_cases h : skip isspace input = []
    · rw [senderLoop_eof h]
      refine ⟨_, (exec_fault hpc hflag none rfl).trans ?_⟩
      simp [State.afterLoop]
    · rw [senderLoop_word h] at hroom ⊢
      cases htext : memcpyText (stringOf (word isspace (skip isspace input))) with
      | none =>
        refine ⟨_, (exec_fault hpc hflag (some (word isspace (skip isspace input))) htext).trans ?_⟩
        simp [State.afterLoop]
      | some text =>
        simp only [htext, if_true, List.length_cons] at hroom ⊢
        have hword := exec_iteration hpc hflag (by omega) htext
        obtain ⟨as, has⟩ := ih (afterWord isspace (skip isspace input))
          (s.enqueue ⟨p, .MESSAGE, (s.client p).client_id, text⟩) hpc hflag (by simp [State.enqueue]; omega)
        refine ⟨iteration p (word isspace (skip isspace input)) ++ as, ?_⟩
        rw [Machine.exec_append_of_eq hword, has]
        simp [State.afterLoop, State.enqueue]

/-- The same for `clientv.c`, where a message may be refused. -/
def StateV.afterLoop (s : StateV) (p : Pid) (run : List message_msg × LoopEnd) : StateV :=
  let t := { s with server_queue := s.server_queue ++ run.1.map fun m => ⟨p, m⟩ }
  match run.2 with
  | .interrupted => t
  | .sendFailed => t.setClient p { s.client p with parent := .exited }
  | .missingBuffer | .outsideText => t.setClient p { s.client p with parent := .crashed }

variable (ftok : List UInt8 → ℤ)

lemma exec_iterationV {s : StateV} (hpc : (s.client p).parent = .loop) (hflag : (s.client p).flag = true)
    (hroom : s.server_queue.length < msg_qnum) {token : List UInt8} {text : Text}
    (htext : memcpyText (stringOf token ++ [0]) = some text)
    (haccepts : 0 < message_msg.mtype ⟨.MESSAGE, (s.client p).client_id, text⟩) :
    (machineV ftok).exec s (iteration p token) =
      some { s with server_queue := s.server_queue ++ [⟨p, .MESSAGE, (s.client p).client_id, text⟩] } := by
  have hclient : ({ s.client p with parent := .loop, flag := true } : Client) = s.client p := by
    rw [← hpc, ← hflag]
  simp [iteration, Machine.exec, machineV, stepV, parentStepV, hpc, hflag, htext, StateV.setClient,
    StateV.sendToServer, hroom, haccepts]
  exact hclient

lemma exec_faultV {s : StateV} (hpc : (s.client p).parent = .loop) (hflag : (s.client p).flag = true)
    (buffer : Option (List UInt8))
    (hfault : (buffer.map stringOf).bind (fun bytes => memcpyText (bytes ++ [0])) = none) :
    (machineV ftok).exec s [.parent p true none, .parent p true (buffer.map stringOf)] =
      some (s.setClient p { s.client p with parent := .crashed }) := by
  simp [Machine.exec, machineV, stepV, parentStepV, hpc, hflag, hfault, StateV.setClient]

lemma exec_refusedV {s : StateV} (hpc : (s.client p).parent = .loop) (hflag : (s.client p).flag = true)
    {token : List UInt8} {text : Text} (htext : memcpyText (stringOf token ++ [0]) = some text)
    (hrefused : ¬0 < message_msg.mtype ⟨.MESSAGE, (s.client p).client_id, text⟩) :
    (machineV ftok).exec s (iteration p token) = some (s.setClient p { s.client p with parent := .exited }) := by
  simp [iteration, Machine.exec, machineV, stepV, parentStepV, hpc, hflag, htext, StateV.setClient, hrefused]

theorem exec_clientvLoop (n : ℕ) (input : List UInt8) (s : StateV) (hpc : (s.client p).parent = .loop)
    (hflag : (s.client p).flag = true)
    (hroom : s.server_queue.length + (clientvLoop (s.client p).client_id n input).1.length ≤ msg_qnum) :
    ∃ as, (machineV ftok).exec s as = some (s.afterLoop p (clientvLoop (s.client p).client_id n input)) := by
  induction n generalizing input s with
  | zero => exact ⟨[], by simp [clientvLoop, senderLoop, StateV.afterLoop]⟩
  | succ n ih =>
    unfold clientvLoop at *
    by_cases h : skip isspace input = []
    · rw [senderLoop_eof h]
      refine ⟨_, (exec_faultV ftok hpc hflag none rfl).trans ?_⟩
      simp [StateV.afterLoop]
    · rw [senderLoop_word h] at hroom ⊢
      cases htext : memcpyText (stringOf (word isspace (skip isspace input)) ++ [0]) with
      | none =>
        refine ⟨_, (exec_faultV ftok hpc hflag (some (word isspace (skip isspace input))) htext).trans ?_⟩
        simp [StateV.afterLoop]
      | some text =>
        by_cases haccepts : 0 < message_msg.mtype ⟨.MESSAGE, (s.client p).client_id, text⟩
        · simp only [htext, haccepts, decide_true, if_true, List.length_cons] at hroom ⊢
          have hword := exec_iterationV ftok hpc hflag (by omega) htext haccepts
          obtain ⟨as, has⟩ := ih (afterWord isspace (skip isspace input))
            { s with server_queue := s.server_queue ++ [⟨p, .MESSAGE, (s.client p).client_id, text⟩] } hpc hflag
            (by simp; omega)
          refine ⟨iteration p (word isspace (skip isspace input)) ++ as, ?_⟩
          rw [Machine.exec_append_of_eq hword, has]
          simp [StateV.afterLoop]
        · simp only [haccepts, decide_false, Bool.false_eq_true, if_false]
          refine ⟨_, (exec_refusedV ftok hpc hflag htext haccepts).trans ?_⟩
          simp [StateV.afterLoop]

end

end SystemyOperacyjne.QueueChat
