import SystemyOperacyjne.Library.Machine
import SystemyOperacyjne.Library.NamedPipe
import SystemyOperacyjne.QuadraturePieces

/-!
# The service

`cw6/zadanie2/sender.c` and `cw6/zadanie2/integral.c`: one process asks for an integral through one FIFO
and gets the result through another. Each `open` waits for the other process.
-/

namespace SystemyOperacyjne.Quadrature.Service
open Concurrency

/-- A `float` in a pipe; `none` is an indeterminate one, or not a number. -/
abbrev Fifo := NamedPipe (Option ℚ)

/-- The statement that comes next; `openingInput` and `openingOutput` are inside `open`, with the counter
of the other end as it was. -/
inductive SenderPc
  | mkfifoInput
  | mkfifoOutput
  | openInput
  | openingInput (seen : ℕ)
  | writeStart
  | writeEnd
  | openOutput
  | openingOutput (seen : ℕ)
  | read
  | print
  | closeInput
  | closeOutput
  | ended
  | killed
  deriving DecidableEq, Repr

/-- `fifo` and `fifo2` are whether these descriptors are open. -/
structure Sender where
  pc : SenderPc
  fifo : Bool
  fifo2 : Bool
  result : Option ℚ

inductive IntegralPc
  | openInput
  | openingInput (seen : ℕ)
  | openOutput
  | openingOutput (seen : ℕ)
  | readStart
  | readEnd
  | compute
  | write
  | closeInput
  | closeOutput
  | ended
  | killed
  deriving DecidableEq, Repr

structure Integral where
  pc : IntegralPc
  fifo : Bool
  fifo2 : Bool
  start : Option ℚ
  (end' : Option ℚ)
  res : Option ℚ

/-- `terminal` is what the sender has printed. -/
structure State where
  fifoInput : Fifo
  fifoOutput : Fifo
  sender : Sender
  integral : Integral
  terminal : List (Option ℚ)

def State.senderAt (s : State) (pc : SenderPc) : State :=
  { s with sender := { s.sender with pc := pc } }

def State.integralAt (s : State) (pc : IntegralPc) : State :=
  { s with integral := { s.integral with pc := pc } }

section
variable (s : State) (pc : SenderPc) (pc' : IntegralPc)

@[simp] lemma senderAt_fifoInput : (s.senderAt pc).fifoInput = s.fifoInput := rfl
@[simp] lemma senderAt_fifoOutput : (s.senderAt pc).fifoOutput = s.fifoOutput := rfl
@[simp] lemma senderAt_integral : (s.senderAt pc).integral = s.integral := rfl
@[simp] lemma senderAt_terminal : (s.senderAt pc).terminal = s.terminal := rfl
@[simp] lemma integralAt_fifoInput : (s.integralAt pc').fifoInput = s.fifoInput := rfl
@[simp] lemma integralAt_fifoOutput : (s.integralAt pc').fifoOutput = s.fifoOutput := rfl
@[simp] lemma integralAt_sender : (s.integralAt pc').sender = s.sender := rfl
@[simp] lemma integralAt_terminal : (s.integralAt pc').terminal = s.terminal := rfl

end

/-- SIGPIPE ends a process, which closes its descriptors. -/
def State.killSender (s : State) : State :=
  { s.senderAt .killed with
    fifoInput := s.fifoInput.closeWriter s.sender.fifo
    fifoOutput := s.fifoOutput.closeReader s.sender.fifo2 }

def State.killIntegral (s : State) : State :=
  { s.integralAt .killed with
    fifoInput := s.fifoInput.closeReader s.integral.fifo
    fifoOutput := s.fifoOutput.closeWriter s.integral.fifo2 }

/-- `main` of `sender.c`. -/
def senderStep (Istart Iend : ℚ) (s : State) : Option State :=
  let p := s.sender
  match p.pc with
  | .mkfifoInput => some { s.senderAt .mkfifoOutput with fifoInput := s.fifoInput.mkfifo }
  | .mkfifoOutput => some { s.senderAt .openInput with fifoOutput := s.fifoOutput.mkfifo }
  | .openInput =>
    if s.fifoInput.present then
      some { s with
        sender := { p with
          pc := if s.fifoInput.readers = 0 then .openingInput s.fifoInput.r_counter else .writeStart
          fifo := true }
        fifoInput := s.fifoInput.addWriter }
    else some (s.senderAt .writeStart)
  | .openingInput seen => if s.fifoInput.r_counter = seen then none else some (s.senderAt .writeStart)
  | .writeStart =>
    match s.fifoInput.write p.fifo (some Istart) with
    | some f => some { s.senderAt .writeEnd with fifoInput := f }
    | none => some s.killSender
  | .writeEnd =>
    match s.fifoInput.write p.fifo (some Iend) with
    | some f => some { s.senderAt .openOutput with fifoInput := f }
    | none => some s.killSender
  | .openOutput =>
    if s.fifoOutput.present then
      some { s with
        sender := { p with
          pc := if s.fifoOutput.writers = 0 then .openingOutput s.fifoOutput.w_counter else .read
          fifo2 := true }
        fifoOutput := s.fifoOutput.addReader }
    else some (s.senderAt .read)
  | .openingOutput seen => if s.fifoOutput.w_counter = seen then none else some (s.senderAt .read)
  | .read => (s.fifoOutput.read p.fifo2).map fun r => { s with
      sender := { p with pc := .print, result := r.1.getD p.result }
      fifoOutput := r.2 }
  | .print => some { s.senderAt .closeInput with terminal := s.terminal ++ [p.result] }
  | .closeInput => some { s.senderAt .closeOutput with fifoInput := s.fifoInput.closeWriter p.fifo }
  | .closeOutput => some { s.senderAt .ended with fifoOutput := s.fifoOutput.closeReader p.fifo2 }
  | .ended | .killed => none

/-- What `main` of `integral.c` computes with this fuel, `none` if it takes more. It gets no number from an
indeterminate one, or where it divides by zero. -/
def computed (fuel : ℕ) : Option ℚ → Option ℚ → Option (Option ℚ)
  | some start, some end' => if start = end' then some none else (integral fuel start end').map some
  | _, _ => some none

/-- `main` of `integral.c`. -/
def integralStep (fuel : ℕ) (s : State) : Option State :=
  let p := s.integral
  match p.pc with
  | .openInput =>
    if s.fifoInput.present then
      some { s with
        integral := { p with
          pc := if s.fifoInput.writers = 0 then .openingInput s.fifoInput.w_counter else .openOutput
          fifo := true }
        fifoInput := s.fifoInput.addReader }
    else some (s.integralAt .openOutput)
  | .openingInput seen => if s.fifoInput.w_counter = seen then none else some (s.integralAt .openOutput)
  | .openOutput =>
    if s.fifoOutput.present then
      some { s with
        integral := { p with
          pc := if s.fifoOutput.readers = 0 then .openingOutput s.fifoOutput.r_counter else .readStart
          fifo2 := true }
        fifoOutput := s.fifoOutput.addWriter }
    else some (s.integralAt .readStart)
  | .openingOutput seen => if s.fifoOutput.r_counter = seen then none else some (s.integralAt .readStart)
  | .readStart => (s.fifoInput.read p.fifo).map fun r => { s with
      integral := { p with pc := .readEnd, start := r.1.getD p.start }
      fifoInput := r.2 }
  | .readEnd => (s.fifoInput.read p.fifo).map fun r => { s with
      integral := { p with pc := .compute, end' := r.1.getD p.end' }
      fifoInput := r.2 }
  | .compute => (computed fuel p.start p.end').map fun res => { s with
      integral := { p with pc := .write, res := res } }
  | .write =>
    match s.fifoOutput.write p.fifo2 p.res with
    | some f => some { s.integralAt .closeInput with fifoOutput := f }
    | none => some s.killIntegral
  | .closeInput => some { s.integralAt .closeOutput with fifoInput := s.fifoInput.closeReader p.fifo }
  | .closeOutput => some { s.integralAt .ended with fifoOutput := s.fifoOutput.closeWriter p.fifo2 }
  | .ended | .killed => none

/-- `fuel` bounds the loops of the computation. -/
inductive Action
  | sender
  | integral (fuel : ℕ)

def step (Istart Iend : ℚ) (s : State) : Action → Option State
  | .sender => senderStep Istart Iend s
  | .integral fuel => integralStep fuel s

/-- No other process has the FIFOs open; an earlier run may have left them in the file system. -/
structure Started (s : State) : Prop where
  sender : s.sender.pc = .mkfifoInput ∧ s.sender.fifo = false ∧ s.sender.fifo2 = false
  integral : s.integral.pc = .openInput ∧ s.integral.fifo = false ∧ s.integral.fifo2 = false
  input : ∃ present, s.fifoInput = ⟨present, 0, 0, 0, 0, []⟩
  output : ∃ present, s.fifoOutput = ⟨present, 0, 0, 0, 0, []⟩
  terminal : s.terminal = []

def machine (Istart Iend : ℚ) : Machine State Action where
  init := Started
  next := step Istart Iend

/-! ### Where the processes are -/

/-- How far the sender has come. -/
def SenderPc.place : SenderPc → ℕ
  | .mkfifoInput => 0
  | .mkfifoOutput => 1
  | .openInput => 2
  | .openingInput _ => 3
  | .writeStart => 4
  | .writeEnd => 5
  | .openOutput => 6
  | .openingOutput _ => 7
  | .read => 8
  | .print => 9
  | .closeInput => 10
  | .closeOutput => 11
  | .ended => 12
  | .killed => 13

def IntegralPc.place : IntegralPc → ℕ
  | .openInput => 0
  | .openingInput _ => 1
  | .openOutput => 2
  | .openingOutput _ => 3
  | .readStart => 4
  | .readEnd => 5
  | .compute => 6
  | .write => 7
  | .closeInput => 8
  | .closeOutput => 9
  | .ended => 10
  | .killed => 11

/-- The places that can occur together: each process waits in `open` for the other, the integral waits for
both numbers, and the sender for the result. -/
def Together (a b : ℕ) : Prop :=
  (4 ≤ a → 1 ≤ b) ∧ (2 ≤ b → 3 ≤ a) ∧ (8 ≤ a → 3 ≤ b) ∧ (4 ≤ b → 7 ≤ a) ∧ (9 ≤ a → 8 ≤ b) ∧ a ≤ 12 ∧ b ≤ 10

/-- The ends that the sender has open, and those that it ever opened. -/
def SenderEnds (a : ℕ) (i o : Fifo) : Prop :=
  i.writers = (if 3 ≤ a ∧ a ≤ 10 then 1 else 0) ∧ i.w_counter = (if 3 ≤ a then 1 else 0) ∧
    o.readers = (if 7 ≤ a ∧ a ≤ 11 then 1 else 0) ∧ o.r_counter = if 7 ≤ a then 1 else 0

/-- Those of the integral. -/
def IntegralEnds (b : ℕ) (i o : Fifo) : Prop :=
  i.readers = (if 1 ≤ b ∧ b ≤ 8 then 1 else 0) ∧ i.r_counter = (if 1 ≤ b then 1 else 0) ∧
    o.writers = (if 3 ≤ b ∧ b ≤ 9 then 1 else 0) ∧ o.w_counter = if 3 ≤ b then 1 else 0

lemma IntegralEnds.cases {b : ℕ} {i o : Fifo} (h : IntegralEnds b i o) :
    (1 ≤ b ∧ b ≤ 8 ∧ i.readers = 1 ∨ (b = 0 ∨ 9 ≤ b) ∧ i.readers = 0) ∧
      (1 ≤ b ∧ i.r_counter = 1 ∨ b = 0 ∧ i.r_counter = 0) ∧
      (3 ≤ b ∧ b ≤ 9 ∧ o.writers = 1 ∨ (b ≤ 2 ∨ 10 ≤ b) ∧ o.writers = 0) ∧
      (3 ≤ b ∧ o.w_counter = 1 ∨ b ≤ 2 ∧ o.w_counter = 0) := by
  obtain ⟨h₁, h₂, h₃, h₄⟩ := h
  refine ⟨?_, ?_, ?_, ?_⟩
  · split at h₁ <;> omega
  · split at h₂ <;> omega
  · split at h₃ <;> omega
  · split at h₄ <;> omega

lemma SenderEnds.cases {a : ℕ} {i o : Fifo} (h : SenderEnds a i o) :
    (3 ≤ a ∧ a ≤ 10 ∧ i.writers = 1 ∨ (a ≤ 2 ∨ 11 ≤ a) ∧ i.writers = 0) ∧
      (3 ≤ a ∧ i.w_counter = 1 ∨ a ≤ 2 ∧ i.w_counter = 0) ∧
      (7 ≤ a ∧ a ≤ 11 ∧ o.readers = 1 ∨ (a ≤ 6 ∨ 12 ≤ a) ∧ o.readers = 0) ∧
      (7 ≤ a ∧ o.r_counter = 1 ∨ a ≤ 6 ∧ o.r_counter = 0) := by
  obtain ⟨h₁, h₂, h₃, h₄⟩ := h
  refine ⟨?_, ?_, ?_, ?_⟩
  · split at h₁ <;> omega
  · split at h₂ <;> omega
  · split at h₃ <;> omega
  · split at h₄ <;> omega

structure Ends (a b : ℕ) (i o : Fifo) : Prop where
  sender : SenderEnds a i o
  integral : IntegralEnds b i o
  inputPresent : 1 ≤ a ∨ 1 ≤ b → i.present = true
  outputPresent : 2 ≤ a → o.present = true

/-- The descriptors that the sender has; in `open` it has come before the other. -/
structure Sender.Ok (p : Sender) : Prop where
  fifo : 3 ≤ p.pc.place → p.fifo = true
  fifo2 : 7 ≤ p.pc.place → p.fifo2 = true
  seen : ∀ n, p.pc = .openingInput n ∨ p.pc = .openingOutput n → n = 0

/-- What is on its way to the integral, and back. -/
def request (Istart Iend : ℚ) (a b : ℕ) : List (Option ℚ) :=
  (if 5 ≤ a ∧ b ≤ 4 then [some Istart] else []) ++ if 6 ≤ a ∧ b ≤ 5 then [some Iend] else []

def reply (res : Option ℚ) (a b : ℕ) : List (Option ℚ) :=
  if 8 ≤ b ∧ a ≤ 8 then [res] else []

structure Integral.Ok (Istart Iend : ℚ) (p : Integral) : Prop where
  fifo : 1 ≤ p.pc.place → p.fifo = true
  fifo2 : 3 ≤ p.pc.place → p.fifo2 = true
  seen : ∀ n, p.pc = .openingInput n ∨ p.pc = .openingOutput n → n = 0
  start : 5 ≤ p.pc.place → p.start = some Istart
  stop : 6 ≤ p.pc.place → p.end' = some Iend
  res : 7 ≤ p.pc.place → Istart ≠ Iend → ∃ fuel r, Quadrature.integral fuel Istart Iend = some r ∧ p.res = some r

/-- The integral has found the FIFO, or may still find it. -/
structure Ok (Istart Iend : ℚ) (s : State) : Prop where
  together : Together s.sender.pc.place s.integral.pc.place
  ends : Ends s.sender.pc.place s.integral.pc.place s.fifoInput s.fifoOutput
  sender : s.sender.Ok
  integral : s.integral.Ok Istart Iend
  input : s.fifoInput.buffer = request Istart Iend s.sender.pc.place s.integral.pc.place
  output : s.fifoOutput.buffer = reply s.integral.res s.sender.pc.place s.integral.pc.place
  result : 9 ≤ s.sender.pc.place → s.sender.result = s.integral.res
  terminal : s.terminal = if 10 ≤ s.sender.pc.place then [s.integral.res] else []

variable {Istart Iend : ℚ} {s t : State}

lemma ok_of_started (h : Started s) : Ok Istart Iend s := by
  obtain ⟨⟨hpc, hfifo, hfifo2⟩, ⟨hpc', hfifo', hfifo2'⟩, ⟨p, hinput⟩, ⟨q, houtput⟩, hterminal⟩ := h
  have ha : s.sender.pc.place = 0 := by rw [hpc]; rfl
  have hb : s.integral.pc.place = 0 := by rw [hpc']; rfl
  refine ⟨?_, ⟨?_, ?_, ?_, ?_⟩, ⟨?_, ?_, ?_⟩, ⟨?_, ?_, ?_, ?_, ?_, ?_⟩, ?_, ?_, ?_, ?_⟩
  · simp [ha, hb, Together]
  · simp [ha, hinput, houtput, SenderEnds]
  · simp [hb, hinput, houtput, IntegralEnds]
  · simp [ha, hb]
  · simp [ha]
  · simp [ha]
  · simp [ha]
  · simp [hpc]
  · simp [hb]
  · simp [hb]
  · simp [hpc']
  · simp [hb]
  · simp [hb]
  · simp [hb]
  · simp [ha, hb, hinput, request]
  · simp [ha, hb, houtput, reply]
  · simp [ha]
  · simp [ha, hterminal]

/-- What a step of the sender can be. -/
inductive SenderMove (Istart Iend : ℚ) (s : State) : State → Prop
  | makesInput (hpc : s.sender.pc = .mkfifoInput) :
      SenderMove Istart Iend s { s.senderAt .mkfifoOutput with fifoInput := s.fifoInput.mkfifo }
  | makesOutput (hpc : s.sender.pc = .mkfifoOutput) :
      SenderMove Istart Iend s { s.senderAt .openInput with fifoOutput := s.fifoOutput.mkfifo }
  | startsInput (hpc : s.sender.pc = .openInput) (hr : s.fifoInput.readers = 0) : SenderMove Istart Iend s { s with
      sender := { s.sender with pc := .openingInput s.fifoInput.r_counter, fifo := true }
      fifoInput := s.fifoInput.addWriter }
  | opensInput (hpc : s.sender.pc = .openInput) (hr : s.fifoInput.readers ≠ 0) : SenderMove Istart Iend s { s with
      sender := { s.sender with pc := .writeStart, fifo := true }
      fifoInput := s.fifoInput.addWriter }
  | getsInput {seen : ℕ} (hpc : s.sender.pc = .openingInput seen) (hne : s.fifoInput.r_counter ≠ seen) :
      SenderMove Istart Iend s (s.senderAt .writeStart)
  | writesStart (hpc : s.sender.pc = .writeStart) : SenderMove Istart Iend s { s.senderAt .writeEnd with
      fifoInput := { s.fifoInput with buffer := s.fifoInput.buffer ++ [some Istart] } }
  | writesEnd (hpc : s.sender.pc = .writeEnd) : SenderMove Istart Iend s { s.senderAt .openOutput with
      fifoInput := { s.fifoInput with buffer := s.fifoInput.buffer ++ [some Iend] } }
  | startsOutput (hpc : s.sender.pc = .openOutput) (hw : s.fifoOutput.writers = 0) : SenderMove Istart Iend s { s with
      sender := { s.sender with pc := .openingOutput s.fifoOutput.w_counter, fifo2 := true }
      fifoOutput := s.fifoOutput.addReader }
  | opensOutput (hpc : s.sender.pc = .openOutput) (hw : s.fifoOutput.writers ≠ 0) : SenderMove Istart Iend s { s with
      sender := { s.sender with pc := .read, fifo2 := true }
      fifoOutput := s.fifoOutput.addReader }
  | getsOutput {seen : ℕ} (hpc : s.sender.pc = .openingOutput seen) (hne : s.fifoOutput.w_counter ≠ seen) :
      SenderMove Istart Iend s (s.senderAt .read)
  | reads (hpc : s.sender.pc = .read) {v : Option ℚ} {rest : List (Option ℚ)} (hb : s.fifoOutput.buffer = v :: rest) :
      SenderMove Istart Iend s { s with
        sender := { s.sender with pc := .print, result := v }
        fifoOutput := { s.fifoOutput with buffer := rest } }
  | prints (hpc : s.sender.pc = .print) :
      SenderMove Istart Iend s { s.senderAt .closeInput with terminal := s.terminal ++ [s.sender.result] }
  | closesInput (hpc : s.sender.pc = .closeInput) :
      SenderMove Istart Iend s { s.senderAt .closeOutput with fifoInput := s.fifoInput.closeWriter true }
  | closesOutput (hpc : s.sender.pc = .closeOutput) :
      SenderMove Istart Iend s { s.senderAt .ended with fifoOutput := s.fifoOutput.closeReader true }

theorem sender_cases (h : Ok Istart Iend s) (hs : senderStep Istart Iend s = some t) : SenderMove Istart Iend s t := by
  have hends := h.ends
  have hwrite : ∀ v, 4 ≤ s.sender.pc.place → s.sender.pc.place ≤ 6 → s.fifoInput.write s.sender.fifo v =
      some { s.fifoInput with buffer := s.fifoInput.buffer ++ [v] } := by
    intro v hlow hhigh
    have hreaders : s.fifoInput.readers ≠ 0 := by
      have htogether := h.together
      unfold Together at htogether
      have hcases := hends.integral.cases
      omega
    simp [NamedPipe.write, h.sender.fifo (by omega), hreaders]
  cases hpc : s.sender.pc with
  | mkfifoInput =>
    simp only [senderStep, hpc, Option.some.injEq] at hs
    subst hs
    exact .makesInput hpc
  | mkfifoOutput =>
    simp only [senderStep, hpc, Option.some.injEq] at hs
    subst hs
    exact .makesOutput hpc
  | openInput =>
    have hpresent := hends.inputPresent (by simp [hpc, SenderPc.place])
    by_cases hr : s.fifoInput.readers = 0
    · simp only [senderStep, hpc, hpresent, hr, if_true, Option.some.injEq] at hs
      subst hs
      exact .startsInput hpc hr
    · simp only [senderStep, hpc, hpresent, hr, if_true, if_false, Option.some.injEq] at hs
      subst hs
      exact .opensInput hpc hr
  | openingInput seen =>
    simp only [senderStep, hpc] at hs
    split at hs
    · cases hs
    · next hne =>
      cases hs
      exact .getsInput hpc hne
  | writeStart =>
    simp only [senderStep, hpc] at hs
    rw [hwrite (some Istart) (by simp [hpc, SenderPc.place]) (by simp [hpc, SenderPc.place])] at hs
    cases hs
    exact .writesStart hpc
  | writeEnd =>
    simp only [senderStep, hpc] at hs
    rw [hwrite (some Iend) (by simp [hpc, SenderPc.place]) (by simp [hpc, SenderPc.place])] at hs
    cases hs
    exact .writesEnd hpc
  | openOutput =>
    have hpresent := hends.outputPresent (by simp [hpc, SenderPc.place])
    by_cases hw : s.fifoOutput.writers = 0
    · simp only [senderStep, hpc, hpresent, hw, if_true, Option.some.injEq] at hs
      subst hs
      exact .startsOutput hpc hw
    · simp only [senderStep, hpc, hpresent, hw, if_true, if_false, Option.some.injEq] at hs
      subst hs
      exact .opensOutput hpc hw
  | openingOutput seen =>
    simp only [senderStep, hpc] at hs
    split at hs
    · cases hs
    · next hne =>
      cases hs
      exact .getsOutput hpc hne
  | read =>
    simp only [senderStep, hpc, Option.map_eq_some_iff] at hs
    obtain ⟨r, hr, rfl⟩ := hs
    have hfd := h.sender.fifo2 (by simp [hpc, SenderPc.place])
    cases hb : s.fifoOutput.buffer with
    | cons v rest =>
      simp only [NamedPipe.read, hfd, hb, if_true, Option.some.injEq] at hr
      subst hr
      exact .reads hpc hb
    | nil =>
      -- the integral has not written yet, and has its end open
      have hwriters : s.fifoOutput.writers ≠ 0 := by
        have hreply := h.output
        have htogether := h.together
        rw [hpc] at hreply htogether
        rw [hb] at hreply
        unfold Together at htogether
        simp only [SenderPc.place] at htogether
        have hwriting : s.integral.pc.place < 8 := by
          by_contra hwritten
          rw [reply, if_pos ⟨not_lt.mp hwritten, le_rfl⟩] at hreply
          cases hreply
        have hcases := hends.integral.cases
        omega
      simp [NamedPipe.read, hfd, hb, hwriters] at hr
  | print =>
    simp only [senderStep, hpc, Option.some.injEq] at hs
    subst hs
    exact .prints hpc
  | closeInput =>
    simp only [senderStep, hpc, Option.some.injEq, h.sender.fifo (by simp [hpc, SenderPc.place])] at hs
    subst hs
    exact .closesInput hpc
  | closeOutput =>
    simp only [senderStep, hpc, Option.some.injEq, h.sender.fifo2 (by simp [hpc, SenderPc.place])] at hs
    subst hs
    exact .closesOutput hpc
  | ended | killed => simp [senderStep, hpc] at hs

lemma Ok.sender_to (h : Ok Istart Iend s) {p : Sender} {i o : Fifo} {terminal : List (Option ℚ)} (hp : p.Ok)
    (htogether : Together p.pc.place s.integral.pc.place) (hends : Ends p.pc.place s.integral.pc.place i o)
    (hinput : i.buffer = request Istart Iend p.pc.place s.integral.pc.place)
    (houtput : o.buffer = reply s.integral.res p.pc.place s.integral.pc.place)
    (hresult : 9 ≤ p.pc.place → p.result = s.integral.res)
    (hterminal : terminal = if 10 ≤ p.pc.place then [s.integral.res] else []) :
    Ok Istart Iend { s with sender := p, fifoInput := i, fifoOutput := o, terminal := terminal } :=
  ⟨htogether, hends, hp, h.integral, hinput, houtput, hresult, hterminal⟩

lemma Ok.sender_goes (h : Ok Istart Iend s) {p : Sender} {i o : Fifo} (hp : p.Ok)
    (htogether : Together p.pc.place s.integral.pc.place) (hends : Ends p.pc.place s.integral.pc.place i o)
    (hinput : i.buffer = s.fifoInput.buffer) (houtput : o.buffer = s.fifoOutput.buffer)
    (hresult : p.result = s.sender.result)
    (hzone : (5 ≤ p.pc.place ↔ 5 ≤ s.sender.pc.place) ∧ (6 ≤ p.pc.place ↔ 6 ≤ s.sender.pc.place) ∧
      (9 ≤ p.pc.place ↔ 9 ≤ s.sender.pc.place) ∧ (10 ≤ p.pc.place ↔ 10 ≤ s.sender.pc.place)) :
    Ok Istart Iend { s with sender := p, fifoInput := i, fifoOutput := o } := by
  obtain ⟨h₁, h₂, h₃, h₄⟩ := hzone
  have hread : p.pc.place ≤ 8 ↔ s.sender.pc.place ≤ 8 := by omega
  refine h.sender_to hp htogether hends ?_ ?_ ?_ ?_
  · simp only [request, h₁, h₂]
    exact hinput.trans h.input
  · simp only [reply, hread]
    exact houtput.trans h.output
  · simp only [hresult]
    exact fun hle => h.result (h₃.mp hle)
  · simp only [h₄]
    exact h.terminal

theorem Ok.sender_step (h : Ok Istart Iend s) (hm : SenderMove Istart Iend s t) : Ok Istart Iend t := by
  have htogether := h.together
  obtain ⟨hends, hothers, hpin, hpout⟩ := h.ends
  obtain ⟨hfifo, hfifo2, hseen⟩ := h.sender
  unfold Together at htogether
  unfold SenderEnds at hends
  cases hm with
  | makesInput hpc =>
    rw [hpc] at htogether hends hpin hpout
    simp only [SenderPc.place] at htogether hends hpin hpout
    refine h.sender_goes (p := { s.sender with pc := .mkfifoOutput })
      (i := s.fifoInput.mkfifo) (o := s.fifoOutput) ⟨?_, ?_, ?_⟩ ?_ ⟨?_, ?_, ?_, ?_⟩ rfl rfl rfl ?_
    · simp [SenderPc.place]
    · simp [SenderPc.place]
    · simp
    · simp only [Together, SenderPc.place]
      omega
    · simpa [SenderEnds, SenderPc.place, NamedPipe.mkfifo] using hends
    · exact hothers
    · simp [NamedPipe.mkfifo]
    · simp [SenderPc.place]
    · simp [hpc, SenderPc.place]
  | makesOutput hpc =>
    rw [hpc] at htogether hends hpin hpout
    simp only [SenderPc.place] at htogether hends hpin hpout
    refine h.sender_goes (p := { s.sender with pc := .openInput })
      (i := s.fifoInput) (o := s.fifoOutput.mkfifo) ⟨?_, ?_, ?_⟩ ?_ ⟨?_, ?_, ?_, ?_⟩ rfl rfl rfl ?_
    · simp [SenderPc.place]
    · simp [SenderPc.place]
    · simp
    · simp only [Together, SenderPc.place]
      omega
    · simpa [SenderEnds, SenderPc.place, NamedPipe.mkfifo] using hends
    · exact hothers
    · exact fun _ => hpin (by omega)
    · simp [NamedPipe.mkfifo]
    · simp [hpc, SenderPc.place]
  | startsInput hpc hr =>
    rw [hpc] at htogether hends hpin hpout
    simp only [SenderPc.place] at htogether hends hpin hpout
    refine h.sender_goes (p := { s.sender with pc := .openingInput s.fifoInput.r_counter, fifo := true })
      (i := s.fifoInput.addWriter) (o := s.fifoOutput) ⟨?_, ?_, ?_⟩ ?_ ⟨?_, ?_, ?_, ?_⟩ rfl rfl rfl ?_
    · simp
    · simp [SenderPc.place]
    · simp only [SenderPc.openingInput.injEq, reduceCtorEq, or_false, forall_eq']
      have hcases := hothers.cases
      omega
    · simp only [Together, SenderPc.place]
      omega
    · simpa [SenderEnds, SenderPc.place, NamedPipe.addWriter] using hends
    · exact hothers
    · exact fun _ => hpin (by omega)
    · exact fun _ => hpout (by omega)
    · simp [hpc, SenderPc.place]
  | opensInput hpc hr =>
    rw [hpc] at htogether hends hpin hpout
    simp only [SenderPc.place] at htogether hends hpin hpout
    refine h.sender_goes (p := { s.sender with pc := .writeStart, fifo := true })
      (i := s.fifoInput.addWriter) (o := s.fifoOutput) ⟨?_, ?_, ?_⟩ ?_ ⟨?_, ?_, ?_, ?_⟩ rfl rfl rfl ?_
    · simp
    · simp [SenderPc.place]
    · simp
    · simp only [Together, SenderPc.place]
      have hcases := hothers.cases.1
      omega
    · simpa [SenderEnds, SenderPc.place, NamedPipe.addWriter] using hends
    · exact hothers
    · exact fun _ => hpin (by omega)
    · exact fun _ => hpout (by omega)
    · simp [hpc, SenderPc.place]
  | getsInput hpc hne =>
    have hzero := hseen _ (.inl hpc)
    rw [hpc] at htogether hends hpin hpout
    simp only [SenderPc.place] at htogether hends hpin hpout
    refine h.sender_goes (p := { s.sender with pc := .writeStart })
      (i := s.fifoInput) (o := s.fifoOutput) ⟨?_, ?_, ?_⟩ ?_ ⟨?_, ?_, ?_, ?_⟩ rfl rfl rfl ?_
    · exact fun _ => hfifo (by simp [hpc, SenderPc.place])
    · simp [SenderPc.place]
    · simp
    · simp only [Together, SenderPc.place]
      have hcases := hothers.cases.2.1
      omega
    · simpa [SenderEnds, SenderPc.place] using hends
    · exact hothers
    · exact fun _ => hpin (by omega)
    · exact fun _ => hpout (by omega)
    · simp [hpc, SenderPc.place]
  | startsOutput hpc hw =>
    rw [hpc] at htogether hends hpin hpout
    simp only [SenderPc.place] at htogether hends hpin hpout
    refine h.sender_goes (p := { s.sender with pc := .openingOutput s.fifoOutput.w_counter, fifo2 := true })
      (i := s.fifoInput) (o := s.fifoOutput.addReader) ⟨?_, ?_, ?_⟩ ?_ ⟨?_, ?_, ?_, ?_⟩ rfl rfl rfl ?_
    · exact fun _ => hfifo (by simp [hpc, SenderPc.place])
    · simp
    · simp only [SenderPc.openingOutput.injEq, reduceCtorEq, false_or, forall_eq']
      have hcases := hothers.cases.2.2
      omega
    · simp only [Together, SenderPc.place]
      omega
    · simpa [SenderEnds, SenderPc.place, NamedPipe.addReader] using hends
    · exact hothers
    · exact fun _ => hpin (by omega)
    · exact fun _ => hpout (by omega)
    · simp [hpc, SenderPc.place]
  | opensOutput hpc hw =>
    rw [hpc] at htogether hends hpin hpout
    simp only [SenderPc.place] at htogether hends hpin hpout
    refine h.sender_goes (p := { s.sender with pc := .read, fifo2 := true })
      (i := s.fifoInput) (o := s.fifoOutput.addReader) ⟨?_, ?_, ?_⟩ ?_ ⟨?_, ?_, ?_, ?_⟩ rfl rfl rfl ?_
    · exact fun _ => hfifo (by simp [hpc, SenderPc.place])
    · simp
    · simp
    · simp only [Together, SenderPc.place]
      have hcases := hothers.cases.2.2.1
      omega
    · simpa [SenderEnds, SenderPc.place, NamedPipe.addReader] using hends
    · exact hothers
    · exact fun _ => hpin (by omega)
    · exact fun _ => hpout (by omega)
    · simp [hpc, SenderPc.place]
  | getsOutput hpc hne =>
    have hzero := hseen _ (.inr hpc)
    rw [hpc] at htogether hends hpin hpout
    simp only [SenderPc.place] at htogether hends hpin hpout
    refine h.sender_goes (p := { s.sender with pc := .read })
      (i := s.fifoInput) (o := s.fifoOutput) ⟨?_, ?_, ?_⟩ ?_ ⟨?_, ?_, ?_, ?_⟩ rfl rfl rfl ?_
    · exact fun _ => hfifo (by simp [hpc, SenderPc.place])
    · exact fun _ => hfifo2 (by simp [hpc, SenderPc.place])
    · simp
    · simp only [Together, SenderPc.place]
      have hcases := hothers.cases.2.2.2
      omega
    · simpa [SenderEnds, SenderPc.place] using hends
    · exact hothers
    · exact fun _ => hpin (by omega)
    · exact fun _ => hpout (by omega)
    · simp [hpc, SenderPc.place]
  | writesStart hpc =>
    rw [hpc] at htogether hends hpin hpout
    simp only [SenderPc.place] at htogether hends hpin hpout
    have hinput := h.input
    have houtput := h.output
    have hterminal := h.terminal
    rw [hpc] at hinput houtput hterminal
    refine h.sender_to (p := { s.sender with pc := .writeEnd }) ⟨?_, ?_, ?_⟩ ?_
      ⟨?_, hothers, fun _ => hpin (by omega), fun _ => hpout (by omega)⟩ ?_ ?_ ?_ ?_
    · exact fun _ => hfifo (by simp [hpc, SenderPc.place])
    · simp [SenderPc.place]
    · simp
    · simp only [Together, SenderPc.place]
      omega
    · simpa [SenderEnds, SenderPc.place] using hends
    · have hearly : s.integral.pc.place ≤ 4 := by omega
      simp [hinput, request, SenderPc.place, hearly]
    · simpa [reply, SenderPc.place] using houtput
    · simp [SenderPc.place]
    · simpa [SenderPc.place] using hterminal
  | writesEnd hpc =>
    rw [hpc] at htogether hends hpin hpout
    simp only [SenderPc.place] at htogether hends hpin hpout
    have hinput := h.input
    have houtput := h.output
    have hterminal := h.terminal
    rw [hpc] at hinput houtput hterminal
    refine h.sender_to (p := { s.sender with pc := .openOutput }) ⟨?_, ?_, ?_⟩ ?_
      ⟨?_, hothers, fun _ => hpin (by omega), fun _ => hpout (by omega)⟩ ?_ ?_ ?_ ?_
    · exact fun _ => hfifo (by simp [hpc, SenderPc.place])
    · simp [SenderPc.place]
    · simp
    · simp only [Together, SenderPc.place]
      omega
    · simpa [SenderEnds, SenderPc.place] using hends
    · have hearly : s.integral.pc.place ≤ 4 := by omega
      have hearly' : s.integral.pc.place ≤ 5 := by omega
      simp [hinput, request, SenderPc.place, hearly, hearly']
    · simpa [reply, SenderPc.place] using houtput
    · simp [SenderPc.place]
    · simpa [SenderPc.place] using hterminal
  | @reads hpc v rest hb =>
    rw [hpc] at htogether hends hpin hpout
    simp only [SenderPc.place] at htogether hends hpin hpout
    have hinput := h.input
    have houtput := h.output
    have hterminal := h.terminal
    rw [hpc] at hinput houtput hterminal
    -- the FIFO holds the result, so the integral has written it
    rw [hb, reply] at houtput
    split at houtput
    · next hwritten =>
      obtain ⟨rfl, rfl⟩ := List.cons.inj houtput
      refine h.sender_to (p := { s.sender with pc := .print, result := s.integral.res }) ⟨?_, ?_, ?_⟩ ?_
        ⟨?_, hothers, fun _ => hpin (by omega), fun _ => hpout (by omega)⟩ ?_ ?_ ?_ ?_
      · exact fun _ => hfifo (by simp [hpc, SenderPc.place])
      · exact fun _ => hfifo2 (by simp [hpc, SenderPc.place])
      · simp
      · simp only [Together, SenderPc.place]
        omega
      · simpa [SenderEnds, SenderPc.place] using hends
      · simpa [request, SenderPc.place] using hinput
      · simp [reply, SenderPc.place]
      · simp
      · simpa [SenderPc.place] using hterminal
    · cases houtput
  | prints hpc =>
    rw [hpc] at htogether hends hpin hpout
    simp only [SenderPc.place] at htogether hends hpin hpout
    have hinput := h.input
    have houtput := h.output
    have hterminal := h.terminal
    have hresult := h.result
    rw [hpc] at hinput houtput hterminal hresult
    refine h.sender_to (p := { s.sender with pc := .closeInput }) ⟨?_, ?_, ?_⟩ ?_
      ⟨?_, hothers, fun _ => hpin (by omega), fun _ => hpout (by omega)⟩ ?_ ?_ ?_ ?_
    · exact fun _ => hfifo (by simp [hpc, SenderPc.place])
    · exact fun _ => hfifo2 (by simp [hpc, SenderPc.place])
    · simp
    · simp only [Together, SenderPc.place]
      omega
    · simpa [SenderEnds, SenderPc.place] using hends
    · simpa [request, SenderPc.place] using hinput
    · simpa [reply, SenderPc.place] using houtput
    · exact fun _ => hresult (by simp [SenderPc.place])
    · rw [hresult (by simp [SenderPc.place]), hterminal]
      simp [SenderPc.place]
  | closesInput hpc =>
    rw [hpc] at htogether hends hpin hpout
    simp only [SenderPc.place] at htogether hends hpin hpout
    have hinput := h.input
    rw [hpc] at hinput
    have hempty : s.fifoInput.buffer = [] := by
      have hlate : ¬s.integral.pc.place ≤ 5 := by omega
      have hlate' : ¬s.integral.pc.place ≤ 4 := by omega
      simpa [request, SenderPc.place, hlate, hlate'] using hinput
    refine h.sender_goes (p := { s.sender with pc := .closeOutput })
      (i := s.fifoInput.closeWriter true) (o := s.fifoOutput) ⟨?_, ?_, ?_⟩ ?_ ⟨?_, ?_, ?_, ?_⟩ ?_ rfl rfl ?_
    · exact fun _ => hfifo (by simp [hpc, SenderPc.place])
    · exact fun _ => hfifo2 (by simp [hpc, SenderPc.place])
    · simp
    · simp only [Together, SenderPc.place]
      omega
    · simp only [Nat.reduceLeDiff, and_self, if_true] at hends
      simp [SenderEnds, SenderPc.place, NamedPipe.closeWriter, hends]
    · exact hothers
    · exact fun _ => hpin (by omega)
    · exact fun _ => hpout (by omega)
    · simp [NamedPipe.closeWriter, hempty]
    · simp [hpc, SenderPc.place]
  | closesOutput hpc =>
    rw [hpc] at htogether hends hpin hpout
    simp only [SenderPc.place] at htogether hends hpin hpout
    have houtput := h.output
    rw [hpc] at houtput
    have hempty : s.fifoOutput.buffer = [] := by simpa [reply, SenderPc.place] using houtput
    refine h.sender_goes (p := { s.sender with pc := .ended })
      (i := s.fifoInput) (o := s.fifoOutput.closeReader true) ⟨?_, ?_, ?_⟩ ?_ ⟨?_, ?_, ?_, ?_⟩ rfl ?_ rfl ?_
    · exact fun _ => hfifo (by simp [hpc, SenderPc.place])
    · exact fun _ => hfifo2 (by simp [hpc, SenderPc.place])
    · simp
    · simp only [Together, SenderPc.place]
      omega
    · simp only [Nat.reduceLeDiff, and_self, if_true] at hends
      simp [SenderEnds, SenderPc.place, NamedPipe.closeReader, hends]
    · exact hothers
    · exact fun _ => hpin (by omega)
    · exact fun _ => hpout (by omega)
    · simp [NamedPipe.closeReader, hempty]
    · simp [hpc, SenderPc.place]

/-- What a step of the integral can be. -/
inductive IntegralMove (fuel : ℕ) (s : State) : State → Prop
  | misses (hpc : s.integral.pc = .openInput) (habsent : s.fifoInput.present = false) :
      IntegralMove fuel s (s.integralAt .openOutput)
  | startsInput (hpc : s.integral.pc = .openInput) (hpresent : s.fifoInput.present = true) (hw : s.fifoInput.writers = 0) :
      IntegralMove fuel s { s with
        integral := { s.integral with pc := .openingInput s.fifoInput.w_counter, fifo := true }
        fifoInput := s.fifoInput.addReader }
  | opensInput (hpc : s.integral.pc = .openInput) (hpresent : s.fifoInput.present = true) (hw : s.fifoInput.writers ≠ 0) :
      IntegralMove fuel s { s with
        integral := { s.integral with pc := .openOutput, fifo := true }
        fifoInput := s.fifoInput.addReader }
  | getsInput {seen : ℕ} (hpc : s.integral.pc = .openingInput seen) (hne : s.fifoInput.w_counter ≠ seen) :
      IntegralMove fuel s (s.integralAt .openOutput)
  | startsOutput (hpc : s.integral.pc = .openOutput) (hr : s.fifoOutput.readers = 0) : IntegralMove fuel s { s with
      integral := { s.integral with pc := .openingOutput s.fifoOutput.r_counter, fifo2 := true }
      fifoOutput := s.fifoOutput.addWriter }
  | opensOutput (hpc : s.integral.pc = .openOutput) (hr : s.fifoOutput.readers ≠ 0) : IntegralMove fuel s { s with
      integral := { s.integral with pc := .readStart, fifo2 := true }
      fifoOutput := s.fifoOutput.addWriter }
  | getsOutput {seen : ℕ} (hpc : s.integral.pc = .openingOutput seen) (hne : s.fifoOutput.r_counter ≠ seen) :
      IntegralMove fuel s (s.integralAt .readStart)
  | readsStart (hpc : s.integral.pc = .readStart) {v : Option ℚ} {rest : List (Option ℚ)}
      (hb : s.fifoInput.buffer = v :: rest) : IntegralMove fuel s { s with
      integral := { s.integral with pc := .readEnd, start := v }
      fifoInput := { s.fifoInput with buffer := rest } }
  | readsEnd (hpc : s.integral.pc = .readEnd) {v : Option ℚ} {rest : List (Option ℚ)}
      (hb : s.fifoInput.buffer = v :: rest) : IntegralMove fuel s { s with
      integral := { s.integral with pc := .compute, end' := v }
      fifoInput := { s.fifoInput with buffer := rest } }
  | computes (hpc : s.integral.pc = .compute) {res : Option ℚ}
      (hres : computed fuel s.integral.start s.integral.end' = some res) : IntegralMove fuel s { s with
      integral := { s.integral with pc := .write, res := res } }
  | writes (hpc : s.integral.pc = .write) : IntegralMove fuel s { s.integralAt .closeInput with
      fifoOutput := { s.fifoOutput with buffer := s.fifoOutput.buffer ++ [s.integral.res] } }
  | closesInput (hpc : s.integral.pc = .closeInput) :
      IntegralMove fuel s { s.integralAt .closeOutput with fifoInput := s.fifoInput.closeReader true }
  | closesOutput (hpc : s.integral.pc = .closeOutput) :
      IntegralMove fuel s { s.integralAt .ended with fifoOutput := s.fifoOutput.closeWriter true }

lemma Ok.requested (h : Ok Istart Iend s) :
    (s.integral.pc = .readStart → s.fifoInput.buffer = [some Istart, some Iend]) ∧
      (s.integral.pc = .readEnd → s.fifoInput.buffer = [some Iend]) := by
  have htogether := h.together
  have hinput := h.input
  unfold Together at htogether
  refine ⟨fun hpc => ?_, fun hpc => ?_⟩
  · rw [hpc] at htogether hinput
    simp only [IntegralPc.place] at htogether
    have hlate : 5 ≤ s.sender.pc.place := by omega
    have hlate' : 6 ≤ s.sender.pc.place := by omega
    simpa [request, IntegralPc.place, hlate, hlate'] using hinput
  · rw [hpc] at htogether hinput
    simp only [IntegralPc.place] at htogether
    have hlate' : 6 ≤ s.sender.pc.place := by omega
    simpa [request, IntegralPc.place, hlate'] using hinput

theorem integral_cases (h : Ok Istart Iend s) {fuel : ℕ} (hs : integralStep fuel s = some t) :
    IntegralMove fuel s t := by
  have hends := h.ends
  obtain ⟨hstart, hend⟩ := h.requested
  have htogether := h.together
  unfold Together at htogether
  cases hpc : s.integral.pc with
  | openInput =>
    cases hpresent : s.fifoInput.present with
    | false =>
      simp only [integralStep, hpc, hpresent, Bool.false_eq_true, if_false, Option.some.injEq] at hs
      subst hs
      exact .misses hpc hpresent
    | true =>
      by_cases hw : s.fifoInput.writers = 0
      · simp only [integralStep, hpc, hpresent, hw, if_true, Option.some.injEq] at hs
        subst hs
        exact .startsInput hpc hpresent hw
      · simp only [integralStep, hpc, hpresent, hw, if_true, if_false, Option.some.injEq] at hs
        subst hs
        exact .opensInput hpc hpresent hw
  | openingInput seen =>
    simp only [integralStep, hpc] at hs
    split at hs
    · cases hs
    · next hne =>
      cases hs
      exact .getsInput hpc hne
  | openOutput =>
    rw [hpc] at htogether
    simp only [IntegralPc.place] at htogether
    have hpresent := hends.outputPresent (by omega)
    by_cases hr : s.fifoOutput.readers = 0
    · simp only [integralStep, hpc, hpresent, hr, if_true, Option.some.injEq] at hs
      subst hs
      exact .startsOutput hpc hr
    · simp only [integralStep, hpc, hpresent, hr, if_true, if_false, Option.some.injEq] at hs
      subst hs
      exact .opensOutput hpc hr
  | openingOutput seen =>
    simp only [integralStep, hpc] at hs
    split at hs
    · cases hs
    · next hne =>
      cases hs
      exact .getsOutput hpc hne
  | readStart =>
    simp only [integralStep, hpc, Option.map_eq_some_iff] at hs
    obtain ⟨r, hr, rfl⟩ := hs
    simp only [NamedPipe.read, h.integral.fifo (by simp [hpc, IntegralPc.place]), hstart hpc, if_true,
      Option.some.injEq] at hr
    subst hr
    exact .readsStart hpc (hstart hpc)
  | readEnd =>
    simp only [integralStep, hpc, Option.map_eq_some_iff] at hs
    obtain ⟨r, hr, rfl⟩ := hs
    simp only [NamedPipe.read, h.integral.fifo (by simp [hpc, IntegralPc.place]), hend hpc, if_true,
      Option.some.injEq] at hr
    subst hr
    exact .readsEnd hpc (hend hpc)
  | compute =>
    simp only [integralStep, hpc, Option.map_eq_some_iff] at hs
    obtain ⟨res, hres, rfl⟩ := hs
    exact .computes hpc hres
  | write =>
    have hreaders : s.fifoOutput.readers ≠ 0 := by
      have hcases := hends.sender.cases
      rw [hpc] at htogether
      simp only [IntegralPc.place] at htogether
      omega
    simp only [integralStep, hpc, NamedPipe.write, h.integral.fifo2 (by simp [hpc, IntegralPc.place]), hreaders, if_true,
      if_false, Option.some.injEq] at hs
    subst hs
    exact .writes hpc
  | closeInput =>
    simp only [integralStep, hpc, Option.some.injEq, h.integral.fifo (by simp [hpc, IntegralPc.place])] at hs
    subst hs
    exact .closesInput hpc
  | closeOutput =>
    simp only [integralStep, hpc, Option.some.injEq, h.integral.fifo2 (by simp [hpc, IntegralPc.place])] at hs
    subst hs
    exact .closesOutput hpc
  | ended | killed => simp [integralStep, hpc] at hs

lemma Ok.integral_to (h : Ok Istart Iend s) {p : Integral} {i o : Fifo} (hp : p.Ok Istart Iend)
    (htogether : Together s.sender.pc.place p.pc.place) (hends : Ends s.sender.pc.place p.pc.place i o)
    (hinput : i.buffer = request Istart Iend s.sender.pc.place p.pc.place)
    (houtput : o.buffer = reply p.res s.sender.pc.place p.pc.place)
    (hresult : 9 ≤ s.sender.pc.place → p.res = s.integral.res) :
    Ok Istart Iend { s with integral := p, fifoInput := i, fifoOutput := o } := by
  refine ⟨htogether, hends, h.sender, hp, hinput, houtput, fun hle => ?_, ?_⟩
  · rw [hresult hle]
    exact h.result hle
  · rw [h.terminal]
    by_cases hle : 10 ≤ s.sender.pc.place
    · simp only [hle, if_true, hresult (by omega)]
    · simp only [hle, if_false]

lemma Ok.integral_goes (h : Ok Istart Iend s) {p : Integral} {i o : Fifo} (hp : p.Ok Istart Iend)
    (htogether : Together s.sender.pc.place p.pc.place) (hends : Ends s.sender.pc.place p.pc.place i o)
    (hinput : i.buffer = s.fifoInput.buffer) (houtput : o.buffer = s.fifoOutput.buffer)
    (hres : p.res = s.integral.res)
    (hzone : (p.pc.place ≤ 4 ↔ s.integral.pc.place ≤ 4) ∧ (p.pc.place ≤ 5 ↔ s.integral.pc.place ≤ 5) ∧
      (8 ≤ p.pc.place ↔ 8 ≤ s.integral.pc.place)) :
    Ok Istart Iend { s with integral := p, fifoInput := i, fifoOutput := o } := by
  obtain ⟨h₁, h₂, h₃⟩ := hzone
  refine h.integral_to hp htogether hends ?_ ?_ fun _ => hres
  · simp only [request, h₁, h₂]
    exact hinput.trans h.input
  · simp only [reply, h₃, hres]
    exact houtput.trans h.output

/-- The step keeps the invariant, unless the integral looks for a FIFO that is not there. -/
theorem Ok.integral_step (h : Ok Istart Iend s) {fuel : ℕ} (hm : IntegralMove fuel s t) :
    Ok Istart Iend t ∨ s.integral.pc = .openInput ∧ s.fifoInput.present = false ∧ t = s.integralAt .openOutput := by
  have htogether := h.together
  obtain ⟨hothers, hends, hpin, hpout⟩ := h.ends
  obtain ⟨hfifo, hfifo2, hseen, hstart, hstop, hres⟩ := h.integral
  unfold Together at htogether
  unfold IntegralEnds at hends
  cases hm with
  | misses hpc habsent => exact .inr ⟨hpc, habsent, rfl⟩
  | startsInput hpc hpresent hw =>
    rw [hpc] at htogether hends hpin
    simp only [IntegralPc.place] at htogether hends hpin
    refine .inl (h.integral_goes (p := { s.integral with pc := .openingInput s.fifoInput.w_counter, fifo := true })
      (i := s.fifoInput.addReader) (o := s.fifoOutput) ⟨?_, ?_, ?_, ?_, ?_, ?_⟩ ?_ ⟨?_, ?_, ?_, ?_⟩ rfl rfl rfl ?_)
    · simp
    · simp [IntegralPc.place]
    · simp only [IntegralPc.openingInput.injEq, reduceCtorEq, or_false, forall_eq']
      have hcases := hothers.cases
      omega
    · simp [IntegralPc.place]
    · simp [IntegralPc.place]
    · simp [IntegralPc.place]
    · simp only [Together, IntegralPc.place]
      omega
    · exact hothers
    · simpa [IntegralEnds, IntegralPc.place, NamedPipe.addReader] using hends
    · exact fun _ => hpresent
    · exact fun _ => hpout (by omega)
    · simp [hpc, IntegralPc.place]
  | opensInput hpc hpresent hw =>
    rw [hpc] at htogether hends hpin
    simp only [IntegralPc.place] at htogether hends hpin
    refine .inl (h.integral_goes (p := { s.integral with pc := .openOutput, fifo := true })
      (i := s.fifoInput.addReader) (o := s.fifoOutput) ⟨?_, ?_, ?_, ?_, ?_, ?_⟩ ?_ ⟨?_, ?_, ?_, ?_⟩ rfl rfl rfl ?_)
    · simp
    · simp [IntegralPc.place]
    · simp
    · simp [IntegralPc.place]
    · simp [IntegralPc.place]
    · simp [IntegralPc.place]
    · simp only [Together, IntegralPc.place]
      have hcases := hothers.cases.1
      omega
    · exact hothers
    · simpa [IntegralEnds, IntegralPc.place, NamedPipe.addReader] using hends
    · exact fun _ => hpresent
    · exact fun _ => hpout (by omega)
    · simp [hpc, IntegralPc.place]
  | getsInput hpc hne =>
    have hzero := hseen _ (.inl hpc)
    rw [hpc] at htogether hends hpin
    simp only [IntegralPc.place] at htogether hends hpin
    refine .inl (h.integral_goes (p := { s.integral with pc := .openOutput })
      (i := s.fifoInput) (o := s.fifoOutput) ⟨?_, ?_, ?_, ?_, ?_, ?_⟩ ?_ ⟨?_, ?_, ?_, ?_⟩ rfl rfl rfl ?_)
    · exact fun _ => hfifo (by simp [hpc, IntegralPc.place])
    · simp [IntegralPc.place]
    · simp
    · simp [IntegralPc.place]
    · simp [IntegralPc.place]
    · simp [IntegralPc.place]
    · simp only [Together, IntegralPc.place]
      have hcases := hothers.cases.2.1
      omega
    · exact hothers
    · simpa [IntegralEnds, IntegralPc.place] using hends
    · exact fun _ => hpin (by omega)
    · exact fun _ => hpout (by omega)
    · simp [hpc, IntegralPc.place]
  | startsOutput hpc hr =>
    rw [hpc] at htogether hends hpin
    simp only [IntegralPc.place] at htogether hends hpin
    refine .inl (h.integral_goes (p := { s.integral with pc := .openingOutput s.fifoOutput.r_counter, fifo2 := true })
      (i := s.fifoInput) (o := s.fifoOutput.addWriter) ⟨?_, ?_, ?_, ?_, ?_, ?_⟩ ?_ ⟨?_, ?_, ?_, ?_⟩ rfl rfl rfl ?_)
    · exact fun _ => hfifo (by simp [hpc, IntegralPc.place])
    · simp
    · simp only [IntegralPc.openingOutput.injEq, reduceCtorEq, false_or, forall_eq']
      have hcases := hothers.cases.2.2
      omega
    · simp [IntegralPc.place]
    · simp [IntegralPc.place]
    · simp [IntegralPc.place]
    · simp only [Together, IntegralPc.place]
      omega
    · exact hothers
    · simpa [IntegralEnds, IntegralPc.place, NamedPipe.addWriter] using hends
    · exact fun _ => hpin (by omega)
    · exact fun _ => hpout (by omega)
    · simp [hpc, IntegralPc.place]
  | opensOutput hpc hr =>
    rw [hpc] at htogether hends hpin
    simp only [IntegralPc.place] at htogether hends hpin
    refine .inl (h.integral_goes (p := { s.integral with pc := .readStart, fifo2 := true })
      (i := s.fifoInput) (o := s.fifoOutput.addWriter) ⟨?_, ?_, ?_, ?_, ?_, ?_⟩ ?_ ⟨?_, ?_, ?_, ?_⟩ rfl rfl rfl ?_)
    · exact fun _ => hfifo (by simp [hpc, IntegralPc.place])
    · simp
    · simp
    · simp [IntegralPc.place]
    · simp [IntegralPc.place]
    · simp [IntegralPc.place]
    · simp only [Together, IntegralPc.place]
      have hcases := hothers.cases.2.2.1
      omega
    · exact hothers
    · simpa [IntegralEnds, IntegralPc.place, NamedPipe.addWriter] using hends
    · exact fun _ => hpin (by omega)
    · exact fun _ => hpout (by omega)
    · simp [hpc, IntegralPc.place]
  | getsOutput hpc hne =>
    have hzero := hseen _ (.inr hpc)
    rw [hpc] at htogether hends hpin
    simp only [IntegralPc.place] at htogether hends hpin
    refine .inl (h.integral_goes (p := { s.integral with pc := .readStart })
      (i := s.fifoInput) (o := s.fifoOutput) ⟨?_, ?_, ?_, ?_, ?_, ?_⟩ ?_ ⟨?_, ?_, ?_, ?_⟩ rfl rfl rfl ?_)
    · exact fun _ => hfifo (by simp [hpc, IntegralPc.place])
    · exact fun _ => hfifo2 (by simp [hpc, IntegralPc.place])
    · simp
    · simp [IntegralPc.place]
    · simp [IntegralPc.place]
    · simp [IntegralPc.place]
    · simp only [Together, IntegralPc.place]
      have hcases := hothers.cases.2.2.2
      omega
    · exact hothers
    · simpa [IntegralEnds, IntegralPc.place] using hends
    · exact fun _ => hpin (by omega)
    · exact fun _ => hpout (by omega)
    · simp [hpc, IntegralPc.place]
  | @readsStart hpc v rest hb =>
    have hnow := h.requested.1 hpc
    have houtput := h.output
    rw [hpc] at htogether hends hpin houtput
    simp only [IntegralPc.place] at htogether hends hpin
    rw [hnow] at hb
    obtain ⟨rfl, rfl⟩ := List.cons.inj hb
    refine .inl (h.integral_to (p := { s.integral with pc := .readEnd, start := some Istart })
      ⟨?_, ?_, ?_, ?_, ?_, ?_⟩ ?_ ⟨hothers, ?_, fun _ => hpin (by omega), hpout⟩ ?_ ?_ fun _ => rfl)
    · exact fun _ => hfifo (by simp [hpc, IntegralPc.place])
    · exact fun _ => hfifo2 (by simp [hpc, IntegralPc.place])
    · simp
    · exact fun _ => rfl
    · simp [IntegralPc.place]
    · simp [IntegralPc.place]
    · simp only [Together, IntegralPc.place]
      omega
    · simpa [IntegralEnds, IntegralPc.place] using hends
    · have hlate : 6 ≤ s.sender.pc.place := by omega
      simp [request, IntegralPc.place, hlate]
    · simpa [reply, IntegralPc.place] using houtput
  | @readsEnd hpc v rest hb =>
    have hnow := h.requested.2 hpc
    have houtput := h.output
    rw [hpc] at htogether hends hpin houtput
    simp only [IntegralPc.place] at htogether hends hpin
    rw [hnow] at hb
    obtain ⟨rfl, rfl⟩ := List.cons.inj hb
    refine .inl (h.integral_to (p := { s.integral with pc := .compute, end' := some Iend })
      ⟨?_, ?_, ?_, ?_, ?_, ?_⟩ ?_ ⟨hothers, ?_, fun _ => hpin (by omega), hpout⟩ ?_ ?_ fun _ => rfl)
    · exact fun _ => hfifo (by simp [hpc, IntegralPc.place])
    · exact fun _ => hfifo2 (by simp [hpc, IntegralPc.place])
    · simp
    · exact fun _ => hstart (by simp [hpc, IntegralPc.place])
    · exact fun _ => rfl
    · simp [IntegralPc.place]
    · simp only [Together, IntegralPc.place]
      omega
    · simpa [IntegralEnds, IntegralPc.place] using hends
    · simp [request, IntegralPc.place]
    · simpa [reply, IntegralPc.place] using houtput
  | @computes hpc res hcomputed =>
    have hinput := h.input
    have houtput := h.output
    rw [hstart (by simp [hpc, IntegralPc.place]), hstop (by simp [hpc, IntegralPc.place])] at hcomputed
    rw [hpc] at htogether hends hpin hinput houtput
    simp only [IntegralPc.place] at htogether hends hpin
    refine .inl (h.integral_to (p := { s.integral with pc := .write, res := res })
      ⟨?_, ?_, ?_, ?_, ?_, ?_⟩ ?_ ⟨hothers, ?_, fun _ => hpin (by omega), hpout⟩ ?_ ?_ fun hle => ?_)
    · exact fun _ => hfifo (by simp [hpc, IntegralPc.place])
    · exact fun _ => hfifo2 (by simp [hpc, IntegralPc.place])
    · simp
    · exact fun _ => hstart (by simp [hpc, IntegralPc.place])
    · exact fun _ => hstop (by simp [hpc, IntegralPc.place])
    · intro _ hne
      simp only [computed, if_neg hne] at hcomputed
      obtain ⟨r, hr, rfl⟩ := Option.map_eq_some_iff.mp hcomputed
      exact ⟨fuel, r, hr, rfl⟩
    · simp only [Together, IntegralPc.place]
      omega
    · simpa [IntegralEnds, IntegralPc.place] using hends
    · simpa [request, IntegralPc.place] using hinput
    · simpa [reply, IntegralPc.place] using houtput
    · omega
  | writes hpc =>
    have hinput := h.input
    have houtput := h.output
    rw [hpc] at htogether hends hpin hinput houtput
    simp only [IntegralPc.place] at htogether hends hpin
    refine .inl (h.integral_to (p := { s.integral with pc := .closeInput })
      ⟨?_, ?_, ?_, ?_, ?_, ?_⟩ ?_ ⟨hothers, ?_, fun _ => hpin (by omega), hpout⟩ ?_ ?_ fun _ => rfl)
    · exact fun _ => hfifo (by simp [hpc, IntegralPc.place])
    · exact fun _ => hfifo2 (by simp [hpc, IntegralPc.place])
    · simp
    · exact fun _ => hstart (by simp [hpc, IntegralPc.place])
    · exact fun _ => hstop (by simp [hpc, IntegralPc.place])
    · exact fun _ => hres (by simp [hpc, IntegralPc.place])
    · simp only [Together, IntegralPc.place]
      omega
    · simpa [IntegralEnds, IntegralPc.place] using hends
    · simpa [request, IntegralPc.place] using hinput
    · have hearly : s.sender.pc.place ≤ 8 := by omega
      simp [reply, IntegralPc.place, houtput, hearly]
  | closesInput hpc =>
    have hinput := h.input
    rw [hpc] at htogether hends hpin hinput
    simp only [IntegralPc.place] at htogether hends hpin
    have hempty : s.fifoInput.buffer = [] := by simpa [request, IntegralPc.place] using hinput
    refine .inl (h.integral_goes (p := { s.integral with pc := .closeOutput })
      (i := s.fifoInput.closeReader true) (o := s.fifoOutput) ⟨?_, ?_, ?_, ?_, ?_, ?_⟩ ?_ ⟨?_, ?_, ?_, ?_⟩ ?_ rfl rfl ?_)
    · exact fun _ => hfifo (by simp [hpc, IntegralPc.place])
    · exact fun _ => hfifo2 (by simp [hpc, IntegralPc.place])
    · simp
    · exact fun _ => hstart (by simp [hpc, IntegralPc.place])
    · exact fun _ => hstop (by simp [hpc, IntegralPc.place])
    · exact fun _ => hres (by simp [hpc, IntegralPc.place])
    · simp only [Together, IntegralPc.place]
      omega
    · exact hothers
    · simp only [Nat.reduceLeDiff, and_self, if_true] at hends
      simp [IntegralEnds, IntegralPc.place, NamedPipe.closeReader, hends]
    · exact fun _ => hpin (by omega)
    · exact hpout
    · simp [NamedPipe.closeReader, hempty]
    · simp [hpc, IntegralPc.place]
  | closesOutput hpc =>
    have houtput := h.output
    rw [hpc] at htogether hends hpin houtput
    simp only [IntegralPc.place] at htogether hends hpin
    refine .inl (h.integral_goes (p := { s.integral with pc := .ended })
      (i := s.fifoInput) (o := s.fifoOutput.closeWriter true) ⟨?_, ?_, ?_, ?_, ?_, ?_⟩ ?_ ⟨?_, ?_, ?_, ?_⟩ rfl ?_ rfl ?_)
    · exact fun _ => hfifo (by simp [hpc, IntegralPc.place])
    · exact fun _ => hfifo2 (by simp [hpc, IntegralPc.place])
    · simp
    · exact fun _ => hstart (by simp [hpc, IntegralPc.place])
    · exact fun _ => hstop (by simp [hpc, IntegralPc.place])
    · exact fun _ => hres (by simp [hpc, IntegralPc.place])
    · simp only [Together, IntegralPc.place]
      omega
    · exact hothers
    · simp only [Nat.reduceLeDiff, and_self, if_true] at hends
      simp [IntegralEnds, IntegralPc.place, NamedPipe.closeWriter, hends]
    · exact fun _ => hpin (by omega)
    · exact hpout
    · -- the result is lost only if the sender has gone, and then it has been read
      simp only [NamedPipe.closeWriter, if_true]
      split
      · next hgone =>
        have hcases := hothers.cases.2.2.1
        have hread : ¬s.sender.pc.place ≤ 8 := by omega
        rw [houtput]
        simp [reply, hread]
      · rfl
    · simp [hpc, IntegralPc.place]

/-! ### The integral comes too early -/

/-- The integral has looked for the FIFO before it was made, and the sender waits for a reader. -/
structure Missed (s : State) : Prop where
  integral : 2 ≤ s.integral.pc.place ∧ s.integral.pc.place ≤ 10
  fifo : s.integral.fifo = false
  fifo2 : s.integral.pc.place ≠ 3 → s.integral.fifo2 = false
  sender : s.sender.pc.place ≤ 3
  input : s.fifoInput.readers = 0 ∧ s.fifoInput.r_counter = 0
  output : s.fifoOutput.readers = 0 ∧ s.fifoOutput.r_counter = 0
  present : 1 ≤ s.sender.pc.place → s.fifoInput.present = true
  seen : ∀ n, s.sender.pc = .openingInput n ∨ s.integral.pc = .openingOutput n → n = 0
  terminal : s.terminal = []

lemma Ok.misses (h : Ok Istart Iend s) (hpc : s.integral.pc = .openInput) (habsent : s.fifoInput.present = false)
    (hfifo : s.integral.fifo = false) (hfifo2 : s.integral.fifo2 = false) : Missed (s.integralAt .openOutput) := by
  have hcases := h.ends.sender.cases
  have hothers := h.ends.integral.cases
  rw [hpc] at hothers
  have hplace : s.sender.pc.place = 0 := by
    by_contra hne
    rw [h.ends.inputPresent (.inl (by omega))] at habsent
    cases habsent
  refine ⟨by simp [State.integralAt, IntegralPc.place], hfifo, fun _ => hfifo2, ?_, ?_, ?_, ?_, ?_, ?_⟩
  · simp only [integralAt_sender]
    omega
  · simp only [IntegralPc.place] at hothers
    simp only [integralAt_fifoInput]
    omega
  · simp only [integralAt_fifoOutput]
    omega
  · simp only [integralAt_sender]
    omega
  · rintro n (hn | hn)
    · exact h.sender.seen n (.inl hn)
    · cases hn
  · rw [integralAt_terminal, h.terminal, if_neg (by omega)]

lemma Missed.sender_step (h : Missed s) (hs : senderStep Istart Iend s = some t) : Missed t := by
  obtain ⟨hintegral, hfifo, hfifo2, hsender, hinput, houtput, hpresent, hseen, hterminal⟩ := h
  cases hpc : s.sender.pc with
  | mkfifoInput =>
    simp only [senderStep, hpc, Option.some.injEq] at hs
    subst hs
    refine ⟨hintegral, hfifo, hfifo2, by simp [State.senderAt, SenderPc.place], hinput, houtput, fun _ => rfl, ?_, hterminal⟩
    rintro n (hn | hn)
    · cases hn
    · exact hseen n (.inr hn)
  | mkfifoOutput =>
    have hthere := hpresent (by simp [hpc, SenderPc.place])
    simp only [senderStep, hpc, Option.some.injEq] at hs
    subst hs
    refine ⟨hintegral, hfifo, hfifo2, by simp [State.senderAt, SenderPc.place], hinput, houtput, fun _ => hthere, ?_,
      hterminal⟩
    rintro n (hn | hn)
    · cases hn
    · exact hseen n (.inr hn)
  | openInput =>
    have hthere := hpresent (by simp [hpc, SenderPc.place])
    simp only [senderStep, hpc, hthere, hinput, if_true, Option.some.injEq] at hs
    subst hs
    refine ⟨hintegral, hfifo, hfifo2, by simp [SenderPc.place], ?_, houtput, fun _ => hthere, ?_, hterminal⟩
    · exact hinput
    · rintro n (hn | hn)
      · exact (SenderPc.openingInput.inj hn).symm
      · exact hseen n (.inr hn)
  | openingInput n =>
    have hn := hseen n (.inl hpc)
    simp [senderStep, hpc, hn, hinput] at hs
  | writeStart | writeEnd | openOutput | openingOutput | read | print | closeInput | closeOutput | ended | killed =>
    simp [hpc, SenderPc.place] at hsender

lemma Missed.integral_step (h : Missed s) {fuel : ℕ} (hs : integralStep fuel s = some t) : Missed t := by
  obtain ⟨hintegral, hfifo, hfifo2, hsender, hinput, houtput, hpresent, hseen, hterminal⟩ := h
  have hgoes : ∀ p : Integral, 4 ≤ p.pc.place → p.pc.place ≤ 10 → p.fifo = false → p.fifo2 = false →
      Missed { s with integral := p } := by
    intro p hlow hhigh hfd hfd2
    refine ⟨⟨show 2 ≤ p.pc.place by omega, hhigh⟩, hfd, fun _ => hfd2, hsender, hinput, houtput, hpresent, ?_, hterminal⟩
    rintro n (hn | hn)
    · exact hseen n (.inl hn)
    · simp [show p.pc = .openingOutput n from hn, IntegralPc.place] at hlow
  cases hpc : s.integral.pc with
  | openInput | openingInput | killed => simp [hpc, IntegralPc.place] at hintegral
  | ended => simp [integralStep, hpc] at hs
  | openOutput =>
    have hfd2 := hfifo2 (by simp [hpc, IntegralPc.place])
    simp only [integralStep, hpc] at hs
    split at hs
    · simp only [houtput, if_true, Option.some.injEq] at hs
      subst hs
      refine ⟨by simp [IntegralPc.place], hfifo, by simp [IntegralPc.place], hsender, hinput, houtput, hpresent, ?_,
        hterminal⟩
      rintro n (hn | hn)
      · exact hseen n (.inl hn)
      · exact (IntegralPc.openingOutput.inj hn).symm
    · cases hs
      exact hgoes { s.integral with pc := .readStart } (by simp [IntegralPc.place]) (by simp [IntegralPc.place]) hfifo hfd2
  | openingOutput n =>
    have hn := hseen n (.inr hpc)
    simp [integralStep, hpc, hn, houtput] at hs
  | readStart =>
    have hfd2 := hfifo2 (by simp [hpc, IntegralPc.place])
    simp only [integralStep, hpc, NamedPipe.read, hfifo, Bool.false_eq_true, if_false, Option.map_some,
      Option.some.injEq] at hs
    subst hs
    exact hgoes ⟨.readEnd, false, s.integral.fifo2, _, _, _⟩ (by simp [IntegralPc.place]) (by simp [IntegralPc.place])
      rfl hfd2
  | readEnd =>
    have hfd2 := hfifo2 (by simp [hpc, IntegralPc.place])
    simp only [integralStep, hpc, NamedPipe.read, hfifo, Bool.false_eq_true, if_false, Option.map_some,
      Option.some.injEq] at hs
    subst hs
    exact hgoes ⟨.compute, false, s.integral.fifo2, _, _, _⟩ (by simp [IntegralPc.place]) (by simp [IntegralPc.place])
      rfl hfd2
  | compute =>
    have hfd2 := hfifo2 (by simp [hpc, IntegralPc.place])
    simp only [integralStep, hpc, Option.map_eq_some_iff] at hs
    obtain ⟨res, -, rfl⟩ := hs
    exact hgoes { s.integral with pc := .write, res := res } (by simp [IntegralPc.place]) (by simp [IntegralPc.place])
      hfifo hfd2
  | write =>
    have hfd2 := hfifo2 (by simp [hpc, IntegralPc.place])
    simp only [integralStep, hpc, NamedPipe.write, hfd2, Bool.false_eq_true, if_false, Option.some.injEq] at hs
    subst hs
    exact hgoes { s.integral with pc := .closeInput } (by simp [IntegralPc.place]) (by simp [IntegralPc.place]) hfifo hfd2
  | closeInput =>
    have hfd2 := hfifo2 (by simp [hpc, IntegralPc.place])
    simp only [integralStep, hpc, NamedPipe.closeReader, hfifo, Bool.false_eq_true, if_false, Option.some.injEq] at hs
    subst hs
    exact hgoes { s.integral with pc := .closeOutput } (by simp [IntegralPc.place]) (by simp [IntegralPc.place]) hfifo hfd2
  | closeOutput =>
    have hfd2 := hfifo2 (by simp [hpc, IntegralPc.place])
    simp only [integralStep, hpc, NamedPipe.closeWriter, hfd2, Bool.false_eq_true, if_false, Option.some.injEq] at hs
    subst hs
    exact hgoes { s.integral with pc := .ended } (by simp [IntegralPc.place]) (by simp [IntegralPc.place]) hfifo hfd2

/-! ### Every run -/

/-- Before it has looked for the FIFO, the integral has nothing open. -/
def Untouched (p : Integral) : Prop :=
  p.pc = .openInput → p.fifo = false ∧ p.fifo2 = false

theorem ok_or_missed (h : (machine Istart Iend).Reachable s) : Ok Istart Iend s ∧ Untouched s.integral ∨ Missed s := by
  refine h.invariant (I := fun u => Ok Istart Iend u ∧ Untouched u.integral ∨ Missed u) ?_ ?_
  · intro u hu
    exact .inl ⟨ok_of_started hu, fun _ => hu.integral.2⟩
  · rintro u a v (⟨hok, huntouched⟩ | hmissed) hn
    · cases a with
      | sender =>
        have hm := sender_cases hok hn
        refine .inl ⟨hok.sender_step hm, ?_⟩
        cases hm <;> exact huntouched
      | integral fuel =>
        have hm := integral_cases hok hn
        rcases hok.integral_step hm with hv | ⟨hpc, habsent, rfl⟩
        · refine .inl ⟨hv, ?_⟩
          cases hm <;> simp [Untouched, State.integralAt]
        · obtain ⟨hfifo, hfifo2⟩ := huntouched hpc
          exact .inr (hok.misses hpc habsent hfifo hfifo2)
    · cases a with
      | sender => exact .inr (hmissed.sender_step hn)
      | integral fuel => exact .inr (hmissed.integral_step hn)

/-- The sender prints one number at most, and that is the integral over the interval that it has asked for,
if this has a width. No process gets SIGPIPE. -/
theorem service_correct (h : (machine Istart Iend).Reachable s) :
    (∀ x ∈ s.terminal, Istart ≠ Iend → ∃ fuel r, Quadrature.integral fuel Istart Iend = some r ∧ x = some r) ∧
      s.terminal.length ≤ 1 ∧ s.sender.pc ≠ .killed ∧ s.integral.pc ≠ .killed := by
  rcases ok_or_missed h with ⟨hok, -⟩ | hmissed
  · have htogether := hok.together
    unfold Together at htogether
    have hterminal := hok.terminal
    split at hterminal
    · next hprinted =>
      refine ⟨fun x hx hne => ?_, by simp [hterminal], fun hpc => ?_, fun hpc => ?_⟩
      · obtain ⟨fuel, r, hr, hres⟩ := hok.integral.res (by omega) hne
        rw [hterminal, List.mem_singleton] at hx
        exact ⟨fuel, r, hr, hx.trans hres⟩
      · simp [hpc, SenderPc.place] at htogether
      · simp [hpc, IntegralPc.place] at htogether
    · refine ⟨by simp [hterminal], by simp [hterminal], fun hpc => ?_, fun hpc => ?_⟩
      · simp [hpc, SenderPc.place] at htogether
      · simp [hpc, IntegralPc.place] at htogether
  · refine ⟨by simp [hmissed.terminal], by simp [hmissed.terminal], fun hpc => ?_, fun hpc => ?_⟩
    · have hplace := hmissed.sender
      simp [hpc, SenderPc.place] at hplace
    · have hplace := hmissed.integral
      simp [hpc, IntegralPc.place] at hplace

lemma foldlM_isSome {α β : Type} {f : β → α → Option β} {l : List α} (h : ∀ x, ∀ a ∈ l, ∃ y, f x a = some y)
    (x : β) : ∃ y, l.foldlM f x = some y := by
  induction l generalizing x with
  | nil => exact ⟨x, rfl⟩
  | cons a l ih =>
    obtain ⟨y, hy⟩ := h x a (by simp)
    rw [List.foldlM_cons, hy]
    exact ih (fun z b hb => h z b (by simp [hb])) y

/-- The loops of `intergral` make no step: the intervals are as wide as the step. -/
lemma integral_isSome (start end' : ℚ) : ∃ r, Quadrature.integral 1 start end' = some r := by
  apply foldlM_isSome
  intro x p hp
  obtain ⟨i, -, rfl⟩ := List.mem_map.mp hp
  have hpasses : Stepping.Passes ((i : ℚ) * ((10 : ℕ) / (end' - start))) (((i : ℚ) + 1) * ((10 : ℕ) / (end' - start)))
      ((10 : ℕ) / (end' - start)) 0 := by
    apply Stepping.passes_zero
    linarith
  exact ⟨_, congrArg (Option.map (x + ·)) (intergral_eq hpasses Nat.one_pos)⟩

lemma computed_isSome (start end' : ℚ) : ∃ res, computed 1 (some start) (some end') = some res := by
  by_cases heq : start = end'
  · exact ⟨none, if_pos heq⟩
  · obtain ⟨r, hr⟩ := integral_isSome start end'
    refine ⟨some r, ?_⟩
    rw [computed, if_neg heq, hr, Option.map_some]

lemma Ok.integral_enabled (h : Ok Istart Iend s) (hne : s.integral.pc ≠ .ended)
    (hinput : ∀ n, s.integral.pc = .openingInput n → 3 ≤ s.sender.pc.place)
    (houtput : ∀ n, s.integral.pc = .openingOutput n → 7 ≤ s.sender.pc.place) :
    ∃ t, integralStep 1 s = some t := by
  have hcases := h.ends.sender.cases
  have htogether := h.together
  obtain ⟨hstart, hend⟩ := h.requested
  have hfifo := h.integral.fifo
  have hseen := h.integral.seen
  unfold Together at htogether
  cases hpc : s.integral.pc with
  | openInput =>
    simp only [integralStep, hpc]
    split <;> simp
  | openingInput n =>
    have hplace := hinput n hpc
    have hn := hseen n (.inl hpc)
    have hcounter : s.fifoInput.w_counter ≠ n := by omega
    simp [integralStep, hpc, hcounter]
  | openOutput =>
    simp only [integralStep, hpc]
    split <;> simp
  | openingOutput n =>
    have hplace := houtput n hpc
    have hn := hseen n (.inr hpc)
    have hcounter : s.fifoOutput.r_counter ≠ n := by omega
    simp [integralStep, hpc, hcounter]
  | readStart => simp [integralStep, hpc, NamedPipe.read, hstart hpc, hfifo (by simp [hpc, IntegralPc.place])]
  | readEnd => simp [integralStep, hpc, NamedPipe.read, hend hpc, hfifo (by simp [hpc, IntegralPc.place])]
  | compute =>
    obtain ⟨res, hres⟩ := computed_isSome Istart Iend
    have hgot := h.integral.start (by simp [hpc, IntegralPc.place])
    have hgot' := h.integral.stop (by simp [hpc, IntegralPc.place])
    simp [integralStep, hpc, hgot, hgot', hres]
  | write =>
    simp only [integralStep, hpc]
    split <;> simp
  | closeInput | closeOutput => simp [integralStep, hpc]
  | ended => exact absurd hpc hne
  | killed => simp [hpc, IntegralPc.place] at htogether

lemma Ok.finished (h : Ok Istart Iend s) (hsender : senderStep Istart Iend s = none)
    (hintegral : integralStep 1 s = none) : s.sender.pc = .ended ∧ s.integral.pc = .ended := by
  have htogether := h.together
  have hcases := h.ends.integral.cases
  have hseen := h.sender.seen
  have hstuck : s.integral.pc ≠ .ended → (∃ n, s.integral.pc = .openingInput n) ∧ s.sender.pc.place < 3 ∨
      (∃ n, s.integral.pc = .openingOutput n) ∧ s.sender.pc.place < 7 := by
    intro hne
    by_contra hnot
    rw [not_or, not_and, not_and, not_lt, not_lt] at hnot
    obtain ⟨t, ht⟩ := h.integral_enabled hne (fun n hn => hnot.1 ⟨n, hn⟩) fun n hn => hnot.2 ⟨n, hn⟩
    rw [hintegral] at ht
    cases ht
  have hwaits : s.integral.pc ≠ .ended → s.integral.pc.place = 1 ∧ s.sender.pc.place < 3 ∨
      s.integral.pc.place = 3 ∧ s.sender.pc.place < 7 := by
    intro hne
    rcases hstuck hne with ⟨⟨n, hn⟩, hlt⟩ | ⟨⟨n, hn⟩, hlt⟩
    · exact .inl ⟨by rw [hn]; rfl, hlt⟩
    · exact .inr ⟨by rw [hn]; rfl, hlt⟩
  have hended : s.integral.pc = .ended → s.integral.pc.place = 10 := by
    intro hpc
    rw [hpc]
    rfl
  unfold Together at htogether
  cases hpc : s.sender.pc with
  | mkfifoInput | mkfifoOutput | print | closeInput | closeOutput => simp [senderStep, hpc] at hsender
  | openInput | openOutput =>
    simp only [senderStep, hpc] at hsender
    split at hsender <;> cases hsender
  | writeStart | writeEnd =>
    simp only [senderStep, hpc] at hsender
    split at hsender <;> cases hsender
  | openingInput n =>
    have hn := hseen n (.inl hpc)
    have hcounter : s.fifoInput.r_counter = n := by
      by_contra hne
      simp [senderStep, hpc, hne] at hsender
    rw [hpc] at hwaits htogether
    simp only [SenderPc.place] at hwaits htogether
    by_cases hend : s.integral.pc = .ended
    · have hplace := hended hend
      omega
    · have hplace := hwaits hend
      omega
  | openingOutput n =>
    have hn := hseen n (.inr hpc)
    have hcounter : s.fifoOutput.w_counter = n := by
      by_contra hne
      simp [senderStep, hpc, hne] at hsender
    rw [hpc] at hwaits htogether
    simp only [SenderPc.place] at hwaits htogether
    by_cases hend : s.integral.pc = .ended
    · have hplace := hended hend
      omega
    · have hplace := hwaits hend
      omega
  | read =>
    rw [hpc] at hwaits
    simp only [SenderPc.place] at hwaits
    by_cases hend : s.integral.pc = .ended
    · -- the result has been written and is there to be read
      have houtput := h.output
      rw [hpc, hend] at houtput
      simp only [reply, SenderPc.place, IntegralPc.place, Nat.reduceLeDiff, and_self, if_true] at houtput
      simp [senderStep, hpc, NamedPipe.read, houtput, h.sender.fifo2 (by simp [hpc, SenderPc.place])] at hsender
    · have hplace := hwaits hend
      omega
  | ended =>
    refine ⟨rfl, ?_⟩
    rw [hpc] at hwaits
    simp only [SenderPc.place] at hwaits
    by_contra hend
    have hplace := hwaits hend
    omega
  | killed => simp [hpc, SenderPc.place] at htogether

/-- How much the two processes have before them. -/
def remaining (s : State) : ℕ :=
  (13 - s.sender.pc.place) + (11 - s.integral.pc.place)

lemma senderStep_place (hs : senderStep Istart Iend s = some t) :
    s.sender.pc.place < t.sender.pc.place ∧ t.sender.pc.place ≤ 13 ∧ t.integral = s.integral := by
  cases hpc : s.sender.pc with
  | mkfifoInput | mkfifoOutput | print | closeInput | closeOutput =>
    simp only [senderStep, hpc, Option.some.injEq] at hs
    subst hs
    simp [State.senderAt, SenderPc.place]
  | openInput | openOutput =>
    simp only [senderStep, hpc] at hs
    split at hs
    · cases hs
      simp only
      split <;> simp [SenderPc.place]
    · cases hs
      simp [State.senderAt, SenderPc.place]
  | openingInput | openingOutput =>
    simp only [senderStep, hpc] at hs
    split at hs
    · cases hs
    · cases hs
      simp [State.senderAt, SenderPc.place]
  | writeStart | writeEnd =>
    simp only [senderStep, hpc] at hs
    split at hs
    · cases hs
      simp [State.senderAt, SenderPc.place]
    · cases hs
      simp [State.killSender, State.senderAt, SenderPc.place]
  | read =>
    simp only [senderStep, hpc, Option.map_eq_some_iff] at hs
    obtain ⟨r, -, rfl⟩ := hs
    simp [SenderPc.place]
  | ended | killed => simp [senderStep, hpc] at hs

lemma integralStep_place {fuel : ℕ} (hs : integralStep fuel s = some t) :
    s.integral.pc.place < t.integral.pc.place ∧ t.integral.pc.place ≤ 11 ∧ t.sender = s.sender := by
  cases hpc : s.integral.pc with
  | closeInput | closeOutput =>
    simp only [integralStep, hpc, Option.some.injEq] at hs
    subst hs
    simp [State.integralAt, IntegralPc.place]
  | openInput | openOutput =>
    simp only [integralStep, hpc] at hs
    split at hs
    · cases hs
      simp only
      split <;> simp [IntegralPc.place]
    · cases hs
      simp [State.integralAt, IntegralPc.place]
  | openingInput | openingOutput =>
    simp only [integralStep, hpc] at hs
    split at hs
    · cases hs
    · cases hs
      simp [State.integralAt, IntegralPc.place]
  | write =>
    simp only [integralStep, hpc] at hs
    split at hs
    · cases hs
      simp [State.integralAt, IntegralPc.place]
    · cases hs
      simp [State.killIntegral, State.integralAt, IntegralPc.place]
  | readStart | readEnd | compute =>
    simp only [integralStep, hpc, Option.map_eq_some_iff] at hs
    obtain ⟨r, -, rfl⟩ := hs
    simp [IntegralPc.place]
  | ended | killed => simp [integralStep, hpc] at hs

lemma remaining_step {a : Action} (hs : step Istart Iend s a = some t) : remaining t < remaining s := by
  unfold remaining
  cases a with
  | sender =>
    obtain ⟨hlt, hle, hsame⟩ := senderStep_place hs
    rw [hsame]
    omega
  | integral fuel =>
    obtain ⟨hlt, hle, hsame⟩ := integralStep_place hs
    rw [hsame]
    omega

/-- Every run ends after a few steps. At its end the sender has printed a number, which is the integral if the
interval has a width, and both processes have ended, or the integral looked for the FIFO before the sender had
made it, and the sender waits in vain. -/
theorem service_ends (Istart Iend : ℚ) :
    (∀ s₀ as s, Started s₀ → (machine Istart Iend).exec s₀ as = some s → as.length ≤ 24) ∧
    ∀ s, (machine Istart Iend).Reachable s → (∀ a, (machine Istart Iend).next s a = none) →
      (s.integral.fifo = true ∧ s.sender.pc = .ended ∧ s.integral.pc = .ended ∧ ∃ x, s.terminal = [x] ∧
        (Istart ≠ Iend → ∃ fuel r, Quadrature.integral fuel Istart Iend = some r ∧ x = some r)) ∨
      (s.integral.fifo = false ∧ s.sender.pc = .openingInput 0 ∧ s.terminal = []) := by
  refine ⟨fun s₀ as s h₀ hs => ?_, fun s h hstuck => ?_⟩
  · have hle := Machine.length_le_of_rank (M := machine Istart Iend) (I := fun _ => True) remaining
      (fun u a v _ hn => ⟨trivial, remaining_step hn⟩) hs trivial
    have hstart : remaining s₀ = 24 := by
      unfold remaining
      rw [h₀.sender.1, h₀.integral.1]
      rfl
    omega
  · have hsender : senderStep Istart Iend s = none := hstuck .sender
    rcases ok_or_missed h with ⟨hok, -⟩ | hmissed
    · obtain ⟨hpc, hpc'⟩ := hok.finished hsender (hstuck (.integral 1))
      refine .inl ⟨hok.integral.fifo (by simp [hpc', IntegralPc.place]), hpc, hpc', s.integral.res, ?_, ?_⟩
      · rw [hok.terminal, hpc]
        rfl
      · exact hok.integral.res (by simp [hpc', IntegralPc.place])
    · refine .inr ⟨hmissed.fifo, ?_, hmissed.terminal⟩
      have hplace := hmissed.sender
      cases hpc : s.sender.pc with
      | mkfifoInput | mkfifoOutput => simp [senderStep, hpc] at hsender
      | openInput =>
        simp only [senderStep, hpc] at hsender
        split at hsender <;> cases hsender
      | openingInput n => rw [hmissed.seen n (.inl hpc)]
      | writeStart | writeEnd | openOutput | openingOutput | read | print | closeInput | closeOutput | ended | killed =>
        simp [hpc, SenderPc.place] at hplace

/-- No FIFO exists, and nothing is in the memory. -/
def fresh : State where
  fifoInput := ⟨false, 0, 0, 0, 0, []⟩
  fifoOutput := ⟨false, 0, 0, 0, 0, []⟩
  sender := ⟨.mkfifoInput, false, false, none⟩
  integral := ⟨.openInput, false, false, none, none, none⟩
  terminal := []

lemma fresh_started : Started fresh :=
  ⟨⟨rfl, rfl, rfl⟩, ⟨rfl, rfl, rfl⟩, ⟨false, rfl⟩, ⟨false, rfl⟩, rfl⟩

/-- The sender goes first as long as it can. -/
def exchange : List Action :=
  List.replicate 3 .sender ++ List.replicate 2 (.integral 1) ++ List.replicate 4 .sender ++
    List.replicate 5 (.integral 1) ++ List.replicate 3 .sender

/-- The sender prints the integral from 0 to 10. -/
theorem service_correct_exchange : ∃ s x, (machine 0 10).Reachable s ∧ s.terminal = [x] ∧
    ∃ fuel r, Quadrature.integral fuel 0 10 = some r ∧ x = some r := by
  have hrun : (((machine 0 10).exec fresh exchange).map fun s => s.terminal.length) = some 1 := by decide +kernel
  obtain ⟨s, hs, hlength⟩ := Option.map_eq_some_iff.mp hrun
  obtain ⟨x, hx⟩ := List.length_eq_one_iff.mp hlength
  have hreach : (machine 0 10).Reachable s := Machine.Reachable.exec (.start fresh_started) hs
  exact ⟨s, x, hreach, hx, (service_correct hreach).1 x (by simp [hx]) (by decide)⟩

end SystemyOperacyjne.Quadrature.Service
