import SystemyOperacyjne.ChatServerSteps

/-!
# The framing of the chat

The client of `cw11/client.c` sends its name and its lines one after the other, without a
terminator. The server takes what one `recv` delivers for the name, and what each later one
delivers for a line.
-/

namespace SystemyOperacyjne.ChatServer
open Concurrency CString

/-- The string in the field `name` after `recv` delivered these bytes into it. -/
def registered (name : Name) (bytes : List UInt8) : Option (List UInt8) :=
  stringAt (overwrite name bytes) 0

/-- What a `recv` delivered to the handler, and what `recipient_name` holds when it is parsed. -/
structure Receipt where
  bytes : List UInt8
  garbage : List UInt8

/-- The handler does not go on after the command. -/
def Command.Ends : Command → Bool
  | .stop | .fault => true
  | _ => false

/-- What the handler does with what it receives: each text that it compares with the names of
the commands, and the command that it carries out. -/
def executes : Buffer → List Receipt → List (List UInt8 × Command)
  | _, [] => []
  | buffer, r :: rs =>
    (terminate (overwrite buffer r.bytes) r.bytes.length).elim [([], .fault)] fun buffer' =>
      let command := parse buffer' r.garbage
      (cString buffer', command) :: if command.Ends then [] else executes buffer' rs

/-! ### What the client asks for -/

/-- The text for the recipient in the rest of a line: what follows the token and one blank. -/
def ownText (rest recipient_name : List UInt8) : List UInt8 :=
  ((rest.dropWhile isspace).drop recipient_name.length).drop 1

/-- What a line asks for. -/
def meaning (line : List UInt8) : Command :=
  if (bytesOf "2ALL ").isPrefixOf line then .toAll (line.drop 5)
  else if (bytesOf "2ONE ").isPrefixOf line then
    match scanToken (line.drop 5) with
    | some recipient_name => .toOne recipient_name (ownText (line.drop 5) recipient_name)
    | none => .other
  else if (bytesOf "LIST").isPrefixOf line then .list
  else if (bytesOf "STOP").isPrefixOf line then .stop
  else .other

/-- What the lines ask for, up to the STOP that ends the session. -/
def session : List (List UInt8) → List (List UInt8 × Command)
  | [] => []
  | line :: lines => (line, meaning line) :: if meaning line = .stop then [] else session lines

/-- A name and lines as the client can send them. -/
structure Script where
  name : List UInt8
  lines : List (List UInt8)
  name_size : 1 ≤ name.length ∧ name.length < NAME_SIZE
  line_size : ∀ line ∈ lines, 1 ≤ line.length ∧ line.length < BUFFER_SIZE
  ne_zero : ∀ b ∈ name ++ lines.flatten, b ≠ 0

/-- A way in which TCP splits and joins what the client sends: what `main` receives for the
name, and what the handler receives. -/
structure Delivery (script : Script) where
  first : List UInt8
  rest : List Receipt
  first_size : 1 ≤ first.length ∧ first.length ≤ NAME_SIZE
  rest_size : ∀ r ∈ rest, 1 ≤ r.bytes.length ∧ r.bytes.length ≤ BUFFER_SIZE
  stream : first ++ (rest.map Receipt.bytes).flatten = script.name ++ script.lines.flatten

/-! ### When the server understands it -/

/-- What the field held goes on, behind the bytes received, with the rest of the name: nothing
when all of the name was received. -/
def NameFits (old : Name) (name first : List UInt8) : Prop :=
  ∃ kept, stringAt old first.length = some kept ∧ first ++ kept = name

/-- A 2ONE names its recipient in less than 50 bytes and right behind the command, and the text
begins one byte behind the name; where nothing follows the name, there is a zero left from
before. -/
def Addressed (buffer : Buffer) (line : List UInt8) : Prop :=
  (bytesOf "2ONE ").isPrefixOf line → ∃ recipient_name, scanToken (line.drop 5) = some recipient_name ∧
    recipient_name.length < NAME_SIZE ∧ (line.length = 6 + recipient_name.length ∨
      recipient_name <+: line.drop 5 ∧ (6 + recipient_name.length < line.length ∨
        ∃ h : line.length + 1 < BUFFER_SIZE, buffer ⟨line.length + 1, h⟩ = 0))

/-- Each `recv` delivers one line, up to the STOP, and each 2ONE is addressed. -/
def Framed : Buffer → List (List UInt8) → List Receipt → Prop
  | _, [], [] => True
  | buffer, line :: lines, r :: rs => r.bytes = line ∧ Addressed buffer line ∧
      (meaning line = .stop ∨ Framed (overwrite buffer (line ++ [0])) lines rs)
  | _, _, _ => False

/-! ### One line -/

lemma scanToken_eq_some {rest token : List UInt8} (h : scanToken rest = some token) :
    ∃ blanks tail, rest = blanks ++ (token ++ tail) ∧ rest.dropWhile isspace = token ++ tail ∧
      (∀ b ∈ blanks, isspace b = true) ∧ token ≠ [] ∧ ∀ b ∈ token, isspace b = false := by
  refine ⟨rest.takeWhile isspace, (rest.dropWhile isspace).dropWhile fun b => !isspace b, ?_⟩
  have htoken : (rest.dropWhile isspace).takeWhile (fun b => !isspace b) = token ∧ token ≠ [] := by
    unfold scanToken at h
    split at h
    · cases h
    · next hne =>
      cases h
      exact ⟨rfl, hne⟩
  have hrest : rest.dropWhile isspace = token ++ (rest.dropWhile isspace).dropWhile fun b => !isspace b := by
    rw [← htoken.1, List.takeWhile_append_dropWhile]
  refine ⟨?_, hrest, fun b hb => List.mem_takeWhile_imp hb, htoken.2, fun b hb => ?_⟩
  · rw [← hrest, List.takeWhile_append_dropWhile]
  · rw [← htoken.1] at hb
    simpa using List.mem_takeWhile_imp hb

lemma token_prefix_iff {blanks token tail : List UInt8} (hblanks : ∀ b ∈ blanks, isspace b = true) (hne : token ≠ [])
    (htoken : ∀ b ∈ token, isspace b = false) : token <+: blanks ++ (token ++ tail) ↔ blanks = [] := by
  constructor
  · intro hpre
    cases blanks with
    | nil => rfl
    | cons b blanks =>
      cases token with
      | nil => exact absurd rfl hne
      | cons c token =>
        have hbc := (List.cons_prefix_cons.mp hpre).1
        have hblank := hblanks b (by simp)
        rw [← hbc, htoken c (by simp)] at hblank
        cases hblank
  · rintro rfl
    exact List.prefix_append _ _

lemma not_toOne_of_toAll {line : List UInt8} (h : (bytesOf "2ALL ").isPrefixOf line = true) :
    ¬(bytesOf "2ONE ").isPrefixOf line = true := by
  intro h'
  rw [List.isPrefixOf_iff_prefix] at h h'
  have heq := List.prefix_of_prefix_length_le h h' (by decide)
  exact absurd heq (by decide)

section
variable {buffer : Buffer} {line : List UInt8}

lemma ofFn_line (hsize : line.length < BUFFER_SIZE) :
    List.ofFn (overwrite buffer (line ++ [0])) = line ++ 0 :: (List.ofFn buffer).drop (line.length + 1) := by
  rw [ofFn_overwrite buffer (by simpa using Nat.succ_le_of_lt hsize)]
  simp

lemma stringAt_behind (hsize : line.length < BUFFER_SIZE) :
    stringAt (overwrite buffer (line ++ [0])) (line.length + 1) = stringAt buffer (line.length + 1) := by
  have hdrop : (List.ofFn (overwrite buffer (line ++ [0]))).drop (line.length + 1) =
      (List.ofFn buffer).drop (line.length + 1) := by
    rw [ofFn_line hsize, List.drop_append]
    simp
  unfold stringAt
  rw [hdrop]

lemma text_iff (buffer : Buffer) (hsize : line.length < BUFFER_SIZE) (hz : ∀ b ∈ line, b ≠ 0)
    {recipient_name : List UInt8}
    (hlong : 5 ≤ line.length) (htoken : scanToken (line.drop 5) = some recipient_name) :
    stringAt (overwrite buffer (line ++ [0])) (6 + recipient_name.length) =
        some (ownText (line.drop 5) recipient_name) ↔
      line.length = 6 + recipient_name.length ∨ recipient_name <+: line.drop 5 ∧
        (6 + recipient_name.length < line.length ∨
          ∃ h : line.length + 1 < BUFFER_SIZE, buffer ⟨line.length + 1, h⟩ = 0) := by
  obtain ⟨blanks, tail, hrest, hdrop, hblanks, hne, hchars⟩ := scanToken_eq_some htoken
  have hown : ownText (line.drop 5) recipient_name = tail.drop 1 := by
    rw [ownText, hdrop, List.drop_left]
  have hlength : line.length = 5 + blanks.length + recipient_name.length + tail.length := by
    have hl := congrArg List.length hrest
    simp only [List.length_drop, List.length_append] at hl
    omega
  have hpos : 0 < recipient_name.length := List.length_pos_iff.mpr hne
  rw [hown, hrest, token_prefix_iff hblanks hne hchars]
  by_cases hin : 6 + recipient_name.length ≤ line.length
  · have htext : line.drop (6 + recipient_name.length) = (blanks ++ (recipient_name ++ tail)).drop (1 + recipient_name.length) := by
      rw [← hrest, List.drop_drop]
      congr 1
      omega
    rw [stringAt_of_ofFn (ofFn_line hsize) hz hin, htext, Option.some.injEq]
    constructor
    · intro heq
      have hlen := congrArg List.length heq
      simp only [List.length_drop, List.length_append] at hlen
      by_cases htail : tail = []
      · subst htail
        simp only [List.length_nil] at hlen hlength
        omega
      · have htail' := List.length_pos_iff.mpr htail
        have hb : blanks.length = 0 := by omega
        by_cases hone : tail.length = 1
        · omega
        · exact .inr ⟨List.length_eq_zero_iff.mp hb, .inl (by omega)⟩
    · rintro (heq | ⟨rfl, -⟩)
      · have h1 : tail.drop 1 = [] := List.drop_eq_nil_of_le (by omega)
        rw [h1]
        exact List.drop_eq_nil_of_le (by simp only [List.length_append]; omega)
      · rw [List.nil_append, Nat.add_comm 1, ← List.drop_drop, List.drop_left]
  · have hb : blanks = [] := List.length_eq_zero_iff.mp (by omega)
    have ht : tail = [] := List.length_eq_zero_iff.mp (by omega)
    have hbehind : 6 + recipient_name.length = line.length + 1 := by
      rw [hlength, hb, ht]
      simp only [List.length_nil]
      omega
    rw [hbehind, stringAt_behind hsize, ht, List.drop_nil, stringAt_eq_nil]
    constructor
    · exact fun hzero => .inr ⟨hb, .inr hzero⟩
    · rintro (heq | ⟨-, hlt | hzero⟩)
      · omega
      · omega
      · exact hzero

lemma parse_iff (hsize : line.length < BUFFER_SIZE) (hz : ∀ b ∈ line, b ≠ 0) (garbage : List UInt8) :
    parse (overwrite buffer (line ++ [0])) garbage = meaning line ↔ Addressed buffer line := by
  have hline : stringAt (overwrite buffer (line ++ [0])) 0 = some line :=
    stringAt_of_ofFn (ofFn_line hsize) hz (Nat.zero_le _)
  unfold parse meaning
  simp only [hline]
  by_cases hall : (bytesOf "2ALL ").isPrefixOf line = true
  · rw [if_pos hall, if_pos hall]
    exact iff_of_true rfl fun hone => absurd hone (not_toOne_of_toAll hall)
  · by_cases hone : (bytesOf "2ONE ").isPrefixOf line = true
    · have hlong : 5 ≤ line.length := (List.isPrefixOf_iff_prefix.mp hone).length_le
      rw [if_neg hall, if_neg hall, if_pos hone, if_pos hone]
      cases htoken : scanToken (line.drop 5) with
      | none =>
        refine iff_of_false ?_ fun haddr => ?_
        · simp only [Option.getD_none]
          split
          · split <;> simp
          · simp
        · obtain ⟨r, hr, -⟩ := haddr hone
          rw [htoken] at hr
          cases hr
      | some r =>
        simp only [Option.getD_some]
        have htext := text_iff buffer hsize hz hlong htoken
        have haddr : Addressed buffer line ↔ r.length < NAME_SIZE ∧
            stringAt (overwrite buffer (line ++ [0])) (6 + r.length) = some (ownText (line.drop 5) r) := by
          rw [htext]
          constructor
          · intro h
            obtain ⟨r', hr', hlt, hfits⟩ := h hone
            obtain rfl := Option.some.inj (htoken.symm.trans hr')
            exact ⟨hlt, hfits⟩
          · exact fun h _ => ⟨r, htoken, h.1, h.2⟩
        rw [haddr]
        by_cases hlt : r.length < NAME_SIZE
        · rw [if_pos hlt]
          cases hmessage : stringAt (overwrite buffer (line ++ [0])) (6 + r.length) with
          | none => simp
          | some message => simp [hlt]
        · rw [if_neg hlt]
          simp [hlt]
    · rw [if_neg hall, if_neg hall, if_neg hone, if_neg hone]
      exact iff_of_true rfl fun h => absurd h hone

end

/-! ### All lines -/

lemma terminate_overwrite (buffer : Buffer) (bytes : List UInt8) : terminate (overwrite buffer bytes) bytes.length =
    if bytes.length < BUFFER_SIZE then some (overwrite buffer (bytes ++ [0])) else none := by
  unfold terminate
  by_cases h : bytes.length < BUFFER_SIZE
  · rw [dif_pos (by omega), if_pos h, ← update_overwrite buffer h]
    rfl
  · rw [dif_neg (by omega), if_neg h]

lemma executes_cons (buffer : Buffer) (r : Receipt) (rs : List Receipt) : executes buffer (r :: rs) =
    if r.bytes.length < BUFFER_SIZE then
      (cString (overwrite buffer (r.bytes ++ [0])), parse (overwrite buffer (r.bytes ++ [0])) r.garbage) ::
        if (parse (overwrite buffer (r.bytes ++ [0])) r.garbage).Ends then []
        else executes (overwrite buffer (r.bytes ++ [0])) rs
    else [([], .fault)] := by
  rw [executes, terminate_overwrite]
  by_cases h : r.bytes.length < BUFFER_SIZE
  · rw [if_pos h, if_pos h, Option.elim_some]
  · rw [if_neg h, if_neg h, Option.elim_none]

lemma meaning_ne_fault (line : List UInt8) : meaning line ≠ .fault := by
  unfold meaning
  repeat' split
  all_goals simp

lemma ends_meaning (line : List UInt8) : (meaning line).Ends = true ↔ meaning line = .stop := by
  have hne := meaning_ne_fault line
  cases h : meaning line with
  | fault => exact absurd h hne
  | stop | toAll | toOne | list | other => simp [Command.Ends]

theorem executes_iff (lines : List (List UInt8)) (hlines : ∀ line ∈ lines, line.length < BUFFER_SIZE) :
    ∀ (buffer : Buffer) (rs : List Receipt), (∀ r ∈ rs, ∀ b ∈ r.bytes, b ≠ 0) →
      (executes buffer rs = session lines ↔ Framed buffer lines rs) := by
  induction lines with
  | nil =>
    intro buffer rs hz
    cases rs with
    | nil => exact iff_of_true rfl trivial
    | cons r rs =>
      refine iff_of_false ?_ id
      rw [executes_cons, session]
      split <;> simp
  | cons line lines ih =>
    intro buffer rs hz
    cases rs with
    | nil => exact iff_of_false (List.cons_ne_nil _ _).symm id
    | cons r rs =>
      have hrest := ih (fun l hl => hlines l (by simp [hl])) (overwrite buffer (line ++ [0])) rs
        fun x hx => hz x (by simp [hx])
      have hzr := hz r (by simp)
      rw [executes_cons, session, Framed]
      by_cases hbytes : r.bytes = line
      · have hsize := hlines line (by simp)
        rw [hbytes] at hzr ⊢
        rw [if_pos hsize, cString_of_ofFn (ofFn_line hsize) hzr, ← parse_iff hsize hzr r.garbage]
        by_cases hparse : parse (overwrite buffer (line ++ [0])) r.garbage = meaning line
        · rw [hparse]
          by_cases hstop : meaning line = .stop
          · simp [hstop, Command.Ends]
          · have hends : ¬(meaning line).Ends = true := fun he => hstop ((ends_meaning line).mp he)
            simp [hstop, hends, hrest]
        · simp [hparse]
      · refine iff_of_false ?_ fun h => hbytes h.1
        split
        · next hsize =>
          rw [cString_of_ofFn (ofFn_line hsize) hzr]
          simp [hbytes]
        · intro heq
          have hhead := (List.cons.inj heq).1
          exact meaning_ne_fault line (Prod.mk.inj hhead).2.symm

lemma registered_iff {old : Name} {name first : List UInt8} (hsize : first.length ≤ NAME_SIZE) (hz : ∀ b ∈ first, b ≠ 0) :
    registered old first = some name ↔ NameFits old name first := by
  rw [registered, stringAt_overwrite hsize hz, Option.map_eq_some_iff]
  exact Iff.rfl

/-- However TCP delivers what a client sends, the server registers its name and its handler carries
out its lines, each once and with its own text, exactly if what is received for the name gives
the name, and each later `recv` delivers one line whose recipient and text can be told apart. -/
theorem framing (script : Script) (d : Delivery script) (old : Name) (memory : Buffer) :
    registered old d.first = some script.name ∧ executes memory d.rest = session script.lines ↔
      NameFits old script.name d.first ∧ Framed memory script.lines d.rest := by
  have hz : ∀ b ∈ d.first ++ (d.rest.map Receipt.bytes).flatten, b ≠ 0 := by
    rw [d.stream]
    exact script.ne_zero
  have hrest : ∀ r ∈ d.rest, ∀ b ∈ r.bytes, b ≠ 0 := by
    intro r hr b hb
    refine hz b (List.mem_append_right _ ?_)
    exact List.mem_flatten.mpr ⟨r.bytes, List.mem_map_of_mem hr, hb⟩
  rw [registered_iff d.first_size.2 fun b hb => hz b (List.mem_append_left _ hb),
    executes_iff script.lines (fun l hl => (script.line_size l hl).2) memory d.rest hrest]

/-- A name and two lines. -/
def hello : Script where
  name := bytesOf "ala"
  lines := [bytesOf "2ALL hi", bytesOf "STOP"]
  name_size := by decide
  line_size := by decide
  ne_zero := by decide +kernel

/-- The name arrives with the first line. -/
def joined : Delivery hello where
  first := bytesOf "ala2ALL hi"
  rest := [⟨bytesOf "STOP", []⟩]
  first_size := by decide
  rest_size := by decide
  stream := by decide

/-- The client is registered under another name, and its first line is lost. -/
theorem not_framing : ¬∀ (script : Script) (d : Delivery script) (old : Name) (memory : Buffer),
    registered old d.first = some script.name ∧ executes memory d.rest = session script.lines := by
  intro h
  have hname := (h hello joined (fun _ => 0) fun _ => 0).1
  exact absurd hname (by decide +kernel)

/-! ### The handler's thread -/

/-- What is seen of a handler: it receives bytes, or carries out the command in its buffer. -/
inductive Event
  | received (bytes : List UInt8)
  | executed (garbage text : List UInt8) (command : Command)

def Handler.event (h : Handler) (s : State) (x : Input) : Option Event :=
  match h.pc with
  | .receiving conn timeout =>
    (s.recv conn timeout BUFFER_SIZE x.count).bind fun r => if r.1 = -1 then none else some (.received r.2.1)
  | .testReceived =>
    if h.bytes_received ≠ -1 ∧ (terminate h.buffer h.bytes_received).isNone then some (.executed [] [] .fault) else none
  | .dispatch => some (.executed x.garbage (cString h.buffer) (parse h.buffer x.garbage))
  | _ => none

/-- What is seen of the thread `k` in a step, if it is a handler. -/
def handlerEvent (k : ℕ) (s : State) : Action → Option Event
  | .worker j x =>
    if j = k then
      match s.threads[k]? with
      | some ⟨_, _, .handler h⟩ => h.event s x
      | _ => none
    else none
  | _ => none

/-- The receipts in a list of events; one that is not parsed any more is the last. -/
def receipts : List Event → List Receipt
  | .received bytes :: .executed garbage _ _ :: events => ⟨bytes, garbage⟩ :: receipts events
  | .received bytes :: events => ⟨bytes, []⟩ :: receipts events
  | .executed _ _ _ :: events => receipts events
  | [] => []

def executions : List Event → List (List UInt8 × Command)
  | .executed _ text command :: events => (text, command) :: executions events
  | .received _ :: events => executions events
  | [] => []

/-- A handler that waits with this buffer, or has received bytes that it has not looked at. -/
inductive Session
  | waiting (buffer : Buffer)
  | holding (buffer : Buffer) (bytes : List UInt8)
  | over

def sessionStep : Session → Event → Option Session
  | .waiting buffer, .received bytes => some (.holding buffer bytes)
  | .holding buffer bytes, .executed garbage text command =>
    if executes buffer [⟨bytes, garbage⟩] = [(text, command)] then
      some (if command.Ends then .over else .waiting (overwrite buffer (bytes ++ [0])))
    else none
  | _, _ => none

def sessionMachine (buffer : Buffer) : Machine Session Event where
  init σ := σ = .waiting buffer
  next := sessionStep

/-- What a handler holds, by its place. -/
def Handler.Holds (h : Handler) (σ : Session) : Prop :=
  match h.pc with
  | .unlockRecv | .testActive | .testReceived =>
    if h.bytes_received = -1 then σ = .waiting h.buffer
    else ∃ buffer bytes, σ = .holding buffer bytes ∧ h.buffer = overwrite buffer bytes ∧ h.bytes_received = bytes.length
  | .dispatch => ∃ buffer bytes, σ = .holding buffer bytes ∧ bytes.length < BUFFER_SIZE ∧
      h.buffer = overwrite buffer (bytes ++ [0])
  | .stopClose | .stopLock | .stopDeactivate | .stopDecrement | .stopUnlock | .ended | .fault => True
  | _ => σ = .waiting h.buffer

lemma overwrite_nil {n : ℕ} (a : Fin n → UInt8) : overwrite a [] = a := by
  funext k
  rfl

lemma recv_received {s : State} {conn : Option Conn} {timeout : Bool} {size count : ℕ} {r : ℤ × List UInt8 × State}
    (h : s.recv conn timeout size count = some r) : r.1 = -1 ∧ r.2.1 = [] ∨ r.1 = r.2.1.length := by
  obtain (rfl | rfl) | ⟨c, -, -, hlen, rfl⟩ := recv_cases h
  · exact .inl ⟨rfl, rfl⟩
  · exact .inr rfl
  · refine .inr ?_
    simp only [List.length_take, Nat.min_eq_left hlen]

lemma executes_singleton (buffer : Buffer) (r : Receipt) : executes buffer [r] =
    if r.bytes.length < BUFFER_SIZE then
      [(cString (overwrite buffer (r.bytes ++ [0])), parse (overwrite buffer (r.bytes ++ [0])) r.garbage)]
    else [([], .fault)] := by
  rw [executes_cons]
  simp [executes]

lemma holds_step {k : ℕ} {th : Thread} {h : Handler} {x : Input} {t : State} {σ : Session} (memory : Buffer)
    (hold : h.Holds σ) (hlt : k < s.threads.length) (hm : HandlerMove s k th h x t) :
    ∃ h' σ', (sessionMachine memory).exec σ (h.event s x).toList = some σ' ∧
      t.threads[k]? = some { th with code := .handler h' } ∧ h'.Holds σ' := by
  have hset : ∀ (u : State) (h' : Handler), u.threads = s.threads.set k { th with code := .handler h' } →
      u.threads[k]? = some { th with code := .handler h' } := by
    intro u h' hu
    rw [hu, List.getElem?_set_self hlt]
  have hsilent : ∀ (u : State) (h' : Handler), h.event s x = none →
      u.threads = s.threads.set k { th with code := .handler h' } → h'.Holds σ →
      ∃ h' σ', (sessionMachine memory).exec σ (h.event s x).toList = some σ' ∧
        u.threads[k]? = some { th with code := .handler h' } ∧ h'.Holds σ' := by
    intro u h' hnone hu hold'
    refine ⟨h', σ, ?_, hset u h' hu, hold'⟩
    rw [hnone]
    rfl
  cases hm with
  | starts hpc hi =>
    refine hsilent _ _ ?_ rfl ?_
    · simp [Handler.event, hpc]
    · simpa [Handler.Holds, hpc] using hold
  | copiesName hpc hname =>
    refine hsilent _ _ ?_ rfl ?_
    · simp [Handler.event, hpc]
    · simpa [Handler.Holds, hpc] using hold
  | goes hgoes =>
    refine hsilent _ _ ?_ rfl ?_
    · generalize hpc : h.pc = pc at hgoes
      cases hgoes <;> simp [Handler.event, hpc]
    · generalize hpc : h.pc = pc at hgoes
      cases hgoes <;> first | trivial | simpa [Handler.Holds, hpc] using hold
  | locksRecv hpc | callsRecv hpc =>
    refine hsilent _ _ ?_ rfl ?_
    · simp [Handler.event, hpc]
    · simpa [Handler.Holds, hpc] using hold
  | @receives conn timeout hpc r hr =>
    have hold' : σ = .waiting h.buffer := by simpa [Handler.Holds, hpc] using hold
    obtain ⟨peers, hpeers⟩ := recv_eq hr
    have hu : ∀ h' : Handler, (r.2.2.setThread k { th with code := .handler h' }).threads =
        s.threads.set k { th with code := .handler h' } := by
      intro h'
      rw [hpeers]
      rfl
    rcases recv_received hr with ⟨hnone, hempty⟩ | hlength
    · refine hsilent _ _ ?_ (hu _) ?_
      · simp [Handler.event, hpc, hr, hnone]
      · simp [Handler.Holds, hnone, hempty, overwrite_nil, hold']
    · have hne : r.1 ≠ -1 := by omega
      refine ⟨_, .holding h.buffer r.2.1, ?_, hset _ _ (hu _), ?_⟩
      · simp [Handler.event, hpc, hr, hne, hold', sessionMachine, sessionStep]
      · simp only [Handler.Holds, if_neg hne]
        exact ⟨h.buffer, r.2.1, rfl, rfl, hlength⟩
  | unlocksRecv hpc | staysActive hpc =>
    refine hsilent _ _ ?_ rfl ?_
    · simp [Handler.event, hpc]
    · simpa [Handler.Holds, hpc] using hold
  | leaves hpc =>
    refine hsilent _ _ ?_ rfl ?_
    · simp [Handler.event, hpc]
    · trivial
  | retries hpc hnone =>
    refine hsilent _ _ ?_ rfl ?_
    · simp [Handler.event, hpc, hnone]
    · simpa [Handler.Holds, hpc, hnone] using hold
  | terminates hpc hsome hbuffer =>
    simp only [Handler.Holds, hpc, if_neg hsome] at hold
    obtain ⟨buffer, bytes, rfl, hbytes, hlength⟩ := hold
    refine hsilent _ _ ?_ rfl ?_
    · simp [Handler.event, hpc, hbuffer]
    · rw [hbytes, hlength, terminate_overwrite] at hbuffer
      split at hbuffer
      · next hsize => exact ⟨buffer, bytes, rfl, hsize, (Option.some.inj hbuffer).symm⟩
      · cases hbuffer
  | overruns hpc hsome hbuffer =>
    simp only [Handler.Holds, hpc, if_neg hsome] at hold
    obtain ⟨buffer, bytes, rfl, hbytes, hlength⟩ := hold
    refine ⟨{ h with pc := .fault }, .over, ?_, hset _ _ rfl, trivial⟩
    have hsize : ¬bytes.length < BUFFER_SIZE := by
      intro hsize
      rw [hbytes, hlength, terminate_overwrite, if_pos hsize] at hbuffer
      cases hbuffer
    simp [Handler.event, hpc, hsome, hbuffer, sessionMachine, sessionStep, executes_singleton, hsize, Command.Ends]
  | dispatches hpc =>
    simp only [Handler.Holds, hpc] at hold
    obtain ⟨buffer, bytes, rfl, hsize, hbuffer⟩ := hold
    refine ⟨_, if (parse h.buffer x.garbage).Ends then .over else .waiting h.buffer, ?_, hset _ _ rfl, ?_⟩
    · simp [Handler.event, hpc, sessionMachine, sessionStep, executes_singleton, hsize, hbuffer]
    · cases parse h.buffer x.garbage with
      | toAll | toOne | list | other => rfl
      | stop | fault => trivial
  | locks hlocks =>
    refine hsilent _ _ ?_ rfl ?_
    · generalize hpc : h.pc = pc at hlocks
      cases hlocks <;> simp [Handler.event, hpc]
    · generalize hpc : h.pc = pc at hlocks
      cases hlocks <;> first | trivial | simpa [Handler.Holds, hpc] using hold
  | unlocks hunlocks =>
    refine hsilent _ _ ?_ rfl ?_
    · generalize hpc : h.pc = pc at hunlocks
      cases hunlocks <;> simp [Handler.event, hpc]
    · generalize hpc : h.pc = pc at hunlocks
      cases hunlocks <;> first | trivial | simpa [Handler.Holds, hpc] using hold
  | closes hpc | deactivates hpc | decrements hpc =>
    refine hsilent _ _ ?_ rfl ?_
    · simp [Handler.event, hpc]
    · trivial

lemma thread_stays {window k : ℕ} {th : Thread} {a : Action} (hth : s.threads[k]? = some th)
    (ha : ∀ x, a ≠ .worker k x) (hs : step window s a = some t) : t.threads[k]? = some th := by
  have happend : ∀ new, (s.threads ++ new)[k]? = some th := by
    intro new
    rw [List.getElem?_append_left (List.getElem?_eq_some_iff.mp hth).1]
    exact hth
  rcases step_cases hs with ⟨x, rfl, hm⟩ | ⟨rfl, hc⟩ | ⟨j, x, u, rfl, -, hw⟩ | ⟨peers, rfl⟩
  · cases hm with
    | creates => exact happend _
    | accepts | locks | full | hasRoom | refuses | closes | skips | finds | findsNone | setsFd | callsRecv | receives
    | activates | initsMutex | increments | unlocks => exact hth
  · cases hc with
    | creates => exact happend _
    | wakes | locks | finds | skips | ends | unlocks => exact hth
  · obtain ⟨code, clients, num, mutex, fds, peers, rfl, -⟩ := hw
    have hj : j ≠ k := by
      rintro rfl
      exact ha x rfl
    exact (List.getElem?_set_ne hj).trans hth
  · exact hth

lemma handler_refines (window : ℕ) {k : ℕ} {th : Thread} {h : Handler} (hth : s.threads[k]? = some th)
    (hcode : th.code = .handler h) (hwaits : h.Holds (.waiting h.buffer)) :
    ((machine window).startingAt s).Refines (sessionMachine h.buffer) (handlerEvent k) fun u σ =>
      ∃ th h, u.threads[k]? = some th ∧ th.code = .handler h ∧ h.Holds σ where
  init u hu := by
    obtain rfl : u = s := hu
    exact ⟨.waiting h.buffer, rfl, th, h, hth, hcode, hwaits⟩
  step u σ a v := by
    rintro ⟨⟨conn, slot, code⟩, g, hu, hg, hold⟩ hn
    obtain rfl : code = .handler g := hg
    by_cases ha : ∃ x, a = .worker k x
    · obtain ⟨x, rfl⟩ := ha
      have hstep : client_handler window u k ⟨conn, slot, .handler g⟩ g x = some v := by
        simpa [Machine.startingAt, machine, step, workerStep, hu] using hn
      obtain ⟨g', σ', hrun, hv, hold'⟩ := holds_step h.buffer hold (List.getElem?_eq_some_iff.mp hu).1 (handler_cases hstep)
      refine ⟨σ', ?_, _, g', hv, rfl, hold'⟩
      simpa [handlerEvent, hu] using hrun
    · have hstays := thread_stays hu (fun x hx => ha ⟨x, hx⟩) hn
      refine ⟨σ, ?_, _, g, hstays, rfl, hold⟩
      have hnone : handlerEvent k u a = none := by
        cases a with
        | worker j x =>
          have hj : j ≠ k := by
            rintro rfl
            exact ha ⟨x, rfl⟩
          simp [handlerEvent, hj]
        | main | checker | peerSend | peerRead | peerClose => rfl
      rw [hnone]
      rfl

lemma executes_cons_of_singleton {buffer : Buffer} {r : Receipt} {text : List UInt8} {command : Command}
    (h : executes buffer [r] = [(text, command)]) (rs : List Receipt) : executes buffer (r :: rs) =
      (text, command) :: if command.Ends then [] else executes (overwrite buffer (r.bytes ++ [0])) rs := by
  rw [executes_singleton] at h
  rw [executes_cons]
  split at h
  · next hsize =>
    obtain ⟨rfl, rfl⟩ := Prod.mk.inj (List.cons.inj h).1
    rw [if_pos hsize]
  · next hsize =>
    obtain ⟨rfl, rfl⟩ := Prod.mk.inj (List.cons.inj h).1
    rw [if_neg hsize]
    rfl

/-- A session carries out what it received, in order, and is behind by one receipt at most. -/
lemma executions_of_session (memory : Buffer) (events : List Event) : ∀ (buffer : Buffer) (σ : Session),
    (sessionMachine memory).exec (.waiting buffer) events = some σ →
      executions events <+: executes buffer (receipts events) ∧
        ((∀ b bytes, σ ≠ .holding b bytes) → executions events = executes buffer (receipts events)) := by
  induction events using receipts.induct with
  | case1 bytes garbage text command events ih =>
    intro buffer σ hrun
    obtain ⟨u, hu, hrun⟩ := Machine.exec_cons_eq_some.mp hrun
    cases hu
    obtain ⟨v, hv, hrun⟩ := Machine.exec_cons_eq_some.mp hrun
    simp only [sessionMachine, sessionStep] at hv
    split at hv
    · next hexec =>
      cases hv
      simp only [receipts, executions, executes_cons_of_singleton hexec]
      cases hends : command.Ends with
      | true =>
        simp only [hends, if_true] at hrun ⊢
        cases events with
        | nil => exact ⟨List.prefix_rfl, fun _ => rfl⟩
        | cons e events =>
          obtain ⟨w, hw, -⟩ := Machine.exec_cons_eq_some.mp hrun
          cases hw
      | false =>
        simp only [hends] at hrun ⊢
        obtain ⟨hpre, heq⟩ := ih _ _ hrun
        exact ⟨List.cons_prefix_cons.mpr ⟨rfl, hpre⟩, fun hσ => congrArg _ (heq hσ)⟩
    · cases hv
  | case2 bytes events hne ih =>
    intro buffer σ hrun
    obtain ⟨u, hu, hrun⟩ := Machine.exec_cons_eq_some.mp hrun
    cases hu
    cases events with
    | nil =>
      cases hrun
      exact ⟨List.nil_prefix, fun hσ => absurd rfl (hσ buffer bytes)⟩
    | cons e events =>
      cases e with
      | received =>
        obtain ⟨v, hv, -⟩ := Machine.exec_cons_eq_some.mp hrun
        cases hv
      | executed garbage text command => exact absurd rfl (hne garbage text command events)
  | case3 =>
    intro buffer σ hrun
    obtain ⟨u, hu, -⟩ := Machine.exec_cons_eq_some.mp hrun
    cases hu
  | case4 =>
    intro buffer σ hrun
    exact ⟨List.prefix_rfl, fun _ => rfl⟩

/-- In every run of the server, what a handler carries out from its start on is what it receives
in that time makes it carry out; while it waits for more, nothing is missing. -/
theorem executions_of_run {window k : ℕ} {th : Thread} {h : Handler} {as : List Action}
    (hth : s.threads[k]? = some th) (hcode : th.code = .handler h) (hpc : h.pc = .start)
    (hrun : (machine window).exec s as = some t) :
    let events := (machine window).visible (handlerEvent k) s as
    executions events <+: executes h.buffer (receipts events) ∧
      ∀ th' h', t.threads[k]? = some th' → th'.code = .handler h' → h'.pc = .recv →
        executions events = executes h.buffer (receipts events) := by
  have hwaits : h.Holds (.waiting h.buffer) := by simp [Handler.Holds, hpc]
  have hrefines := handler_refines window hth hcode hwaits
  obtain ⟨σ, hσ, th', h', hth', hcode', hold⟩ :=
    hrefines.exec (t := .waiting h.buffer) ⟨th, h, hth, hcode, hwaits⟩ (by simpa using hrun)
  rw [Machine.startingAt_visible] at hσ
  obtain ⟨hpre, heq⟩ := executions_of_session h.buffer _ _ _ hσ
  refine ⟨hpre, fun u g hu hg hrecv => heq ?_⟩
  obtain rfl := Option.some.inj (hth'.symm.trans hu)
  obtain rfl : h' = g := Code.handler.inj (hcode'.symm.trans hg)
  simp only [Handler.Holds, hrecv] at hold
  simp [hold]

/-- What `main` receives for the name is what the handler will find in the slot. -/
theorem registered_of_receive {x : Input} {conn : Option Conn} {timeout : Bool} {slot : Slot} {r : ℤ × List UInt8 × State}
    (hpc : s.main = .receivingName conn timeout slot) (hr : s.recv conn timeout NAME_SIZE x.count = some r)
    (hs : mainStep s x = some t) : stringAt (t.clients slot).name 0 = registered (s.clients slot).name r.2.1 := by
  simp only [mainStep, hpc, hr, Option.map_some, Option.some.injEq] at hs
  subst hs
  simp [State.setClient, registered]

end SystemyOperacyjne.ChatServer
