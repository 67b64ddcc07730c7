import SystemyOperacyjne.ChatServerRelay

/-!
# The sizes of the chat server's texts

`client_handler` writes a terminator behind what it received, and it and the relays put their texts
together in buffers of `BUFFER_SIZE` bytes without looking at the length.
-/

namespace SystemyOperacyjne.ChatServer
open Concurrency CString

variable {window : ℕ} {s t : State}

/-- The loop of the LIST reply over the slots. -/
def listReply (clients : Slot → ClientInfo) : List UInt8 → List Slot → Option (List UInt8)
  | list_message, [] => some list_message
  | list_message, i :: is =>
    if (clients i).active then
      match (stringAt (clients i).name 0).bind (appendName list_message) with
      | none => none
      | some text => listReply clients text is
    else listReply clients list_message is

/-- What the handler finds when `recv` has returned: 1 to 256 bytes in the buffer, what the memory
holds behind the buffer up to the next zero byte, the table of clients with terminated names, its own
name, and what `ctime` will return. -/
structure Scene where
  buffer : Buffer
  received : ℕ
  garbage : List UInt8
  behind : List UInt8
  clients : Slot → ClientInfo
  name : Slot → List UInt8
  client_name : List UInt8
  date : Slot → List UInt8
  received_size : 1 ≤ received ∧ received ≤ BUFFER_SIZE
  terminated : ∀ i, (clients i).active = true → stringAt (clients i).name 0 = some (name i)
  client_name_size : client_name.length < NAME_SIZE
  date_size : ∀ i, (date i).length = 25

/-- The string from an offset on, which goes on behind the buffer where it has no terminator there. -/
def textFrom (buffer : Buffer) (behind : List UInt8) (k : ℕ) : List UInt8 :=
  (stringAt buffer k).getD ((List.ofFn buffer).drop k ++ behind)

/-- What the handler does with the buffer: the text of 2ONE starts behind the recipient's name, where
the buffer need not have another terminator. -/
def Scene.command (σ : Scene) (buffer : Buffer) : Command :=
  if (bytesOf "2ONE ").isPrefixOf (cString buffer) then
    let recipient_name := (scanToken ((cString buffer).drop 5)).getD σ.garbage
    if recipient_name.length < NAME_SIZE then
      .toOne recipient_name (textFrom buffer σ.behind (6 + recipient_name.length))
    else .fault
  else parse buffer σ.garbage

/-- The text for the command is put together inside its buffer. What overflows `recipient_name` is no
write into such a buffer. -/
def Scene.ReplyFits (σ : Scene) : Command → Prop
  | .toAll message => (send_to_all σ.clients message σ.client_name σ.date).isSome = true
  | .toOne recipient_name message => (send_to_one σ.clients message σ.client_name recipient_name σ.date).isSome = true
  | .list => (listReply σ.clients listHeader (List.finRange MAX_CLIENTS)).isSome = true
  | .stop | .other | .fault => True

/-- No write into a buffer of `BUFFER_SIZE` bytes goes behind its end. -/
structure WritesFit (σ : Scene) : Prop where
  terminator : (terminate σ.buffer σ.received).isSome = true
  reply : ∀ buffer, terminate σ.buffer σ.received = some buffer → σ.ReplyFits (σ.command buffer)

/-- The bytes of the LIST reply behind its header. -/
def Scene.lines (σ : Scene) : ℕ :=
  ((List.finRange MAX_CLIENTS).flatMap fun i => if (σ.clients i).active then σ.name i ++ bytesOf "\n" else []).length

/-- A message that has a recipient leaves room for the date and the sender's name, and the names of
all active slots have room behind the header. -/
def Scene.HasRoom (σ : Scene) : Command → Prop
  | .toAll message => (∃ i, (σ.clients i).active = true ∧ σ.name i ≠ σ.client_name) →
    28 + σ.client_name.length + message.length < BUFFER_SIZE
  | .toOne recipient_name message => (∃ i, (σ.clients i).active = true ∧ σ.name i = recipient_name) →
    28 + σ.client_name.length + message.length < BUFFER_SIZE
  | .list => 21 + σ.lines < BUFFER_SIZE
  | .stop | .other | .fault => True

/-- At most 255 bytes were received, and there is room for what they ask for. -/
def Scene.Fits (σ : Scene) : Prop :=
  σ.received < BUFFER_SIZE ∧ ∀ buffer, terminate σ.buffer σ.received = some buffer → σ.HasRoom (σ.command buffer)

section
variable {clients : Slot → ClientInfo} {name : Slot → List UInt8}

/-- Where every text has the same size, the loop stays inside its buffer exactly if this size fits
or nobody is picked. -/
lemma relayLoop_isSome {recipient_name : Option (List UInt8)} {sender_name message : List UInt8}
    {date : Slot → List UInt8} {fits : Prop} {slots : List Slot}
    (hnames : ∀ i, (clients i).active = true → stringAt (clients i).name 0 = some (name i))
    (hfits : ∀ i, (compose (date i) sender_name message).isSome = true ↔ fits) :
    (relayLoop clients recipient_name sender_name message date slots).isSome = true ↔
      ((∃ i ∈ slots, Picked clients recipient_name sender_name i = true) → fits) := by
  induction slots with
  | nil => simp [relayLoop]
  | cons i is ih =>
    have htext : relayText recipient_name sender_name message (date i) (clients i) =
        if Picked clients recipient_name sender_name i then (compose (date i) sender_name message).map some
        else some none := by
      unfold relayText Picked
      by_cases hactive : (clients i).active = true
      · simp [hactive, hnames i hactive]
      · simp [hactive]
    have hi := hfits i
    simp only [relayLoop, htext, List.exists_mem_cons_iff]
    by_cases hpicked : Picked clients recipient_name sender_name i = true
    · cases hcompose : compose (date i) sender_name message with
      | none =>
        rw [hcompose] at hi
        simp [hpicked, ← hi]
      | some text =>
        rw [hcompose] at hi
        have hfit : fits := hi.mp rfl
        by_cases hall : recipient_name = none
        · simp only [hall] at ih hpicked ⊢
          simp [hpicked, ih, hfit]
        · simp [hpicked, hall, hfit]
    · simp [hpicked, ih]

lemma appendName_eq (list_message name : List UInt8) : appendName list_message name =
    if list_message.length + name.length + 1 < BUFFER_SIZE then some (list_message ++ name ++ bytesOf "\n") else none := by
  have hnewline : (bytesOf "\n").length = 1 := rfl
  simp only [appendName, List.length_append, hnewline]

lemma listReply_isSome {list_message : List UInt8} {slots : List Slot}
    (hnames : ∀ i, (clients i).active = true → stringAt (clients i).name 0 = some (name i))
    (hstart : list_message.length < BUFFER_SIZE) : (listReply clients list_message slots).isSome = true ↔
      list_message.length + (slots.flatMap fun i => if (clients i).active then name i ++ bytesOf "\n" else []).length <
        BUFFER_SIZE := by
  induction slots generalizing list_message with
  | nil => simpa [listReply] using hstart
  | cons i is ih =>
    have hnewline : (bytesOf "\n").length = 1 := rfl
    simp only [listReply, List.flatMap_cons, List.length_append]
    by_cases hactive : (clients i).active = true
    · simp only [hactive, if_true, hnames i hactive, Option.bind_some, appendName_eq, List.length_append, hnewline]
      by_cases hfits : list_message.length + (name i).length + 1 < BUFFER_SIZE
      · have hlength : (list_message ++ name i ++ bytesOf "\n").length = list_message.length + (name i).length + 1 := by
          simp only [List.length_append, hnewline]
        simp only [if_pos hfits]
        rw [ih (hlength ▸ hfits), hlength]
        constructor <;> intro h <;> omega
      · simp only [if_neg hfits, Option.isSome_none]
        constructor
        · intro h
          cases h
        · intro h
          omega
    · simp only [hactive]
      rw [if_neg (by simp), if_neg (by simp), List.length_nil, Nat.zero_add]
      exact ih hstart

end

lemma terminate_isSome {buffer : Buffer} {n : ℕ} : (terminate buffer n).isSome = true ↔ n < BUFFER_SIZE := by
  unfold terminate
  by_cases h : n < BUFFER_SIZE
  · rw [dif_pos (by omega)]
    simp [h]
  · rw [dif_neg (by omega)]
    simp [h]

lemma Scene.command_eq_parse (σ : Scene) {buffer : Buffer} (h : parse buffer σ.garbage ≠ .fault) :
    σ.command buffer = parse buffer σ.garbage := by
  cases hstring : stringAt buffer 0 with
  | none => simp [parse, hstring] at h
  | some text =>
    have hcString : cString buffer = text := by
      obtain ⟨rest, hrest, hz⟩ := ofFn_of_stringAt hstring
      exact cString_of_ofFn hrest hz
    unfold Scene.command
    rw [hcString]
    split
    · next hone =>
      have hall : ¬(bytesOf "2ALL ").isPrefixOf text = true := fun hall => not_toOne_of_toAll hall hone
      simp only [parse, hstring, if_neg hall, if_pos hone] at h ⊢
      split
      · next hsize =>
        rw [if_pos hsize] at h
        cases hmessage : stringAt buffer (6 + ((scanToken (text.drop 5)).getD σ.garbage).length) with
        | none => simp [hmessage] at h
        | some message => simp [textFrom, hmessage]
      · next hsize => simp [hsize] at h
    · rfl

lemma Scene.relay_isSome (σ : Scene) (recipient_name : Option (List UInt8)) (message : List UInt8) :
    (relayLoop σ.clients recipient_name σ.client_name message σ.date (List.finRange MAX_CLIENTS)).isSome = true ↔
      ((∃ i, (σ.clients i).active = true ∧ picks recipient_name σ.client_name (σ.name i) = true) →
        28 + σ.client_name.length + message.length < BUFFER_SIZE) := by
  have hfits : ∀ i, (compose (σ.date i) σ.client_name message).isSome = true ↔
      28 + σ.client_name.length + message.length < BUFFER_SIZE := by
    intro i
    rw [compose_isSome, σ.date_size]
    omega
  rw [relayLoop_isSome σ.terminated hfits]
  apply imp_congr_left
  apply exists_congr
  intro i
  rw [Picked, and_iff_right (List.mem_finRange i), Bool.and_eq_true]
  apply and_congr_right
  intro hactive
  rw [σ.terminated i hactive, Option.any_some]

lemma Scene.replyFits_iff (σ : Scene) (command : Command) : σ.ReplyFits command ↔ σ.HasRoom command := by
  cases command with
  | toAll message => simpa [ReplyFits, HasRoom, send_to_all, picks] using σ.relay_isSome none message
  | toOne recipient_name message =>
    simpa [ReplyFits, HasRoom, send_to_one, picks] using σ.relay_isSome (some recipient_name) message
  | list =>
    have hheader : listHeader.length < BUFFER_SIZE := by decide
    exact listReply_isSome σ.terminated hheader
  | stop | other | fault => exact Iff.rfl

/-- Every write stays inside its buffer exactly if the received bytes, the relayed message and the
names in the reply are short enough. -/
theorem writes_fit_iff (σ : Scene) : WritesFit σ ↔ σ.Fits := by
  constructor
  · intro h
    exact ⟨terminate_isSome.mp h.terminator, fun buffer hbuffer => (σ.replyFits_iff _).mp (h.reply buffer hbuffer)⟩
  · intro h
    exact ⟨terminate_isSome.mpr h.1, fun buffer hbuffer => (σ.replyFits_iff _).mpr (h.2 buffer hbuffer)⟩

/-- A client alone has sent 256 bytes that `recv` delivers at once. -/
def fullReceive : Scene where
  buffer := fun _ => 97
  received := 256
  garbage := []
  behind := []
  clients i := ⟨5, fun _ => 0, decide (i.val = 0), none⟩
  name _ := []
  client_name := []
  date _ := bytesOf "Thu Jan  1 00:00:00 1970\n"
  received_size := by decide
  terminated i _ := stringAt_eq_nil.mpr ⟨by decide, rfl⟩
  client_name_size := by decide
  date_size _ := rfl

/-- The terminator is written behind the buffer. -/
theorem not_writes_fit : ¬∀ σ : Scene, WritesFit σ :=
  fun h => absurd (h fullReceive).terminator (by decide +kernel)

/-! ### The section of LIST -/

/-- The thread `k` is in the loop of LIST. -/
def Listing (k : ℕ) (s : State) : Prop :=
  ∃ th h list_message i, s.threads[k]? = some th ∧ th.code = .handler h ∧ h.pc = .listing list_message i

/-- What the reply will be. -/
def finalReply (clients : Slot → ClientInfo) : HandlerPc → Option (List UInt8)
  | .listing list_message i => listReply clients list_message ((List.finRange MAX_CLIENTS).drop i)
  | .listUnlock list_message => some list_message
  | _ => none

lemma listReply_congr {clients clients' : Slot → ClientInfo} (h : ∀ i, (clients i).active = (clients' i).active ∧
    (clients i).name = (clients' i).name) (list_message : List UInt8) (slots : List Slot) :
    listReply clients list_message slots = listReply clients' list_message slots := by
  induction slots generalizing list_message with
  | nil => rfl
  | cons i is ih => simp only [listReply, (h i).1, (h i).2, ih]

lemma finalReply_congr {clients clients' : Slot → ClientInfo} (h : ∀ i, (clients i).active = (clients' i).active ∧
    (clients i).name = (clients' i).name) (pc : HandlerPc) : finalReply clients pc = finalReply clients' pc := by
  cases pc with
  | listing list_message i => exact listReply_congr h _ _
  | _ => rfl

lemma lists_step {k : ℕ} {th : Thread} {h : Handler} {x : Input} {list_message : List UInt8} {i : ℕ}
    (hth : s.threads[k]? = some th) (hcode : th.code = .handler h) (hpc : h.pc = .listing list_message i)
    (hs : step window s (.worker k x) = some t) :
    ∃ pc, t.threads[k]? = some { th with code := .handler { h with pc := pc } } ∧ t.clients = s.clients ∧
      finalReply s.clients h.pc = finalReply s.clients pc := by
  have hat : ∀ pc, (s.handlerAt k th h pc).threads[k]? = some { th with code := .handler { h with pc := pc } } :=
    fun pc => List.getElem?_set_self (List.getElem?_eq_some_iff.mp hth).1
  have hstep : listStep s (s.handlerAt k th h) list_message i = t := by
    simp only [step, workerStep, hth, hcode, client_handler, hpc, Option.some.injEq] at hs
    exact hs
  subst hstep
  rw [hpc]
  simp only [listStep]
  split
  · next hi =>
    split
    · next hactive =>
      split
      · next htext =>
        refine ⟨.fault, hat _, rfl, ?_⟩
        simp only [finalReply, drop_finRange hi, listReply, if_pos hactive, htext]
      · next text htext =>
        refine ⟨.listing text (i + 1), hat _, rfl, ?_⟩
        simp only [finalReply, drop_finRange hi, listReply, if_pos hactive, htext]
    · next hactive =>
      refine ⟨.listing list_message (i + 1), hat _, rfl, ?_⟩
      simp only [finalReply, drop_finRange hi, listReply, if_neg hactive]
  · next hi =>
    have hend : (List.finRange MAX_CLIENTS).length ≤ i := by simpa using hi
    refine ⟨.listUnlock list_message, hat _, rfl, ?_⟩
    simp only [finalReply, List.drop_eq_nil_of_le hend, listReply]

lemma listing_runs {k : ℕ} {as : List Action} {th : Thread} {h : Handler} (hguards : Guards s.clients_mutex s.Inside)
    (hth : s.threads[k]? = some th) (hcode : th.code = .handler h) (hrun : (machine window).exec s as = some t)
    (hlists : (machine window).Along (fun u _ => Listing k u) s as) :
    ∃ pc, t.threads[k]? = some { th with code := .handler { h with pc := pc } } ∧
      finalReply s.clients h.pc = finalReply s.clients pc := by
  induction as generalizing s th h with
  | nil =>
    obtain rfl : s = t := by simpa using hrun
    obtain ⟨conn, slot, code⟩ := th
    obtain rfl : code = .handler h := hcode
    exact ⟨h.pc, hth, rfl⟩
  | cons a as ih =>
    obtain ⟨u, hs, hu⟩ := Machine.exec_cons_eq_some.mp hrun
    obtain ⟨⟨th', h', list_message, i, hth', hcode', hpc⟩, hrest⟩ := hlists
    obtain rfl := Option.some.inj (hth.symm.trans hth')
    obtain rfl := Code.handler.inj (hcode.symm.trans hcode')
    have hguards' := guards_step hguards hs
    by_cases ha : ∃ x, a = .worker k x
    · obtain ⟨x, rfl⟩ := ha
      obtain ⟨pc, hthu, hclients, hreply⟩ := lists_step hth hcode hpc hs
      obtain ⟨pc', hpc', hreply'⟩ := ih hguards' hthu rfl hu (hrest u hs)
      rw [hclients] at hreply'
      exact ⟨pc', hpc', hreply.trans hreply'⟩
    · have ha' := not_exists.mp ha
      have hin : s.Inside (.worker k) := by
        refine ⟨th, hth, ?_⟩
        simp [hcode, hpc]
      have hfrozen := frozen_of_inside hguards hin ha' hs
      obtain ⟨pc, hthread, hreply⟩ := ih hguards' (thread_stays hth ha' hs) hcode hu (hrest u hs)
      rw [finalReply_congr hfrozen, finalReply_congr hfrozen] at hreply
      exact ⟨pc, hthread, hreply⟩

/-- Whatever the other threads do while a handler makes the LIST reply, it is the function's. -/
theorem list_runs (hreach : (machine window).Reachable s) {k : ℕ} {as : List Action} {th th' : Thread} {h h' : Handler}
    {list_message : List UInt8} (hth : s.threads[k]? = some th) (hcode : th.code = .handler h)
    (hpc : h.pc = .listing listHeader 0) (hrun : (machine window).exec s as = some t)
    (hlists : (machine window).Along (fun u _ => Listing k u) s as) (hth' : t.threads[k]? = some th')
    (hcode' : th'.code = .handler h') (hpc' : h'.pc = .listUnlock list_message) :
    listReply s.clients listHeader (List.finRange MAX_CLIENTS) = some list_message := by
  obtain ⟨pc, hthread, hreply⟩ := listing_runs (guards_of_reachable hreach) hth hcode hrun hlists
  obtain rfl := Option.some.inj (hthread.symm.trans hth')
  obtain rfl := Code.handler.inj hcode'
  obtain rfl : pc = .listUnlock list_message := hpc'
  rw [hpc] at hreply
  exact hreply

end SystemyOperacyjne.ChatServer
