import SystemyOperacyjne.ChatServerFraming
import Mathlib.Data.List.Chain

/-!
# The chat client

`receive_messages` of `cw11/client.c`. TCP delivers the bytes of the messages of the server in pieces of
its own choice. The client takes each piece for one message: it answers the pieces that read `ALIVE`, and
prints the others.
-/

namespace SystemyOperacyjne.ChatClient
open CString ChatServer

/-- What the server sends on a connection, in `check_alive`, `send_to_all`, `send_to_one` and for `LIST`. -/
inductive ServerMessage
  | alive
  | relay (date sender_name message : List UInt8)
  | list (names : List (List UInt8))

def ServerMessage.text : ServerMessage → List UInt8
  | .alive => bytesOf "ALIVE"
  | .relay date sender_name message => date ++ bytesOf " " ++ sender_name ++ bytesOf ": " ++ message
  | .list names => listHeader ++ names.flatMap (· ++ bytesOf "\n")

/-- The variables of the thread, what it sends, and the strings that it prints, each on a line. -/
structure Client where
  buffer : Buffer
  sent : List (List UInt8)
  printed : List (List UInt8)
  running : Bool

/-- What is done with the result of one `recv`, where no bytes stand for an error or the end. -/
def receive (client : Client) (bytes : List UInt8) : Option Client :=
  if bytes = [] then
    some { client with printed := client.printed ++ [bytesOf "Server disconnected"], running := false }
  else do
    let buffer ← terminate (overwrite client.buffer bytes) bytes.length
    let text ← stringAt buffer 0
    if text = bytesOf "ALIVE" then
      return { client with buffer, sent := client.sent ++ [bytesOf "ALIVE_response"] }
    else return { client with buffer, printed := client.printed ++ [text] }

/-- The loop, for the results that `recv` has had so far; `none` is an access outside the buffer. -/
def receive_messages (client : Client) : List (List UInt8) → Option Client
  | [] => some client
  | bytes :: rest =>
    (receive client bytes).bind fun client => if client.running then receive_messages client rest else some client

/-- The thread when it is started. -/
def created (buffer : Buffer) : Client := ⟨buffer, [], [], true⟩

/-! ### The bytes on the connection -/

/-- A byte, and its index in the probe to which it belongs, if any. -/
abbrev Byte := UInt8 × Option ℕ

def ServerMessage.bytes : ServerMessage → List Byte
  | .alive => (bytesOf "ALIVE").mapIdx fun i b => (b, some i)
  | m => m.text.map fun b => (b, none)

def stream (messages : List ServerMessage) : List Byte :=
  messages.flatMap ServerMessage.bytes

/-- What `recv` returns for a piece of the stream. -/
def raw (piece : List Byte) : List UInt8 := piece.map Prod.fst

/-- The number of probes that are complete. -/
def probes (l : List Byte) : ℕ := l.countP (·.2 = some 4)

/-- The bytes that belong to no probe. -/
def texts (l : List Byte) : List UInt8 := raw (l.filter (·.2 = none))

/-- The stream has been received up to some point, in pieces that fit in the buffer; no message has a
zero byte, since the server sends strings. -/
structure Delivery (messages : List ServerMessage) (pieces : List (List Byte)) : Prop where
  received : pieces.flatten <+: stream messages
  sized : ∀ piece ∈ pieces, piece ≠ [] ∧ piece.length ≤ BUFFER_SIZE
  strings : ∀ m ∈ messages, ∀ b ∈ m.text, b ≠ 0

/-- Every complete probe has been answered, and the other bytes have been printed. -/
structure UpToDate (client : Client) (l : List Byte) : Prop where
  running : client.running = true
  sent : client.sent = List.replicate (probes l) (bytesOf "ALIVE_response")
  printed : client.printed.flatten = texts l

/-- The thread is up to date after every piece, and stays in its buffer. -/
def Answers (buffer : Buffer) (pieces : List (List Byte)) : Prop :=
  ∀ now, now <+: pieces →
    ∃ client, receive_messages (created buffer) (now.map raw) = some client ∧ UpToDate client now.flatten

/-- The piece leaves room for the terminator, and reads `ALIVE` exactly if it has a byte of a probe. -/
def Separate (piece : List Byte) : Prop :=
  piece.length < BUFFER_SIZE ∧ (raw piece = bytesOf "ALIVE" ↔ ∃ b ∈ piece, b.2 ≠ none)

instance (piece : List Byte) : Decidable (Separate piece) :=
  inferInstanceAs (Decidable (_ ∧ _))

/-! ### Probes in the stream -/

lemma alive_eq : bytesOf "ALIVE" = [65, 76, 73, 86, 69] := by
  decide +kernel

lemma alive_bytes :
    ServerMessage.alive.bytes = [(65, some 0), (76, some 1), (73, some 2), (86, some 3), (69, some 4)] := by
  rw [ServerMessage.bytes, alive_eq]
  rfl

lemma bytes_of_ne {m : ServerMessage} (h : m ≠ .alive) : m.bytes = m.text.map fun b => (b, none) := by
  cases m with
  | alive => exact absurd rfl h
  | relay date sender_name message => rfl
  | list names => rfl

lemma raw_bytes (m : ServerMessage) : raw m.bytes = m.text := by
  by_cases h : m = .alive
  · rw [h, alive_bytes, ServerMessage.text, alive_eq]
    rfl
  · rw [bytes_of_ne h, raw, List.map_map]
    exact List.map_id _

/-- The bytes of a probe are where their indices tell. -/
def Lawful (b : Byte) : Prop := ∀ i, b.2 = some i → (bytesOf "ALIVE")[i]? = some b.1

/-- The bytes of a probe follow one another. -/
def Follows (a b : Byte) : Prop :=
  (∀ i < 4, a.2 = some i → b.2 = some (i + 1)) ∧ ∀ i, b.2 = some (i + 1) → a.2 = some i

lemma lawful_bytes (m : ServerMessage) : ∀ b ∈ m.bytes, Lawful b := by
  intro b hb i hi
  by_cases h : m = .alive
  · rw [h, alive_bytes] at hb
    rw [alive_eq]
    simp only [List.mem_cons, List.not_mem_nil, or_false] at hb
    rcases hb with rfl | rfl | rfl | rfl | rfl <;> cases hi <;> rfl
  · rw [bytes_of_ne h] at hb
    obtain ⟨c, -, rfl⟩ := List.mem_map.mp hb
    cases hi

lemma follows_succ (b c : UInt8) (i : ℕ) : Follows (b, some i) (c, some (i + 1)) := by
  refine ⟨fun j _ hj => ?_, fun j hj => ?_⟩
  · cases hj
    rfl
  · cases hj
    rfl

lemma chain_bytes (m : ServerMessage) : m.bytes.IsChain Follows := by
  by_cases h : m = .alive
  · rw [h, alive_bytes]
    simp only [List.isChain_cons_cons, List.isChain_singleton, and_true]
    exact ⟨follows_succ _ _ 0, follows_succ _ _ 1, follows_succ _ _ 2, follows_succ _ _ 3⟩
  · rw [bytes_of_ne h, List.isChain_map]
    exact (List.pairwise_of_forall fun b c => ⟨by simp, by simp⟩).isChain

/-- A message begins with no byte of a probe but the first, and ends with none but the last. -/
lemma ends_bytes (m : ServerMessage) : (∀ b ∈ m.bytes.head?, b.2 = none ∨ b.2 = some 0) ∧
    ∀ b ∈ m.bytes.getLast?, b.2 = none ∨ b.2 = some 4 := by
  by_cases h : m = .alive
  · rw [h, alive_bytes]
    simp
  · rw [bytes_of_ne h]
    constructor
    · intro b hb
      obtain ⟨c, -, rfl⟩ := List.mem_map.mp (List.mem_of_mem_head? hb)
      exact .inl rfl
    · intro b hb
      obtain ⟨c, -, rfl⟩ := List.mem_map.mp (List.mem_of_getLast? hb)
      exact .inl rfl

lemma lawful_stream (messages : List ServerMessage) : ∀ b ∈ stream messages, Lawful b := by
  intro b hb
  obtain ⟨m, -, hm⟩ := List.mem_flatMap.mp hb
  exact lawful_bytes m b hm

lemma chain_stream (messages : List ServerMessage) :
    (stream messages).IsChain Follows ∧ ∀ b ∈ (stream messages).head?, b.2 = none ∨ b.2 = some 0 := by
  induction messages with
  | nil => simp [stream]
  | cons m messages ih =>
    obtain ⟨hchain, hhead⟩ := ih
    obtain ⟨hfirst, hlast⟩ := ends_bytes m
    have hcons : stream (m :: messages) = m.bytes ++ stream messages := List.flatMap_cons
    rw [hcons]
    refine ⟨List.isChain_append.mpr ⟨chain_bytes m, hchain, fun a ha b hb => ?_⟩, fun b hb => ?_⟩
    · constructor
      · intro i hi ha'
        rcases hlast a ha with h | h <;> rw [h] at ha' <;> cases ha'
        exact absurd hi (lt_irrefl _)
      · intro i hb'
        rcases hhead b hb with h | h <;> rw [h] at hb' <;> cases hb'
    · rw [List.head?_append] at hb
      cases hm : m.bytes.head? with
      | none => exact hhead b (by simpa [hm] using hb)
      | some c => exact hfirst b (by simpa [hm] using hb)

/-- The letters of a probe are distinct, so that each tells its index. -/
lemma Lawful.tag_eq {c : UInt8} {tag : Option ℕ} (h : Lawful (c, tag)) {k : ℕ} (hc : (bytesOf "ALIVE")[k]? = some c)
    (htag : tag ≠ none) : tag = some k := by
  obtain ⟨i, rfl⟩ := Option.ne_none_iff_exists'.mp htag
  have hi := h i rfl
  have hnodup : (bytesOf "ALIVE").Nodup := by
    rw [alive_eq]
    decide
  have hlt : i < (bytesOf "ALIVE").length := by
    by_contra hge
    rw [List.getElem?_eq_none (not_lt.mp hge)] at hi
    cases hi
  rw [(List.getElem?_inj hlt hnodup).mp (hi.trans hc.symm)]

lemma Follows.tag_iff {c d : UInt8} {s t : Option ℕ} (h : Follows (c, s) (d, t)) {i : ℕ} (hi : i < 4) :
    s = some i ↔ t = some (i + 1) :=
  ⟨h.1 i hi, h.2 i⟩

lemma whole_probe {messages : List ServerMessage} {piece : List Byte} (hpiece : piece <:+: stream messages)
    (hraw : raw piece = bytesOf "ALIVE") (hprobe : ∃ b ∈ piece, b.2 ≠ none) :
    piece = ServerMessage.alive.bytes := by
  have hchain : piece.IsChain Follows := by
    obtain ⟨before, behind, hstream⟩ := hpiece
    have hall := (chain_stream messages).1
    rw [← hstream] at hall
    exact (List.isChain_append.mp (List.isChain_append.mp hall).1).2.1
  have hlawful : ∀ b ∈ piece, Lawful b := fun b hb => lawful_stream messages b (hpiece.subset hb)
  rw [raw, alive_eq] at hraw
  simp only [List.map_eq_cons_iff, List.map_eq_nil_iff] at hraw
  obtain ⟨⟨_, t₀⟩, _, rfl, rfl, ⟨_, t₁⟩, _, rfl, rfl, ⟨_, t₂⟩, _, rfl, rfl, ⟨_, t₃⟩, _, rfl, rfl, ⟨_, t₄⟩, _, rfl, rfl,
    rfl⟩ := hraw
  simp only [List.isChain_cons_cons, List.isChain_singleton, and_true] at hchain
  obtain ⟨h₀, h₁, h₂, h₃⟩ := hchain
  have h₀₁ := h₀.tag_iff (i := 0) (by decide)
  have h₁₂ := h₁.tag_iff (i := 1) (by decide)
  have h₂₃ := h₂.tag_iff (i := 2) (by decide)
  have h₃₄ := h₃.tag_iff (i := 3) (by decide)
  -- the byte of the probe has the right index, and so have those before it and behind it
  have hlast : t₄ = some 4 := by
    obtain ⟨b, hb, hne⟩ := hprobe
    have hb' := hlawful b hb
    simp only [List.mem_cons, List.not_mem_nil, or_false] at hb
    rcases hb with rfl | rfl | rfl | rfl | rfl
    · exact h₃₄.mp (h₂₃.mp (h₁₂.mp (h₀₁.mp (hb'.tag_eq (by rw [alive_eq]; rfl) hne))))
    · exact h₃₄.mp (h₂₃.mp (h₁₂.mp (hb'.tag_eq (by rw [alive_eq]; rfl) hne)))
    · exact h₃₄.mp (h₂₃.mp (hb'.tag_eq (by rw [alive_eq]; rfl) hne))
    · exact h₃₄.mp (hb'.tag_eq (by rw [alive_eq]; rfl) hne)
    · exact hb'.tag_eq (by rw [alive_eq]; rfl) hne
  obtain rfl := hlast
  obtain rfl := h₃₄.mpr rfl
  obtain rfl := h₂₃.mpr rfl
  obtain rfl := h₁₂.mpr rfl
  obtain rfl := h₀₁.mpr rfl
  exact alive_bytes.symm

/-! ### What the thread does with a piece -/

lemma texts_append (l l' : List Byte) : texts (l ++ l') = texts l ++ texts l' := by
  simp [texts, raw]

lemma probes_append (l l' : List Byte) : probes (l ++ l') = probes l + probes l' :=
  List.countP_append

lemma receive_eq (client : Client) {bytes : List UInt8} (hne : bytes ≠ []) (hz : ∀ b ∈ bytes, b ≠ 0) :
    receive client bytes =
      if bytes.length < BUFFER_SIZE then
        if bytes = bytesOf "ALIVE" then some { client with
          buffer := overwrite client.buffer (bytes ++ [0]), sent := client.sent ++ [bytesOf "ALIVE_response"] }
        else some { client with
          buffer := overwrite client.buffer (bytes ++ [0]), printed := client.printed ++ [bytes] }
      else none := by
  rw [receive, if_neg hne, terminate_overwrite]
  by_cases hsize : bytes.length < BUFFER_SIZE
  · have hstring : stringAt (overwrite client.buffer (bytes ++ [0])) 0 = some bytes :=
      stringAt_of_ofFn (ofFn_line hsize) hz (Nat.zero_le _)
    rw [if_pos hsize, if_pos hsize, Option.bind_eq_bind, Option.bind_some, hstring]
    simp only [Option.bind_eq_bind, Option.bind_some]
    split <;> rfl
  · rw [if_neg hsize, if_neg hsize]
    rfl

lemma receive_messages_append {client client' : Client} {recvs : List (List UInt8)} {bytes : List UInt8}
    (h : receive_messages client recvs = some client') (hrunning : client'.running = true) :
    receive_messages client (recvs ++ [bytes]) = receive client' bytes := by
  induction recvs generalizing client with
  | nil =>
    obtain rfl := Option.some.inj h
    rw [List.nil_append, receive_messages]
    cases receive client bytes with
    | none => rfl
    | some c => exact ite_self _
  | cons first recvs ih =>
    rw [List.cons_append, receive_messages]
    rw [receive_messages] at h
    cases hfirst : receive client first with
    | none =>
      rw [hfirst] at h
      cases h
    | some c =>
      rw [hfirst, Option.bind_some] at h
      rw [Option.bind_some]
      by_cases hc : c.running = true
      · rw [if_pos hc] at h ⊢
        exact ih h
      · rw [if_neg hc] at h
        obtain rfl := Option.some.inj h
        exact absurd hrunning hc

section
variable {messages : List ServerMessage} {piece : List Byte}

lemma texts_eq_raw_iff (l : List Byte) : texts l = raw l ↔ ∀ b ∈ l, b.2 = none := by
  constructor
  · intro h b hb
    have hlength := congrArg List.length h
    simp only [texts, raw, List.length_map] at hlength
    simpa using List.length_filter_eq_length_iff.mp hlength b hb
  · intro h
    rw [texts, List.filter_eq_self.mpr (by simpa using h)]

lemma probes_eq_zero {l : List Byte} (h : ∀ b ∈ l, b.2 = none) : probes l = 0 := by
  rw [probes, List.countP_eq_zero]
  intro b hb
  simp [h b hb]

lemma upToDate_iff {client : Client} {l : List Byte} (hclient : UpToDate client l) (hpiece : piece <:+: stream messages)
    (hne : piece ≠ []) (hz : ∀ b ∈ raw piece, b ≠ 0) :
    (∃ client', receive client (raw piece) = some client' ∧ UpToDate client' (l ++ piece)) ↔ Separate piece := by
  have hne' : raw piece ≠ [] := fun h => hne (List.map_eq_nil_iff.mp h)
  have hlength : (raw piece).length = piece.length := List.length_map _
  rw [receive_eq client hne' hz, hlength]
  by_cases hsize : piece.length < BUFFER_SIZE
  · rw [if_pos hsize]
    by_cases hreads : raw piece = bytesOf "ALIVE"
    · rw [if_pos hreads]
      constructor
      · rintro ⟨client', h, huptodate⟩
        obtain rfl := Option.some.inj h
        refine ⟨hsize, iff_of_true hreads ?_⟩
        by_contra hnone
        have hall : texts piece = raw piece := (texts_eq_raw_iff piece).mpr fun b hb => by
          by_contra hb'
          exact hnone ⟨b, hb, hb'⟩
        have hprinted := huptodate.printed
        rw [texts_append, hall, hclient.printed] at hprinted
        exact hne' (List.append_right_eq_self.mp hprinted.symm)
      · rintro ⟨-, hprobe⟩
        obtain rfl := whole_probe hpiece hreads (hprobe.mp hreads)
        have hprobes : probes ServerMessage.alive.bytes = 1 := by rw [alive_bytes]; rfl
        have htexts : texts ServerMessage.alive.bytes = [] := by rw [alive_bytes]; rfl
        refine ⟨_, rfl, hclient.running, ?_, ?_⟩
        · rw [probes_append, hprobes, List.replicate_succ', ← hclient.sent]
        · rw [texts_append, htexts, List.append_nil, ← hclient.printed]
    · rw [if_neg hreads]
      have hsome : (∃ client', some (Client.mk (overwrite client.buffer (raw piece ++ [0])) client.sent
            (client.printed ++ [raw piece]) client.running) = some client' ∧ UpToDate client' (l ++ piece)) ↔
          ∀ b ∈ piece, b.2 = none := by
        rw [← texts_eq_raw_iff]
        constructor
        · rintro ⟨client', h, huptodate⟩
          obtain rfl := Option.some.inj h
          have hprinted := huptodate.printed
          rw [List.flatten_append, List.flatten_singleton, texts_append, hclient.printed] at hprinted
          exact (List.append_cancel_left hprinted).symm
        · intro htexts
          refine ⟨_, rfl, hclient.running, ?_, ?_⟩
          · rw [probes_append, probes_eq_zero ((texts_eq_raw_iff piece).mp htexts)]
            exact hclient.sent
          · rw [List.flatten_append, List.flatten_singleton, texts_append, htexts, hclient.printed]
      rw [hsome, Separate, and_iff_right hsize, iff_false_left hreads, not_exists]
      exact forall_congr' fun b => by rw [not_and, not_not]
  · rw [if_neg hsize]
    refine iff_of_false ?_ fun h => hsize h.1
    rintro ⟨client', h, -⟩
    cases h

end

lemma Delivery.segment {messages : List ServerMessage} {pieces : List (List Byte)} (h : Delivery messages pieces)
    {piece : List Byte} (hpiece : piece ∈ pieces) : piece <:+: stream messages :=
  (List.infix_of_mem_flatten hpiece).trans h.received.isInfix

lemma Delivery.nonzero {messages : List ServerMessage} {pieces : List (List Byte)} (h : Delivery messages pieces)
    {piece : List Byte} (hpiece : piece ∈ pieces) : ∀ b ∈ raw piece, b ≠ 0 := by
  intro b hb
  obtain ⟨c, hc, rfl⟩ := List.mem_map.mp hb
  obtain ⟨m, hm, hcm⟩ := List.mem_flatMap.mp ((h.segment hpiece).subset hc)
  exact h.strings m hm c.1 (raw_bytes m ▸ List.mem_map_of_mem hcm)

lemma upToDate_created (buffer : Buffer) : UpToDate (created buffer) [] :=
  ⟨rfl, rfl, rfl⟩

/-- The client is up to date after every piece exactly if it gets each probe in a piece of its own, no
other piece reads `ALIVE`, and none fills the buffer. -/
theorem answers_iff (buffer : Buffer) (messages : List ServerMessage) (pieces : List (List Byte))
    (h : Delivery messages pieces) : Answers buffer pieces ↔ ∀ piece ∈ pieces, Separate piece := by
  have hsegment : ∀ piece ∈ pieces, piece <:+: stream messages := fun piece => h.segment
  have hnonzero : ∀ piece ∈ pieces, ∀ b ∈ raw piece, b ≠ 0 := fun piece => h.nonzero
  have hne : ∀ piece ∈ pieces, piece ≠ [] := fun piece hpiece => (h.sized piece hpiece).1
  clear h
  induction pieces using List.reverseRecOn with
  | nil =>
    refine iff_of_true (fun now hnow => ?_) (by simp)
    obtain rfl := List.prefix_nil.mp hnow
    exact ⟨created buffer, rfl, upToDate_created buffer⟩
  | append_singleton pieces piece ih =>
    have ih := ih (fun p hp => hsegment p (by simp [hp])) (fun p hp => hnonzero p (by simp [hp]))
      fun p hp => hne p (by simp [hp])
    have hlast : ∀ client, receive_messages (created buffer) (pieces.map raw) = some client →
        UpToDate client pieces.flatten →
        ((∃ client', receive_messages (created buffer) ((pieces ++ [piece]).map raw) = some client' ∧
          UpToDate client' (pieces ++ [piece]).flatten) ↔ Separate piece) := by
      intro client hclient huptodate
      rw [List.map_append, List.map_singleton, receive_messages_append hclient huptodate.running,
        List.flatten_append, List.flatten_singleton]
      exact upToDate_iff huptodate (hsegment piece (by simp)) (hne piece (by simp)) (hnonzero piece (by simp))
    constructor
    · intro hanswers p hp
      have hbefore : Answers buffer pieces := fun now hnow => hanswers now (hnow.trans (List.prefix_append _ _))
      rcases List.mem_append.mp hp with hp | hp
      · exact ih.mp hbefore p hp
      · obtain rfl := List.mem_singleton.mp hp
        obtain ⟨client, hclient, huptodate⟩ := hbefore pieces List.prefix_rfl
        exact (hlast client hclient huptodate).mp (hanswers _ List.prefix_rfl)
    · intro hseparate now hnow
      have hbefore := ih.mpr fun p hp => hseparate p (by simp [hp])
      rcases List.prefix_concat_iff.mp hnow with rfl | hnow
      · obtain ⟨client, hclient, huptodate⟩ := hbefore pieces List.prefix_rfl
        exact (hlast client hclient huptodate).mpr (hseparate piece (by simp))
      · exact hbefore now hnow

/-- A probe, and the reply to `LIST` when there are no clients. -/
def probeAndList : List ServerMessage := [.alive, .list []]

lemma strings_probeAndList : ∀ m ∈ probeAndList, ∀ b ∈ m.text, b ≠ 0 := by
  decide +kernel

lemma stream_probeAndList : stream probeAndList = ServerMessage.alive.bytes ++ (ServerMessage.list []).bytes := by
  simp [stream, probeAndList]

/-- The probe arrives before the reply. -/
theorem answers_apart : Answers (fun _ => 0) [ServerMessage.alive.bytes, (ServerMessage.list []).bytes] := by
  have hdelivery : Delivery probeAndList [ServerMessage.alive.bytes, (ServerMessage.list []).bytes] := by
    refine ⟨?_, by decide +kernel, strings_probeAndList⟩
    rw [stream_probeAndList]
    simp
  exact (answers_iff (fun _ => 0) probeAndList _ hdelivery).mpr (by decide +kernel)

/-- The probe arrives together with the reply, and is printed. -/
theorem not_answers : ¬∀ (buffer : Buffer) (messages : List ServerMessage) (pieces : List (List Byte)),
    Delivery messages pieces → Answers buffer pieces := by
  intro h
  have hdelivery : Delivery probeAndList [stream probeAndList] :=
    ⟨by simp, by decide +kernel, strings_probeAndList⟩
  obtain ⟨client, hclient, huptodate⟩ := h (fun _ => 0) probeAndList _ hdelivery _ List.prefix_rfl
  have hseparate : Separate (stream probeAndList) := by
    rw [← upToDate_iff (upToDate_created fun _ => 0) List.infix_rfl (by decide +kernel)
      (hdelivery.nonzero (List.mem_singleton_self _))]
    have happend : receive_messages (created fun _ => 0) ([] ++ [raw (stream probeAndList)]) = _ :=
      receive_messages_append rfl rfl
    exact ⟨client, happend.symm.trans hclient, by simpa using huptodate⟩
  have hreads := hseparate.2.mpr (by decide +kernel)
  revert hreads
  decide +kernel

end SystemyOperacyjne.ChatClient
