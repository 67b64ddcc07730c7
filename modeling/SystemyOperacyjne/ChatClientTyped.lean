import SystemyOperacyjne.ChatClient
import SystemyOperacyjne.Library.Lines

/-!
# What is typed at the chat client

The loop of `main` in `cw11/client.c`: it reads a line with `fgets` and sends it without its newline. The
result of `fgets` is not tested, so that at the end of the input the loop goes on with the last line.
-/

namespace SystemyOperacyjne.ChatClient
open CString ChatServer Lines

def newline : UInt8 := 10

def isNewline (b : UInt8) : Bool :=
  b == newline

/-- `fgets(buffer, BUFFER_SIZE, stdin)`: the buffer, and what is left of the input. -/
def fgets (buffer : Buffer) (input : List UInt8) : Buffer × List UInt8 :=
  if input = [] then (buffer, [])
  else
    let line := piece isNewline (BUFFER_SIZE - 1) input
    (overwrite buffer (line ++ [0]), input.drop line.length)

/-- The variables of the loop, and what it has sent, each time with one `send`. -/
structure Typing where
  buffer : Buffer
  input : List UInt8
  sent : List (List UInt8)

/-- One iteration; `none` is an access outside the buffer. -/
def turn (s : Typing) : Option Typing := do
  let (buffer, input) := fgets s.buffer s.input
  let text ← stringAt buffer 0
  let buffer ← terminate buffer (text.takeWhile fun b => !isNewline b).length
  let message ← stringAt buffer 0
  return { buffer, input, sent := s.sent ++ [message] }

/-- So many iterations. -/
def turns : ℕ → Typing → Option Typing
  | 0, s => some s
  | n + 1, s => (turn s).bind (turns n)

/-- The line that is sent for what `fgets` has read. -/
def message (line : List UInt8) : List UInt8 :=
  (line.takeWhile (· ≠ 0)).takeWhile fun b => !isNewline b

/-- The messages of an input. -/
def messages (input : List UInt8) : List (List UInt8) :=
  (pieces isNewline (BUFFER_SIZE - 2) input).map message

/-! ### The buffer -/

variable {s : Typing}

lemma takeWhile_terminated (bytes rest : List UInt8) :
    (bytes ++ 0 :: rest).takeWhile (· ≠ 0) = bytes.takeWhile (· ≠ 0) := by
  rw [List.takeWhile_append]
  split
  · next he =>
    have hall := (List.takeWhile_prefix fun b : UInt8 => decide (b ≠ 0)).eq_of_length he
    rw [hall]
    simp
  · rfl

lemma stringAt_overwrite_terminated (buffer : Buffer) {bytes : List UInt8} (h : bytes.length < BUFFER_SIZE) :
    stringAt (overwrite buffer (bytes ++ [0])) 0 = some (bytes.takeWhile (· ≠ 0)) := by
  have hle : (bytes ++ [0]).length ≤ BUFFER_SIZE := by
    rw [List.length_append]
    exact h
  unfold stringAt
  rw [ofFn_overwrite buffer hle, List.drop_zero, List.append_assoc, List.singleton_append, if_pos (by simp),
    takeWhile_terminated]

lemma overwrite_of_ofFn {buffer : Buffer} {m rest : List UInt8} (h : List.ofFn buffer = m ++ rest) :
    overwrite buffer m = buffer := by
  have hlength : m.length ≤ BUFFER_SIZE := by
    have hall := congrArg List.length h
    rw [List.length_ofFn, List.length_append] at hall
    omega
  apply List.ofFn_injective
  rw [ofFn_overwrite buffer hlength, h, List.drop_left]

lemma terminate_spec {buffer : Buffer} {text m : List UInt8} (h : stringAt buffer 0 = some text) (hm : m <+: text) :
    ∃ buffer', terminate buffer m.length = some buffer' ∧ stringAt buffer' 0 = some m := by
  obtain ⟨rest, hbuffer, hz⟩ := ofFn_of_stringAt h
  obtain ⟨tail, rfl⟩ := hm
  rw [List.append_assoc] at hbuffer
  have hlt : m.length < BUFFER_SIZE := by
    have hall := congrArg List.length hbuffer
    rw [List.length_ofFn, List.length_append, List.length_append, List.length_cons] at hall
    omega
  have hupdate := update_overwrite buffer hlt 0
  rw [overwrite_of_ofFn hbuffer] at hupdate
  refine ⟨overwrite buffer (m ++ [0]), ?_, ?_⟩
  · rw [← hupdate, terminate, dif_pos ⟨Int.natCast_nonneg _, by exact_mod_cast hlt⟩]
    rfl
  · rw [stringAt_overwrite_terminated buffer hlt, List.takeWhile_eq_self_iff.mpr]
    exact fun b hb => by simpa using hz b (List.mem_append_left _ hb)

/-! ### One iteration -/

lemma turn_of_string {text : List UInt8} (h : stringAt (fgets s.buffer s.input).1 0 = some text) :
    ∃ buffer, turn s = some ⟨buffer, (fgets s.buffer s.input).2, s.sent ++ [text.takeWhile fun b => !isNewline b]⟩ ∧
      stringAt buffer 0 = some (text.takeWhile fun b => !isNewline b) := by
  obtain ⟨buffer, hterminate, hstring⟩ := terminate_spec h (List.takeWhile_prefix fun b => !isNewline b)
  refine ⟨buffer, ?_, hstring⟩
  simp only [turn, h, Option.bind_eq_bind, Option.bind_some, hterminate, hstring]
  rfl

lemma turn_line (h : s.input ≠ []) :
    let line := piece isNewline (BUFFER_SIZE - 1) s.input
    ∃ buffer, turn s = some ⟨buffer, s.input.drop line.length, s.sent ++ [message line]⟩ ∧
      stringAt buffer 0 = some (message line) := by
  intro line
  have hlt : line.length < BUFFER_SIZE := by
    have hle : line.length ≤ BUFFER_SIZE - 1 := length_piece_le _ _
    have hsize : BUFFER_SIZE = 256 := rfl
    omega
  have hfgets : fgets s.buffer s.input = (overwrite s.buffer (line ++ [0]), s.input.drop line.length) := by
    unfold fgets
    rw [if_neg h]
  have hstring : stringAt (fgets s.buffer s.input).1 0 = some (line.takeWhile (· ≠ 0)) := by
    rw [hfgets]
    exact stringAt_overwrite_terminated s.buffer hlt
  have hturn := turn_of_string hstring
  rw [hfgets] at hturn
  exact hturn

lemma turn_eof {m : List UInt8} (h : s.input = []) (hm : stringAt s.buffer 0 = some m) (hline : newline ∉ m) :
    ∃ buffer, turn s = some ⟨buffer, [], s.sent ++ [m]⟩ ∧ stringAt buffer 0 = some m := by
  have hfgets : fgets s.buffer s.input = (s.buffer, []) := by
    unfold fgets
    rw [if_pos h]
  have hall : (m.takeWhile fun b => !isNewline b) = m := by
    refine List.takeWhile_eq_self_iff.mpr fun b hb => ?_
    have hne : b ≠ newline := fun he => hline (he ▸ hb)
    simpa [isNewline] using hne
  have hstring : stringAt (fgets s.buffer s.input).1 0 = some m := by
    rw [hfgets]
    exact hm
  have hturn := turn_of_string hstring
  rwa [hfgets, hall] at hturn

lemma newline_not_mem_message (line : List UInt8) : newline ∉ message line := by
  intro h
  simpa [isNewline] using List.mem_takeWhile_imp h

/-! ### The loop -/

lemma messages_of_ne_nil {input : List UInt8} (h : input ≠ []) :
    messages input = message (piece isNewline (BUFFER_SIZE - 1) input) ::
      messages (input.drop (piece isNewline (BUFFER_SIZE - 1) input).length) := by
  have hsize : BUFFER_SIZE - 2 + 1 = BUFFER_SIZE - 1 := rfl
  unfold messages
  rw [pieces_of_ne_nil h, List.map_cons, hsize]

lemma turns_eof (n : ℕ) {m : List UInt8} (h : s.input = []) (hm : stringAt s.buffer 0 = some m) (hline : newline ∉ m) :
    ∃ t, turns n s = some t ∧ t.sent = s.sent ++ List.replicate n m := by
  induction n generalizing s with
  | zero => exact ⟨s, rfl, by simp⟩
  | succ n ih =>
    obtain ⟨buffer, hturn, hbuffer⟩ := turn_eof h hm hline
    obtain ⟨t, ht, hsent⟩ := ih (s := ⟨buffer, [], s.sent ++ [m]⟩) rfl hbuffer
    refine ⟨t, ?_, ?_⟩
    · rw [turns, hturn, Option.bind_some, ht]
    · rw [hsent, List.replicate_succ, List.append_assoc, List.singleton_append]

lemma turns_spec (n : ℕ) (h : s.input ≠ []) : ∃ t, turns n s = some t ∧ t.sent = s.sent ++
    ((messages s.input).take n ++ List.replicate (n - (messages s.input).length) ((messages s.input).getLastD [])) := by
  induction n generalizing s with
  | zero => exact ⟨s, rfl, by simp⟩
  | succ n ih =>
    obtain ⟨buffer, hturn, hbuffer⟩ := turn_line h
    rw [messages_of_ne_nil h]
    generalize piece isNewline (BUFFER_SIZE - 1) s.input = line at hturn hbuffer ⊢
    by_cases hrest : s.input.drop line.length = []
    · rw [hrest] at hturn ⊢
      obtain ⟨t, ht, hsent⟩ := turns_eof n (s := ⟨buffer, [], s.sent ++ [message line]⟩) rfl hbuffer
        (newline_not_mem_message line)
      refine ⟨t, ?_, ?_⟩
      · rw [turns, hturn, Option.bind_some, ht]
      · rw [hsent]
        simp [messages]
    · obtain ⟨t, ht, hsent⟩ := ih (s := ⟨buffer, s.input.drop line.length, s.sent ++ [message line]⟩) hrest
      refine ⟨t, ?_, ?_⟩
      · rw [turns, hturn, Option.bind_some, ht]
      · rw [hsent]
        have hlast : (message line :: messages (s.input.drop line.length)).getLastD [] =
            (messages (s.input.drop line.length)).getLastD [] := by
          rw [messages_of_ne_nil hrest]
          rfl
        rw [hlast]
        simp

lemma flatten_messages {input : List UInt8} (hz : 0 ∉ input) :
    (messages input).flatten = input.filter fun b => !isNewline b := by
  have hmessage : ∀ line ∈ pieces isNewline (BUFFER_SIZE - 2) input,
      message line = line.filter fun b => !isNewline b := by
    intro line hline
    obtain ⟨m, hm⟩ := exists_piece_of_mem hline
    have hzero : line.takeWhile (· ≠ 0) = line := by
      refine List.takeWhile_eq_self_iff.mpr fun b hb => ?_
      have hmem : b ∈ input := by
        have hall : (pieces isNewline (BUFFER_SIZE - 2) input).flatten = input := flatten_pieces _ _
        rw [← hall]
        exact List.mem_flatten.mpr ⟨line, hline, hb⟩
      have hne : b ≠ 0 := fun he => hz (he ▸ hmem)
      simpa using hne
    have hfilter : line.takeWhile (fun b => !isNewline b) = line.filter fun b => !isNewline b := by
      rw [hm]
      exact filter_piece _ m
    rw [message, hzero, hfilter]
  calc (messages input).flatten
      = ((pieces isNewline (BUFFER_SIZE - 2) input).map (List.filter fun b => !isNewline b)).flatten := by
        rw [messages, List.map_congr_left hmessage]
    _ = (pieces isNewline (BUFFER_SIZE - 2) input).flatten.filter fun b => !isNewline b :=
        (List.filter_flatten).symm
    _ = input.filter fun b => !isNewline b := by rw [flatten_pieces]

lemma messages_lines {lines : List (List UInt8)}
    (h : ∀ line ∈ lines, line.length ≤ BUFFER_SIZE - 2 ∧ 0 ∉ line ∧ newline ∉ line) :
    messages (lines.flatMap (· ++ [newline])) = lines := by
  have hpieces : pieces isNewline (BUFFER_SIZE - 2) (lines.flatMap (· ++ [newline])) =
      lines.map (· ++ [newline]) := by
    refine pieces_lines (by simp [isNewline]) fun line hline => ⟨(h line hline).1, fun b hb => ?_⟩
    have hne : b ≠ newline := fun he => (h line hline).2.2 (he ▸ hb)
    simpa [isNewline] using hne
  have hmessage : ∀ line ∈ lines, message (line ++ [newline]) = line := by
    intro line hline
    have hline := h line hline
    have hzero : ((line ++ [newline]).takeWhile fun b => decide (b ≠ 0)) = line ++ [newline] := by
      refine List.takeWhile_eq_self_iff.mpr fun b hb => ?_
      have hne : b ≠ 0 := by
        rcases List.mem_append.mp hb with hb | hb
        · exact fun he => hline.2.1 (he ▸ hb)
        · rw [List.mem_singleton.mp hb]
          decide
      simpa using hne
    have hall : ∀ b ∈ line, (!isNewline b) = true := by
      intro b hb
      have hne : b ≠ newline := fun he => hline.2.2 (he ▸ hb)
      simpa [isNewline] using hne
    rw [message, hzero, List.takeWhile_append_of_pos hall]
    simp [isNewline]
  rw [messages, hpieces, List.map_map]
  exact (List.map_congr_left hmessage).trans (List.map_id _)

/-- What is typed is sent, in messages of up to 255 bytes, without the newlines and in order. When the input
has ended the last message is sent over and over. -/
theorem typed_and_repeated (buffer : Buffer) {input : List UInt8} (hne : input ≠ []) (hz : 0 ∉ input) (n : ℕ) :
    ∃ t, turns n ⟨buffer, input, []⟩ = some t ∧
      t.sent = (messages input).take n ++
        List.replicate (n - (messages input).length) ((messages input).getLastD []) ∧
      (messages input).flatten = (input.filter fun b => !isNewline b) ∧
      ∀ m ∈ messages input, m.length ≤ BUFFER_SIZE - 1 ∧ newline ∉ m := by
  obtain ⟨t, ht, hsent⟩ := turns_spec n (s := ⟨buffer, input, []⟩) hne
  refine ⟨t, ht, hsent, flatten_messages hz, fun m hm => ?_⟩
  obtain ⟨line, hline, rfl⟩ := List.mem_map.mp hm
  obtain ⟨l, rfl⟩ := exists_piece_of_mem hline
  refine ⟨?_, newline_not_mem_message _⟩
  calc (message (piece isNewline (BUFFER_SIZE - 2 + 1) l)).length
      ≤ (piece isNewline (BUFFER_SIZE - 2 + 1) l).length :=
        ((List.takeWhile_prefix _).length_le).trans (List.takeWhile_prefix _).length_le
    _ ≤ BUFFER_SIZE - 1 := length_piece_le _ _

/-- A greeting and a LIST, of which the second is repeated. -/
theorem typed_and_repeated_list :
    ∃ t, turns 4 ⟨fun _ => 0, bytesOf "2ALL hi\nLIST\n", []⟩ = some t ∧
      t.sent = [bytesOf "2ALL hi", bytesOf "LIST", bytesOf "LIST", bytesOf "LIST"] := by
  have hmessages : messages (bytesOf "2ALL hi\nLIST\n") = [bytesOf "2ALL hi", bytesOf "LIST"] :=
    @messages_lines [bytesOf "2ALL hi", bytesOf "LIST"] (by decide)
  have hne : bytesOf "2ALL hi\nLIST\n" ≠ [] := by decide
  obtain ⟨t, ht, hsent, -⟩ := typed_and_repeated (fun _ => 0) hne (by decide) 4
  rw [hmessages] at hsent
  exact ⟨t, ht, hsent⟩

end SystemyOperacyjne.ChatClient
