import SystemyOperacyjne.ChatServerFraming

/-!
# How 2ONE is read

The recipient is found by `sscanf`, which skips blanks; the text begins at a place that is computed
from the length of the recipient alone.
-/

namespace SystemyOperacyjne.ChatServer
open CString

/-- `buffer + 6 + strlen(recipient_name)`, from the beginning of the buffer. -/
def textStart (recipient_name : List UInt8) : ℕ :=
  6 + recipient_name.length

/-- The command is 2ONE, any blanks, a recipient of 1 to 49 bytes, one blank and a message. -/
structure Layout (command blanks token : List UInt8) (blank : UInt8) (message : List UInt8) : Prop where
  eq : command = bytesOf "2ONE " ++ (blanks ++ (token ++ blank :: message))
  size : 1 ≤ token.length ∧ token.length < NAME_SIZE
  before : ∀ b ∈ blanks, isspace b = true
  word : ∀ b ∈ token, isspace b = false
  behind : isspace blank = true

/-- The text begins inside the command, and a command of the layout is read as it is meant. -/
structure ReadsOne (buffer : Buffer) (garbage command : List UInt8) : Prop where
  inside : ∃ recipient_name message, parse buffer garbage = .toOne recipient_name message ∧
    stringAt buffer (textStart recipient_name) = some message ∧ textStart recipient_name ≤ command.length
  exact : ∀ blanks token blank message, Layout command blanks token blank message →
    parse buffer garbage = .toOne token message

/-- Either no blanks stand before the recipient and something stands behind it, or blanks stand
before it and nothing behind; where there is no recipient, the string left in `recipient_name` is
shorter than what follows the command. -/
def OneBlank (garbage command : List UInt8) : Prop :=
  match scanToken (command.drop 5) with
  | some token => token.length < NAME_SIZE ∧ (token <+: command.drop 5 ↔ (command.drop 5).dropWhile isspace ≠ token)
  | none => garbage.length < NAME_SIZE ∧ textStart garbage ≤ command.length

section
variable {buffer : Buffer} {garbage command : List UInt8}

lemma scanToken_of_layout {blanks token message : List UInt8} {blank : UInt8}
    (h : Layout command blanks token blank message) : scanToken (command.drop 5) = some token ∧
      (command.drop 5).dropWhile isspace = token ++ blank :: message := by
  have hdrop : command.drop 5 = blanks ++ (token ++ blank :: message) := by
    rw [h.eq]
    rfl
  have hafter : (command.drop 5).dropWhile isspace = token ++ blank :: message := by
    cases token with
    | nil => exact absurd h.size.1 (by simp)
    | cons b token =>
      have hb := h.word b (by simp)
      rw [hdrop, List.dropWhile_append_of_pos h.before, List.cons_append, List.dropWhile_cons_of_neg (by simp [hb])]
  have htake : (token ++ blank :: message).takeWhile (fun b => !isspace b) = token := by
    rw [List.takeWhile_append_of_pos (by simpa using h.word), List.takeWhile_cons_of_neg (by simp [h.behind]),
      List.append_nil]
  refine ⟨?_, hafter⟩
  unfold scanToken
  rw [hafter, htake]
  split
  · exact absurd h.size.1 (by simp)
  · rfl

lemma blank_of_scanToken {text token tail : List UInt8} {b : UInt8} (h : scanToken text = some token)
    (hafter : text.dropWhile isspace = token ++ b :: tail) : isspace b = true := by
  by_contra hb
  obtain ⟨-, -, -, -, -, -, hchars⟩ := scanToken_eq_some h
  have htake : (token ++ b :: tail).takeWhile (fun b => !isspace b) =
      token ++ b :: tail.takeWhile fun b => !isspace b := by
    rw [List.takeWhile_append_of_pos (by simpa using hchars), List.takeWhile_cons_of_pos (by simpa using hb)]
  unfold scanToken at h
  rw [hafter, htake] at h
  split at h
  · cases h
  · have hlength := congrArg List.length (Option.some.inj h)
    simp at hlength

lemma parse_one (hcommand : stringAt buffer 0 = some command) (hone : bytesOf "2ONE " <+: command) :
    parse buffer garbage =
      let recipient_name := (scanToken (command.drop 5)).getD garbage
      if recipient_name.length < NAME_SIZE then
        match stringAt buffer (textStart recipient_name) with
        | some message => .toOne recipient_name message
        | none => .fault
      else .fault := by
  have hone' := List.isPrefixOf_iff_prefix.mpr hone
  have hall : ¬(bytesOf "2ALL ").isPrefixOf command = true := fun hall => not_toOne_of_toAll hall hone'
  simp only [parse, hcommand, if_neg hall, if_pos hone']
  rfl

lemma inside_iff (hcommand : stringAt buffer 0 = some command) (hone : bytesOf "2ONE " <+: command)
    {recipient_name : List UInt8} (hrecipient : (scanToken (command.drop 5)).getD garbage = recipient_name) :
    (∃ recipient_name message, parse buffer garbage = .toOne recipient_name message ∧
      stringAt buffer (textStart recipient_name) = some message ∧ textStart recipient_name ≤ command.length) ↔
    recipient_name.length < NAME_SIZE ∧ textStart recipient_name ≤ command.length := by
  obtain ⟨rest, hofFn, hz⟩ := ofFn_of_stringAt hcommand
  rw [parse_one hcommand hone, hrecipient]
  constructor
  · rintro ⟨r, message, hparse, -, hin⟩
    simp only at hparse
    split at hparse
    · next hsize =>
      split at hparse
      · cases hparse
        exact ⟨hsize, hin⟩
      · cases hparse
    · cases hparse
  · rintro ⟨hsize, hin⟩
    have htext := stringAt_of_ofFn hofFn hz hin
    exact ⟨recipient_name, _, by simp only [if_pos hsize, htext], htext, hin⟩

lemma own_text_iff {blanks token message : List UInt8} {b : UInt8}
    (hdrop : command.drop 5 = blanks ++ (token ++ b :: message)) :
    command.drop (textStart token) = message ↔ blanks = [] := by
  have hcut : command.drop (textStart token) = (blanks ++ (token ++ b :: message)).drop (1 + token.length) := by
    rw [← hdrop, List.drop_drop]
    congr 1
    unfold textStart
    omega
  rw [hcut]
  constructor
  · intro heq
    have hl := congrArg List.length heq
    simp only [List.length_drop, List.length_append, List.length_cons] at hl
    exact List.length_eq_zero_iff.mp (by omega)
  · rintro rfl
    rw [List.nil_append, Nat.add_comm, ← List.drop_drop, List.drop_left]
    rfl

/-- Where `sscanf` finds a recipient in a 2ONE. -/
structure Scanned (command blanks token tail : List UInt8) : Prop where
  one : bytesOf "2ONE " <+: command
  found : scanToken (command.drop 5) = some token
  drop_eq : command.drop 5 = blanks ++ (token ++ tail)
  after_eq : (command.drop 5).dropWhile isspace = token ++ tail
  before : ∀ b ∈ blanks, isspace b = true
  ne_nil : token ≠ []
  word : ∀ b ∈ token, isspace b = false

variable {blanks token tail : List UInt8}

lemma Scanned.start_le_iff (h : Scanned command blanks token tail) :
    textStart token ≤ command.length ↔ blanks ≠ [] ∨ tail ≠ [] := by
  have hlong : 5 ≤ command.length := h.one.length_le
  have hlength : command.length = 5 + blanks.length + token.length + tail.length := by
    have hl := congrArg List.length h.drop_eq
    simp only [List.length_drop, List.length_append] at hl
    omega
  rw [← List.length_pos_iff, ← List.length_pos_iff]
  unfold textStart
  omega

lemma Scanned.layout {b : UInt8} {message : List UInt8} (h : Scanned command blanks token (b :: message))
    (hsize : token.length < NAME_SIZE) : Layout command blanks token b message := by
  refine ⟨?_, ⟨List.length_pos_iff.mpr h.ne_nil, hsize⟩, h.before, h.word, blank_of_scanToken h.found h.after_eq⟩
  obtain ⟨rest, hrest⟩ := h.one
  have hdrop : rest = command.drop 5 := by
    rw [← hrest]
    rfl
  rw [← hrest, hdrop, h.drop_eq]

/-- A command of the layout is read as it is meant exactly if no blanks stand before a recipient that
something stands behind. -/
lemma Scanned.exact_iff (h : Scanned command blanks token tail) (hsize : token.length < NAME_SIZE)
    (hparse : parse buffer garbage = .toOne token (command.drop (textStart token))) :
    (∀ blanks token blank message, Layout command blanks token blank message →
      parse buffer garbage = .toOne token message) ↔ (tail ≠ [] → blanks = []) := by
  constructor
  · intro hexact htail
    cases tail with
    | nil => exact absurd rfl htail
    | cons b message =>
      have hread := hexact blanks token b message (h.layout hsize)
      rw [hparse] at hread
      exact (own_text_iff h.drop_eq).mp (Command.toOne.inj hread).2
  · intro hnone blanks' token' b message hlayout
    obtain ⟨htoken', hafter'⟩ := scanToken_of_layout hlayout
    obtain rfl := Option.some.inj (h.found.symm.trans htoken')
    obtain rfl : tail = b :: message := List.append_cancel_left (h.after_eq.symm.trans hafter')
    rw [hparse, (own_text_iff h.drop_eq).mpr (hnone (by simp))]

lemma Scanned.readsOne_iff (h : Scanned command blanks token tail) (hcommand : stringAt buffer 0 = some command) :
    ReadsOne buffer garbage command ↔ token.length < NAME_SIZE ∧ (blanks = [] ↔ tail ≠ []) := by
  obtain ⟨rest, hofFn, hz⟩ := ofFn_of_stringAt hcommand
  have hname : (scanToken (command.drop 5)).getD garbage = token := by rw [h.found, Option.getD_some]
  have hinside := inside_iff hcommand h.one hname
  have hparse : token.length < NAME_SIZE → textStart token ≤ command.length →
      parse buffer garbage = .toOne token (command.drop (textStart token)) := by
    intro hsize hin
    rw [parse_one hcommand h.one, h.found]
    simp only [Option.getD_some, if_pos hsize, stringAt_of_ofFn hofFn hz hin]
  constructor
  · intro hreads
    obtain ⟨hsize, hin⟩ := hinside.mp hreads.inside
    have hblank := h.start_le_iff.mp hin
    have hexact := (h.exact_iff hsize (hparse hsize hin)).mp hreads.exact
    exact ⟨hsize, fun hb => hblank.resolve_left fun hne => hne hb, hexact⟩
  · rintro ⟨hsize, hiff⟩
    have hin : textStart token ≤ command.length := by
      rw [h.start_le_iff, ← hiff]
      exact (em (blanks = [])).symm
    exact ⟨hinside.mpr ⟨hsize, hin⟩, (h.exact_iff hsize (hparse hsize hin)).mpr hiff.mpr⟩

/-- A 2ONE is read as the layout says, and inside the command, exactly if it has one blank. -/
theorem reads_one_iff (hcommand : stringAt buffer 0 = some command) (hone : bytesOf "2ONE " <+: command) :
    ReadsOne buffer garbage command ↔ OneBlank garbage command := by
  unfold OneBlank
  cases htoken : scanToken (command.drop 5) with
  | none =>
    have hname : (scanToken (command.drop 5)).getD garbage = garbage := by rw [htoken, Option.getD_none]
    have hinside := inside_iff hcommand hone hname
    constructor
    · exact fun h => hinside.mp h.inside
    · intro h
      refine ⟨hinside.mpr h, fun blanks token blank message hlayout => ?_⟩
      rw [(scanToken_of_layout hlayout).1] at htoken
      cases htoken
  | some token =>
    obtain ⟨blanks, tail, hdrop, hafter, hblanks, hne, hchars⟩ := scanToken_eq_some htoken
    have hscanned : Scanned command blanks token tail := ⟨hone, htoken, hdrop, hafter, hblanks, hne, hchars⟩
    have hstarts : token <+: command.drop 5 ↔ blanks = [] := by
      rw [hdrop, token_prefix_iff hblanks hne hchars]
    have htail : (command.drop 5).dropWhile isspace ≠ token ↔ tail ≠ [] := by
      simp [hafter]
    simp only [hstarts, htail]
    exact hscanned.readsOne_iff hcommand

end

/-- The buffer holds the command, and zeros behind it. -/
def holding (command : String) : Buffer :=
  overwrite (fun _ => 0) (bytesOf command)

/-- With one blank before the recipient and one behind, the text is read. -/
theorem reads_one_plain : stringAt (holding "2ONE ola hi") 0 = some (bytesOf "2ONE ola hi") ∧
    (ReadsOne (holding "2ONE ola hi") [] (bytesOf "2ONE ola hi") ↔ OneBlank [] (bytesOf "2ONE ola hi")) := by
  have hcommand : stringAt (holding "2ONE ola hi") 0 = some (bytesOf "2ONE ola hi") := by
    decide +kernel
  exact ⟨hcommand, reads_one_iff hcommand (by decide)⟩

/-- With another blank before the recipient, the text that is sent begins with a blank. -/
theorem not_reads_one : ¬∀ (buffer : Buffer) (garbage command : List UInt8), stringAt buffer 0 = some command →
    bytesOf "2ONE " <+: command → ReadsOne buffer garbage command := by
  intro hall
  have hcommand : stringAt (holding "2ONE  ola hi") 0 = some (bytesOf "2ONE  ola hi") := by
    decide +kernel
  have hparse : parse (holding "2ONE  ola hi") [] = .toOne (bytesOf "ola") (bytesOf " hi") := by
    decide +kernel
  have hread := (hall _ [] _ hcommand (by decide)).exact (bytesOf " ") (bytesOf "ola") 32 (bytesOf "hi")
    ⟨by decide +kernel, by decide +kernel, by decide +kernel, by decide +kernel, by decide +kernel⟩
  rw [hparse] at hread
  exact absurd hread (by decide)

end SystemyOperacyjne.ChatServer
