import SystemyOperacyjne.Library.CString

/-!
# The texts of the chat server

How `client_handler` of `cw11/server.c` reads a command from its buffer, and how the
replies and relayed messages are composed. `none` and `fault` are accesses outside a buffer.
-/

namespace SystemyOperacyjne.ChatServer
open CString

abbrev MAX_CLIENTS : ℕ := 10
def BUFFER_SIZE : ℕ := 256
def NAME_SIZE : ℕ := 50

abbrev Slot := Fin MAX_CLIENTS
abbrev Buffer := Fin BUFFER_SIZE → UInt8
abbrev Name := Fin NAME_SIZE → UInt8

def isspace (b : UInt8) : Bool :=
  b = 32 || (9 ≤ b && b ≤ 13)

/-- What `sscanf` with `%s` reads; `none` when only blanks are left. -/
def scanToken (s : List UInt8) : Option (List UInt8) :=
  match (s.dropWhile isspace).takeWhile fun b => !isspace b with
  | [] => none
  | token => some token

inductive Command
  | toAll (message : List UInt8)
  | toOne (recipient message : List UInt8)
  | list
  | stop
  | other
  | fault
  deriving DecidableEq, Repr

/-- The chain of `strncmp` tests. `garbage` is the string in the uninitialised
`recipient_name`, which remains when `sscanf` finds no token. -/
def parse (buffer : Buffer) (garbage : List UInt8) : Command :=
  match stringAt buffer 0 with
  | none => .fault
  | some command =>
    if (bytesOf "2ALL ").isPrefixOf command then .toAll (command.drop 5)
    else if (bytesOf "2ONE ").isPrefixOf command then
      let recipient_name := (scanToken (command.drop 5)).getD garbage
      if recipient_name.length < NAME_SIZE then
        match stringAt buffer (6 + recipient_name.length) with
        | some message => .toOne recipient_name message
        | none => .fault
      else .fault
    else if (bytesOf "LIST").isPrefixOf command then .list
    else if (bytesOf "STOP").isPrefixOf command then .stop
    else .other

/-- The text of `send_to_all` and `send_to_one`: date, sender and message. -/
def compose (date sender_name message : List UInt8) : Option (List UInt8) :=
  let text := date ++ bytesOf " " ++ sender_name ++ bytesOf ": " ++ message
  if text.length < BUFFER_SIZE then some text else none

def listHeader : List UInt8 :=
  bytesOf "Clients on server : \n"

/-- One more line of the LIST reply. -/
def appendName (list_message name : List UInt8) : Option (List UInt8) :=
  let text := list_message ++ name ++ bytesOf "\n"
  if text.length < BUFFER_SIZE then some text else none

/-- `buffer[n] = 0` after `n` bytes were received. -/
def terminate (buffer : Buffer) (n : ℤ) : Option Buffer :=
  if h : 0 ≤ n ∧ n < BUFFER_SIZE then some (Function.update buffer ⟨n.toNat, by omega⟩ 0) else none

end SystemyOperacyjne.ChatServer
