import SystemyOperacyjne.QueueChatOrder
import SystemyOperacyjne.QueueChatTyped

/-!
# What the clients of the queue chat show

The parent of `cw7/client.c` reads words and sends them, and the child prints what comes out of the
client's queue. Together with the server this makes the words of all clients appear on all terminals.
-/

namespace SystemyOperacyjne.QueueChat
open Concurrency CString

variable {s t : State}

/-- What one call of `printf` in the child prints. -/
inductive Line
  | identyfikator (id : ℤ)
  | widomosc (id : ℤ) (text : List UInt8)
  | text (text : List UInt8)
  deriving DecidableEq

/-- The `switch` of the child. -/
def message_msg.lines (m : message_msg) : List Line :=
  match m.type with
  | .IDENTIFIER => [.identyfikator m.client_id]
  | .MESSAGE => [.widomosc m.client_id (cString m.text)]
  | .STOP => [.text (cString m.text)]
  | .INIT => []

/-- The chat with what each child has printed, and the words that each parent has read. -/
structure Terminals where
  chat : State
  screen : Pid → List Line
  typed : Pid → List (List UInt8)

/-- The words that the parent reads in this step. -/
def wordsRead (s : State) : Action → Pid → List (List UInt8)
  | .parent p _ typed, q =>
    match (s.client p).parent with
    | .scan => if q = p then typed.toList else []
    | _ => []
  | _, _ => []

/-- The lines that the child prints in this step. -/
def linesPrinted (s : State) : Action → Pid → List Line
  | .child p _, q => if q = p ∧ (s.client p).child = .dispatch then (s.client p).recive_msg.lines else []
  | _, _ => []

def terminalStep (u : Terminals) (a : Action) : Option Terminals :=
  (step u.chat a).map fun chat =>
    { chat
      screen := fun q => u.screen q ++ linesPrinted u.chat a q
      typed := fun q => u.typed q ++ wordsRead u.chat a q }

structure Blank (u : Terminals) : Prop where
  chat : Started u.chat
  screen : ∀ p, u.screen p = []
  typed : ∀ p, u.typed p = []

def terminals : Machine Terminals Action where
  init := Blank
  next := terminalStep

/-- The chat is reliable, and every word that is read has room for its terminator and holds none. -/
structure Proper (u : Terminals) (a : Action) : Prop where
  reliable : Reliable u.chat a
  fits : ∀ p ok word, a = .parent p ok (some word) → FitsText word

/-! ### From the server to the screen -/

/-- What the child has taken out of the queue and not printed. -/
def unprinted (c : Client) : List Line :=
  if c.child = .dispatch then c.recive_msg.lines else []

/-- What is put in the queue of `p` is on the screen, about to be printed, or still in the queue. -/
structure ScreenOk (u : Terminals) (p : Pid) : Prop where
  shown : u.screen p ++ unprinted (u.chat.client p) ++ (u.chat.queues (client_queue_name p)).flatMap message_msg.lines =
    ((u.chat.put (client_queue_name p)).map Prod.snd).flatMap message_msg.lines
  unborn : (u.chat.client p).parent.BeforeFork → (u.chat.client p).child = .unborn

section
variable {u : Terminals} {p : Pid}

lemma ScreenOk.init (h : Blank u) : ScreenOk u p := by
  have hchild := h.chat.child p
  constructor
  · rw [h.screen, h.chat.queues, h.chat.put, unprinted, if_neg (by rw [hchild]; decide)]
    rfl
  · exact fun _ => hchild

lemma ScreenOk.of_queueMove (h : ScreenOk u p) (hclient : s.client = u.chat.client) (hm : QueueMove u.chat s)
    (typed : Pid → List (List UInt8)) : ScreenOk ⟨s, u.screen, typed⟩ p := by
  obtain ⟨rest, hput, hqueues⟩ := hm.grows (client_queue_name p)
  constructor
  · simp only [hclient, hput, hqueues, List.map_append, List.flatMap_append, ← h.shown, List.append_assoc]
  · simp only [hclient]
    exact h.unborn

lemma ScreenOk.of_child (h : ScreenOk u p) {q : Pid} {ok : Bool} (hm : ChildMove u.chat q s)
    (typed : Pid → List (List UInt8)) :
    ScreenOk ⟨s, fun r => u.screen r ++ linesPrinted u.chat (.child q ok) r, typed⟩ p := by
  have hshown := h.shown
  have hunborn := h.unborn
  by_cases hp : p = q
  · subst hp
    constructor
    · cases hm with
      | goesOn hpc | leaves hpc | fails hpc =>
        simpa [linesPrinted, hpc, unprinted, State.childAt, State.setClient] using hshown
      | takes hpc hq =>
        simpa [linesPrinted, hpc, hq, unprinted, State.setClient] using hshown
      | forwards hpc | shows hpc =>
        simpa [linesPrinted, hpc, unprinted, State.childAt, State.setClient] using hshown
    · cases hm with
      | goesOn hpc | leaves hpc | fails hpc | takes hpc | forwards hpc | shows hpc =>
        rw [hpc] at hunborn
        simpa [State.childAt, State.setClient] using hunborn
  · have hlines : linesPrinted u.chat (.child q ok) p = [] := if_neg fun hand => hp hand.1
    have hname : client_queue_name p ≠ client_queue_name q := fun he => hp (client_queue_name_injective he)
    constructor
    · simp only [hlines, List.append_nil]
      cases hm with
      | goesOn | leaves | fails | forwards | shows =>
        simpa only [State.childAt, State.setClient, Function.update_of_ne hp] using hshown
      | takes =>
        simpa only [State.setClient, Function.update_of_ne hp, Function.update_of_ne hname] using hshown
    · cases hm with
      | goesOn | leaves | fails | takes | forwards | shows =>
        simpa only [State.childAt, State.setClient, Function.update_of_ne hp] using hunborn

/-- A parent leaves what is shown alone; when it forks, there was no child. -/
lemma ScreenOk.of_parent (h : ScreenOk u p) {q : Pid} {ok : Bool} (hm : ParentMove u.chat q ok s)
    (typed : Pid → List (List UInt8)) : ScreenOk ⟨s, u.screen, typed⟩ p := by
  have hshown := h.shown
  have hunborn := h.unborn
  by_cases hp : p = q
  · subst hp
    cases hm with
    | creates hpc | joins hpc =>
      rw [hpc] at hunborn
      constructor
      · simpa [unprinted, State.parentAt, State.setClient, State.enqueue] using hshown
      · simpa [State.parentAt, State.setClient, State.enqueue, ParentPc.BeforeFork] using hunborn
    | forks hpc =>
      rw [hpc] at hunborn
      constructor
      · simpa [unprinted, State.setClient, hunborn trivial] using hshown
      · simp [State.setClient, ParentPc.BeforeFork]
    | reads | readsNothing | scans | stops | types | posts | leaves =>
      constructor
      · simpa [unprinted, State.parentAt, State.setClient, State.enqueue] using hshown
      · simp [State.parentAt, State.setClient, State.enqueue, ParentPc.BeforeFork]
    | quits hpc =>
      constructor
      · simpa [unprinted, State.parentAt, State.setClient] using hshown
      · rcases hpc with rfl | rfl | rfl <;> simp [State.parentAt, State.setClient, ParentPc.BeforeFork]
  · have hclient : s.client p = u.chat.client p := by
      cases hm <;> simp only [State.parentAt, State.setClient, State.enqueue, Function.update_of_ne hp]
    have hqueues : s.queues = u.chat.queues := by cases hm <;> rfl
    have hput : s.put = u.chat.put := by cases hm <;> rfl
    constructor
    · simpa only [hclient, hqueues, hput] using hshown
    · simpa only [hclient] using hunborn

lemma ScreenOk.of_flags (h : ScreenOk u p) (q : Pid) (flag childFlag : Bool) (typed : Pid → List (List UInt8)) :
    ScreenOk ⟨u.chat.setClient q { u.chat.client q with flag := flag, childFlag := childFlag }, u.screen, typed⟩ p := by
  by_cases hp : p = q
  · subst hp
    constructor
    · simpa [unprinted, State.setClient] using h.shown
    · simpa [State.setClient] using h.unborn
  · constructor
    · simpa only [State.setClient, Function.update_of_ne hp] using h.shown
    · simpa only [State.setClient, Function.update_of_ne hp] using h.unborn

theorem screenOk_step {v : Terminals} {a : Action} (h : ScreenOk u p) (hs : terminalStep u a = some v) :
    ScreenOk v p := by
  obtain ⟨s, hchat, rfl⟩ := Option.map_eq_some_iff.mp hs
  obtain ⟨ok, rfl, hm⟩ | ⟨q, ok, typed, rfl, hm⟩ | ⟨q, ok, rfl, hm⟩ | ⟨rfl, rfl⟩ | ⟨q, flag, childFlag, ha, rfl⟩ :=
    step_cases hchat
  · simp only [linesPrinted, List.append_nil]
    exact h.of_queueMove hm.client hm.queueMove _
  · simp only [linesPrinted, List.append_nil]
    exact h.of_parent hm _
  · exact h.of_child hm _
  · simp only [linesPrinted, List.append_nil]
    exact ⟨h.shown, h.unborn⟩
  · rcases ha with rfl | rfl
    · simp only [linesPrinted, List.append_nil]
      exact h.of_flags q flag childFlag _
    · simp only [linesPrinted, List.append_nil]
      exact h.of_flags q flag childFlag _

end

/-! ### From the keyboard to the server -/

/-- The messages that the clients have sent. -/
def State.sent (s : State) : List Entry :=
  s.log ++ s.flight

@[simp] lemma setClient_sent (s : State) (p : Pid) (c : Client) : (s.setClient p c).sent = s.sent := rfl

@[simp] lemma setClient_client_self (s : State) (p : Pid) (c : Client) : (s.setClient p c).client p = c := by
  simp only [State.setClient, Function.update_self]

@[simp] lemma enqueue_client (s : State) (e : Entry) : (s.enqueue e).client = s.client := rfl

@[simp] lemma enqueue_sent (s : State) (e : Entry) : (s.enqueue e).sent = s.sent ++ [e] := by
  simp [State.sent, State.flight, State.enqueue]

/-- The texts of the MESSAGEs of `p`, as strings. -/
def spoken (p : Pid) (sent : List Entry) : List (List UInt8) :=
  (sent.filter fun e => e.sender = p ∧ e.msg.type = .MESSAGE).map fun e => cString e.msg.text

@[simp] lemma spoken_append (p : Pid) (sent rest : List Entry) :
    spoken p (sent ++ rest) = spoken p sent ++ spoken p rest := by
  simp [spoken]

/-- What `p` has typed and what it has sent. -/
def TypedOk (u : Terminals) (p : Pid) : Prop :=
  match (u.chat.client p).parent with
  | .sendMessage text => spoken p u.chat.sent ++ [cString text] = u.typed p
  | .ended | .exited | .crashed => spoken p u.chat.sent <+: u.typed p
  | _ => spoken p u.chat.sent = u.typed p

lemma ServerMove.sent_eq (hpc : s.server.pc = .receive → s.current = none) (hm : ServerMove s true t) :
    t.sent = s.sent := by
  cases hm with
  | receives hat hq =>
    simp [State.sent, State.flight, hpc hat, hq]
  | admits | ignores | ends | closes =>
    simp [State.sent, State.flight, State.finish, State.processed, State.serverAt]
  | goesOn | leaves | overruns | passesOn | dismisses | tells | tellsNothing | forwards | skips | saysGoodbye
  | goodbyeFails => rfl
  | repeats _ hok | cannotOpen _ _ _ hok => cases hok

section
variable {u : Terminals} {p : Pid}

lemma TypedOk.init (h : Blank u) : TypedOk u p := by
  have hsent : u.chat.sent = [] := by
    simp [State.sent, State.flight, h.chat.log, h.chat.current, h.chat.server_queue]
  simp only [TypedOk, h.chat.parent p, hsent, h.typed p]
  rfl

lemma TypedOk.isPrefix (h : TypedOk u p) : spoken p u.chat.sent <+: u.typed p := by
  unfold TypedOk at h
  split at h
  · rw [← h]
    exact List.prefix_append _ _
  · exact h
  · exact h
  · exact h
  · rw [h]

lemma TypedOk.of_same (h : TypedOk u p) (hparent : (s.client p).parent = (u.chat.client p).parent)
    (hspoken : spoken p s.sent = spoken p u.chat.sent) (screen : Pid → List Line) {typed : Pid → List (List UInt8)}
    (htyped : typed p = u.typed p) : TypedOk ⟨s, screen, typed⟩ p := by
  unfold TypedOk at h ⊢
  simp only [hparent, hspoken, htyped]
  exact h

lemma TypedOk.of_scan (h : TypedOk u p) (hpc : (u.chat.client p).parent = .scan) {ok : Bool}
    {typed : Option (List UInt8)} (hfits : ∀ word, typed = some word → FitsText word)
    (hs : parentStep u.chat p ok typed = some s) (screen : Pid → List Line) :
    TypedOk ⟨s, screen, fun r => u.typed r ++ wordsRead u.chat (.parent p ok typed) r⟩ p := by
  have hspoken : spoken p u.chat.sent = u.typed p := by
    simpa only [TypedOk, hpc] using h
  cases typed with
  | none =>
    simp only [parentStep, hpc, Option.bind_none, Option.some.injEq] at hs
    subst hs
    simp only [TypedOk, setClient_client_self, setClient_sent]
    exact hspoken ▸ List.prefix_append _ _
  | some word =>
    obtain ⟨hlength, hzero⟩ := hfits word rfl
    have hcString : cString (textOf word) = word := by
      apply cString_overwrite_zero hlength.le
      intro b hb hb0
      exact hzero (hb0 ▸ hb)
    simp only [parentStep, hpc, Option.bind_some, memcpyText_eq hlength.le, Option.some.injEq] at hs
    subst hs
    simp only [TypedOk, setClient_client_self, setClient_sent, wordsRead, hpc, if_true, Option.toList_some, hcString,
      hspoken]

lemma TypedOk.of_parent (h : TypedOk u p) {ok : Bool} {typed : Option (List UInt8)}
    (hfits : ∀ word, typed = some word → FitsText word) (hs : parentStep u.chat p ok typed = some s)
    (screen : Pid → List Line) :
    TypedOk ⟨s, screen, fun r => u.typed r ++ wordsRead u.chat (.parent p ok typed) r⟩ p := by
  by_cases hscan : (u.chat.client p).parent = .scan
  · exact h.of_scan hscan hfits hs screen
  · have hwords : wordsRead u.chat (.parent p ok typed) p = [] := by
      simp only [wordsRead]
    have hprefix := h.isPrefix
    unfold TypedOk at h ⊢
    simp only [hwords, List.append_nil]
    cases parent_cases hs with
    | creates hpc | forks hpc | reads hpc | readsNothing hpc | scans hpc | stops hpc =>
      rw [hpc] at h
      simpa [State.parentAt] using h
    | joins hpc | leaves hpc =>
      rw [hpc] at h
      simpa [State.parentAt, spoken, initMessage] using h
    | types hpc => exact absurd hpc hscan
    | posts hpc =>
      rw [hpc] at h
      simpa [State.parentAt, spoken] using h
    | quits hpc =>
      rcases hpc with rfl | rfl | rfl
      · simpa [State.parentAt] using hprefix
      · simpa [State.parentAt] using hprefix
      · simpa [State.parentAt] using hprefix

/-- What `p` types, it sends in order, one message for each word. -/
theorem typedOk_step {v : Terminals} {a : Action} (h : TypedOk u p) (hok : Ok u.chat) (hproper : Proper u a)
    (hs : terminalStep u a = some v) : TypedOk v p := by
  obtain ⟨s, hchat, rfl⟩ := Option.map_eq_some_iff.mp hs
  cases a with
  | server ok =>
    obtain rfl := hproper.reliable.succeeds ok rfl
    have hm := server_cases hchat
    have hsent : s.sent = u.chat.sent := hm.sent_eq fun hpc => hok.at_pc hpc
    exact h.of_same (by rw [hm.client]) (by rw [hsent]) _ (List.append_nil _)
  | parent q ok typed =>
    have hfits : ∀ word, typed = some word → FitsText word := fun word hword => hproper.fits q ok word (by rw [hword])
    by_cases hp : p = q
    · subst hp
      exact h.of_parent hfits hchat _
    · have hwords : wordsRead u.chat (.parent q ok typed) p = [] := by
        simp only [wordsRead, if_neg hp]
        split <;> rfl
      have hne : q ≠ p := Ne.symm hp
      apply h.of_same
      · cases parent_cases hchat <;>
          simp only [State.parentAt, State.setClient, State.enqueue, Function.update_of_ne hp]
      · cases parent_cases hchat <;> simp [State.parentAt, spoken, hne]
      · simp only [hwords, List.append_nil]
  | child q ok =>
    apply h.of_same
    · by_cases hp : p = q
      · subst hp
        cases child_cases hchat <;> simp [State.childAt, State.setClient]
      · cases child_cases hchat <;> simp [State.childAt, State.setClient, Function.update_of_ne hp]
    · cases child_cases hchat <;> rfl
    · exact List.append_nil _
  | interruptServer =>
    cases hchat
    apply h.of_same
    · rfl
    · rfl
    · exact List.append_nil _
  | interruptParent q | interruptChild q =>
    obtain ⟨flag, childFlag, rfl⟩ : ∃ flag childFlag,
        s = u.chat.setClient q { u.chat.client q with flag := flag, childFlag := childFlag } := by
      simp only [step] at hchat
      split at hchat <;> cases hchat
      exact ⟨_, _, rfl⟩
    apply h.of_same
    · by_cases hp : p = q
      · subst hp
        rw [setClient_client_self]
      · simp only [State.setClient, Function.update_of_ne hp]
    · rfl
    · exact List.append_nil _

end

/-! ### From the keyboard to the screen -/

/-- The line that a note gives for the holder of slot `id`. -/
def noteLine (id : Fin 10) : Note message_msg → Line
  | .welcome => .identyfikator id
  | .heard m => .widomosc m.client_id (cString m.text)
  | .farewell => .text goodbye

lemma cString_goodbye : cString (textOf goodbye) = goodbye := by
  apply cString_overwrite_zero
  · decide +kernel
  · decide +kernel

lemma lines_render {id : Fin 10} {x : ℕ × Note message_msg} (hx : ∀ m, x.2 = .heard m → m.type = .MESSAGE) :
    (render id x).2.lines = [noteLine id x.2] := by
  obtain ⟨n, x⟩ := x
  cases x with
  | welcome => rfl
  | heard m => simp [render, message_msg.lines, noteLine, hx m rfl]
  | farewell => simp [render, message_msg.lines, noteLine, endMessage, cString_goodbye]

lemma lines_transcript (id : Fin 10) (p : Pid) (entries : List Entry) :
    (((transcript p (entries.map Entry.event)).map (render id)).map Prod.snd).flatMap message_msg.lines =
      (transcript p (entries.map Entry.event)).map fun x => noteLine id x.2 := by
  have hheard : ∀ x ∈ transcript p (entries.map Entry.event), (render id x).2.lines = [noteLine id x.2] := by
    intro x hx
    apply lines_render
    intro m hm
    obtain ⟨n, y⟩ := x
    obtain rfl : y = .heard m := hm
    obtain ⟨e, -, -, -, htype⟩ := mem_transcript_heard hx
    exact htype
  rw [List.map_map, List.flatMap_map]
  exact (List.flatMap_congr hheard).trans List.map_eq_flatMap.symm

/-- For any number of clients and every interleaving: the screen of a client shows, in the order of the
server, its identifier, what the others said during its stay, and the goodbye, and all of it when nothing is
on its way to the client; and what a client says are the first words that were typed there. -/
theorem screens_in_order {u : Terminals} (h : terminals.ReachableBy Proper u) :
    (∀ p, ∃ id : Fin 10,
      u.screen p <+: (transcript p (u.chat.processed.map Entry.event)).map (fun x => noteLine id x.2) ∧
      (u.chat.server.pc = .loop → u.chat.queues (client_queue_name p) = [] → (u.chat.client p).child ≠ .dispatch →
        u.screen p = (transcript p (u.chat.processed.map Entry.event)).map fun x => noteLine id x.2)) ∧
    ∀ p, spoken p u.chat.processed <+: u.typed p := by
  have hall : machine.ReachableBy Reliable u.chat ∧ (∀ p, ScreenOk u p) ∧ ∀ p, TypedOk u p := by
    apply h.invariant (I := fun w => machine.ReachableBy Reliable w.chat ∧ (∀ p, ScreenOk w p) ∧ ∀ p, TypedOk w p)
    · exact fun w hw => ⟨.start hw.chat, fun p => .init hw, fun p => .init hw⟩
    · rintro w a w' ⟨hreach, hscreen, htyped⟩ hproper hs
      obtain ⟨t, hchat, rfl⟩ := Option.map_eq_some_iff.mp hs
      exact ⟨.step hreach hproper.reliable hchat, fun p => screenOk_step (hscreen p) hs,
        fun p => typedOk_step (htyped p) (ok_of_reachable hreach) hproper hs⟩
  obtain ⟨hreach, hscreen, htyped⟩ := hall
  have hok := ok_of_reachable hreach
  constructor
  · intro p
    have hshown := (hscreen p).shown
    obtain ⟨k, hput, -⟩ := hok.put p
    refine ⟨k, ?_, fun hpc hempty hchild => ?_⟩
    · obtain ⟨rest, hrest⟩ := put_prefix hput
      rw [← lines_transcript, ← hrest, List.map_append, List.flatMap_append, ← hshown, List.append_assoc,
        List.append_assoc]
      exact List.prefix_append _ _
    · have howed : u.chat.owed (client_queue_name p) = [] := by simp only [State.owed, hpc]
      have hseen : u.chat.seen = u.chat.processed.map Entry.event := by simp only [State.seen, hpc]
      rw [howed, hseen, List.append_nil] at hput
      rw [← lines_transcript, ← hput, ← hshown, hempty, unprinted, if_neg hchild]
      simp
  · intro p
    have hsent : u.chat.sent = u.chat.processed ++ u.chat.server_queue := by
      simp [State.sent, State.flight, State.processed]
    have hprefix := (htyped p).isPrefix
    rw [hsent, spoken_append] at hprefix
    exact (List.prefix_append _ _).trans hprefix

/-- The chat before its first step, with blank terminals. -/
def blank : Terminals :=
  ⟨quiet, fun _ => [], fun _ => []⟩

/-- A check of the conditions of a step. -/
def proper (u : Terminals) (a : Action) : Bool :=
  reliable u.chat a &&
    match a with
    | .parent _ _ (some word) => decide (FitsText word)
    | _ => true

lemma proper_of_check {u : Terminals} {a : Action} (h : proper u a = true) : Proper u a := by
  unfold proper at h
  rw [Bool.and_eq_true] at h
  refine ⟨reliable_of_check h.1, fun p ok word ha => ?_⟩
  subst ha
  exact of_decide_eq_true h.2

/-- The second client's child prints its id and then the greeting of the first client. -/
theorem screens_in_order_greeting : ∃ u : Terminals, terminals.ReachableBy Proper u ∧
    u.screen ⟨2, by decide, by decide⟩ = [.identyfikator 1, .widomosc 0 (bytesOf "hi")] ∧
    ∃ id : Fin 10, u.screen ⟨2, by decide, by decide⟩ <+:
      (transcript ⟨2, by decide, by decide⟩ (u.chat.processed.map Entry.event)).map fun x => noteLine id x.2 := by
  have hrun : ((terminals.guard fun u a => proper u a = true).exec blank
      (greeting ⟨1, by decide, by decide⟩ ⟨2, by decide, by decide⟩ ++
        .parent ⟨2, by decide, by decide⟩ true none :: List.replicate 6 (.child ⟨2, by decide, by decide⟩ true))).map
      (fun u => u.screen ⟨2, by decide, by decide⟩) = some [.identyfikator 1, .widomosc 0 (bytesOf "hi")] := by
    decide +kernel
  obtain ⟨u, hu, hscreen⟩ := Option.map_eq_some_iff.mp hrun
  have hstart : (terminals.guard fun u a => proper u a = true).Reachable blank :=
    .start ⟨quiet_started, fun _ => rfl, fun _ => rfl⟩
  have hreach := (Machine.reachableBy_of_guard (hstart.exec hu)).mono fun w a hw => proper_of_check hw
  obtain ⟨id, hprefix, -⟩ := (screens_in_order hreach).1 ⟨2, by decide, by decide⟩
  exact ⟨u, hreach, hscreen, id, hprefix⟩

end SystemyOperacyjne.QueueChat
