import SystemyOperacyjne.PrintQueueOutput

/-!
# The announcements of the print queue

A client of the POSIX program announces its task inside the critical section, before it copies the task
into the buffer. The announcements of all clients therefore come in the order of the queue. Behind the ten
letters an announcement can show more, since the terminator is stored only after it.
-/

namespace SystemyOperacyjne.PrintQueue
open Concurrency

variable {N M : ℕ}

/-- The ten letters of each announcement on the terminal, in order. -/
def announced (terminal : List ((Fin N ⊕ Fin M) × Text)) : List (List UInt8) :=
  terminal.filterMap fun
    | (.inl _, .zlecilem task) => some (task.take 10)
    | _ => none

lemma announced_concat_zlecilem (terminal : List ((Fin N ⊕ Fin M) × Text)) (i : Fin N) (task : Task)
    (behind : List UInt8) :
    announced (terminal ++ [(.inl i, .zlecilem (shown .posix task behind))]) =
      announced terminal ++ [letters task] := by
  have hten : (letters task ++ behind).take 10 = letters task := List.take_left' (length_letters task)
  simp only [announced, shown, List.filterMap_append, List.filterMap_cons, List.filterMap_nil, hten]

@[simp] lemma announced_concat_printer (terminal : List ((Fin N ⊕ Fin M) × Text)) (j : Fin M) (text : Text) :
    announced (terminal ++ [(.inr j, text)]) = announced terminal := by
  simp [announced]

/-- The task is composed and not yet written. -/
def ProducerPc.copying : ProducerPc → Prop
  | .strcpy | .copy _ _ | .advance => True
  | _ => False

lemma ProducerPc.of_copying {pc : ProducerPc} (h : pc.copying) : pc.inside = 1 ∧ pc.owesTask = 1 := by
  cases pc with
  | strcpy | copy | advance => exact ⟨rfl, rfl⟩
  | waitEmpty | waitUsed | compose | postUsed | postFull | overrun => exact h.elim

/-- Announced are the tasks written, and the one that a producer is copying after its `printf`. -/
structure AnnouncedOk (s : Spool N M) : Prop where
  early : ∀ i, s.announcing i = true → (s.queue.producers i).pc = .strcpy
  ahead : ∀ i, (s.queue.producers i).pc.copying → s.announcing i = false →
    announced s.terminal = (s.written ++ [(s.queue.producers i).task]).map letters
  level : (∀ i, (s.queue.producers i).pc.copying → s.announcing i = true) →
    announced s.terminal = s.written.map letters

lemma AnnouncedOk.init {s : Spool N M} (h : Fresh s) : AnnouncedOk s := by
  have hcopying : ∀ i, ¬(s.queue.producers i).pc.copying := by
    intro i
    rw [h.queue.producers i]
    exact id
  constructor
  · intro i hi
    rw [h.announcing i] at hi
    cases hi
  · exact fun i hi => absurd hi (hcopying i)
  · intro _
    rw [h.terminal, h.written]
    rfl

section
variable {s : Spool N M}

lemma SpoolOk.copying_unique (h : SpoolOk s) {i k : Fin N} (hi : (s.queue.producers i).pc.inside = 1)
    (hk : (s.queue.producers k).pc.copying) : k = i := by
  obtain ⟨q, hq, -⟩ := h.queue
  by_contra hne
  have houtside := (hq.alone_producer hi).1 k hne
  rw [(ProducerPc.of_copying hk).1] at houtside
  cases houtside

lemma AnnouncedOk.announces (h : AnnouncedOk s) (hok : SpoolOk s) {i : Fin N} (hi : s.announcing i = true) :
    AnnouncedOk (announce .posix s i) := by
  have hpc := h.early i hi
  have hinside : (s.queue.producers i).pc.inside = 1 := by
    rw [hpc]
    rfl
  have hlevel : announced s.terminal = s.written.map letters := by
    apply h.level
    intro k hk
    rw [hok.copying_unique hinside hk]
    exact hi
  constructor
  · intro k hk
    by_cases hki : k = i
    · rw [hki]
      exact hpc
    · simp only [announce, Function.update_of_ne hki] at hk
      exact h.early k hk
  · intro k hk _
    rw [hok.copying_unique hinside hk]
    simp only [announce, announced_concat_zlecilem, hlevel, List.map_append, List.map_cons, List.map_nil]
  · intro hall
    have hown := hall i (by simp only [announce, hpc, ProducerPc.copying])
    simp only [announce, Function.update_self] at hown
    cases hown

lemma AnnouncedOk.prints {v : Variant} (h : AnnouncedOk s) (j : Fin M) (i : ℕ) : AnnouncedOk (printLine v s j i) := by
  unfold printLine
  split
  · exact ⟨h.early, by simpa using h.ahead, by simpa using h.level⟩
  · exact ⟨h.early, by simpa using h.ahead, by simpa using h.level⟩

/-- A producer that neither composes nor writes its task changes nothing here. -/
lemma AnnouncedOk.of_producer (h : AnnouncedOk s) {i : Fin N} {b : Buffer} {p : Producer}
    (hi : s.announcing i = false) (hcopying : p.pc.copying ↔ (s.queue.producers i).pc.copying)
    (htask : p.task = (s.queue.producers i).task) :
    AnnouncedOk { s with
      queue := { s.queue with buffer := b, producers := Function.update s.queue.producers i p } } := by
  constructor
  · intro k hk
    by_cases hki : k = i
    · rw [hki, hi] at hk
      cases hk
    · simp only [Function.update_of_ne hki]
      exact h.early k hk
  · intro k hk hkf
    by_cases hki : k = i
    · subst hki
      simp only [Function.update_self] at hk ⊢
      rw [htask]
      exact h.ahead k (hcopying.mp hk) hi
    · simp only [Function.update_of_ne hki] at hk ⊢
      exact h.ahead k hk hkf
  · intro hall
    apply h.level
    intro k hk
    apply hall k
    by_cases hki : k = i
    · subst hki
      simp only [Function.update_self]
      exact hcopying.mpr hk
    · simp only [Function.update_of_ne hki]
      exact hk

lemma AnnouncedOk.composes (h : AnnouncedOk s) (hok : SpoolOk s) {i : Fin N} {b : Buffer} {task : Task}
    (hpc : (s.queue.producers i).pc = .compose) :
    AnnouncedOk { s with
      queue := { s.queue with buffer := b, producers := Function.update s.queue.producers i ⟨.strcpy, task⟩ }
      announcing := Function.update s.announcing i true } := by
  have hinside : (s.queue.producers i).pc.inside = 1 := by
    rw [hpc]
    rfl
  have hnone : ∀ k, ¬(s.queue.producers k).pc.copying := by
    intro k hk
    rw [hok.copying_unique hinside hk, hpc] at hk
    exact hk
  constructor
  · intro k hk
    by_cases hki : k = i
    · subst hki
      simp only [Function.update_self]
    · simp only [Function.update_of_ne hki] at hk ⊢
      exact h.early k hk
  · intro k hk hkf
    by_cases hki : k = i
    · subst hki
      simp only [Function.update_self] at hkf
      cases hkf
    · simp only [Function.update_of_ne hki] at hk
      exact absurd hk (hnone k)
  · exact fun _ => h.level fun k hk => absurd hk (hnone k)

lemma AnnouncedOk.advances (h : AnnouncedOk s) (hok : SpoolOk s) {i : Fin N} {b : Buffer}
    (hi : s.announcing i = false) (hpc : (s.queue.producers i).pc = .advance) :
    AnnouncedOk { s with
      queue := { s.queue with
        buffer := b
        producers := Function.update s.queue.producers i { s.queue.producers i with pc := .postUsed } }
      written := s.written ++ [(s.queue.producers i).task] } := by
  have hinside : (s.queue.producers i).pc.inside = 1 := by
    rw [hpc]
    rfl
  constructor
  · intro k hk
    by_cases hki : k = i
    · rw [hki, hi] at hk
      cases hk
    · simp only [Function.update_of_ne hki]
      exact h.early k hk
  · intro k hk
    by_cases hki : k = i
    · subst hki
      simp only [Function.update_self] at hk
      exact hk.elim
    · simp only [Function.update_of_ne hki] at hk
      exact absurd (hok.copying_unique hinside hk) hki
  · intro _
    exact h.ahead i (by rw [hpc]; trivial) hi

lemma AnnouncedOk.produces (h : AnnouncedOk s) (hok : SpoolOk s) {i : Fin N} {letters : Fin 10 → Fin 26} {b : Buffer}
    {p : Producer} (hi : s.announcing i = false)
    (hm : ProducerMove letters s.queue.buffer (s.queue.producers i) b p) :
    AnnouncedOk (follow .posix s
      { s.queue with buffer := b, producers := Function.update s.queue.producers i p } (.producer i letters)) := by
  cases hm with
  | takesEmpty hpc | takesUsed hpc | finds hpc | copies hpc | copiesLast hpc | postsUsed hpc | postsFull hpc =>
    simp only [follow, hpc, Variant.announcedAfter, reduceCtorEq, if_false]
    apply h.of_producer hi
    · simp [hpc, ProducerPc.copying]
    · rfl
  | composes hpc =>
    simp only [follow, hpc, Variant.announcedAfter, reduceCtorEq, if_false, if_true]
    exact h.composes hok hpc
  | @overruns slot k hpc hk =>
    obtain ⟨q, hq, -⟩ := hok.queue
    have hcopy := hq.producing i
    simp only [ProducerOk, hpc] at hcopy
    omega
  | advances hpc =>
    simp only [follow, hpc, Variant.announcedAfter, reduceCtorEq, if_false, if_true]
    exact h.advances hok hi hpc

theorem announcedOk_step {t : Spool N M} (h : AnnouncedOk s) (hok : SpoolOk s) (hm : SpoolMove .posix s t) :
    AnnouncedOk t := by
  cases hm with
  | announces hi => exact h.announces hok hi
  | prints => exact h.prints _ _
  | produces hi hm => exact h.produces hok hi hm
  | takes => exact ⟨h.early, h.ahead, h.level⟩

/-- The clients of the POSIX program announce their tasks in the order in which the printers take them: the
tasks taken are the first ones announced, and at most ten more are announced. -/
theorem announced_in_order (h : (spool .posix N M).Reachable s) :
    ∃ rest, announced s.terminal = (s.taken.map fun p => letters p.2) ++ rest ∧ rest.length ≤ BUFFER_SIZE := by
  have hboth : SpoolOk s ∧ AnnouncedOk s := by
    apply h.invariant (I := fun u => SpoolOk u ∧ AnnouncedOk u)
    · exact fun u hu => ⟨.init hu, .init hu⟩
    · rintro u a t ⟨hok, hu⟩ hs
      have hm := spool_cases hs
      exact ⟨spoolOk_step hok hm, announcedOk_step hu hok hm⟩
  obtain ⟨hok, hann⟩ := hboth
  obtain ⟨q, hq, hwritten⟩ := hok.queue
  have hempties := hq.empties
  by_cases hahead : ∃ i, (s.queue.producers i).pc.copying ∧ s.announcing i = false
  · obtain ⟨i, hi, hfalse⟩ := hahead
    refine ⟨(q ++ [(s.queue.producers i).task]).map letters, ?_, ?_⟩
    · rw [hann.ahead i hi hfalse, hwritten, List.append_assoc, List.map_append, List.map_map]
      rfl
    · have hroom := hq.room (ProducerPc.of_copying hi).2
      rw [List.length_map, List.length_append, List.length_singleton]
      omega
  · have hlevel : announced s.terminal = s.written.map letters := by
      apply hann.level
      intro i hi
      by_contra hne
      exact hahead ⟨i, hi, Bool.eq_false_of_not_eq_true hne⟩
    refine ⟨q.map letters, ?_, ?_⟩
    · rw [hlevel, hwritten, List.map_append, List.map_map]
      rfl
    · rw [List.length_map]
      omega

end

theorem announced_in_order_quiet : ∃ s : Spool 1 1, (announced s.terminal).length = 2 ∧ s.taken.length = 1 ∧
    ∃ rest, announced s.terminal = (s.taken.map fun p => letters p.2) ++ rest ∧ rest.length ≤ BUFFER_SIZE := by
  have hrun : ((spool .posix 1 1).exec quiet
      (oneOrder ++ (List.replicate 17 (.printer 0) ++ oneOrder.take 4))).map
      (fun s => ((announced s.terminal).length, s.taken.length)) = some (2, 1) := by
    decide +kernel
  obtain ⟨s, hs, heq⟩ := Option.map_eq_some_iff.mp hrun
  simp only [Prod.mk.injEq] at heq
  have hreach : (spool .posix 1 1).Reachable s := Machine.Reachable.exec (.start quiet_fresh) hs
  exact ⟨s, heq.1, heq.2, announced_in_order hreach⟩

end SystemyOperacyjne.PrintQueue
