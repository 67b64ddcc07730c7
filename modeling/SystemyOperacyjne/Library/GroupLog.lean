import Mathlib.Data.List.Induction
import Mathlib.Data.List.Sort
import Mathlib.Data.List.TakeWhile
import Mathlib.Tactic.Common

/-!
# What the members of a group hear

A log orders the events of a group: members join, say something, and leave; `skip` is an
event that concerns nobody. A member
hears what the others say between its own join and its own leave. The transcript of a
member is its welcome, then what it hears, then its farewell, each with the position of
the event in the log.
-/

namespace Concurrency

inductive GroupEvent (π μ : Type)
  | join (p : π)
  | say (p : π) (m : μ)
  | leave (p : π)
  | skip
  deriving DecidableEq, Repr

/-- What a member is told about an event. -/
inductive Note (μ : Type)
  | welcome
  | heard (m : μ)
  | farewell
  deriving DecidableEq, Repr

variable {π μ : Type} [DecidableEq π]

namespace GroupEvent

def isJoin (p : π) : GroupEvent π μ → Bool
  | .join q => q = p
  | _ => false

def isLeave (p : π) : GroupEvent π μ → Bool
  | .leave q => q = p
  | _ => false

/-- What somebody other than `p` says. -/
def saidToOthers (p : π) : GroupEvent π μ → Option μ
  | .say q m => if q = p then none else some m
  | _ => none

end GroupEvent

open GroupEvent

/-- The events after the first join of `p`, with their positions. -/
def sinceJoin (p : π) (log : List (GroupEvent π μ)) : List (GroupEvent π μ × ℕ) :=
  (log.zipIdx.dropWhile fun e => !e.1.isJoin p).tail

def HasJoined (p : π) (log : List (GroupEvent π μ)) : Prop :=
  ∃ e ∈ log, e.isJoin p

def HasLeft (p : π) (log : List (GroupEvent π μ)) : Prop :=
  ∃ e ∈ sinceJoin p log, e.1.isLeave p

/-- Between its join and its leave. -/
def Member (p : π) (log : List (GroupEvent π μ)) : Prop :=
  HasJoined p log ∧ ¬HasLeft p log

/-- What the others say between the join and the leave of `p`. -/
def heardBy (p : π) (log : List (GroupEvent π μ)) : List (ℕ × Note μ) :=
  ((sinceJoin p log).takeWhile fun e => !e.1.isLeave p).filterMap fun e =>
    (e.1.saidToOthers p).map fun m => (e.2, .heard m)

def transcript (p : π) (log : List (GroupEvent π μ)) : List (ℕ × Note μ) :=
  (log.findIdx? (isJoin p)).toList.map (fun n => (n, .welcome)) ++ heardBy p log ++
    ((sinceJoin p log).find? fun e => e.1.isLeave p).toList.map fun e => (e.2, .farewell)

instance (p : π) (log : List (GroupEvent π μ)) : Decidable (HasJoined p log) :=
  inferInstanceAs (Decidable (∃ e ∈ log, e.isJoin p))

instance (p : π) (log : List (GroupEvent π μ)) : Decidable (HasLeft p log) :=
  inferInstanceAs (Decidable (∃ e ∈ sinceJoin p log, e.1.isLeave p))

instance (p : π) (log : List (GroupEvent π μ)) : Decidable (Member p log) :=
  inferInstanceAs (Decidable (HasJoined p log ∧ ¬HasLeft p log))

/-! ### One more event -/

section

variable (p : π) (log : List (GroupEvent π μ)) (e : GroupEvent π μ)

lemma dropWhile_isJoin_eq_nil : (log.zipIdx.dropWhile fun e => !e.1.isJoin p) = [] ↔ ¬HasJoined p log := by
  rw [List.dropWhile_eq_nil_iff]
  constructor
  · rintro h ⟨e, he, hj⟩
    obtain ⟨n, hn⟩ := List.getElem?_of_mem he
    have := h (e, n) (List.mem_zipIdx_iff_getElem?.mpr hn)
    simp [hj] at this
  · intro h x hx
    by_contra hj
    exact h ⟨x.1, (List.mem_zipIdx' hx).2 ▸ List.getElem_mem _, by simpa using hj⟩

lemma sinceJoin_of_not_joined (h : ¬HasJoined p log) : sinceJoin p log = [] := by
  rw [sinceJoin, (dropWhile_isJoin_eq_nil p log).mpr h]
  rfl

lemma sinceJoin_append : sinceJoin p (log ++ [e]) =
    if HasJoined p log then sinceJoin p log ++ [(e, log.length)] else [] := by
  unfold sinceJoin
  rw [List.zipIdx_append, List.dropWhile_append]
  by_cases hj : HasJoined p log
  · have hne : (log.zipIdx.dropWhile fun e => !e.1.isJoin p) ≠ [] :=
      fun he => (dropWhile_isJoin_eq_nil p log).mp he hj
    rw [if_neg (by simpa using hne), if_pos hj, List.tail_append_of_ne_nil hne]
    simp
  · have he := (dropWhile_isJoin_eq_nil p log).mpr hj
    rw [if_pos (by simpa using he), if_neg hj]
    by_cases hjoin : e.isJoin p = true
    · simp [hjoin]
    · simp [hjoin]

@[simp] lemma joined_append : HasJoined p (log ++ [e]) ↔ HasJoined p log ∨ e.isJoin p := by
  simp [HasJoined, or_and_right, exists_or]

lemma left_append : HasLeft p (log ++ [e]) ↔ HasJoined p log ∧ (HasLeft p log ∨ e.isLeave p) := by
  unfold HasLeft
  rw [sinceJoin_append]
  by_cases hj : HasJoined p log
  · simp [hj, or_and_right, exists_or]
  · simp [hj]

lemma HasLeft.joined {p : π} {log : List (GroupEvent π μ)} (h : HasLeft p log) : HasJoined p log := by
  by_contra hj
  obtain ⟨e, he, -⟩ := h
  rw [sinceJoin_of_not_joined p log hj] at he
  cases he

lemma heardBy_append : heardBy p (log ++ [e]) = heardBy p log ++
    (if Member p log then ((e.saidToOthers p).map fun m => (log.length, .heard m)).toList else []) := by
  unfold heardBy
  rw [sinceJoin_append]
  by_cases hj : HasJoined p log
  · rw [if_pos hj, List.takeWhile_append]
    by_cases hl : HasLeft p log
    · have hlen : ((sinceJoin p log).takeWhile fun e => !e.1.isLeave p).length ≠ (sinceJoin p log).length := by
        intro hlen
        obtain ⟨x, hx, hleave⟩ := hl
        have heq := (List.takeWhile_prefix fun e : GroupEvent π μ × ℕ => !e.1.isLeave p).eq_of_length hlen
        have := List.takeWhile_eq_self_iff.mp heq x hx
        simp [hleave] at this
      rw [if_neg hlen, if_neg (fun hm : Member p log => hm.2 hl), List.append_nil]
    · have hall : ((sinceJoin p log).takeWhile fun e => !e.1.isLeave p) = sinceJoin p log := by
        refine List.takeWhile_eq_self_iff.mpr fun x hx => ?_
        by_contra hleave
        exact hl ⟨x, hx, by simpa using hleave⟩
      rw [hall, if_pos rfl, if_pos ⟨hj, hl⟩, List.filterMap_append]
      congr 1
      cases e with
      | say q m => by_cases hq : q = p <;> simp [isLeave, saidToOthers, hq]
      | join q => simp [isLeave, saidToOthers]
      | leave q => by_cases hq : q = p <;> simp [isLeave, saidToOthers, hq]
      | skip => simp [isLeave, saidToOthers]
  · have hnil := sinceJoin_of_not_joined p log hj
    rw [if_neg hj, hnil, if_neg (fun hm : Member p log => hj hm.1)]
    simp

lemma leftAt_append : ((sinceJoin p (log ++ [e])).find? fun e => e.1.isLeave p) =
    if HasJoined p log then ((sinceJoin p log).find? fun e => e.1.isLeave p).or
      (if e.isLeave p then some (e, log.length) else none) else none := by
  rw [sinceJoin_append]
  by_cases hj : HasJoined p log
  · rw [if_pos hj, if_pos hj, List.find?_append]
    by_cases hl : e.isLeave p = true
    · simp [hl]
    · simp [hl]
  · simp [hj]

lemma joinedAt_eq_none_iff : log.findIdx? (isJoin p) = none ↔ ¬HasJoined p log := by
  simp [HasJoined]

lemma leftAt_eq_none_iff : ((sinceJoin p log).find? fun e => e.1.isLeave p) = none ↔ ¬HasLeft p log := by
  simp [HasLeft]

/-- What `p` is told about the event that follows the log. -/
def note : Option (Note μ) :=
  match e with
  | .join q => if q = p ∧ ¬HasJoined p log then some .welcome else none
  | .say q m => if q ≠ p ∧ Member p log then some (.heard m) else none
  | .leave q => if q = p ∧ Member p log then some .farewell else none
  | .skip => none

/-- An event adds at most one note at the end of the transcript. -/
theorem transcript_append : transcript p (log ++ [e]) =
    transcript p log ++ ((note p log e).map fun x => (log.length, x)).toList := by
  unfold transcript
  rw [heardBy_append, leftAt_append, List.findIdx?_append]
  by_cases hj : HasJoined p log
  · obtain ⟨n, hn⟩ := Option.ne_none_iff_exists'.mp (mt (joinedAt_eq_none_iff p log).mp (not_not.mpr hj))
    rw [hn, if_pos hj]
    by_cases hl : HasLeft p log
    · obtain ⟨x, hx⟩ := Option.ne_none_iff_exists'.mp (mt (leftAt_eq_none_iff p log).mp (not_not.mpr hl))
      have hm : ¬Member p log := fun hm => hm.2 hl
      cases e <;> simp [hx, note, hm, hj]
    · have hm : Member p log := ⟨hj, hl⟩
      rw [(leftAt_eq_none_iff p log).mpr hl, if_pos hm]
      cases e with
      | join q => simp [note, hj, isLeave, saidToOthers]
      | say q m => by_cases hq : q = p <;> simp [note, hm, isLeave, saidToOthers, hq]
      | leave q => by_cases hq : q = p <;> simp [note, hm, isLeave, saidToOthers, hq]
      | skip => simp [note, isLeave, saidToOthers]
  · have hm : ¬Member p log := fun hm => hj hm.1
    have hnil := sinceJoin_of_not_joined p log hj
    have hheard : heardBy p log = [] := by simp [heardBy, hnil]
    rw [(joinedAt_eq_none_iff p log).mpr hj, if_neg hm, if_neg hj, hheard, hnil]
    cases e with
    | join q => by_cases hq : q = p <;> simp [note, hj, isJoin, hq]
    | say q m => simp [note, hm, isJoin]
    | leave q => simp [note, hm, isJoin]
    | skip => simp [note, isJoin]

/-! ### Who is a member -/

lemma member_append_join (q : π) :
    Member p (log ++ [.join q]) ↔ Member p log ∨ q = p ∧ ¬HasJoined p log := by
  unfold Member
  rw [joined_append, left_append]
  by_cases hj : HasJoined p log
  · simp [hj, isLeave]
  · simp [hj, isJoin, isLeave]

lemma member_append_say (q : π) (m : μ) : Member p (log ++ [.say q m]) ↔ Member p log := by
  unfold Member
  rw [joined_append, left_append]
  by_cases hj : HasJoined p log
  · simp [hj, isLeave]
  · simp [hj, isJoin]

lemma member_append_leave (q : π) : Member p (log ++ [.leave q]) ↔ Member p log ∧ q ≠ p := by
  unfold Member
  rw [joined_append, left_append]
  by_cases hj : HasJoined p log
  · simp [hj, isLeave]
  · simp [hj, isJoin]

end

/-! ### The order of the notes -/

lemma transcript_nil (p : π) : transcript p ([] : List (GroupEvent π μ)) = [] := rfl

lemma transcript_of_not_joined {p : π} {log : List (GroupEvent π μ)} (h : ¬HasJoined p log) :
    transcript p log = [] := by
  have hnil := sinceJoin_of_not_joined p log h
  rw [transcript, (joinedAt_eq_none_iff p log).mpr h, heardBy, hnil]
  rfl

lemma transcript_isPrefix (p : π) (log rest : List (GroupEvent π μ)) :
    transcript p log <+: transcript p (log ++ rest) := by
  induction rest generalizing log with
  | nil => simp
  | cons e rest ih =>
    have hstep : transcript p log <+: transcript p (log ++ [e]) := by
      rw [transcript_append]
      exact List.prefix_append _ _
    rw [List.append_cons]
    exact hstep.trans (ih _)

/-- A note stands for an event of the log, and what is heard was said by somebody else. -/
theorem mem_transcript {p : π} {log : List (GroupEvent π μ)} {n : ℕ} {x : Note μ}
    (h : (n, x) ∈ transcript p log) : n < log.length ∧
      ∀ m, x = .heard m → ∃ q, q ≠ p ∧ log[n]? = some (.say q m) := by
  induction log using List.reverseRecOn with
  | nil => simp [transcript_nil] at h
  | append_singleton log e ih =>
    rw [transcript_append, List.mem_append] at h
    rcases h with h | h
    · obtain ⟨hn, hsaid⟩ := ih h
      refine ⟨by simp; omega, fun m hm => ?_⟩
      obtain ⟨q, hq, hget⟩ := hsaid m hm
      exact ⟨q, hq, by rw [List.getElem?_append_left hn, hget]⟩
    · obtain ⟨y, hy, he⟩ : ∃ y, note p log e = some y ∧ (log.length, y) = (n, x) := by
        simpa [Option.mem_toList] using h
      obtain ⟨rfl, rfl⟩ := Prod.mk.inj he
      refine ⟨by simp, fun m hm => ?_⟩
      subst hm
      cases e with
      | join q => simp [note] at hy
      | leave q => simp [note] at hy
      | skip => simp [note] at hy
      | say q m' =>
        have hq : (q ≠ p ∧ Member p log) ∧ m' = m := by simpa [note] using hy
        exact ⟨q, hq.1.1, by simp [hq.2]⟩

lemma HasJoined.welcome {p : π} {log : List (GroupEvent π μ)} (h : HasJoined p log) :
    ∃ n, (n, Note.welcome) ∈ transcript p log := by
  obtain ⟨n, hn⟩ := Option.ne_none_iff_exists'.mp (mt (joinedAt_eq_none_iff p log).mp (not_not.mpr h))
  exact ⟨n, by simp [transcript, hn]⟩

lemma left_iff_farewell {p : π} {log : List (GroupEvent π μ)} :
    HasLeft p log ↔ ∃ n, (n, Note.farewell) ∈ transcript p log := by
  constructor
  · intro h
    obtain ⟨e, he⟩ := Option.ne_none_iff_exists'.mp (mt (leftAt_eq_none_iff p log).mp (not_not.mpr h))
    exact ⟨e.2, by simp [transcript, he]⟩
  · rintro ⟨n, hn⟩
    by_contra h
    rw [transcript, (leftAt_eq_none_iff p log).mpr h] at hn
    simp [heardBy] at hn

/-- The notes of a transcript stand in the order of the events. -/
theorem transcript_sorted (p : π) (log : List (GroupEvent π μ)) :
    (transcript p log).Pairwise fun x y => x.1 < y.1 := by
  induction log using List.reverseRecOn with
  | nil => exact List.Pairwise.nil
  | append_singleton log e ih =>
    rw [transcript_append]
    refine List.pairwise_append.mpr ⟨ih, ?_, fun x hx y hy => ?_⟩
    · cases note p log e <;> simp
    · obtain ⟨z, -, hz⟩ : ∃ z, note p log e = some z ∧ (log.length, z) = y := by
        simpa [Option.mem_toList] using hy
      rw [← hz]
      exact (mem_transcript (n := x.1) (x := x.2) hx).1

lemma filter_mem_comm {l l' : List ℕ} (h : l.Pairwise (· < ·)) (h' : l'.Pairwise (· < ·)) :
    (l.filter fun n => n ∈ l') = l'.filter fun n => n ∈ l := by
  have hs := h.sublist (List.filter_sublist (p := fun n => decide (n ∈ l')))
  have hs' := h'.sublist (List.filter_sublist (p := fun n => decide (n ∈ l)))
  have hperm := (List.perm_ext_iff_of_nodup (hs.imp Nat.ne_of_lt) (hs'.imp Nat.ne_of_lt)).mpr fun n => by
    simp only [List.mem_filter, decide_eq_true_eq]
    exact And.comm
  exact hperm.eq_of_pairwise (fun a b _ _ hab hba => absurd hab (Nat.lt_asymm hba)) hs hs'

/-! ### Members that come back -/

/-- How an event at a position changes the stay of `p`. -/
def stayStep (p : π) (now : Option ℕ) (e : GroupEvent π μ × ℕ) : Option ℕ :=
  if e.1.isJoin p then some e.2 else if e.1.isLeave p then none else now

/-- The position of the last join of `p`, unless it has left since. -/
def stay (p : π) (log : List (GroupEvent π μ)) : Option ℕ :=
  log.zipIdx.foldl (stayStep p) none

lemma stay_nil (p : π) : stay p ([] : List (GroupEvent π μ)) = none := rfl

lemma stay_append (p : π) (log : List (GroupEvent π μ)) (e : GroupEvent π μ) : stay p (log ++ [e]) =
    if e.isJoin p then some log.length else if e.isLeave p then none else stay p log := by
  unfold stay
  rw [List.zipIdx_append, List.foldl_append]
  simp [stayStep]

lemma stay_lt {p : π} {log : List (GroupEvent π μ)} {n : ℕ} (h : stay p log = some n) : n < log.length := by
  induction log using List.reverseRecOn with
  | nil => cases h
  | append_singleton log e ih =>
    rw [stay_append] at h
    rw [List.length_append, List.length_singleton]
    split at h
    · rw [← Option.some.inj h]
      exact Nat.lt_succ_self _
    · split at h
      · cases h
      · exact (ih h).trans (Nat.lt_succ_self _)

end Concurrency
