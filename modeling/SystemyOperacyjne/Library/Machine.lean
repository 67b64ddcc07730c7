import Mathlib.Logic.Basic
import Mathlib.Tactic.Common

/-!
# Machines with a guarded step function

A machine is a set of initial states and a partial step function: an action that is
not enabled has no successor. Interleavings of concurrent parties are lists of
actions. This file gives runs, reachability under a condition on the steps taken,
the invariant rule, and refinement of one machine by another over visible events.
-/

namespace Concurrency

/-- Initial states and a guarded step; an action is disabled where `next` is `none`. -/
structure Machine (σ α : Type) where
  init : σ → Prop
  next : σ → α → Option σ

namespace Machine

variable {σ α τ β : Type}

/-- The state after a list of actions, if each is enabled in turn. -/
def exec (M : Machine σ α) : σ → List α → Option σ
  | s, [] => some s
  | s, a :: as => (M.next s a).bind fun t => M.exec t as

@[simp] lemma exec_nil (M : Machine σ α) (s : σ) : M.exec s [] = some s := rfl

lemma exec_cons_eq_some {M : Machine σ α} {s u : σ} {a : α} {as : List α} :
    M.exec s (a :: as) = some u ↔ ∃ t, M.next s a = some t ∧ M.exec t as = some u := by
  simp [exec, Option.bind_eq_some_iff]

@[simp] lemma exec_singleton (M : Machine σ α) (s : σ) (a : α) : M.exec s [a] = M.next s a := by
  cases h : M.next s a <;> simp [exec, h]

lemma exec_append (M : Machine σ α) (s : σ) (as bs : List α) :
    M.exec s (as ++ bs) = (M.exec s as).bind fun t => M.exec t bs := by
  induction as generalizing s with
  | nil => simp
  | cons a as ih => cases h : M.next s a <;> simp [exec, h, ih]

lemma exec_append_of_eq {M : Machine σ α} {s t : σ} {as : List α} (h : M.exec s as = some t)
    (bs : List α) : M.exec s (as ++ bs) = M.exec t bs := by
  rw [exec_append, h, Option.bind_some]

/-- The states reached by runs each of whose steps meets `P`. -/
inductive ReachableBy (M : Machine σ α) (P : σ → α → Prop) : σ → Prop
  | start {s : σ} : M.init s → ReachableBy M P s
  | step {s t : σ} {a : α} : ReachableBy M P s → P s a → M.next s a = some t → ReachableBy M P t

/-- The states reached by arbitrary runs. -/
def Reachable (M : Machine σ α) : σ → Prop :=
  M.ReachableBy fun _ _ => True

/-- The invariant rule: what holds initially and is kept by every step that meets
the condition holds in every state those steps reach. -/
theorem ReachableBy.invariant {M : Machine σ α} {P : σ → α → Prop} {I : σ → Prop}
    (hinit : ∀ s, M.init s → I s)
    (hstep : ∀ s a t, I s → P s a → M.next s a = some t → I t)
    {s : σ} (h : M.ReachableBy P s) : I s := by
  induction h with
  | start hs => exact hinit _ hs
  | step _ hP hn ih => exact hstep _ _ _ ih hP hn

theorem Reachable.invariant {M : Machine σ α} {I : σ → Prop}
    (hinit : ∀ s, M.init s → I s) (hstep : ∀ s a t, I s → M.next s a = some t → I t)
    {s : σ} (h : M.Reachable s) : I s :=
  ReachableBy.invariant hinit (fun s a t hI _ hn => hstep s a t hI hn) h

lemma ReachableBy.mono {M : Machine σ α} {P Q : σ → α → Prop} (hPQ : ∀ s a, P s a → Q s a)
    {s : σ} (h : M.ReachableBy P s) : M.ReachableBy Q s := by
  induction h with
  | start hs => exact .start hs
  | step _ hP hn ih => exact .step ih (hPQ _ _ hP) hn

lemma ReachableBy.exec {M : Machine σ α} {P : σ → α → Prop} {s t : σ} {as : List α}
    (h : M.ReachableBy P s) (hP : ∀ u a, a ∈ as → P u a) (he : M.exec s as = some t) :
    M.ReachableBy P t := by
  induction as generalizing s with
  | nil =>
    obtain rfl : s = t := by simpa using he
    exact h
  | cons a as ih =>
    obtain ⟨u, hn, hu⟩ := exec_cons_eq_some.mp he
    exact ih (.step h (hP s a (by simp)) hn) (fun v b hb => hP v b (by simp [hb])) hu

lemma Reachable.exec {M : Machine σ α} {s t : σ} {as : List α}
    (h : M.Reachable s) (he : M.exec s as = some t) : M.Reachable t :=
  ReachableBy.exec h (fun _ _ _ => trivial) he

/-- What every step keeps, a run keeps. -/
lemma exec_keeps {M : Machine σ α} {I : σ → Prop} (hstep : ∀ s a t, M.next s a = some t → I s → I t)
    {s t : σ} {as : List α} (h : M.exec s as = some t) (hs : I s) : I t := by
  induction as generalizing s with
  | nil =>
    obtain rfl : s = t := by simpa using h
    exact hs
  | cons a as ih =>
    obtain ⟨u, hn, hu⟩ := exec_cons_eq_some.mp h
    exact ih hu (hstep s a u hn hs)

/-- Each step of the run meets `P`. -/
def Along (M : Machine σ α) (P : σ → α → Prop) : σ → List α → Prop
  | _, [] => True
  | s, a :: as => P s a ∧ ∀ t, M.next s a = some t → M.Along P t as

/-- Where the steps that break `P` are those that lead into `B`, and there is no way out of
`B`, a run has stayed outside exactly if each of its steps met `P`. The states may be those that
meet an invariant. -/
theorem along_iff_of_invariant {M : Machine σ α} {P : σ → α → Prop} {B I : σ → Prop}
    (hkeep : ∀ s a t, I s → M.next s a = some t → I t)
    (hstep : ∀ s a t, I s → M.next s a = some t → ¬B s → (¬B t ↔ P s a))
    (hstay : ∀ s a t, I s → M.next s a = some t → B s → B t) {s t : σ} {as : List α}
    (h : M.exec s as = some t) (hI : I s) (hs : ¬B s) : ¬B t ↔ M.Along P s as := by
  induction as generalizing s with
  | nil =>
    obtain rfl : s = t := by simpa using h
    exact iff_of_true hs trivial
  | cons a as ih =>
    obtain ⟨u, hn, hu⟩ := exec_cons_eq_some.mp h
    have hIu := hkeep s a u hI hn
    by_cases hP : P s a
    · rw [ih hu hIu ((hstep s a u hI hn hs).mpr hP)]
      constructor
      · intro hrest
        refine ⟨hP, fun v hv => ?_⟩
        obtain rfl := Option.some.inj (hn.symm.trans hv)
        exact hrest
      · exact fun hrest => hrest.2 u hn
    · refine iff_of_false (fun ht => hP ?_) fun hrest => hP hrest.1
      have hbad : B u := by
        by_contra hu'
        exact hP ((hstep s a u hI hn hs).mp hu')
      have hend : I t ∧ B t := by
        refine exec_keeps (I := fun v => I v ∧ B v) ?_ hu ⟨hIu, hbad⟩
        rintro v b w hw ⟨hIv, hv⟩
        exact ⟨hkeep v b w hIv hw, hstay v b w hIv hw hv⟩
      exact absurd hend.2 ht

theorem along_iff {M : Machine σ α} {P : σ → α → Prop} {B : σ → Prop}
    (hstep : ∀ s a t, M.next s a = some t → ¬B s → (¬B t ↔ P s a))
    (hstay : ∀ s a t, M.next s a = some t → B s → B t) {s t : σ} {as : List α}
    (h : M.exec s as = some t) (hs : ¬B s) : ¬B t ↔ M.Along P s as :=
  along_iff_of_invariant (I := fun _ => True) (fun _ _ _ _ _ => trivial) (fun s a t _ => hstep s a t)
    (fun s a t _ => hstay s a t) h trivial hs

/-- The same steps from one given state. -/
def startingAt (M : Machine σ α) (s : σ) : Machine σ α where
  init u := u = s
  next := M.next

@[simp] lemma startingAt_exec (M : Machine σ α) (s u : σ) (as : List α) :
    (M.startingAt s).exec u as = M.exec u as := by
  induction as generalizing u with
  | nil => rfl
  | cons a as ih => exact congrArg (Option.bind (M.next u a)) (funext ih)

/-- `t` can be reached from `s` by actions that meet `P`. -/
inductive Leads (M : Machine σ α) (P : α → Prop) : σ → σ → Prop
  | refl (s : σ) : Leads M P s s
  | step {s t u : σ} {a : α} : P a → M.next s a = some t → Leads M P t u → Leads M P s u

lemma Leads.trans {M : Machine σ α} {P : α → Prop} {s t u : σ} (h : M.Leads P s t) (h' : M.Leads P t u) :
    M.Leads P s u := by
  induction h with
  | refl => exact h'
  | step ha hn _ ih => exact .step ha hn (ih h')

lemma Leads.reachable {M : Machine σ α} {P : α → Prop} {s t : σ} (h : M.Leads P s t) (hs : M.Reachable s) :
    M.Reachable t := by
  induction h with
  | refl => exact hs
  | step _ hn _ ih => exact ih (.step hs trivial hn)

lemma Leads.reachableBy {M : Machine σ α} {P : α → Prop} {Q : σ → α → Prop} (hPQ : ∀ u a, P a → Q u a)
    {s t : σ} (h : M.Leads P s t) (hs : M.ReachableBy Q s) : M.ReachableBy Q t := by
  induction h with
  | refl => exact hs
  | step ha hn _ ih => exact ih (.step hs (hPQ _ _ ha) hn)

lemma Leads.exists_exec {M : Machine σ α} {P : α → Prop} {s t : σ} (h : M.Leads P s t) :
    ∃ as, M.exec s as = some t := by
  induction h with
  | refl s => exact ⟨[], rfl⟩
  | @step s t u a _ hn _ ih =>
    obtain ⟨as, has⟩ := ih
    exact ⟨a :: as, exec_cons_eq_some.mpr ⟨t, hn, has⟩⟩

/-- The variant rule: where each state that is not a goal has a step which keeps the invariant
and comes closer, a goal can be reached. -/
theorem leads_of_rank {M : Machine σ α} {P : α → Prop} {I G : σ → Prop} (rank : σ → ℕ)
    (hstep : ∀ s, I s → ¬G s → ∃ a t, P a ∧ M.next s a = some t ∧ I t ∧ (G t ∨ rank t < rank s))
    {s : σ} (hs : I s) : ∃ t, M.Leads P s t ∧ I t ∧ G t := by
  induction hn : rank s using Nat.strongRecOn generalizing s with
  | _ n ih =>
    by_cases hgoal : G s
    · exact ⟨s, .refl s, hs, hgoal⟩
    · obtain ⟨a, t, ha, ht, hI, hcloser⟩ := hstep s hs hgoal
      rcases hcloser with hdone | hlt
      · exact ⟨t, .step ha ht (.refl t), hI, hdone⟩
      · obtain ⟨u, hu, hrest⟩ := ih (rank t) (hn ▸ hlt) hI rfl
        exact ⟨u, .step ha ht hu, hrest⟩

/-- Where the steps that `P` counts lower the rank and no step raises it, a run makes no more of them than
that. -/
theorem countP_le_of_rank {M : Machine σ α} {I : σ → Prop} (rank : σ → ℕ) (P : α → Bool)
    (hstep : ∀ s a t, I s → M.next s a = some t → I t ∧ rank t + (if P a then 1 else 0) ≤ rank s) {s t : σ}
    {as : List α} (h : M.exec s as = some t) (hs : I s) : as.countP P + rank t ≤ rank s := by
  induction as generalizing s with
  | nil =>
    obtain rfl : s = t := by simpa using h
    simp
  | cons a as ih =>
    obtain ⟨u, hn, hu⟩ := exec_cons_eq_some.mp h
    obtain ⟨hI, hlt⟩ := hstep s a u hs hn
    have hle := ih hu hI
    rw [List.countP_cons]
    omega

/-- Where every step lowers the rank, a run makes no more steps than that. -/
theorem length_le_of_rank {M : Machine σ α} {I : σ → Prop} (rank : σ → ℕ)
    (hstep : ∀ s a t, I s → M.next s a = some t → I t ∧ rank t < rank s) {s t : σ} {as : List α}
    (h : M.exec s as = some t) (hs : I s) : as.length + rank t ≤ rank s := by
  have hcount := countP_le_of_rank (I := I) rank (fun _ => true) hstep h hs
  rwa [List.countP_true] at hcount

/-- The same for runs each of whose steps meets `P`, with the invariant at the end. -/
theorem Along.length_le_of_rank {M : Machine σ α} {P : σ → α → Prop} {I : σ → Prop} (rank : σ → ℕ)
    (hstep : ∀ s a t, I s → P s a → M.next s a = some t → I t ∧ rank t < rank s) {s t : σ} {as : List α}
    (hP : M.Along P s as) (h : M.exec s as = some t) (hs : I s) : I t ∧ as.length + rank t ≤ rank s := by
  induction as generalizing s with
  | nil =>
    obtain rfl : s = t := by simpa using h
    exact ⟨hs, by simp⟩
  | cons a as ih =>
    obtain ⟨u, hn, hu⟩ := exec_cons_eq_some.mp h
    obtain ⟨hI, hlt⟩ := hstep s a u hs hP.1 hn
    obtain ⟨hend, hle⟩ := ih (hP.2 u hn) hu hI
    refine ⟨hend, ?_⟩
    rw [List.length_cons]
    omega

/-- The machine whose steps are those of `M` that meet `P`. -/
def guard (M : Machine σ α) (P : σ → α → Prop) [∀ s a, Decidable (P s a)] : Machine σ α where
  init := M.init
  next s a := if P s a then M.next s a else none

lemma guard_next_eq_some {M : Machine σ α} {P : σ → α → Prop} [∀ s a, Decidable (P s a)]
    {s t : σ} {a : α} : (M.guard P).next s a = some t ↔ P s a ∧ M.next s a = some t := by
  simp [guard]

lemma reachableBy_of_guard {M : Machine σ α} {P : σ → α → Prop} [∀ s a, Decidable (P s a)]
    {s : σ} (h : (M.guard P).Reachable s) : M.ReachableBy P s := by
  refine Reachable.invariant (fun s hs => .start hs) ?_ h
  intro s a t hs hn
  obtain ⟨hP, hn⟩ := guard_next_eq_some.mp hn
  exact .step hs hP hn

lemma along_of_guard {M : Machine σ α} {P Q : σ → α → Prop} [∀ s a, Decidable (P s a)] (hPQ : ∀ s a, P s a → Q s a)
    {s t : σ} {as : List α} (h : (M.guard P).exec s as = some t) : M.exec s as = some t ∧ M.Along Q s as := by
  induction as generalizing s with
  | nil => exact ⟨h, trivial⟩
  | cons a as ih =>
    obtain ⟨u, hn, hu⟩ := exec_cons_eq_some.mp h
    obtain ⟨hP, hn⟩ := guard_next_eq_some.mp hn
    obtain ⟨hrun, halong⟩ := ih hu
    refine ⟨exec_cons_eq_some.mpr ⟨u, hn, hrun⟩, hPQ s a hP, fun v hv => ?_⟩
    obtain rfl := Option.some.inj (hn.symm.trans hv)
    exact halong

/-- The events of a run that an observer of the actions sees. -/
def visible (M : Machine σ α) (ev : σ → α → Option β) : σ → List α → List β
  | _, [] => []
  | s, a :: as => (ev s a).toList ++
      match M.next s a with
      | some t => M.visible ev t as
      | none => []

@[simp] lemma startingAt_visible (M : Machine σ α) (ev : σ → α → Option β) (s u : σ) (as : List α) :
    (M.startingAt s).visible ev u as = M.visible ev u as := by
  induction as generalizing u with
  | nil => rfl
  | cons a as ih =>
    simp only [visible, startingAt]
    cases M.next u a with
    | none => rfl
    | some t => exact congrArg ((ev u a).toList ++ ·) (ih t)

/-- What every step keeps together with the events seen so far, a run keeps. -/
lemma visible_keeps {M : Machine σ α} {ev : σ → α → Option β} {I : σ → List β → Prop}
    (hstep : ∀ s a t l, M.next s a = some t → I s l → I t (l ++ (ev s a).toList)) {s t : σ} {as : List α}
    {l : List β} (h : M.exec s as = some t) (hs : I s l) : I t (l ++ M.visible ev s as) := by
  induction as generalizing s l with
  | nil =>
    obtain rfl : s = t := by simpa using h
    simpa [visible] using hs
  | cons a as ih =>
    obtain ⟨u, hn, hu⟩ := exec_cons_eq_some.mp h
    simp only [visible, hn]
    rw [← List.append_assoc]
    exact ih hu (hstep s a u l hn hs)

/-- `C` refines `A` through `R`: every step of `C` is matched by the event it shows,
or by no step of `A` when it shows none. -/
structure Refines (C : Machine σ α) (A : Machine τ β) (ev : σ → α → Option β)
    (R : σ → τ → Prop) : Prop where
  init : ∀ s, C.init s → ∃ t, A.init t ∧ R s t
  step : ∀ s t a s', R s t → C.next s a = some s' →
    ∃ t', A.exec t (ev s a).toList = some t' ∧ R s' t'

/-- Refinement lifts from steps to runs: what a run shows is a run of the abstract machine. -/
theorem Refines.exec {C : Machine σ α} {A : Machine τ β} {ev : σ → α → Option β}
    {R : σ → τ → Prop} (H : C.Refines A ev R) {s s' : σ} {t : τ} {as : List α}
    (hR : R s t) (h : C.exec s as = some s') :
    ∃ t', A.exec t (C.visible ev s as) = some t' ∧ R s' t' := by
  induction as generalizing s t with
  | nil =>
    obtain rfl : s = s' := by simpa using h
    exact ⟨t, rfl, hR⟩
  | cons a as ih =>
    obtain ⟨u, hn, hu⟩ := exec_cons_eq_some.mp h
    obtain ⟨t₁, ht₁, hR₁⟩ := H.step s t a u hR hn
    obtain ⟨t₂, ht₂, hR₂⟩ := ih hR₁ hu
    refine ⟨t₂, ?_, hR₂⟩
    simp only [visible, hn]
    rw [exec_append_of_eq ht₁, ht₂]

end Machine

end Concurrency
