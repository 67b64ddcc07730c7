import SystemyOperacyjne.Library.Machine
import SystemyOperacyjne.Library.Tokens
import Mathlib.Data.Fintype.Basic
import Mathlib.Order.Lattice.Nat

/-!
# A parent and its children

A parent forks `n` children, waits until none is left, and finishes. A child works on its own, has one
effect on what the processes share, and exits. Every order in which the children get to their effects
is possible, and the parent goes on when all of them have had theirs.
-/

namespace Concurrency

/-- `work` is the next step of a child: one of its own, or its effect; the child can see whether its parent
still runs. `finish` is what the parent does after its last `wait`. -/
structure Program (n : ℕ) (κ ω : Type) where
  entry : Fin n → κ
  work : Fin n → Bool → κ → κ ⊕ (ω → ω)
  finish : ω → ω

namespace Program

variable {n : ℕ} {κ ω : Type}

/-- The effect of child `k` from `c` on, while its parent runs; `none` without fuel. -/
def outcome (P : Program n κ ω) (k : Fin n) : ℕ → κ → Option (ω → ω)
  | 0, _ => none
  | fuel + 1, c =>
    match P.work k true c with
    | .inl c' => P.outcome k fuel c'
    | .inr e => some e

/-- Child `k` ends its work with the effect `e`. -/
def Ends (P : Program n κ ω) (k : Fin n) (c : κ) (e : ω → ω) : Prop :=
  ∃ fuel, P.outcome k fuel c = some e

lemma ends_inl {P : Program n κ ω} {k : Fin n} {c c' : κ} (h : P.work k true c = .inl c') (e : ω → ω) :
    P.Ends k c e ↔ P.Ends k c' e := by
  constructor
  · rintro ⟨fuel, hf⟩
    cases fuel with
    | zero => cases hf
    | succ fuel => exact ⟨fuel, by simpa only [outcome, h] using hf⟩
  · rintro ⟨fuel, hf⟩
    exact ⟨fuel + 1, by simpa only [outcome, h] using hf⟩

lemma ends_inr {P : Program n κ ω} {k : Fin n} {c : κ} {f : ω → ω} (h : P.work k true c = .inr f) (e : ω → ω) :
    P.Ends k c e ↔ e = f := by
  constructor
  · rintro ⟨fuel, hf⟩
    cases fuel with
    | zero => cases hf
    | succ fuel =>
      simp only [outcome, h, Option.some.injEq] at hf
      exact hf.symm
  · rintro rfl
    exact ⟨1, by simp only [outcome, h]⟩

lemma Ends.unique {P : Program n κ ω} {k : Fin n} {c : κ} {e e' : ω → ω} (h : P.Ends k c e) (h' : P.Ends k c e') :
    e = e' := by
  obtain ⟨fuel, hf⟩ := h
  induction fuel generalizing c with
  | zero => cases hf
  | succ fuel ih =>
    cases hw : P.work k true c with
    | inl c' =>
      simp only [outcome, hw] at hf
      exact ih ((ends_inl hw e').mp h') hf
    | inr f => exact ((ends_inr hw e).mp ⟨fuel + 1, hf⟩).trans ((ends_inr hw e').mp h').symm

/-- Child `k` gets to its effect. -/
def Finite (P : Program n κ ω) (k : Fin n) : Prop :=
  ∃ e, P.Ends k (P.entry k) e

open Classical in
/-- What child `k` does to the world, nothing if it works forever. -/
noncomputable def effect (P : Program n κ ω) (k : Fin n) : ω → ω :=
  if h : P.Finite k then h.choose else id

lemma effect_eq {P : Program n κ ω} {k : Fin n} {e : ω → ω} (h : P.Ends k (P.entry k) e) : P.effect k = e := by
  have hfinite : P.Finite k := ⟨e, h⟩
  unfold effect
  rw [dif_pos hfinite]
  exact hfinite.choose_spec.unique h

/-- The world after the effects of some children, one after the other. -/
noncomputable def after (P : Program n κ ω) (world : ω) (order : List (Fin n)) : ω :=
  order.foldl (fun w k => P.effect k w) world

lemma after_append (P : Program n κ ω) (world : ω) (order : List (Fin n)) (k : Fin n) :
    P.after world (order ++ [k]) = P.effect k (P.after world order) := by
  simp [after]

open Classical in
/-- How many steps of its own child `k` has before it, if it gets to its effect. -/
noncomputable def need (P : Program n κ ω) (k : Fin n) (c : κ) : ℕ :=
  sInf {fuel | (P.outcome k fuel c).isSome}

lemma need_lt {P : Program n κ ω} {k : Fin n} {c c' : κ} {e : ω → ω} (h : P.work k true c = .inl c')
    (he : P.Ends k c e) : P.need k c' < P.need k c := by
  obtain ⟨fuel, hf⟩ := he
  have hne : {fuel | (P.outcome k fuel c).isSome}.Nonempty := ⟨fuel, by simp [hf]⟩
  have hmem := Nat.sInf_mem hne
  change P.need k c ∈ _ at hmem
  cases hneed : P.need k c with
  | zero =>
    rw [hneed] at hmem
    cases hmem
  | succ m =>
    rw [hneed] at hmem
    simp only [Set.mem_ofPred_eq, outcome, h] at hmem
    exact Nat.lt_succ_of_le (Nat.sInf_le hmem)

end Program

namespace Family

/-- `fork i` is before the test of the loop with this `i`. -/
inductive ParentPc
  | fork (i : ℕ)
  | wait
  | joined
  | done
  deriving DecidableEq, Repr

/-- `acted` is before the exit, and `reaped` after the `wait` that returned the child. -/
inductive ChildPc (κ : Type)
  | unforked
  | running (c : κ)
  | acted
  | zombie
  | reaped
  deriving DecidableEq, Repr

/-- `order` are the children that have had their effects, in this order. -/
structure State (n : ℕ) (κ ω : Type) where
  parent : ParentPc
  children : Fin n → ChildPc κ
  world : ω
  order : List (Fin n)

/-- A step of the parent on its own, where `ok` is whether `fork` succeeds, a `wait` that returns a child, or
a step of a child. -/
inductive Action (n : ℕ)
  | parent (ok : Bool)
  | reap (k : Fin n)
  | child (k : Fin n)
  deriving DecidableEq, Repr

/-- No child is left to wait for. -/
def ChildPc.Gone {κ : Type} : ChildPc κ → Prop
  | .unforked | .reaped => True
  | .running _ | .acted | .zombie => False

/-- The child has had its effect. -/
def ChildPc.HasActed {κ : Type} : ChildPc κ → Prop
  | .acted | .zombie | .reaped => True
  | .unforked | .running _ => False

instance {κ : Type} : DecidablePred (ChildPc.Gone (κ := κ))
  | .unforked | .reaped => isTrue trivial
  | .running _ | .acted | .zombie => isFalse id

instance {κ : Type} : DecidablePred (ChildPc.HasActed (κ := κ))
  | .acted | .zombie | .reaped => isTrue trivial
  | .unforked | .running _ => isFalse id

variable {n : ℕ} {κ ω : Type}

def parentStep (P : Program n κ ω) (s : State n κ ω) (ok : Bool) : Option (State n κ ω) :=
  match s.parent with
  | .fork i =>
    if h : i < n then
      some { s with
        parent := .fork (i + 1)
        children := if ok then Function.update s.children ⟨i, h⟩ (.running (P.entry ⟨i, h⟩)) else s.children }
    else some { s with parent := .wait }
  | .wait => if ∀ k, (s.children k).Gone then some { s with parent := .joined } else none
  | .joined => some { s with parent := .done, world := P.finish s.world }
  | .done => none

def childStep (P : Program n κ ω) (s : State n κ ω) (k : Fin n) : Option (State n κ ω) :=
  match s.children k with
  | .running c =>
    match P.work k (s.parent ≠ .done) c with
    | .inl c' => some { s with children := Function.update s.children k (.running c') }
    | .inr e => some { s with
        children := Function.update s.children k .acted
        world := e s.world
        order := s.order ++ [k] }
  | .acted => some { s with children := Function.update s.children k .zombie }
  | .unforked | .zombie | .reaped => none

def reapStep (s : State n κ ω) (k : Fin n) : Option (State n κ ω) :=
  match s.parent, s.children k with
  | .wait, .zombie => some { s with children := Function.update s.children k .reaped }
  | _, _ => none

def step (P : Program n κ ω) (s : State n κ ω) : Action n → Option (State n κ ω)
  | .parent ok => parentStep P s ok
  | .reap k => reapStep s k
  | .child k => childStep P s k

def start (world : ω) : State n κ ω where
  parent := .fork 0
  children _ := .unforked
  world := world
  order := []

def machine (P : Program n κ ω) (world : ω) : Machine (State n κ ω) (Action n) where
  init s := s = start world
  next := step P

/-- No `fork` fails. -/
def Forks (_ : State n κ ω) (a : Action n) : Prop :=
  a ≠ .parent false

/-! ### Steps -/

variable {P : Program n κ ω} {s t : State n κ ω}

/-- What a step can be. -/
inductive Move (P : Program n κ ω) (s : State n κ ω) : Action n → State n κ ω → Prop
  | forks {i : ℕ} (hpc : s.parent = .fork i) (hi : i < n) : Move P s (.parent true) { s with
      parent := .fork (i + 1)
      children := Function.update s.children ⟨i, hi⟩ (.running (P.entry ⟨i, hi⟩)) }
  | fails {i : ℕ} (hpc : s.parent = .fork i) (hi : i < n) : Move P s (.parent false) { s with parent := .fork (i + 1) }
  | begins {i : ℕ} {ok : Bool} (hpc : s.parent = .fork i) (hi : n ≤ i) : Move P s (.parent ok) { s with parent := .wait }
  | joins {ok : Bool} (hpc : s.parent = .wait) (hgone : ∀ k, (s.children k).Gone) :
      Move P s (.parent ok) { s with parent := .joined }
  | finishes {ok : Bool} (hpc : s.parent = .joined) :
      Move P s (.parent ok) { s with parent := .done, world := P.finish s.world }
  | works {k : Fin n} {c c' : κ} (hk : s.children k = .running c) (hw : P.work k (s.parent ≠ .done) c = .inl c') :
      Move P s (.child k) { s with children := Function.update s.children k (.running c') }
  | acts {k : Fin n} {c : κ} {e : ω → ω} (hk : s.children k = .running c)
      (hw : P.work k (s.parent ≠ .done) c = .inr e) : Move P s (.child k) { s with
      children := Function.update s.children k .acted
      world := e s.world
      order := s.order ++ [k] }
  | exits {k : Fin n} (hk : s.children k = .acted) :
      Move P s (.child k) { s with children := Function.update s.children k .zombie }
  | reaps {k : Fin n} (hpc : s.parent = .wait) (hk : s.children k = .zombie) :
      Move P s (.reap k) { s with children := Function.update s.children k .reaped }

theorem step_cases {a : Action n} (hs : step P s a = some t) : Move P s a t := by
  cases a with
  | parent ok =>
    cases hpc : s.parent with
    | fork i =>
      by_cases hi : i < n
      · cases ok with
        | true =>
          simp only [step, parentStep, hpc, hi, dite_true, if_true, Option.some.injEq] at hs
          subst hs
          exact .forks hpc hi
        | false =>
          simp only [step, parentStep, hpc, hi, dite_true, Bool.false_eq_true, if_false, Option.some.injEq] at hs
          subst hs
          exact .fails hpc hi
      · simp only [step, parentStep, hpc, hi, dite_false, Option.some.injEq] at hs
        subst hs
        exact .begins hpc (not_lt.mp hi)
    | wait =>
      simp only [step, parentStep, hpc] at hs
      split at hs
      · next hgone =>
        cases hs
        exact .joins hpc hgone
      · cases hs
    | joined =>
      simp only [step, parentStep, hpc, Option.some.injEq] at hs
      subst hs
      exact .finishes hpc
    | done => simp [step, parentStep, hpc] at hs
  | child k =>
    cases hk : s.children k with
    | running c =>
      simp only [step, childStep, hk] at hs
      split at hs
      · next hw =>
        cases hs
        exact .works hk hw
      · next hw =>
        cases hs
        exact .acts hk hw
    | acted =>
      simp only [step, childStep, hk, Option.some.injEq] at hs
      subst hs
      exact .exits hk
    | unforked | zombie | reaped => simp [step, childStep, hk] at hs
  | reap k =>
    simp only [step, reapStep] at hs
    split at hs
    · next hpc hk =>
      cases hs
      exact .reaps hpc hk
    · cases hs

/-! ### The invariant -/

/-- The children that have acted had their effects in the recorded order, those that run are on their way
to their effects, and the parent goes on when all are gone. -/
structure Ok (P : Program n κ ω) (world : ω) (s : State n κ ω) : Prop where
  nodup : s.order.Nodup
  acted : ∀ k, k ∈ s.order ↔ (s.children k).HasActed
  finite : ∀ k ∈ s.order, P.Finite k
  running : ∀ k c, s.children k = .running c → ∀ e, P.Ends k c e ↔ P.Ends k (P.entry k) e
  fresh : ∀ i, s.parent = .fork i → ∀ k : Fin n, i ≤ k.val → s.children k = .unforked
  gone : s.parent = .joined ∨ s.parent = .done → ∀ k, (s.children k).Gone
  world : s.world = if s.parent = .done then P.finish (P.after world s.order) else P.after world s.order

lemma ok_start (P : Program n κ ω) (world : ω) : Ok P world (start world) where
  nodup := List.nodup_nil
  acted k := by simp [start, ChildPc.HasActed]
  finite k hk := by simp [start] at hk
  running k c hk := by simp [start] at hk
  fresh _ _ _ _ := rfl
  gone h := by simp [start] at h
  world := by simp [start, Program.after]

lemma Ok.parent_alive {world : ω} (h : Ok P world s) {k : Fin n} (hk : ¬(s.children k).Gone) :
    s.parent ≠ .joined ∧ s.parent ≠ .done :=
  ⟨fun hpc => hk (h.gone (.inl hpc) k), fun hpc => hk (h.gone (.inr hpc) k)⟩

lemma Ok.setChild {world : ω} (h : Ok P world s) {k : Fin n} {pc : ChildPc κ} (hforked : s.children k ≠ .unforked)
    (hgone : ¬(s.children k).Gone ∨ pc.Gone) (hacted : pc.HasActed ↔ (s.children k).HasActed)
    (hrunning : ∀ c, pc = .running c → ∀ e, P.Ends k c e ↔ P.Ends k (P.entry k) e) :
    Ok P world { s with children := Function.update s.children k pc } where
  nodup := h.nodup
  acted j := by
    rw [h.acted j]
    by_cases hj : j = k
    · subst hj
      simp only [Function.update_self]
      exact hacted.symm
    · simp only [Function.update_of_ne hj]
  finite := h.finite
  running j c hc := by
    by_cases hj : j = k
    · subst hj
      simp only [Function.update_self] at hc
      exact hrunning c hc
    · simp only [Function.update_of_ne hj] at hc
      exact h.running j c hc
  fresh i hpc j hij := by
    by_cases hj : j = k
    · subst hj
      exact absurd (h.fresh i hpc j hij) hforked
    · simp only [Function.update_of_ne hj]
      exact h.fresh i hpc j hij
  gone hpc j := by
    have hall := h.gone hpc
    by_cases hj : j = k
    · subst hj
      simp only [Function.update_self]
      exact hgone.resolve_left fun hnot => hnot (hall j)
    · simp only [Function.update_of_ne hj]
      exact hall j
  world := h.world

lemma Ok.acts {world : ω} (h : Ok P world s) {k : Fin n} {c : κ} {e : ω → ω} (hk : s.children k = .running c)
    (hw : P.work k true c = .inr e) : Ok P world { s with
      children := Function.update s.children k .acted
      world := e s.world
      order := s.order ++ [k] } := by
  have hends : P.Ends k (P.entry k) e := (h.running k c hk e).mp ((Program.ends_inr hw e).mpr rfl)
  have hnot : k ∉ s.order := by
    rw [h.acted, hk]
    exact id
  have halive := h.parent_alive (k := k) (by rw [hk]; exact id)
  refine ⟨?_, fun j => ?_, fun j hj => ?_, fun j c' hc => ?_, fun i hpc j hij => ?_, fun hpc j => ?_, ?_⟩
  · exact h.nodup.append (List.nodup_singleton k) (by simpa using hnot)
  · by_cases hj : j = k
    · subst hj
      simp [ChildPc.HasActed]
    · simp only [List.mem_append, List.mem_singleton, hj, or_false, Function.update_of_ne hj]
      exact h.acted j
  · rcases List.mem_append.mp hj with hj | hj
    · exact h.finite j hj
    · obtain rfl := List.mem_singleton.mp hj
      exact ⟨e, hends⟩
  · by_cases hj : j = k
    · subst hj
      simp at hc
    · exact h.running j c' (by simpa only [Function.update_of_ne hj] using hc)
  · have hfresh := h.fresh i hpc
    have hj : j ≠ k := by
      rintro rfl
      rw [hfresh j hij] at hk
      cases hk
    simp only [Function.update_of_ne hj]
    exact hfresh j hij
  · exact absurd hpc (by simp [halive.1, halive.2])
  · simp only [if_neg halive.2]
    rw [Program.after_append, Program.effect_eq hends, h.world, if_neg halive.2]

theorem Ok.step {world : ω} (h : Ok P world s) {a : Action n} (hs : step P s a = some t) : Ok P world t := by
  cases step_cases hs with
  | @forks i hpc hi =>
    have hnew : s.children ⟨i, hi⟩ = .unforked := h.fresh i hpc ⟨i, hi⟩ le_rfl
    refine ⟨h.nodup, fun j => ?_, h.finite, fun j c hc => ?_, fun i' hpc' j hij => ?_, fun hpc' => ?_, ?_⟩
    · rw [h.acted j]
      by_cases hj : j = ⟨i, hi⟩
      · subst hj
        simp [hnew, ChildPc.HasActed]
      · simp only [Function.update_of_ne hj]
    · by_cases hj : j = ⟨i, hi⟩
      · subst hj
        simp only [Function.update_self, ChildPc.running.injEq] at hc
        subst hc
        exact fun _ => Iff.rfl
      · exact h.running j c (by simpa only [Function.update_of_ne hj] using hc)
    · obtain rfl : i + 1 = i' := by simpa using hpc'
      have hj : j ≠ ⟨i, hi⟩ := by
        rintro rfl
        exact absurd hij (Nat.not_succ_le_self i)
      simp only [Function.update_of_ne hj]
      exact h.fresh i hpc j (by omega)
    · simp at hpc'
    · simpa [hpc] using h.world
  | @fails i hpc hi =>
    refine ⟨h.nodup, h.acted, h.finite, h.running, fun i' hpc' j hij => ?_, fun hpc' => ?_, ?_⟩
    · obtain rfl : i + 1 = i' := by simpa using hpc'
      exact h.fresh i hpc j (by omega)
    · simp at hpc'
    · simpa [hpc] using h.world
  | begins hpc hi =>
    refine ⟨h.nodup, h.acted, h.finite, h.running, fun i' hpc' => ?_, fun hpc' => ?_, ?_⟩
    · simp at hpc'
    · simp at hpc'
    · simpa [hpc] using h.world
  | joins hpc hgone =>
    refine ⟨h.nodup, h.acted, h.finite, h.running, fun i' hpc' => ?_, fun _ => hgone, ?_⟩
    · simp at hpc'
    · simpa [hpc] using h.world
  | finishes hpc =>
    refine ⟨h.nodup, h.acted, h.finite, h.running, fun i' hpc' => ?_, fun _ => h.gone (.inl hpc), ?_⟩
    · simp at hpc'
    · simp [h.world, hpc]
  | @works k c c' hk hw =>
    have halive := h.parent_alive (k := k) (by rw [hk]; exact id)
    simp only [ne_eq, halive.2, not_false_eq_true, decide_true] at hw
    refine h.setChild (by simp [hk]) (.inl (by rw [hk]; exact id)) (by simp [hk, ChildPc.HasActed]) ?_
    rintro d hd e
    obtain rfl : c' = d := by simpa using hd
    rw [← Program.ends_inl hw e]
    exact h.running k c hk e
  | @acts k c e hk hw =>
    have halive := h.parent_alive (k := k) (by rw [hk]; exact id)
    simp only [ne_eq, halive.2, not_false_eq_true, decide_true] at hw
    exact h.acts hk hw
  | exits hk =>
    refine h.setChild (by simp [hk]) (.inl (by rw [hk]; exact id)) (by simp [hk, ChildPc.HasActed]) ?_
    simp
  | reaps hpc hk =>
    refine h.setChild (by simp [hk]) (.inl (by rw [hk]; exact id)) (by simp [hk, ChildPc.HasActed]) ?_
    simp

theorem ok_of_reachable {world : ω} (h : (machine P world).Reachable s) : Ok P world s := by
  refine h.invariant ?_ fun u a v hu hn => hu.step hn
  rintro u rfl
  exact ok_start P world

/-! ### Every run gets there -/

/-- A family that is not done has a step, and no `fork` has to fail for it. -/
theorem progress (hpc : s.parent ≠ .done) :
    ∃ a t, Forks s a ∧ Family.step P s a = some t := by
  cases hparent : s.parent with
  | fork i =>
    refine ⟨.parent true, ?_⟩
    by_cases hi : i < n <;> simp [Forks, Family.step, parentStep, hparent, hi]
  | wait =>
    by_cases hgone : ∀ k, (s.children k).Gone
    · refine ⟨.parent true, ?_⟩
      simp [Forks, Family.step, parentStep, hparent, hgone]
    · obtain ⟨k, hk⟩ := not_forall.mp hgone
      cases hchild : s.children k with
      | unforked | reaped =>
        rw [hchild] at hk
        exact absurd trivial hk
      | running c =>
        refine ⟨.child k, ?_⟩
        cases hw : P.work k true c <;> simp [Forks, Family.step, childStep, hchild, hparent, hw]
      | acted =>
        refine ⟨.child k, ?_⟩
        simp [Forks, Family.step, childStep, hchild]
      | zombie =>
        refine ⟨.reap k, ?_⟩
        simp [Forks, Family.step, reapStep, hchild, hparent]
  | joined =>
    refine ⟨.parent true, ?_⟩
    simp [Forks, Family.step, parentStep, hparent]
  | done => exact absurd hparent hpc

noncomputable def childRank (P : Program n κ ω) (k : Fin n) : ChildPc κ → ℕ
  | .running c => P.need k c + 3
  | .acted => 2
  | .zombie => 1
  | .unforked | .reaped => 0

/-- The work of the longest child. -/
noncomputable def longest (P : Program n κ ω) : ℕ :=
  Finset.univ.sup fun k => P.need k (P.entry k)

noncomputable def parentRank (P : Program n κ ω) : ParentPc → ℕ
  | .fork i => (n - i) * (longest P + 4) + 3
  | .wait => 2
  | .joined => 1
  | .done => 0

/-- The steps that the family has before it. -/
noncomputable def rank (P : Program n κ ω) (s : State n κ ω) : ℕ :=
  parentRank P s.parent + ∑ k, childRank P k (s.children k)

lemma sum_childRank_update (P : Program n κ ω) (children : Fin n → ChildPc κ) (k : Fin n) (pc : ChildPc κ) :
    ∑ j, childRank P j (Function.update children k pc j) + childRank P k (children k) =
      ∑ j, childRank P j (children j) + childRank P k pc := by
  have h := tokens_update id (fun j => childRank P j (children j)) k (childRank P k pc)
  have hupdate : ∀ j, childRank P j (Function.update children k pc j) =
      Function.update (fun j => childRank P j (children j)) k (childRank P k pc) j :=
    fun j => Function.apply_update (fun j => childRank P j) children k pc j
  simpa only [tokens, id, hupdate] using h

theorem rank_step {world : ω} (hfinite : ∀ k, P.Finite k) (h : Ok P world s) {a : Action n}
    (hs : step P s a = some t) : rank P t < rank P s := by
  have hchild : ∀ (k : Fin n) (pc : ChildPc κ), childRank P k pc < childRank P k (s.children k) →
      ∑ j, childRank P j (Function.update s.children k pc j) < ∑ j, childRank P j (s.children j) := by
    intro k pc hlt
    have hsum := sum_childRank_update P s.children k pc
    omega
  cases step_cases hs with
  | @forks i hpc hi =>
    have hsum := sum_childRank_update P s.children ⟨i, hi⟩ (.running (P.entry ⟨i, hi⟩))
    have hbefore : childRank P ⟨i, hi⟩ (s.children ⟨i, hi⟩) = 0 := by
      rw [h.fresh i hpc ⟨i, hi⟩ le_rfl]
      rfl
    have hafter : childRank P ⟨i, hi⟩ (.running (P.entry ⟨i, hi⟩)) = P.need ⟨i, hi⟩ (P.entry ⟨i, hi⟩) + 3 := rfl
    have hneed : P.need ⟨i, hi⟩ (P.entry ⟨i, hi⟩) ≤ longest P :=
      Finset.le_sup (f := fun k => P.need k (P.entry k)) (Finset.mem_univ _)
    have hleft : (n - i) * (longest P + 4) = (n - (i + 1)) * (longest P + 4) + (longest P + 4) := by
      rw [← Nat.succ_mul]
      congr 1
      omega
    simp only [rank, parentRank, hpc]
    omega
  | @fails i hpc hi =>
    have hleft : (n - i) * (longest P + 4) = (n - (i + 1)) * (longest P + 4) + (longest P + 4) := by
      rw [← Nat.succ_mul]
      congr 1
      omega
    simp only [rank, parentRank, hpc]
    omega
  | begins hpc hi =>
    simp only [rank, parentRank, hpc]
    omega
  | joins hpc hgone | finishes hpc =>
    simp only [rank, parentRank, hpc]
    omega
  | @works k c c' hk hw =>
    have halive := h.parent_alive (k := k) (by rw [hk]; exact id)
    simp only [ne_eq, halive.2, not_false_eq_true, decide_true] at hw
    obtain ⟨e, he⟩ := hfinite k
    have hneed := Program.need_lt hw ((h.running k c hk e).mpr he)
    refine Nat.add_lt_add_left (hchild k _ ?_) _
    simp only [childRank, hk]
    omega
  | @acts k c e hk hw =>
    refine Nat.add_lt_add_left (hchild k _ ?_) _
    simp only [childRank, hk]
    omega
  | @exits k hk | @reaps k hpc hk =>
    refine Nat.add_lt_add_left (hchild k _ ?_) _
    simp [childRank, hk]

/-- If all children get to their effects, then every run comes to its end, after a bounded number of
steps. -/
theorem length_le (hfinite : ∀ k, P.Finite k) {world : ω} {as : List (Action n)}
    (h : (machine P world).exec (start world) as = some t) : as.length ≤ rank P (start world) := by
  have hle := Machine.length_le_of_rank (M := machine P world) (I := Ok P world) (rank P)
    (fun u a v hu hn => ⟨hu.step hn, rank_step hfinite hu hn⟩) h (ok_start P world)
  omega

/-- When the parent is done, its children have had their effects in some order, each once, and those that
have not were never forked. -/
theorem world_of_done {world : ω} (h : (machine P world).Reachable s) (hdone : s.parent = .done) :
    s.order.Nodup ∧ (∀ k ∈ s.order, P.Finite k) ∧ (∀ k, k ∉ s.order → s.children k = .unforked) ∧
      s.world = P.finish (P.after world s.order) := by
  have hok := ok_of_reachable h
  refine ⟨hok.nodup, hok.finite, fun k hk => ?_, ?_⟩
  · have hgone := hok.gone (.inr hdone) k
    rw [hok.acted] at hk
    cases hchild : s.children k <;> simp_all [ChildPc.Gone, ChildPc.HasActed]
  · rw [hok.world, if_pos hdone]

/-- If no `fork` fails, every child is forked in its turn. -/
theorem forked_of_forks {world : ω} (h : (machine P world).ReachableBy Forks s) (k : Fin n)
    (hturn : ∀ i, s.parent = .fork i → k.val < i) : s.children k ≠ .unforked := by
  refine h.invariant (I := fun u => (∀ i, u.parent = .fork i → k.val < i) → u.children k ≠ .unforked) ?_ ?_ hturn
  · rintro u rfl hturn
    exact absurd (hturn 0 rfl) (Nat.not_lt_zero _)
  · intro u a v hu hforks hn hturn
    cases step_cases hn with
    | @forks i hpc hi =>
      by_cases hk : k = ⟨i, hi⟩
      · subst hk
        simp
      · have hlt := hturn (i + 1) rfl
        have hne : k.val ≠ i := fun he => hk (Fin.ext he)
        simp only [Function.update_of_ne hk]
        refine hu fun i' hpc' => ?_
        obtain rfl : i = i' := by simpa [hpc] using hpc'
        omega
    | fails hpc hi => exact absurd rfl hforks
    | @begins i ok hpc hi =>
      refine hu fun i' hpc' => ?_
      obtain rfl : i = i' := by simpa [hpc] using hpc'
      exact k.isLt.trans_le hi
    | joins hpc _ | finishes hpc => exact hu fun i hpc' => by simp [hpc] at hpc'
    | @works j _ _ hj _ | @acts j _ _ hj _ | @exits j hj | @reaps j _ hj =>
      by_cases hk : k = j
      · subst hk
        simp
      · simp only [Function.update_of_ne hk]
        exact hu hturn

/-- Then they all have had their effects when the parent is done. -/
theorem mem_order_of_forks {world : ω} (h : (machine P world).ReachableBy Forks s) (hdone : s.parent = .done)
    (k : Fin n) : k ∈ s.order := by
  have hreach : (machine P world).Reachable s := h.mono fun _ _ _ => trivial
  by_contra hk
  refine forked_of_forks h k (fun i hpc => ?_) ((world_of_done hreach hdone).2.2.1 k hk)
  rw [hdone] at hpc
  cases hpc

/-! ### Every order is possible -/

/-- No `fork` fails if all children are to run. -/
def Allows (order : List (Fin n)) (a : Action n) : Prop :=
  a = .parent false → ∃ k, k ∉ order

/-- `i` children have been forked, those of `order`, and none has made a step. -/
structure Forked (P : Program n κ ω) (order : List (Fin n)) (i : ℕ) (s : State n κ ω) : Prop where
  quiet : s.order = []
  forked : ∀ k : Fin n, k.val < i → k ∈ order → s.children k = .running (P.entry k)
  unforked : ∀ k : Fin n, i ≤ k.val ∨ k ∉ order → s.children k = .unforked

lemma leads_forked (P : Program n κ ω) (world : ω) (order : List (Fin n)) {i : ℕ} (hi : i ≤ n) :
    ∃ t, (machine P world).Leads (Allows order) (start world) t ∧ t.parent = .fork i ∧ Forked P order i t := by
  induction i with
  | zero =>
    refine ⟨start world, .refl _, rfl, rfl, fun k hk => absurd hk (Nat.not_lt_zero _), fun _ _ => rfl⟩
  | succ i ih =>
    obtain ⟨t, ht, hpc, horder, hforked, hunforked⟩ := ih (by omega)
    have hlt : i < n := hi
    by_cases hmem : (⟨i, hlt⟩ : Fin n) ∈ order
    · have hstep : (machine P world).next t (.parent true) = some { t with
          parent := .fork (i + 1)
          children := Function.update t.children ⟨i, hlt⟩ (.running (P.entry ⟨i, hlt⟩)) } := by
        simp [machine, step, parentStep, hpc, hlt]
      refine ⟨_, ht.trans (.step (by simp [Allows]) hstep (.refl _)), rfl, horder, fun k hk hkmem => ?_,
        fun k hk => ?_⟩
      · by_cases hki : k = ⟨i, hlt⟩
        · subst hki
          simp
        · have hne : k.val ≠ i := fun he => hki (Fin.ext he)
          simp only [Function.update_of_ne hki]
          exact hforked k (by omega) hkmem
      · have hki : k ≠ ⟨i, hlt⟩ := by
          rintro rfl
          rcases hk with hk | hk
          · exact absurd hk (Nat.not_succ_le_self i)
          · exact hk hmem
        simp only [Function.update_of_ne hki]
        exact hunforked k (hk.imp_left fun hle => by omega)
    · have hstep : (machine P world).next t (.parent false) = some { t with parent := .fork (i + 1) } := by
        simp [machine, step, parentStep, hpc, hlt]
      refine ⟨_, ht.trans (.step (fun _ => ⟨_, hmem⟩) hstep (.refl _)), rfl, horder, fun k hk hkmem => ?_,
        fun k hk => hunforked k (hk.imp_left fun hle => by omega)⟩
      have hne : k.val ≠ i := by
        intro he
        exact hmem (by rwa [show (⟨i, hlt⟩ : Fin n) = k from Fin.ext he.symm])
      exact hforked k (by omega) hkmem

/-- A child that gets to its effect can do so while nobody else moves. -/
lemma leads_acted (world : ω) (order : List (Fin n)) {k : Fin n} {fuel : ℕ} {c : κ} {e : ω → ω}
    (he : P.outcome k fuel c = some e) (hk : s.children k = .running c) (hpc : s.parent = .wait) :
    (machine P world).Leads (Allows order) s { s with
      children := Function.update s.children k .acted
      world := e s.world
      order := s.order ++ [k] } := by
  induction fuel generalizing s c with
  | zero => cases he
  | succ fuel ih =>
    cases hw : P.work k true c with
    | inl c' =>
      simp only [Program.outcome, hw] at he
      have hstep : (machine P world).next s (.child k) =
          some { s with children := Function.update s.children k (.running c') } := by
        simp [machine, step, childStep, hk, hpc, hw]
      have hrest := ih (s := { s with children := Function.update s.children k (.running c') }) he (by simp) hpc
      simp only [Function.update_idem] at hrest
      exact .step (by simp [Allows]) hstep hrest
    | inr f =>
      simp only [Program.outcome, hw, Option.some.injEq] at he
      subst he
      refine .step (by simp [Allows]) (a := .child k) ?_ (.refl _)
      simp [machine, step, childStep, hk, hpc, hw]

lemma leads_reaped (world : ω) (order : List (Fin n)) {k : Fin n} (hfinite : P.Finite k)
    (hk : s.children k = .running (P.entry k)) (hpc : s.parent = .wait) :
    ∃ w, (machine P world).Leads (Allows order) s { s with
      children := Function.update s.children k .reaped
      world := w
      order := s.order ++ [k] } := by
  obtain ⟨e, fuel, he⟩ := hfinite
  refine ⟨e s.world, (leads_acted world order he hk hpc).trans ?_⟩
  have hexit : (machine P world).next { s with
      children := Function.update s.children k .acted
      world := e s.world
      order := s.order ++ [k] } (.child k) = some { s with
      children := Function.update s.children k .zombie
      world := e s.world
      order := s.order ++ [k] } := by
    simp [machine, step, childStep]
  have hreap : (machine P world).next { s with
      children := Function.update s.children k .zombie
      world := e s.world
      order := s.order ++ [k] } (.reap k) = some { s with
      children := Function.update s.children k .reaped
      world := e s.world
      order := s.order ++ [k] } := by
    simp [machine, step, reapStep, hpc]
  exact .step (by simp [Allows]) hexit (.step (by simp [Allows]) hreap (.refl _))

/-- The children can have their effects in any order, whichever of them are forked. -/
theorem exists_run (P : Program n κ ω) (world : ω) {order : List (Fin n)} (hnodup : order.Nodup)
    (hfinite : ∀ k ∈ order, P.Finite k) : ∃ t, (machine P world).Leads (Allows order) (start world) t ∧
      t.parent = .done ∧ t.order = order := by
  obtain ⟨u, hu, hpc, horder, hforked, hunforked⟩ := leads_forked P world order le_rfl
  have hbegin : (machine P world).next u (.parent true) = some { u with parent := .wait } := by
    simp [machine, step, parentStep, hpc]
  -- the children go one after the other
  have hall : ∀ first rest, order = first ++ rest → ∃ t, (machine P world).Leads (Allows order) (start world) t ∧
      t.parent = .wait ∧ t.order = first ∧ (∀ k ∈ first, t.children k = .reaped) ∧
      (∀ k ∈ rest, t.children k = .running (P.entry k)) ∧ ∀ k, k ∉ order → t.children k = .unforked := by
    intro first
    induction first using List.reverseRecOn with
    | nil =>
      intro rest hrest
      refine ⟨_, hu.trans (.step (by simp [Allows]) hbegin (.refl _)), rfl, horder, by simp, fun k hk => ?_,
        fun k hk => hunforked k (.inr hk)⟩
      exact hforked k k.isLt (by rw [hrest]; simpa using hk)
    | append_singleton first k ih =>
      intro rest hrest
      obtain ⟨t, ht, hwait, hfirst, hreaped, hrunning, hothers⟩ := ih (k :: rest) (by simpa using hrest)
      have hkmem : k ∈ order := by rw [hrest]; simp
      obtain ⟨w, hw⟩ := leads_reaped world order (hfinite k hkmem) (hrunning k (by simp)) hwait
      rw [hrest] at hnodup
      have hkrest : k ∉ rest := fun hk => (List.nodup_append.mp hnodup).2.2 k (by simp) k hk rfl
      refine ⟨_, ht.trans hw, hwait, by simp [hfirst], fun j hj => ?_, fun j hj => ?_, fun j hj => ?_⟩
      · by_cases hjk : j = k
        · subst hjk
          simp
        · simp only [Function.update_of_ne hjk]
          exact hreaped j (by simpa [hjk] using hj)
      · have hjk : j ≠ k := by
          rintro rfl
          exact hkrest hj
        simp only [Function.update_of_ne hjk]
        exact hrunning j (by simp [hj])
      · have hjk : j ≠ k := by
          rintro rfl
          exact hj hkmem
        simp only [Function.update_of_ne hjk]
        exact hothers j hj
  obtain ⟨t, ht, hwait, hdone, hreaped, -, hothers⟩ := hall order [] (by simp)
  have hgone : ∀ k, (t.children k).Gone := by
    intro k
    by_cases hk : k ∈ order
    · rw [hreaped k hk]
      trivial
    · rw [hothers k hk]
      trivial
  have hjoin : (machine P world).next t (.parent true) = some { t with parent := .joined } := by
    simp [machine, step, parentStep, hwait, hgone]
  have hfinish : (machine P world).next { t with parent := .joined } (.parent true) =
      some { t with parent := .done, world := P.finish t.world } := by
    simp [machine, step, parentStep]
  exact ⟨_, ht.trans (.step (by simp [Allows]) hjoin (.step (by simp [Allows]) hfinish (.refl _))), rfl, hdone⟩

/-! ### A child that works forever -/

/-- It keeps the family from coming to an end. -/
theorem exists_long_run {k : Fin n} (hk : ¬P.Finite k) (world : ω) (m : ℕ) :
    ∃ as t, (machine P world).exec (start world) as = some t ∧ m ≤ as.length := by
  obtain ⟨u, hu, hpc, -, hforked, -⟩ := leads_forked P world [k] le_rfl
  obtain ⟨first, hfirst⟩ := hu.exists_exec
  have hloop : ∀ m, ∃ as t c, (machine P world).exec u as = some t ∧ as.length = m ∧ t.parent = .fork n ∧
      t.children k = .running c ∧ ∀ e, ¬P.Ends k c e := by
    intro m
    induction m with
    | zero => exact ⟨[], u, P.entry k, rfl, rfl, hpc, hforked k k.isLt (by simp), fun e he => hk ⟨e, he⟩⟩
    | succ m ih =>
      obtain ⟨as, t, c, has, hlen, hparent, hc, hends⟩ := ih
      cases hw : P.work k true c with
      | inr f => exact absurd ((Program.ends_inr hw f).mpr rfl) (hends f)
      | inl c' =>
        have hstep : (machine P world).next t (.child k) =
            some { t with children := Function.update t.children k (.running c') } := by
          simp [machine, step, childStep, hc, hparent, hw]
        refine ⟨as ++ [.child k], { t with children := Function.update t.children k (.running c') }, c', ?_,
          by simp [hlen], hparent, by simp, fun e he => hends e ((Program.ends_inl hw e).mpr he)⟩
        rw [Machine.exec_append_of_eq has, Machine.exec_singleton, hstep]
  obtain ⟨as, t, -, has, hlen, -⟩ := hloop m
  refine ⟨first ++ as, t, ?_, by simp only [List.length_append]; omega⟩
  rw [Machine.exec_append_of_eq hfirst, has]

end Family
end Concurrency
