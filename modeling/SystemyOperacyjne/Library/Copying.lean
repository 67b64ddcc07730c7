import Mathlib.Logic.Function.Iterate
import Mathlib.Data.List.Induction
import Mathlib.Tactic.Common

/-!
# Copies within one store

A sequence of copies from cell to cell of a store. Each empties its target, and then fills it with a
function of what its source holds at that moment. If all sources and targets are distinct, every target
ends up with the image of what its source held before the first copy. If they are not, what a source
holds when its turn comes is found by following the copies back.
-/

namespace Copying

variable {π α : Type} [DecidableEq π]

structure Copy (π : Type) where
  source : π
  target : π

section
variable (f : α → α) (empty : α)

def copy (store : π → α) (c : Copy π) : π → α :=
  let emptied := Function.update store c.target empty
  Function.update emptied c.target (f (emptied c.source))

def run (store : π → α) (copies : List (Copy π)) : π → α :=
  copies.foldl (copy f empty) store

/-- Where the content of a cell comes from: the cell that held it before the first copy, if any, and the
number of copies since then. The latest copy comes first in the list. -/
def provenance : List (Copy π) → π → Option π × ℕ
  | [], p => (some p, 0)
  | c :: earlier, p =>
    if p = c.target then
      let (origin, copies) := if c.source = c.target then (none, 0) else provenance earlier c.source
      (origin, copies + 1)
    else provenance earlier p

/-- The content with a provenance. -/
def content (store : π → α) (from' : Option π × ℕ) : α :=
  f^[from'.2] (from'.1.elim empty store)

/-- What is found in the source of a copy when its turn comes. -/
def found (store : π → α) (earlier : List (Copy π)) (c : Copy π) : α :=
  if c.source = c.target then empty else content f empty store (provenance earlier.reverse c.source)

/-- The last copy to each target finds in its source what was there before the first copy, and copies
to the same target have sources with the same content. -/
structure Undisturbed (store : π → α) (copies : List (Copy π)) : Prop where
  last : ∀ earlier c later, copies = earlier ++ c :: later → (∀ c' ∈ later, c'.target ≠ c.target) →
    found f empty store earlier c = store c.source
  shared : ∀ c ∈ copies, ∀ c' ∈ copies, c.target = c'.target → store c.source = store c'.source

end

variable {f : α → α} {empty : α} {store : π → α}

lemma run_append (copies copies' : List (Copy π)) :
    run f empty store (copies ++ copies') = run f empty (run f empty store copies) copies' :=
  List.foldl_append

lemma copy_target (c : Copy π) :
    copy f empty store c c.target = f (if c.source = c.target then empty else store c.source) := by
  rw [copy, Function.update_self, Function.update_apply]

lemma copy_of_ne {c : Copy π} {p : π} (h : p ≠ c.target) : copy f empty store c p = store p := by
  rw [copy, Function.update_of_ne h, Function.update_of_ne h]

lemma run_of_not_target {copies : List (Copy π)} {p : π} (h : ∀ c ∈ copies, c.target ≠ p) :
    run f empty store copies p = store p := by
  induction copies generalizing store with
  | nil => rfl
  | cons c copies ih =>
    have hrest : run f empty (copy f empty store c) copies p = copy f empty store c p :=
      ih fun c' hc' => h c' (List.mem_cons_of_mem c hc')
    exact hrest.trans (copy_of_ne (h c List.mem_cons_self).symm)

/-- Following the copies back finds what a cell holds. -/
theorem run_eq_content (copies : List (Copy π)) (p : π) :
    run f empty store copies p = content f empty store (provenance copies.reverse p) := by
  induction copies using List.reverseRecOn generalizing p with
  | nil => rfl
  | append_singleton copies c ih =>
    rw [run_append, List.reverse_append, List.reverse_singleton, List.singleton_append, provenance]
    by_cases hp : p = c.target
    · subst hp
      rw [if_pos rfl]
      change copy f empty (run f empty store copies) c c.target = _
      rw [copy_target]
      by_cases hself : c.source = c.target
      · rw [if_pos hself, if_pos hself]
        rfl
      · rw [if_neg hself, if_neg hself, ih]
        exact (Function.iterate_succ_apply' f _ _).symm
    · rw [if_neg hp, ← ih]
      exact copy_of_ne hp

lemma run_last {earlier later : List (Copy π)} {c : Copy π} (h : ∀ c' ∈ later, c'.target ≠ c.target) :
    run f empty store (earlier ++ c :: later) c.target = f (found f empty store earlier c) := by
  rw [run_append]
  change run f empty (copy f empty (run f empty store earlier) c) later c.target = _
  rw [run_of_not_target h, copy_target, found, run_eq_content]

omit [DecidableEq π] in
lemma exists_last {copies : List (Copy π)} {p : π} (h : ∃ c ∈ copies, c.target = p) :
    ∃ earlier c later, copies = earlier ++ c :: later ∧ c.target = p ∧ ∀ c' ∈ later, c'.target ≠ p := by
  induction copies with
  | nil =>
    obtain ⟨c, hc, -⟩ := h
    exact absurd hc List.not_mem_nil
  | cons c₀ copies ih =>
    by_cases hlater : ∃ c ∈ copies, c.target = p
    · obtain ⟨earlier, c, later, rfl, htarget, hlast⟩ := ih hlater
      exact ⟨c₀ :: earlier, c, later, rfl, htarget, hlast⟩
    · have htarget : c₀.target = p := by
        obtain ⟨c, hc, hp⟩ := h
        rcases List.mem_cons.mp hc with rfl | hc
        · exact hp
        · exact absurd ⟨c, hc, hp⟩ hlater
      exact ⟨[], c₀, copies, rfl, htarget, fun c hc hp => hlater ⟨c, hc, hp⟩⟩

/-- Every target ends up with the image of what its source held before, exactly if the sources are
undisturbed. -/
theorem run_eq_iff (hf : Function.Injective f) (copies : List (Copy π)) :
    (∀ c ∈ copies, run f empty store copies c.target = f (store c.source)) ↔ Undisturbed f empty store copies := by
  constructor
  · intro h
    refine ⟨fun earlier c later hcopies hlater => ?_, fun c hc c' hc' htarget => ?_⟩
    · have hc := h c (by rw [hcopies]; simp)
      rw [hcopies, run_last hlater] at hc
      exact hf hc
    · have heq := h c hc
      rw [htarget, h c' hc'] at heq
      exact (hf heq).symm
  · intro h c hc
    obtain ⟨earlier, c', later, hcopies, htarget, hlater⟩ := exists_last ⟨c, hc, rfl⟩
    rw [← htarget] at hlater
    have hfound := h.last earlier c' later hcopies hlater
    have hshared := h.shared c hc c' (by rw [hcopies]; simp) htarget.symm
    rw [← htarget, hcopies, run_last hlater, hfound, hshared]

/-- No target is a source, and copies to the same target have the same source. -/
structure Apart (copies : List (Copy π)) : Prop where
  sources : ∀ c ∈ copies, ∀ c' ∈ copies, c.source ≠ c'.target
  targets : ∀ c ∈ copies, ∀ c' ∈ copies, c.target = c'.target → c.source = c'.source

lemma Apart.undisturbed {copies : List (Copy π)} (h : Apart copies) : Undisturbed f empty store copies := by
  refine ⟨fun earlier c later hcopies _ => ?_, fun c hc c' hc' htarget => ?_⟩
  swap
  · exact congrArg store (h.targets c hc c' hc' htarget)
  have hc : c ∈ copies := by
    rw [hcopies]
    simp
  have hearlier : ∀ c' ∈ earlier, c'.target ≠ c.source := by
    intro c' hc'
    exact (h.sources c hc c' (by rw [hcopies]; exact List.mem_append_left _ hc')).symm
  rw [found, if_neg (h.sources c hc c hc), ← run_eq_content, run_of_not_target hearlier]

lemma undisturbed_self_iff {copies : List (Copy π)} (h : ∀ c ∈ copies, c.source = c.target) :
    Undisturbed f empty store copies ↔ ∀ c ∈ copies, store c.source = empty := by
  constructor
  · intro hundisturbed c hc
    obtain ⟨earlier, c', later, hcopies, htarget, hlater⟩ := exists_last ⟨c, hc, rfl⟩
    have hc' : c' ∈ copies := by
      rw [hcopies]
      simp
    have hfound := hundisturbed.last earlier c' later hcopies (by rwa [htarget])
    rw [found, if_pos (h c' hc')] at hfound
    rw [hundisturbed.shared c hc c' hc' htarget.symm, ← hfound]
  · intro hempty
    refine ⟨fun earlier c later hcopies _ => ?_, fun c hc c' hc' _ => by rw [hempty c hc, hempty c' hc']⟩
    have hc : c ∈ copies := by
      rw [hcopies]
      simp
    rw [found, if_pos (h c hc), hempty c hc]

end Copying
