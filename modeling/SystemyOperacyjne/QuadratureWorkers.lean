import SystemyOperacyjne.Library.Family
import SystemyOperacyjne.QuadraturePieces

/-!
# The worker processes

`main` of `cw6/zadanie1/integrals.c` as the processes that it consists of: a parent with a pipe for each
of its workers. It reads the pipes when all workers are gone. The numbers are of any type with the operations
that the program uses, and of these nothing is assumed where it is about the order of the processes: the sums
of `float` depend on the order of their terms.
-/

namespace SystemyOperacyjne.Quadrature
open Concurrency Stepping

/-- A worker before the test of the loop of `intergral`, or before `write`. -/
inductive Worker (F : Type)
  | loop (start result : F)
  | write (result : F)

/-- What is in the pipes, and the result that the parent prints; `none` is an indeterminate number. -/
structure Shared (F : Type) (n : ℕ) where
  pipe : Fin n → List F
  wynik : Option F

section
variable {F : Type} [Zero F] [Add F] {n : ℕ}

/-- Reads the pipes in order. Nobody has a write end any more, so a `read` from an empty pipe returns 0 and
`temp` keeps what was in its memory. -/
def readAll (pipe : Fin n → List F) : Option F :=
  (List.finRange n).foldlM (fun res i => (pipe i).head?.map fun temp => res + temp) 0

lemma readAll_eq {pipe : Fin n → List F} {v : Fin n → F} (h : ∀ k, pipe k = [v k]) :
    readAll pipe = some (((List.finRange n).map v).foldl (· + ·) 0) := by
  have hread : (fun (res : F) (i : Fin n) => (pipe i).head?.map fun temp => res + temp) =
      fun res i => pure (res + v i) := by
    funext res i
    rw [h i]
    rfl
  rw [readAll, hread, List.foldlM_pure, List.foldl_map]
  rfl

lemma readAll_eq_none {pipe : Fin n → List F} {k : Fin n} (h : pipe k = []) : readAll pipe = none := by
  obtain ⟨before, later, hsplit⟩ := List.append_of_mem (List.mem_finRange k)
  rw [readAll, hsplit, List.foldlM_append]
  cases List.foldlM (fun res i => Option.map (fun temp => res + temp) (pipe i).head?) 0 before with
  | none => rfl
  | some res =>
    simp only [Option.bind_eq_bind, Option.bind_some, List.foldlM_cons, h]
    rfl

variable [One F] [OfNat F 2] [OfNat F 4] [Sub F] [Mul F] [Div F] [NatCast F] [LT F] [DecidableLT F]

/-- A worker writes its result to its pipe. -/
def put (k : Fin n) (result : F) (w : Shared F n) : Shared F n :=
  { w with pipe := Function.update w.pipe k (w.pipe k ++ [result]) }

def workers (step : F) (n : ℕ) : Program n (Worker F) (Shared F n) where
  entry k := .loop (k * (1 / n)) 0
  work k _
    | .loop start result =>
      let end' : F := (k + 1 : ℕ) * (1 / n)
      if start + step < end' then .inl (.loop (start + step) (result + function ((start + step) / 2) * step))
      else .inl (.write (result + function ((end' - start) / 2 + start) * (end' - start)))
    | .write result => .inr (put k result)
  finish w := { w with wynik := readAll w.pipe }

/-- The pipes are empty. -/
def unread (F : Type) (n : ℕ) : Shared F n := ⟨fun _ => [], none⟩

def machineOf (step : F) (n : ℕ) : Machine (Family.State n (Worker F) (Shared F n)) (Family.Action n) :=
  Family.machine (workers step n) (unread F n)

/-! ### One worker -/

variable {step : F}

lemma outcome_loop (k : Fin n) (fuel : ℕ) (start result : F) :
    (workers step n).outcome k (fuel + 1) (.loop start result) =
      (intergralLoop ((k + 1 : ℕ) * (1 / n) : F) step fuel start result).map fun (start, result) =>
        put k (result + function (((k + 1 : ℕ) * (1 / n) - start) / 2 + start) * ((k + 1 : ℕ) * (1 / n) - start)) := by
  induction fuel generalizing start result with
  | zero =>
    simp only [Program.outcome, workers, intergralLoop]
    split
    · next hw => rfl
    · next hw => split at hw <;> cases hw
  | succ fuel ih =>
    rw [Program.outcome, intergralLoop]
    by_cases hlt : start + step < (k + 1 : ℕ) * (1 / n)
    · simp only [workers, hlt, if_true] at ih ⊢
      exact ih _ _
    · simp only [workers, hlt, if_false, Option.map_some]
      rfl

lemma ends_iff (k : Fin n) (e : Shared F n → Shared F n) : (workers step n).Ends k ((workers step n).entry k) e ↔
    ∃ fuel r, intergral fuel (k * (1 / n) : F) ((k + 1 : ℕ) * (1 / n)) step = some r ∧ e = put k r := by
  constructor
  · rintro ⟨fuel, hfuel⟩
    cases fuel with
    | zero => cases hfuel
    | succ fuel =>
      rw [show (workers step n).entry k = .loop (k * (1 / n)) 0 from rfl, outcome_loop, Option.map_eq_some_iff] at hfuel
      obtain ⟨p, hp, rfl⟩ := hfuel
      refine ⟨fuel, _, ?_, rfl⟩
      rw [intergral, hp, Option.map_some]
  · rintro ⟨fuel, r, hr, rfl⟩
    rw [intergral, Option.map_eq_some_iff] at hr
    obtain ⟨p, hp, rfl⟩ := hr
    refine ⟨fuel + 1, ?_⟩
    rw [show (workers step n).entry k = .loop (k * (1 / n)) 0 from rfl, outcome_loop, hp, Option.map_some]

/-! ### The pipes -/

/-- What `intergral` returns to worker `k`. -/
def Returns (step : F) (k : Fin n) (r : F) : Prop :=
  ∃ fuel, intergral fuel (k * (1 / n) : F) ((k + 1 : ℕ) * (1 / n)) step = some r

lemma pipe_after {order : List (Fin n)} (hnodup : order.Nodup) (hfinite : ∀ k ∈ order, (workers step n).Finite k)
    (k : Fin n) : (k ∈ order → ∃ r, Returns step k r ∧ ((workers step n).after (unread F n) order).pipe k = [r]) ∧
      (k ∉ order → ((workers step n).after (unread F n) order).pipe k = []) := by
  induction order using List.reverseRecOn with
  | nil => exact ⟨fun hk => absurd hk List.not_mem_nil, fun _ => rfl⟩
  | append_singleton order j ih =>
    have hsplit := List.nodup_append.mp hnodup
    have hj : j ∉ order := fun hmem => hsplit.2.2 j hmem j (by simp) rfl
    obtain ⟨e, he⟩ := hfinite j (by simp)
    obtain ⟨fuel, r, hr, rfl⟩ := (ends_iff j e).mp he
    have hrest := ih hsplit.1 fun i hi => hfinite i (by simp [hi])
    rw [Program.after_append, Program.effect_eq he]
    by_cases hk : k = j
    · subst hk
      refine ⟨fun _ => ⟨r, ⟨fuel, hr⟩, ?_⟩, fun hnot => absurd (by simp) hnot⟩
      simp only [put, Function.update_self]
      rw [hrest.2 hj, List.nil_append]
    · simp only [put, Function.update_of_ne hk, List.mem_append, List.mem_singleton, hk, or_false]
      exact hrest

lemma integrals_of_returns {v : Fin n → F} (h : ∀ k, Returns step k (v k)) :
    ∃ fuel, integrals fuel step n = some (((List.finRange n).map v).foldl (· + ·) 0) := by
  choose fuels hfuels using h
  refine ⟨Finset.univ.sup fuels, ?_⟩
  have hvalue : ∀ k : Fin n,
      intergral (Finset.univ.sup fuels) ((k : ℕ) * (1 / n : F)) ((k + 1 : ℕ) * (1 / n)) step = some (v k) := by
    intro k
    have hle : fuels k ≤ Finset.univ.sup fuels := Finset.le_sup (Finset.mem_univ k)
    have hk := hfuels k
    rw [intergral, Option.map_eq_some_iff] at hk ⊢
    obtain ⟨p, hp, hv⟩ := hk
    exact ⟨p, intergralLoop_mono hle hp, hv⟩
  have hworkers : ((fun i : ℕ => intergral (Finset.univ.sup fuels) ((i : F) * (1 / n)) ((i + 1 : ℕ) * (1 / n)) step) ∘
      fun k : Fin n => (k : ℕ)) = fun k => pure (v k) :=
    funext hvalue
  simp only [integrals, ← List.map_coe_finRange_eq_range, List.mapM_map]
  rw [hworkers, List.mapM_pure]
  rfl

/-! ### The program -/

/-- When the parent is done, whatever the order in which the workers got ready: if each has been forked then the
result is what the workers return, added in the order of the pipes; if one has not then it is
indeterminate. -/
theorem result_independent_of_order {s : Family.State n (Worker F) (Shared F n)} (h : (machineOf step n).Reachable s)
    (hdone : s.parent = .done) :
    ((∀ k, s.children k ≠ .unforked) → ∃ fuel r, integrals fuel step n = some r ∧ s.world.wynik = some r) ∧
      ((∃ k, s.children k = .unforked) → s.world.wynik = none) := by
  obtain ⟨hnodup, hfinite, hunforked, hworld⟩ := Family.world_of_done h hdone
  have hpipe := pipe_after hnodup hfinite
  have hwynik : s.world.wynik = readAll ((workers step n).after (unread F n) s.order).pipe := by
    rw [hworld]
    rfl
  constructor
  · intro hforked
    have hall : ∀ k, ∃ r, Returns step k r ∧ ((workers step n).after (unread F n) s.order).pipe k = [r] := by
      intro k
      refine (hpipe k).1 ?_
      by_contra hk
      exact hforked k (hunforked k hk)
    choose v hreturns hv using hall
    obtain ⟨fuel, hfuel⟩ := integrals_of_returns hreturns
    exact ⟨fuel, _, hfuel, hwynik.trans (readAll_eq hv)⟩
  · rintro ⟨k, hk⟩
    rw [hwynik]
    refine readAll_eq_none ((hpipe k).2 fun hmem => ?_)
    have hacted := ((Family.ok_of_reachable h).acted k).mp hmem
    rw [hk] at hacted
    exact hacted

end

/-- Two workers, of which the second gets ready first. -/
def secondFirst : List (Family.Action 2) :=
  let first : Fin 2 := ⟨0, Nat.two_pos⟩
  let second : Fin 2 := ⟨1, Nat.one_lt_two⟩
  List.replicate 3 (.parent true) ++ List.replicate 4 (.child second) ++ List.replicate 4 (.child first) ++
    [.reap first, .reap second, .parent true, .parent true]

theorem result_independent_of_order_secondFirst : ∃ s, (machineOf (1 / 4 : ℚ) 2).Reachable s ∧
    ∃ fuel r, integrals fuel (1 / 4 : ℚ) 2 = some r ∧ s.world.wynik = some r := by
  have hrun : ((machineOf (1 / 4 : ℚ) 2).exec (Family.start (unread ℚ 2)) secondFirst).map
      (fun s => (s.parent, decide (∀ k, (s.children k).HasActed))) = some (.done, true) := by
    decide +kernel
  obtain ⟨s, hs, he⟩ := Option.map_eq_some_iff.mp hrun
  obtain ⟨hdone, hacted⟩ := Prod.mk.inj he
  have hreach : (machineOf (1 / 4 : ℚ) 2).Reachable s := Machine.Reachable.exec (.start rfl) hs
  refine ⟨s, hreach, (result_independent_of_order hreach hdone).1 fun k hk => ?_⟩
  have hk' := of_decide_eq_true hacted k
  rw [hk] at hk'
  exact hk'

/-! ### How it ends -/

section
variable {step : ℚ} {n : ℕ}

/-- With exact numbers a worker comes to its `write` exactly if the step is positive. -/
lemma finite_iff (k : Fin n) : (workers step n).Finite k ↔ 0 < step := by
  have hn : (0 : ℚ) < n := Nat.cast_pos.mpr (Nat.zero_lt_of_lt k.isLt)
  have hterminates : (workers step n).Finite k ↔ Terminates (k * (1 / n)) ((k + 1 : ℕ) * (1 / n)) step := by
    constructor
    · rintro ⟨e, he⟩
      obtain ⟨fuel, r, hr, -⟩ := (ends_iff k e).mp he
      exact ⟨fuel, r, hr⟩
    · rintro ⟨fuel, r, hr⟩
      exact ⟨put k r, (ends_iff k _).mpr ⟨fuel, r, hr, rfl⟩⟩
  rw [hterminates, terminates_iff_passes, exists_passes_iff, or_iff_left_of_imp]
  intro hle
  have hwidth : (0 : ℚ) < 1 / n := by positivity
  push_cast at hle
  linarith

/-- The program ends in every run exactly if the step is positive, and is never stuck before. With any other
step it does not end once a worker has been forked. -/
theorem ends_iff_step_pos (step : ℚ) (hn : 1 ≤ n) :
    ((∃ bound, ∀ as t, (machineOf step n).exec (Family.start (unread ℚ n)) as = some t → as.length ≤ bound) ↔
      0 < step) ∧
    (∀ s, (machineOf step n).Reachable s → (∀ a, (machineOf step n).next s a = none) → s.parent = .done) ∧
    (¬0 < step → ∀ s, (machineOf step n).Reachable s → s.parent = .done → ∀ k, s.children k = .unforked) := by
  refine ⟨⟨?_, fun hstep => ?_⟩, fun s _ hstuck => ?_, fun hstep s hs hdone k => ?_⟩
  · rintro ⟨bound, hbound⟩
    by_contra hstep
    have hinfinite : ¬(workers step n).Finite ⟨0, hn⟩ := fun h => hstep ((finite_iff _).mp h)
    obtain ⟨as, t, has, hlong⟩ := Family.exists_long_run hinfinite (unread ℚ n) (bound + 1)
    have hle := hbound as t has
    omega
  · exact ⟨_, fun as t h => Family.length_le (fun k => (finite_iff k).mpr hstep) h⟩
  · by_contra hnot
    obtain ⟨a, t, -, ht⟩ := Family.progress (P := workers step n) hnot
    exact absurd (hstuck a) (by rw [show (machineOf step n).next s a = some t from ht]; simp)
  · obtain ⟨-, hfinite, hunforked, -⟩ := Family.world_of_done hs hdone
    exact hunforked k fun hk => hstep ((finite_iff k).mp (hfinite k hk))

end

/-- With steps of a quarter, two workers come to an end. -/
theorem ends_iff_step_pos_two :
    ∃ bound, ∀ as t, (machineOf (1 / 4 : ℚ) 2).exec (Family.start (unread ℚ 2)) as = some t → as.length ≤ bound :=
  (ends_iff_step_pos (1 / 4 : ℚ) (by decide : 1 ≤ 2)).1.mpr (by norm_num)

end SystemyOperacyjne.Quadrature
