import SystemyOperacyjne.Library.Family

/-!
# The descendants

`cw4/zad1/descendant.c` forks as many children as its argument says. Each prints its parent and itself and
exits, and the program waits for all of them before it prints their number.
-/

namespace SystemyOperacyjne.Descendants
open Concurrency

/-- A line on the terminal. -/
inductive Line
  | child (ppid pid : ℕ)
  | number (descendantsNumber : ℤ)
  deriving DecidableEq, Repr

/-- `print` is before `printf`, and `exit` before the exit, which writes what `printf` has buffered. -/
inductive ChildPc
  | print
  | exit (line : Line)
  deriving DecidableEq, Repr

/-- The argument, the process itself, the children that `fork` would make, and the process that adopts
orphans. -/
structure Setting where
  descendantsNumber : ℤ
  pid : ℕ
  children : ℕ → ℕ
  init : ℕ

variable (x : Setting)

/-- How often the loop runs. -/
abbrev Setting.count : ℕ := x.descendantsNumber.toNat

/-- What `getppid` returns. -/
def getppid (parentRuns : Bool) : ℕ :=
  if parentRuns then x.pid else x.init

def program : Program x.count ChildPc (List Line) where
  entry _ := .print
  work k parentRuns
    | .print => .inl (.exit (.child (getppid x parentRuns) (x.children k)))
    | .exit line => .inr (· ++ [line])
  finish terminal := terminal ++ [.number x.descendantsNumber]

/-- Nothing is on the terminal yet. -/
def machine : Machine (Family.State x.count ChildPc (List Line)) (Family.Action x.count) :=
  Family.machine (program x) []

/-- The line of child `k`. -/
def lineOf (k : Fin x.count) : Line := .child x.pid (x.children k)

lemma ends (k : Fin x.count) : (program x).Ends k ((program x).entry k) (· ++ [lineOf x k]) :=
  ⟨2, rfl⟩

lemma after_eq (order : List (Fin x.count)) : (program x).after [] order = order.map (lineOf x) := by
  induction order using List.reverseRecOn with
  | nil => rfl
  | append_singleton order k ih =>
    rw [Program.after_append, Program.effect_eq (ends x k), ih, List.map_append]
    rfl

/-- What is on the terminal when the program ends. -/
def Prints (P : Family.State x.count ChildPc (List Line) → Family.Action x.count → Prop) (terminal : List Line) :
    Prop :=
  ∃ s, (machine x).ReachableBy P s ∧ s.parent = .done ∧ s.world = terminal

/-- The lines of the children can come in any order, each once and with the right parent, but the number
comes last. It is the argument, also if not all children could be forked. -/
theorem prints_iff (terminal : List Line) :
    (Prints x (fun _ _ => True) terminal ↔ ∃ order : List (Fin x.count), order.Nodup ∧
      terminal = order.map (lineOf x) ++ [.number x.descendantsNumber]) ∧
    (Prints x Family.Forks terminal ↔ ∃ order : List (Fin x.count), order.Perm (List.finRange x.count) ∧
      terminal = order.map (lineOf x) ++ [.number x.descendantsNumber]) := by
  have hworld : ∀ s, (machine x).Reachable s → s.parent = .done →
      s.order.Nodup ∧ s.world = s.order.map (lineOf x) ++ [.number x.descendantsNumber] := by
    intro s hs hdone
    obtain ⟨hnodup, -, -, hw⟩ := Family.world_of_done hs hdone
    rw [after_eq] at hw
    exact ⟨hnodup, hw⟩
  constructor
  · constructor
    · rintro ⟨s, hs, hdone, rfl⟩
      exact ⟨s.order, hworld s hs hdone⟩
    · rintro ⟨order, hnodup, rfl⟩
      obtain ⟨t, ht, hdone, horder⟩ := Family.exists_run (program x) [] hnodup fun k _ => ⟨_, ends x k⟩
      have hreach : (machine x).Reachable t := ht.reachable (.start rfl)
      refine ⟨t, hreach, hdone, ?_⟩
      rw [(hworld t hreach hdone).2, horder]
  · constructor
    · rintro ⟨s, hs, hdone, rfl⟩
      obtain ⟨hnodup, hw⟩ := hworld s (hs.mono fun _ _ _ => trivial) hdone
      refine ⟨s.order, (List.perm_ext_iff_of_nodup hnodup (List.nodup_finRange _)).mpr fun k => ?_, hw⟩
      exact iff_of_true (Family.mem_order_of_forks hs hdone k) (List.mem_finRange k)
    · rintro ⟨order, hperm, rfl⟩
      obtain ⟨t, ht, hdone, horder⟩ := Family.exists_run (program x) []
        (hperm.nodup_iff.mpr (List.nodup_finRange _)) fun k _ => ⟨_, ends x k⟩
      have hforks : (machine x).ReachableBy Family.Forks t := by
        refine ht.reachableBy (fun _ a ha hfail => ?_) (.start rfl)
        obtain ⟨k, hk⟩ := ha hfail
        exact hk (hperm.mem_iff.mpr (List.mem_finRange k))
      refine ⟨t, hforks, hdone, ?_⟩
      rw [(hworld t (hforks.mono fun _ _ _ => trivial) hdone).2, horder]

end SystemyOperacyjne.Descendants
