import SystemyOperacyjne.Flipper

/-!
# Several runs of the flipper

Where no source is a destination, a run that comes to its end makes good whatever runs before it have
left, and a run in the other direction restores the sources.
-/

namespace SystemyOperacyjne.Flipper
open CString Copying FileStream FileSystem ReverseCopy

variable {δ π : Type}

/-- The same directories at another time, when other opens fail. -/
def Setting.retry (x : Setting δ π) (refusesDir : Bool) (refuses : Path → Mode → Bool) (byte : UInt8) : Setting δ π :=
  { x with refusesDir := refusesDir, refuses := refuses, byte := byte }

variable [DecidableEq π] {x y : Setting δ π} {disk disk' : Disk π} {name : List UInt8} {p : π}

/-- The files after any number of runs, each of which returns 0 or 1. -/
inductive Attempted (x : Setting δ π) (disk : Disk π) : Disk π → Prop
  | nothing : Attempted x disk disk
  | again {disk' : Disk π} (h : Attempted x disk disk') (refusesDir : Bool) (refuses : Path → Mode → Bool) (byte : UInt8)
      (hfault : (main (x.retry refusesDir refuses byte) disk').1 ≠ .fault) :
      Attempted x disk (main (x.retry refusesDir refuses byte) disk').2

/-- The sources and the destinations are different files. -/
def Separate (x : Setting δ π) : Prop :=
  Apart ((entries x).map (copyOf x))

/-- The run `y` goes back from the destination of `x` to its source, and finds there all that `x` has made. -/
structure Back (x y : Setting δ π) : Prop where
  argv1 : y.argv1 = x.argv2
  argv2 : y.argv2 = x.argv1
  directory : y.tree.directory = x.tree.directory
  file : y.tree.file = x.tree.file
  entries : entries x ⊆ entries y

/-! ### What a run leaves alone -/

lemma fopen_r (tree : Tree δ π) (refuses : Path → Mode → Bool) (disk : Disk π) (path : Path) :
    fopen tree refuses disk path .r = (none, disk) ∨
      fopen tree refuses disk path .r = (some ⟨tree.locate path, 0⟩, disk) := by
  simp only [fopen]
  split
  · exact .inl rfl
  · exact .inr rfl

lemma fopen_w (tree : Tree δ π) (refuses : Path → Mode → Bool) (disk : Disk π) (path : Path) :
    fopen tree refuses disk path .w = (none, disk) ∨ fopen tree refuses disk path .w =
      (some ⟨tree.locate path, 0⟩, Function.update disk (tree.locate path) (some [])) := by
  simp only [fopen]
  split
  · exact .inl rfl
  · exact .inr rfl

lemma flipFile_of_ne (h : endsTxt name = true → receiver x name ≠ p) : (flipFile x disk name).2 p = disk p := by
  by_cases htxt : endsTxt name = true
  · have hp : p ≠ x.tree.locate ⟨x.argv2, name⟩ := (h htxt).symm
    rw [flipFile, if_pos htxt]
    split
    · next giverFilePath receiverFilePath hgiver hreceiver =>
      simp only [sprintf, Option.ite_none_right_eq_some, Option.some.injEq] at hgiver hreceiver
      obtain ⟨-, rfl⟩ := hgiver
      obtain ⟨-, rfl⟩ := hreceiver
      obtain hr | hr := fopen_r x.tree x.refuses disk ⟨x.argv1, name⟩
      · obtain hw | hw := fopen_w x.tree x.refuses disk ⟨x.argv2, name⟩
        · simp only [hr, hw]
        · simp only [hr, hw, Function.update_of_ne hp]
      · obtain hw | hw := fopen_w x.tree x.refuses disk ⟨x.argv2, name⟩
        · simp only [hr, hw]
        · simp only [hr, hw]
          rw [store_reverse_copy, Function.update_of_ne hp]
    · rfl
  · rw [flipFile, if_neg htxt]

lemma flipFiles_of_ne {names : List (List UInt8)} (h : ∀ name ∈ names, endsTxt name = true → receiver x name ≠ p) :
    (flipFiles x disk names).2 p = disk p := by
  induction names generalizing disk with
  | nil => rfl
  | cons name names ih =>
    have hfile : (flipFile x disk name).2 p = disk p := flipFile_of_ne (h name List.mem_cons_self)
    have hrest : ∀ disk' : Disk π, (flipFiles x disk' names).2 p = disk' p :=
      fun disk' => ih fun name' hname' => h name' (List.mem_cons_of_mem name hname')
    rw [flipFiles]
    cases hflip : flipFile x disk name with
    | mk outcome disk' =>
      rw [hflip] at hfile
      cases outcome with
      | none => exact (hrest disk').trans hfile
      | some outcome => exact hfile

lemma main_of_ne (h : ∀ name ∈ entries x, receiver x name ≠ p) : (main x disk).2 p = disk p := by
  unfold main
  split
  · rfl
  · exact flipFiles_of_ne fun name hname htxt => h name (List.mem_filter.mpr ⟨hname, htxt⟩)

lemma Attempted.apply_of_ne (h : Attempted x disk disk') (hp : ∀ name ∈ entries x, receiver x name ≠ p) :
    disk' p = disk p := by
  induction h with
  | nothing => rfl
  | @again d h refusesDir refuses byte hfault ih =>
    have hmain : (main (x.retry refusesDir refuses byte) d).2 p = d p := main_of_ne hp
    exact hmain.trans ih

/-! ### What a run depends on -/

omit [DecidableEq π] in
lemma giver_ne_receiver (hseparate : Separate x) (h : name ∈ entries x) :
    ∀ name' ∈ entries x, receiver x name' ≠ giver x name := fun _ h' he =>
  hseparate.sources _ (List.mem_map_of_mem h) _ (List.mem_map_of_mem h') he.symm

lemma after_separate (hseparate : Separate x) (h : name ∈ entries x) :
    after x disk (entries x) (receiver x name) = some (contents disk (giver x name)).reverse :=
  (copies_right_iff x disk (entries x)).mpr hseparate.undisturbed name h

lemma completes_of_status (h : (main x disk).1.status = some 0) : Completes x disk := by
  obtain hcompletes | ⟨-, hstatus, -⟩ := main_cases x disk
  · exact hcompletes
  · exact absurd h hstatus

omit [DecidableEq π] in
lemma source_present (hseparate : Separate x) (hcompletes : Completes x disk) (h : name ∈ entries x) :
    disk (giver x name) ≠ none := by
  obtain ⟨earlier, later, hentries⟩ := List.append_of_mem h
  obtain ⟨-, ⟨-, hpresent⟩, -⟩ := hcompletes.2 earlier name later hentries
  refine hpresent.resolve_right ?_
  rintro ⟨e, he, hlink⟩
  have hmem : e ∈ entries x := by
    rw [hentries]
    exact List.mem_append_left _ he
  exact giver_ne_receiver hseparate h e hmem hlink

section
variable (hseparate : Separate x) (hsame : ∀ p, (∀ name ∈ entries x, receiver x name ≠ p) → disk' p = disk p)
include hseparate hsame

/-- What is in the destinations does not matter for a run that comes to its end. -/
lemma after_congr : after x disk' (entries x) = after x disk (entries x) := by
  funext p
  by_cases hp : ∃ name ∈ entries x, receiver x name = p
  · obtain ⟨name, hname, rfl⟩ := hp
    have hgiver := hsame _ (giver_ne_receiver hseparate hname)
    rw [after_separate hseparate hname, after_separate hseparate hname, contents, contents, hgiver]
  · have hne : ∀ name ∈ entries x, receiver x name ≠ p := fun name hname he => hp ⟨name, hname, he⟩
    rw [after_of_ne hne, after_of_ne hne, hsame p hne]

omit [DecidableEq π] in
lemma completes_congr (h : Completes x disk') : Completes x disk := by
  refine ⟨h.1, fun earlier name later hentries => ?_⟩
  obtain ⟨hfits, ⟨hrefuses, hpresent⟩, hreceiver⟩ := h.2 earlier name later hentries
  have hname : name ∈ entries x := by
    rw [hentries]
    simp
  rw [hsame _ (giver_ne_receiver hseparate hname)] at hpresent
  exact ⟨hfits, ⟨hrefuses, hpresent⟩, hreceiver⟩

lemma main_congr (h : (main x disk').1.status = some 0) : main x disk' = main x disk := by
  have hcompletes := completes_of_status h
  rw [main_done hcompletes, main_done (completes_congr hseparate hsame hcompletes), after_congr hseparate hsame]

end

/-! ### Run after run -/

/-- Whatever number of runs has stopped on the way or not, for whatever files that could not be opened: a run that
returns 0 leaves what it would have left as the first, the reverse of every source in its destination. -/
theorem rerun_repairs (hseparate : Separate x) (h : Attempted x disk disk') (hstatus : (main x disk').1.status = some 0) :
    main x disk' = main x disk ∧ (∀ name ∈ entries x,
      (main x disk').2 (receiver x name) = some (contents disk (giver x name)).reverse) ∧
      ∀ p, (∀ name ∈ entries x, receiver x name ≠ p) → (main x disk').2 p = disk p := by
  have hmain := main_congr hseparate (fun p hp => h.apply_of_ne hp) hstatus
  have hcompletes : Completes x disk := by
    rw [hmain] at hstatus
    exact completes_of_status hstatus
  rw [hmain, main_done hcompletes]
  exact ⟨rfl, fun name hname => after_separate hseparate hname, fun p hp => after_of_ne hp⟩

/-- A first run that cannot read the source empties the destination; a second one fills it. -/
theorem rerun_repairs_second : ∃ disk' : Disk Bool, disk' true = some [] ∧
    main (twoDirectories fun _ _ => false) disk' =
      main (twoDirectories fun _ _ => false) (fun b => if b then some [7] else some [1, 2]) := by
  let x := twoDirectories fun _ _ => false
  let disk : Disk Bool := fun b => if b then some [7] else some [1, 2]
  have hnothing : Attempted x disk disk := .nothing
  have hattempted := hnothing.again false (fun _ mode => mode == .r) 0 (by decide +kernel)
  have hseparate : Separate x := by
    constructor <;> decide +kernel
  exact ⟨_, by decide +kernel, (rerun_repairs hseparate hattempted (by decide +kernel)).1⟩

/-! ### There and back -/

omit [DecidableEq π] in
lemma giver_back (h : Back x y) (name : List UInt8) : giver y name = receiver x name := by
  simp only [giver, receiver, Tree.locate, h.argv1, h.directory, h.file]

omit [DecidableEq π] in
lemma receiver_back (h : Back x y) (name : List UInt8) : receiver y name = giver x name := by
  simp only [giver, receiver, Tree.locate, h.argv2, h.directory, h.file]

/-- When a run there and a run back have returned 0, each after any number of attempts, every source holds what it
held at first, and nothing else has changed but destinations. -/
theorem there_and_back {there back : Disk π} (hback : Back x y) (hx : Separate x) (hy : Separate y)
    (hthere : Attempted x disk there) (hthereStatus : (main x there).1.status = some 0)
    (hreturns : Attempted y (main x there).2 back) (hbackStatus : (main y back).1.status = some 0) :
    (∀ name ∈ entries x, (main y back).2 (giver x name) = disk (giver x name)) ∧
      ∀ p, (∀ name ∈ entries x, receiver x name ≠ p) → (∀ name ∈ entries y, receiver y name ≠ p) →
        (main y back).2 p = disk p := by
  have hsameThere : ∀ p, (∀ name ∈ entries x, receiver x name ≠ p) → (main x there).2 p = disk p :=
    fun p hp => (main_of_ne hp).trans (hthere.apply_of_ne hp)
  have hcompletes := completes_congr hx (fun p hp => hthere.apply_of_ne hp) (completes_of_status hthereStatus)
  have hmainThere := main_congr hx (fun p hp => hthere.apply_of_ne hp) hthereStatus
  have hmainBack := main_congr hy (fun p hp => hreturns.apply_of_ne hp) hbackStatus
  have hreturned := completes_congr hy (fun p hp => hreturns.apply_of_ne hp) (completes_of_status hbackStatus)
  refine ⟨fun name hname => ?_, fun p hp hq => ?_⟩
  · have hmade : (main x there).2 (receiver x name) = some (contents disk (giver x name)).reverse := by
      rw [hmainThere, main_done hcompletes]
      exact after_separate hx hname
    have hrestored : (main y back).2 (receiver y name) = some (contents (main x there).2 (giver y name)).reverse := by
      rw [hmainBack, main_done hreturned]
      exact after_separate hy (hback.entries hname)
    rw [receiver_back hback, giver_back hback, contents, hmade, Option.getD_some, List.reverse_reverse] at hrestored
    obtain ⟨content, hcontent⟩ := Option.ne_none_iff_exists'.mp (source_present hx hcompletes hname)
    rw [hrestored, contents, hcontent, Option.getD_some]
  · exact (main_of_ne hq).trans ((hreturns.apply_of_ne hq).trans (hsameThere p hp))

/-- The way back begins with a run that empties the source. -/
theorem there_and_back_second : ∃ there back : Disk Bool, there true = some [2, 1] ∧ back false = some [] ∧
    (main { twoDirectories fun _ _ => false with argv1 := bytesOf "b", argv2 := bytesOf "a" } back).2 false =
      some [1, 2] := by
  let x := twoDirectories fun _ _ => false
  let y := { x with argv1 := bytesOf "b", argv2 := bytesOf "a" }
  let disk : Disk Bool := fun b => if b then none else some [1, 2]
  have hback : Back x y := ⟨rfl, rfl, rfl, rfl, by decide +kernel⟩
  have hx : Separate x := by
    constructor <;> decide +kernel
  have hy : Separate y := by
    constructor <;> decide +kernel
  have hnothing : Attempted y (main x disk).2 (main x disk).2 := .nothing
  have hattempted := hnothing.again false (fun _ mode => mode == .r) 0 (by decide +kernel)
  have hrestored := there_and_back hback hx hy .nothing (by decide +kernel) hattempted (by decide +kernel)
  exact ⟨(main x disk).2, _, by decide +kernel, by decide +kernel, hrestored.1 (bytesOf "n.txt") (by decide +kernel)⟩

end SystemyOperacyjne.Flipper
