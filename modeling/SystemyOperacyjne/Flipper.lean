import SystemyOperacyjne.Library.Copying
import SystemyOperacyjne.Library.FileSystem
import SystemyOperacyjne.ReverseCopy

/-!
# The flipper

`main` of `cw3/DziwakNorbert-cw03/flipper.c`, which writes the reverse of every `.txt` file of one
directory to a file of the same name in another. Each destination is opened, and thereby emptied,
before a byte of its source is read, and before it is known that the source could be opened.
-/

namespace SystemyOperacyjne.Flipper
open CString Copying FileStream FileSystem ReverseCopy

/-- The arguments, the directories, the opens that fail, and the value of an uninitialised variable. -/
structure Setting (δ π : Type) where
  argv1 : List UInt8
  argv2 : List UInt8
  tree : Tree δ π
  refusesDir : Bool
  refuses : Path → Mode → Bool
  byte : UInt8

inductive Outcome
  | done
  | dirError
  | giverError (name : List UInt8)
  | receiverError (name : List UInt8)
  | fault
  deriving DecidableEq

/-- What `main` returns; the behaviour after an access outside an array is undefined. -/
def Outcome.status : Outcome → Option ℕ
  | .done => some 0
  | .dirError => some 1
  | .giverError _ => some 1
  | .receiverError _ => some 1
  | .fault => none

/-- The last four bytes of the name are `".txt"`; shorter names have no last four. -/
def endsTxt (name : List UInt8) : Bool :=
  4 ≤ name.length && name.drop (name.length - 4) == bytesOf ".txt"

/-- `sprintf` to an array of 1024 bytes. -/
def sprintf (path : Path) : Option Path :=
  if path.text.length < 1024 then some path else none

section
variable {δ π : Type} [DecidableEq π] (x : Setting δ π)

/-- The body of the loop; no outcome means that the loop goes on. -/
def flipFile (disk : Disk π) (name : List UInt8) : Option Outcome × Disk π :=
  if endsTxt name then
    match sprintf ⟨x.argv1, name⟩, sprintf ⟨x.argv2, name⟩ with
    | some giverFilePath, some receiverFilePath =>
      let (giverFile, disk) := fopen x.tree x.refuses disk giverFilePath .r
      let (receiverFile, disk) := fopen x.tree x.refuses disk receiverFilePath .w
      match giverFile, receiverFile with
      | none, _ => (some (.giverError name), disk)
      | some _, none => (some (.receiverError name), disk)
      | some giver, some receiver =>
        (none, store disk (reverse_copy x.byte (contents disk) giver receiver).files)
    | _, _ => (some .fault, disk)
  else (none, disk)

/-- The loop over the entries that `readdir` returns. -/
def flipFiles : Disk π → List (List UInt8) → Outcome × Disk π
  | disk, [] => (.done, disk)
  | disk, name :: names =>
    match flipFile x disk name with
    | (none, disk) => flipFiles disk names
    | (some outcome, disk) => (outcome, disk)

def main (disk : Disk π) : Outcome × Disk π :=
  if x.refusesDir then (.dirError, disk)
  else flipFiles x disk (x.tree.names (x.tree.directory x.argv1))

end

/-! ### The entries -/

section
variable {δ π : Type} (x : Setting δ π) (disk : Disk π)

/-- The `.txt` entries of the source directory. -/
def entries : List (List UInt8) :=
  (x.tree.names (x.tree.directory x.argv1)).filter endsTxt

def giver (name : List UInt8) : π := x.tree.locate ⟨x.argv1, name⟩

def receiver (name : List UInt8) : π := x.tree.locate ⟨x.argv2, name⟩

/-- The copy that is made for an entry. -/
def copyOf (name : List UInt8) : Copy π := ⟨giver x name, receiver x name⟩

/-- The paths of an entry fit in the arrays. -/
def Fits (name : List UInt8) : Prop :=
  (Path.text ⟨x.argv1, name⟩).length < 1024 ∧ (Path.text ⟨x.argv2, name⟩).length < 1024

/-- After the entries `earlier`, the source of an entry exists and can be opened. -/
def GiverOpens (earlier : List (List UInt8)) (name : List UInt8) : Prop :=
  x.refuses ⟨x.argv1, name⟩ .r = false ∧ (disk (giver x name) ≠ none ∨ ∃ e ∈ earlier, receiver x e = giver x name)

/-- After the entries `earlier`, both files of an entry can be opened. -/
def Opens (earlier : List (List UInt8)) (name : List UInt8) : Prop :=
  Fits x name ∧ GiverOpens x disk earlier name ∧ x.refuses ⟨x.argv2, name⟩ .w = false

/-- The files of all these entries can be opened, one entry after the other. -/
def AllOpen (names : List (List UInt8)) : Prop :=
  ∀ earlier name later, names = earlier ++ name :: later → Opens x disk earlier name

variable [DecidableEq π]

/-- The files when the copies for these entries have been made. -/
def after (names : List (List UInt8)) : Disk π := fun p =>
  if ∃ name ∈ names, receiver x name = p then
    some (run List.reverse [] (contents disk) (names.map (copyOf x)) p)
  else disk p

variable {x disk}

lemma after_nil : after x disk [] = disk := by
  funext p
  simp [after]

lemma after_receiver {names : List (List UInt8)} {name : List UInt8} (h : name ∈ names) :
    after x disk names (receiver x name) =
      some (run List.reverse [] (contents disk) (names.map (copyOf x)) (receiver x name)) :=
  if_pos ⟨name, h, rfl⟩

lemma after_of_ne {names : List (List UInt8)} {p : π} (h : ∀ name ∈ names, receiver x name ≠ p) :
    after x disk names p = disk p :=
  if_neg fun ⟨name, hname, hp⟩ => h name hname hp

lemma contents_after (names : List (List UInt8)) :
    contents (after x disk names) = run List.reverse [] (contents disk) (names.map (copyOf x)) := by
  funext p
  by_cases h : ∃ name ∈ names, receiver x name = p
  · rw [contents, after, if_pos h, Option.getD_some]
  · have hne : ∀ c ∈ names.map (copyOf x), c.target ≠ p := by
      intro c hc hp
      obtain ⟨name, hname, rfl⟩ := List.mem_map.mp hc
      exact h ⟨name, hname, hp⟩
    rw [contents, after, if_neg h, run_of_not_target hne]
    rfl

lemma after_eq_none_iff (names : List (List UInt8)) (p : π) :
    after x disk names p ≠ none ↔ disk p ≠ none ∨ ∃ name ∈ names, receiver x name = p := by
  by_cases h : ∃ name ∈ names, receiver x name = p
  · rw [after, if_pos h]
    simp [h]
  · rw [after, if_neg h]
    simp [h]

lemma after_append_singleton (names : List (List UInt8)) (name : List UInt8) :
    after x disk (names ++ [name]) = Function.update (after x disk names) (receiver x name)
      (some (copy List.reverse [] (contents (after x disk names)) (copyOf x name) (receiver x name))) := by
  funext p
  have hrun : run List.reverse [] (contents disk) ((names ++ [name]).map (copyOf x)) =
      copy List.reverse [] (contents (after x disk names)) (copyOf x name) := by
    rw [List.map_append, run_append, ← contents_after]
    rfl
  by_cases hp : p = receiver x name
  · subst hp
    rw [Function.update_self, after_receiver (by simp), hrun]
  · rw [Function.update_of_ne hp, after, after, hrun, copy_of_ne hp, contents_after]
    simp [Ne.symm hp]

/-! ### The loop -/

omit [DecidableEq π] in
lemma store_apply_of_eq {disk : Disk π} {files : Files π} {p : π} (h : files p = contents disk p) :
    store disk files p = disk p := by
  unfold store
  rw [h, contents]
  cases disk p <;> rfl

lemma contents_update (disk : Disk π) (r : π) (content : List UInt8) :
    contents (Function.update disk r (some content)) = Function.update (contents disk) r content := by
  funext p
  unfold contents
  by_cases hp : p = r
  · subst hp
    simp
  · simp [Function.update_of_ne hp]

lemma store_reverse_copy (byte : UInt8) (disk : Disk π) (g r : π) :
    let emptied := Function.update disk r (some [])
    store emptied (reverse_copy byte (contents emptied) ⟨g, 0⟩ ⟨r, 0⟩).files =
      Function.update disk r (some (copy List.reverse [] (contents disk) ⟨g, r⟩ r)) := by
  intro emptied
  have hcontents : contents emptied = Function.update (contents disk) r [] := contents_update disk r []
  rw [reverse_copy_files byte ⟨g, 0⟩ ⟨r, 0⟩ (by rw [hcontents, Function.update_self]) rfl]
  funext p
  by_cases hp : p = r
  · subst hp
    rw [Function.update_self, store, Function.update_self, copy, Function.update_self, hcontents]
    exact congrArg (Option.map _) (Function.update_self p (some []) disk)
  · rw [Function.update_of_ne hp, store_apply_of_eq (Function.update_of_ne hp _ _)]
    exact Function.update_of_ne hp _ _

variable {names : List (List UInt8)} {name : List UInt8}

lemma flipFile_opens (htxt : endsTxt name = true) (h : Opens x disk names name) :
    flipFile x (after x disk names) name = (none, after x disk (names ++ [name])) := by
  obtain ⟨⟨hfits₁, hfits₂⟩, ⟨hgiver, hpresent⟩, hreceiver⟩ := h
  have hpresent : after x disk names (x.tree.locate ⟨x.argv1, name⟩) ≠ none :=
    (after_eq_none_iff names _).mpr hpresent
  simp only [flipFile, if_pos htxt, sprintf, if_pos hfits₁, if_pos hfits₂, fopen, hgiver, hreceiver, hpresent]
  simp only [Bool.false_eq_true, or_self, if_false]
  rw [after_append_singleton, store_reverse_copy]
  rfl

/-- The destination is emptied although the source cannot be opened. -/
lemma flipFile_stops (htxt : endsTxt name = true) (hfits : Fits x name) (h : ¬GiverOpens x disk names name) :
    flipFile x (after x disk names) name = (some (.giverError name),
      if x.refuses ⟨x.argv2, name⟩ .w then after x disk names
      else Function.update (after x disk names) (receiver x name) (some [])) := by
  obtain ⟨hfits₁, hfits₂⟩ := hfits
  have hfails : x.refuses ⟨x.argv1, name⟩ .r = true ∨ after x disk names (x.tree.locate ⟨x.argv1, name⟩) = none := by
    by_contra hnot
    rw [not_or, Bool.not_eq_true] at hnot
    exact h ⟨hnot.1, (after_eq_none_iff names _).mp hnot.2⟩
  simp only [flipFile, if_pos htxt, sprintf, if_pos hfits₁, if_pos hfits₂, fopen, if_pos hfails]
  split <;> rfl

lemma flipFile_fails (htxt : endsTxt name = true) (h : ¬Opens x disk names name) :
    ∃ outcome disk', flipFile x (after x disk names) name = (some outcome, disk') ∧ outcome ≠ .done ∧
      outcome ≠ .dirError ∧ ∀ name', outcome = .giverError name' →
        name' = name ∧ Fits x name ∧ ¬GiverOpens x disk names name := by
  by_cases hfits : Fits x name
  · by_cases hgiver : GiverOpens x disk names name
    · have hreceiver : x.refuses ⟨x.argv2, name⟩ .w = true := by
        by_contra hnot
        exact h ⟨hfits, hgiver, Bool.not_eq_true _ ▸ hnot⟩
      have hpresent : after x disk names (x.tree.locate ⟨x.argv1, name⟩) ≠ none :=
        (after_eq_none_iff names _).mpr hgiver.2
      refine ⟨.receiverError name, after x disk names, ?_, by simp, by simp, by simp⟩
      simp only [flipFile, if_pos htxt, sprintf, if_pos hfits.1, if_pos hfits.2, fopen, hgiver.1, hreceiver, hpresent]
      simp
    · exact ⟨.giverError name, _, flipFile_stops htxt hfits hgiver, by simp, by simp,
        fun name' heq => ⟨(Outcome.giverError.inj heq).symm, hfits, hgiver⟩⟩
  · refine ⟨.fault, after x disk names, ?_, by simp, by simp, by simp⟩
    rw [flipFile, if_pos htxt]
    by_cases hfits₁ : (Path.text ⟨x.argv1, name⟩).length < 1024
    · have hfits₂ : ¬(Path.text ⟨x.argv2, name⟩).length < 1024 := fun hfits₂ => hfits ⟨hfits₁, hfits₂⟩
      simp only [sprintf, if_pos hfits₁, if_neg hfits₂]
    · simp only [sprintf, if_neg hfits₁]

lemma flipFiles_filter (disk : Disk π) (names : List (List UInt8)) :
    flipFiles x disk names = flipFiles x disk (names.filter endsTxt) := by
  induction names generalizing disk with
  | nil => rfl
  | cons name names ih =>
    by_cases htxt : endsTxt name = true
    · rw [List.filter_cons_of_pos htxt, flipFiles, flipFiles]
      cases flipFile x disk name with
      | mk outcome disk' =>
        cases outcome with
        | none => exact ih disk'
        | some outcome => rfl
    · rw [List.filter_cons_of_neg htxt, flipFiles, flipFile, if_neg htxt]
      exact ih disk

omit [DecidableEq π] in
lemma allOpen_append_singleton : AllOpen x disk (names ++ [name]) ↔ AllOpen x disk names ∧ Opens x disk names name := by
  constructor
  · intro h
    refine ⟨fun earlier name' later hnames => ?_, h names name [] rfl⟩
    exact h earlier name' (later ++ [name]) (by rw [hnames]; simp)
  · rintro ⟨hnames, hname⟩ earlier name' later heq
    rcases List.eq_nil_or_concat later with rfl | ⟨later, last, rfl⟩
    · obtain ⟨rfl, hlast⟩ := List.append_inj' heq rfl
      rwa [← List.head_eq_of_cons_eq hlast]
    · have heq : names ++ [name] = (earlier ++ name' :: later) ++ [last] := by
        rw [heq]
        simp
      exact hnames earlier name' later (List.append_inj' heq rfl).1

omit [DecidableEq π] in
lemma allOpen_or (x : Setting δ π) (disk : Disk π) (names : List (List UInt8)) : AllOpen x disk names ∨
    ∃ earlier name later, names = earlier ++ name :: later ∧ AllOpen x disk earlier ∧ ¬Opens x disk earlier name := by
  induction names using List.reverseRecOn with
  | nil => exact .inl fun earlier name later h => absurd h (by simp)
  | append_singleton names name ih =>
    rcases ih with hall | ⟨earlier, name', later, rfl, hall, hfails⟩
    · by_cases hopens : Opens x disk names name
      · exact .inl (allOpen_append_singleton.mpr ⟨hall, hopens⟩)
      · exact .inr ⟨names, name, [], rfl, hall, hopens⟩
    · exact .inr ⟨earlier, name', later ++ [name], by simp, hall, hfails⟩

lemma flipFiles_append (htxt : ∀ name ∈ names, endsTxt name = true) (hopen : AllOpen x disk names)
    (more : List (List UInt8)) : flipFiles x disk (names ++ more) = flipFiles x (after x disk names) more := by
  induction names using List.reverseRecOn generalizing more with
  | nil => rw [after_nil, List.nil_append]
  | append_singleton names name ih =>
    obtain ⟨hall, hopens⟩ := allOpen_append_singleton.mp hopen
    rw [List.append_assoc, List.singleton_append, ih (fun name' h => htxt name' (by simp [h])) hall, flipFiles,
      flipFile_opens (htxt name (by simp)) hopens]

/-- `main` reaches the end of the directory. -/
def Completes (x : Setting δ π) (disk : Disk π) : Prop :=
  x.refusesDir = false ∧ AllOpen x disk (entries x)

/-- `main` comes to this entry, and cannot open its source. -/
def StopsAt (x : Setting δ π) (disk : Disk π) (earlier : List (List UInt8)) (name : List UInt8) : Prop :=
  x.refusesDir = false ∧ AllOpen x disk earlier ∧ Fits x name ∧ ¬GiverOpens x disk earlier name

lemma main_eq (hdir : x.refusesDir = false) : main x disk = flipFiles x disk (entries x) := by
  rw [main, if_neg (by rw [hdir]; simp), flipFiles_filter]
  rfl

omit [DecidableEq π] in
lemma endsTxt_of_mem (h : name ∈ entries x) : endsTxt name = true :=
  (List.mem_filter.mp h).2

lemma main_done (h : Completes x disk) : main x disk = (.done, after x disk (entries x)) := by
  have hall := flipFiles_append (fun name hname => endsTxt_of_mem hname) h.2 []
  rw [main_eq h.1, ← List.append_nil (entries x), hall, List.append_nil]
  rfl

/-- What is on the disk when the source of `name` could not be opened. -/
def stopped (x : Setting δ π) (disk : Disk π) (earlier : List (List UInt8)) (name : List UInt8) : Disk π :=
  if x.refuses ⟨x.argv2, name⟩ .w then after x disk earlier
  else Function.update (after x disk earlier) (receiver x name) (some [])

lemma main_stops {earlier later : List (List UInt8)} (hentries : entries x = earlier ++ name :: later)
    (h : StopsAt x disk earlier name) : main x disk = (.giverError name, stopped x disk earlier name) := by
  obtain ⟨hdir, hopen, hfits, hgiver⟩ := h
  have htxt : ∀ name' ∈ earlier ++ name :: later, endsTxt name' = true := fun name' hname =>
    endsTxt_of_mem (hentries ▸ hname)
  rw [main_eq hdir, hentries, flipFiles_append (fun name' h => htxt name' (by simp [h])) hopen, flipFiles,
    flipFile_stops (htxt name (by simp)) hfits hgiver]
  rfl

/-- Where `main` ends. -/
theorem main_cases (x : Setting δ π) (disk : Disk π) : Completes x disk ∨
    (main x disk).1 ≠ .done ∧ (main x disk).1.status ≠ some 0 ∧ ∀ name, (main x disk).1 = .giverError name →
      ∃ earlier later, entries x = earlier ++ name :: later ∧ StopsAt x disk earlier name := by
  by_cases hdir : x.refusesDir = true
  · right
    rw [main, if_pos hdir]
    exact ⟨by simp, by simp [Outcome.status], by simp⟩
  · rw [Bool.not_eq_true] at hdir
    rcases allOpen_or x disk (entries x) with hall | ⟨earlier, name, later, hentries, hopen, hfails⟩
    · exact .inl ⟨hdir, hall⟩
    · right
      have htxt : ∀ name' ∈ earlier ++ name :: later, endsTxt name' = true := fun name' hname =>
        endsTxt_of_mem (hentries ▸ hname)
      obtain ⟨outcome, disk', hflip, hdone, -, hgiver⟩ := flipFile_fails (htxt name (by simp)) hfails
      have hmain : main x disk = (outcome, disk') := by
        rw [main_eq hdir, hentries, flipFiles_append (fun name' h => htxt name' (by simp [h])) hopen, flipFiles, hflip]
      rw [hmain]
      refine ⟨hdone, ?_, fun name' hname' => ?_⟩
      · cases outcome <;> simp [Outcome.status] at hdone ⊢
      · obtain ⟨rfl, hfits, hnot⟩ := hgiver name' hname'
        exact ⟨earlier, later, hentries, hdir, hopen, hfits, hnot⟩

/-! ### Success -/

/-- If `main` returns 0, every destination holds the reverse of what its source held, and no other file
is changed. -/
def Flips (x : Setting δ π) (disk : Disk π) : Prop :=
  (main x disk).1.status = some 0 →
    (∀ name ∈ entries x, (main x disk).2 (receiver x name) = some (contents disk (giver x name)).reverse) ∧
    ∀ p, (∀ name ∈ entries x, receiver x name ≠ p) → (main x disk).2 p = disk p

lemma copies_right_iff (x : Setting δ π) (disk : Disk π) (names : List (List UInt8)) :
    (∀ name ∈ names, after x disk names (receiver x name) = some (contents disk (giver x name)).reverse) ↔
      Undisturbed List.reverse [] (contents disk) (names.map (copyOf x)) := by
  rw [← run_eq_iff List.reverse_injective, List.forall_mem_map]
  refine forall₂_congr fun name hname => ?_
  rw [after_receiver hname, Option.some_inj]
  rfl

/-- `main` is right exactly if it does not come to the end, or every source holds what it held before
when its turn comes. -/
theorem flips_iff (x : Setting δ π) (disk : Disk π) : Flips x disk ↔
    (Completes x disk → Undisturbed List.reverse [] (contents disk) ((entries x).map (copyOf x))) := by
  rw [← copies_right_iff]
  rcases main_cases x disk with hcompletes | ⟨-, hstatus, -⟩
  · rw [Flips, main_done hcompletes]
    constructor
    · intro h _
      exact (h rfl).1
    · intro h _
      exact ⟨h hcompletes, fun p hp => after_of_ne hp⟩
  · refine iff_of_true (fun h => absurd h hstatus) fun hcompletes => ?_
    rw [main_done hcompletes] at hstatus
    exact absurd rfl hstatus

lemma undisturbed_same_directory (x : Setting δ π) (disk : Disk π)
    (hsame : x.tree.directory x.argv1 = x.tree.directory x.argv2) :
    Undisturbed List.reverse [] (contents disk) ((entries x).map (copyOf x)) ↔
      ∀ name ∈ entries x, contents disk (giver x name) = [] := by
  have hself : ∀ c ∈ (entries x).map (copyOf x), c.source = c.target := by
    intro c hc
    obtain ⟨name, -, rfl⟩ := List.mem_map.mp hc
    exact congrArg (x.tree.file · name) hsame
  rw [undisturbed_self_iff hself, List.forall_mem_map]
  rfl

/-! ### A source that cannot be opened -/

/-- If `main` stops since a source cannot be opened, the destination is as before, and the copies for
the entries before it are right. -/
def KeepsOnError (x : Setting δ π) (disk : Disk π) : Prop :=
  ∀ name disk', main x disk = (.giverError name, disk') →
    disk' (receiver x name) = disk (receiver x name) ∧
    ∀ earlier later, entries x = earlier ++ name :: later → name ∉ earlier →
      ∀ name' ∈ earlier, disk' (receiver x name') = some (contents disk (giver x name')).reverse

/-- The destination could not be opened either, or it was there and empty; and the sources of the
earlier entries are undisturbed, where emptying a file counts as copying it to itself. -/
def Harmless (x : Setting δ π) (disk : Disk π) (earlier : List (List UInt8)) (name : List UInt8) : Prop :=
  if x.refuses ⟨x.argv2, name⟩ .w then
    Undisturbed List.reverse [] (contents disk) (earlier.map (copyOf x)) ∧
      ∀ name' ∈ earlier, receiver x name' = receiver x name →
        disk (receiver x name) = some (contents disk (giver x name')).reverse
  else
    disk (receiver x name) ≠ none ∧ Undisturbed List.reverse [] (contents disk)
      (earlier.map (copyOf x) ++ [⟨receiver x name, receiver x name⟩])

lemma run_emptied (x : Setting δ π) (disk : Disk π) (earlier : List (List UInt8)) (r p : π) :
    run List.reverse [] (contents disk) (earlier.map (copyOf x) ++ [⟨r, r⟩]) p =
      contents (Function.update (after x disk earlier) r (some [])) p := by
  rw [run_append, contents_update, contents_after]
  change copy List.reverse [] _ ⟨r, r⟩ p = _
  by_cases hp : p = r
  · subst hp
    rw [copy, Function.update_self, Function.update_self, List.reverse_nil]
  · rw [copy_of_ne hp, Function.update_of_ne hp]

lemma harmless_of_refused (x : Setting δ π) (disk : Disk π) (earlier : List (List UInt8)) (r : π) :
    (Undisturbed List.reverse [] (contents disk) (earlier.map (copyOf x)) ∧
      ∀ name ∈ earlier, receiver x name = r → disk r = some (contents disk (giver x name)).reverse) ↔
    after x disk earlier r = disk r ∧
      ∀ name ∈ earlier, after x disk earlier (receiver x name) = some (contents disk (giver x name)).reverse := by
  rw [← copies_right_iff, and_comm]
  refine and_congr_left fun hright => ?_
  constructor
  · intro h
    by_cases hlinked : ∃ name ∈ earlier, receiver x name = r
    · obtain ⟨name, hmem, hlink⟩ := hlinked
      rw [h name hmem hlink, ← hright name hmem, hlink]
    · exact after_of_ne fun name hmem hlink => hlinked ⟨name, hmem, hlink⟩
  · intro h name hmem hlink
    rw [← h, ← hright name hmem, hlink]

lemma harmless_of_emptied (x : Setting δ π) (disk : Disk π) (earlier : List (List UInt8)) (r : π) :
    (disk r ≠ none ∧ Undisturbed List.reverse [] (contents disk) (earlier.map (copyOf x) ++ [⟨r, r⟩])) ↔
    Function.update (after x disk earlier) r (some []) r = disk r ∧ ∀ name ∈ earlier,
      Function.update (after x disk earlier) r (some []) (receiver x name) =
        some (contents disk (giver x name)).reverse := by
  have hsome : ∀ name ∈ earlier, ∃ content,
      Function.update (after x disk earlier) r (some []) (receiver x name) = some content := by
    intro name hmem
    by_cases hlink : receiver x name = r
    · exact ⟨[], by rw [hlink, Function.update_self]⟩
    · exact ⟨_, by rw [Function.update_of_ne hlink, after_receiver hmem]⟩
  have hcopies : (∀ name ∈ earlier, run List.reverse [] (contents disk) (earlier.map (copyOf x) ++ [⟨r, r⟩])
        (copyOf x name).target = (contents disk (copyOf x name).source).reverse) ↔
      ∀ name ∈ earlier, Function.update (after x disk earlier) r (some []) (receiver x name) =
        some (contents disk (giver x name)).reverse := by
    refine forall₂_congr fun name hmem => ?_
    obtain ⟨content, hcontent⟩ := hsome name hmem
    rw [run_emptied, copyOf, contents, hcontent, Option.getD_some, Option.some_inj]
  have hself : run List.reverse [] (contents disk) (earlier.map (copyOf x) ++ [⟨r, r⟩]) r = [] := by
    rw [run_emptied, contents, Function.update_self]
    rfl
  rw [← run_eq_iff List.reverse_injective, List.forall_mem_append, List.forall_mem_map, List.forall_mem_singleton,
    hself, hcopies, Function.update_self, contents]
  cases disk r with
  | none => simp
  | some content =>
    have hempty : [] = content.reverse ↔ [] = content := by rw [eq_comm, List.reverse_eq_nil_iff, eq_comm]
    rw [Option.getD_some, Option.some_inj, hempty]
    exact ⟨fun ⟨_, hright, hnil⟩ => ⟨hnil, hright⟩, fun ⟨hnil, hright⟩ => ⟨Option.some_ne_none _, hright, hnil⟩⟩

lemma harmless_iff (x : Setting δ π) (disk : Disk π) (earlier : List (List UInt8)) (name : List UInt8) :
    Harmless x disk earlier name ↔ stopped x disk earlier name (receiver x name) = disk (receiver x name) ∧
      ∀ name' ∈ earlier, stopped x disk earlier name (receiver x name') =
        some (contents disk (giver x name')).reverse := by
  rw [Harmless, stopped]
  split
  · exact harmless_of_refused x disk earlier (receiver x name)
  · exact harmless_of_emptied x disk earlier (receiver x name)

omit [DecidableEq π] in
lemma StopsAt.not_mem {earlier : List (List UInt8)} (h : StopsAt x disk earlier name) : name ∉ earlier := by
  intro hmem
  obtain ⟨before, later, rfl⟩ := List.append_of_mem hmem
  obtain ⟨-, hgiver, -⟩ := h.2.1 before name later rfl
  refine h.2.2.2 ⟨hgiver.1, hgiver.2.imp_right ?_⟩
  rintro ⟨name', hname', hlink⟩
  exact ⟨name', List.mem_append_left _ hname', hlink⟩

lemma eq_of_first {α : Type} {a : α} {l₁ l₂ m₁ m₂ : List α} (h : l₁ ++ a :: m₁ = l₂ ++ a :: m₂) (h₁ : a ∉ l₁)
    (h₂ : a ∉ l₂) : l₁ = l₂ := by
  induction l₁ generalizing l₂ with
  | nil =>
    cases l₂ with
    | nil => rfl
    | cons b l₂ => simp_all
  | cons b l₁ ih =>
    cases l₂ with
    | nil => simp_all
    | cons c l₂ =>
      simp only [List.cons_append, List.cons.injEq] at h
      rw [h.1, ih h.2 (fun hmem => h₁ (List.mem_cons_of_mem _ hmem)) fun hmem => h₂ (List.mem_cons_of_mem _ hmem)]

/-- `main` does no harm when it stops exactly if the destination could not be opened either, or was
there and empty, and the earlier sources are undisturbed. -/
theorem keepsOnError_iff (x : Setting δ π) (disk : Disk π) : KeepsOnError x disk ↔
    ∀ earlier name later, entries x = earlier ++ name :: later → StopsAt x disk earlier name →
      Harmless x disk earlier name := by
  constructor
  · intro h earlier name later hentries hstops
    obtain ⟨hkept, hcopies⟩ := h name _ (main_stops hentries hstops)
    exact (harmless_iff x disk earlier name).mpr ⟨hkept, hcopies earlier later hentries hstops.not_mem⟩
  · intro h name disk' hmain
    rcases main_cases x disk with hcompletes | ⟨-, -, hstops⟩
    · rw [main_done hcompletes] at hmain
      cases hmain
    · obtain ⟨earlier, later, hentries, hstop⟩ := hstops name (by rw [hmain])
      rw [main_stops hentries hstop] at hmain
      obtain ⟨-, rfl⟩ := Prod.mk.inj hmain
      obtain ⟨hkept, hcopies⟩ := (harmless_iff x disk earlier name).mp (h earlier name later hentries hstop)
      refine ⟨hkept, fun earlier' later' hentries' hfirst => ?_⟩
      obtain rfl := eq_of_first (hentries.symm.trans hentries') hstop.not_mem hfirst
      exact hcopies

/-- If no source is a destination, and no two entries have the same destination, only the destination
of the entry itself matters. -/
lemma harmless_iff_of_apart (x : Setting δ π) (disk : Disk π) (earlier : List (List UInt8)) (name : List UInt8)
    (hapart : Apart (earlier.map (copyOf x))) (hreceiver : ∀ name' ∈ earlier, receiver x name' ≠ receiver x name) :
    Harmless x disk earlier name ↔
      x.refuses ⟨x.argv2, name⟩ .w = true ∨ disk (receiver x name) = some [] := by
  have hundisturbed := (copies_right_iff x disk earlier).mpr hapart.undisturbed
  rw [harmless_iff, stopped]
  split
  · next hrefuses => exact iff_of_true ⟨after_of_ne hreceiver, hundisturbed⟩ (.inl hrefuses)
  · next hrefuses =>
    rw [or_iff_right hrefuses, Function.update_self, eq_comm]
    refine and_iff_left fun name' hmem => ?_
    rw [Function.update_of_ne (hreceiver name' hmem)]
    exact hundisturbed name' hmem

end

/-! ### Runs in which the destination is lost -/

/-- The directories `a` and `b`, with a file `n.txt` in each. -/
def twoDirectories (refuses : Path → Mode → Bool) : Setting Bool Bool where
  argv1 := bytesOf "a"
  argv2 := bytesOf "b"
  tree := { directory := fun path => path == bytesOf "b", names := fun _ => [bytesOf "n.txt"], file := fun d _ => d }
  refusesDir := false
  refuses := refuses
  byte := 0

/-- In the same directory twice, the file is empty before it is read. -/
theorem not_flips : ¬∀ (x : Setting Bool Bool) (disk : Disk Bool), Flips x disk := by
  intro h
  have hrun := h { twoDirectories fun _ _ => false with argv2 := bytesOf "a" } fun _ => some [1]
  have hlost := (hrun (by decide +kernel)).1 (bytesOf "n.txt") (by decide +kernel)
  revert hlost
  decide +kernel

/-- The result of an earlier run is emptied, although there is nothing to replace it. -/
theorem not_keepsOnError : ¬∀ (x : Setting Bool Bool) (disk : Disk Bool), KeepsOnError x disk := by
  intro h
  have hrun := h (twoDirectories fun _ mode => mode == .r) (fun _ => some [1]) (bytesOf "n.txt") _
    (Prod.ext (by decide +kernel) rfl)
  have hlost := hrun.1
  revert hlost
  decide +kernel

end SystemyOperacyjne.Flipper
