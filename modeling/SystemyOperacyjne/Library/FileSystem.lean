import SystemyOperacyjne.Library.FileStream

/-!
# Directories and opened files

`fopen` on paths that consist of a directory and a name. Several paths may lead to one directory, and
several names to one file. Opening a file to write creates it, or empties it.
-/

namespace FileSystem
open FileStream

structure Path where
  directory : List UInt8
  name : List UInt8
  deriving DecidableEq

/-- The text of a path, as of the format `"%s/%s"`. -/
def Path.text (path : Path) : List UInt8 :=
  path.directory ++ 47 :: path.name

/-- The directory to which a path leads, the names that a directory lists, and the file that a name
stands for, which need not exist. -/
structure Tree (δ π : Type) where
  directory : List UInt8 → δ
  names : δ → List (List UInt8)
  file : δ → List UInt8 → π

/-- The contents of the files that exist. -/
abbrev Disk (π : Type) := π → Option (List UInt8)

inductive Mode
  | r
  | w
  deriving DecidableEq

variable {δ π : Type}

def Tree.locate (tree : Tree δ π) (path : Path) : π :=
  tree.file (tree.directory path.directory) path.name

def contents (disk : Disk π) : Files π := fun p => (disk p).getD []

/-- The files that exist, with new contents. -/
def store (disk : Disk π) (files : Files π) : Disk π := fun p => (disk p).map fun _ => files p

/-- `refuses` tells which opens fail although the file is there, or could be created. -/
def fopen [DecidableEq π] (tree : Tree δ π) (refuses : Path → Mode → Bool) (disk : Disk π) (path : Path)
    (mode : Mode) : Option (Stream π) × Disk π :=
  let file := tree.locate path
  match mode with
  | .r => if refuses path .r ∨ disk file = none then (none, disk) else (some ⟨file, 0⟩, disk)
  | .w => if refuses path .w then (none, disk) else (some ⟨file, 0⟩, Function.update disk file (some []))

end FileSystem
