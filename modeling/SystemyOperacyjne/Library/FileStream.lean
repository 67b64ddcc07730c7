import Mathlib.Data.List.Basic
import Mathlib.Data.Int.Basic
import Mathlib.Logic.Function.Basic
import Mathlib.Tactic.Common

/-!
# Streams on files

`fseek`, `ftell`, `fread` and `fwrite`. A stream has a position in a file, and several streams may
have the same file. The contents of all files are the state that the operations share.
-/

namespace FileStream

/-- The contents of the files. -/
abbrev Files (ι : Type) := ι → List UInt8

structure Stream (ι : Type) where
  file : ι
  position : ℕ
  deriving DecidableEq

inductive Whence
  | SEEK_SET
  | SEEK_CUR
  | SEEK_END
  deriving DecidableEq

variable {ι : Type}

/-- Where an offset is counted from. -/
def origin (files : Files ι) (stream : Stream ι) : Whence → ℕ
  | .SEEK_SET => 0
  | .SEEK_CUR => stream.position
  | .SEEK_END => (files stream.file).length

/-- A seek to before the beginning fails, and leaves the position. -/
def fseek (files : Files ι) (stream : Stream ι) (offset : ℤ) (whence : Whence) : Stream ι :=
  let target := (origin files stream whence : ℤ) + offset
  if target < 0 then stream else { stream with position := target.toNat }

def ftell (stream : Stream ι) : ℤ := stream.position

/-- The bytes that are read, as far as the file has them. -/
def fread (files : Files ι) (stream : Stream ι) (count : ℕ) : List UInt8 × Stream ι :=
  let bytes := ((files stream.file).drop stream.position).take count
  (bytes, { stream with position := stream.position + bytes.length })

/-- A content with some of its bytes, from `position` on, replaced; zeros fill a gap. -/
def splice (content : List UInt8) (position : ℕ) (bytes : List UInt8) : List UInt8 :=
  if bytes = [] then content
  else content.take position ++ List.replicate (position - content.length) 0 ++ bytes ++
    content.drop (position + bytes.length)

def fwrite [DecidableEq ι] (files : Files ι) (stream : Stream ι) (bytes : List UInt8) : Files ι × Stream ι :=
  (Function.update files stream.file (splice (files stream.file) stream.position bytes),
    { stream with position := stream.position + bytes.length })

lemma splice_length (content bytes : List UInt8) : splice content content.length bytes = content ++ bytes := by
  unfold splice
  split
  · next h => rw [h, List.append_nil]
  · simp

lemma fseek_eq (files : Files ι) (stream : Stream ι) {offset : ℤ} {whence : Whence} {target : ℕ}
    (h : (origin files stream whence : ℤ) + offset = target) :
    fseek files stream offset whence = ⟨stream.file, target⟩ := by
  have hge : ¬((target : ℤ) < 0) := by omega
  simp only [fseek, h, if_neg hge, Int.toNat_natCast]

lemma fseek_set (files : Files ι) (stream : Stream ι) (i : ℕ) :
    fseek files stream i .SEEK_SET = ⟨stream.file, i⟩ :=
  fseek_eq files stream (by rw [origin]; omega)

lemma fseek_end (files : Files ι) (stream : Stream ι) :
    fseek files stream 0 .SEEK_END = ⟨stream.file, (files stream.file).length⟩ :=
  fseek_eq files stream (by rw [origin]; omega)

lemma fseek_back (files : Files ι) (stream : Stream ι) {count : ℕ} (h : count ≤ stream.position) :
    fseek files stream (-count) .SEEK_CUR = ⟨stream.file, stream.position - count⟩ :=
  fseek_eq files stream (by rw [origin]; omega)

lemma fread_full (files : Files ι) (stream : Stream ι) (count : ℕ)
    (h : stream.position + count ≤ (files stream.file).length) :
    fread files stream count = (((files stream.file).drop stream.position).take count,
      ⟨stream.file, stream.position + count⟩) := by
  simp only [fread, List.length_take, List.length_drop]
  rw [Nat.min_eq_left (by omega)]

lemma fwrite_end [DecidableEq ι] (files : Files ι) (stream : Stream ι) (bytes : List UInt8)
    (h : stream.position = (files stream.file).length) :
    fwrite files stream bytes = (Function.update files stream.file (files stream.file ++ bytes),
      ⟨stream.file, stream.position + bytes.length⟩) := by
  rw [fwrite, h, splice_length]

lemma reverse_drop_append {α : Type} (content : List α) {p count : ℕ} (h : count ≤ p) :
    (content.drop p).reverse ++ ((content.drop (p - count)).take count).reverse =
      (content.drop (p - count)).reverse := by
  rw [← List.reverse_append]
  congr 1
  have hdrop : content.drop p = (content.drop (p - count)).drop count := by
    rw [List.drop_drop, Nat.sub_add_cancel h]
  rw [hdrop, List.take_append_drop]

end FileStream
