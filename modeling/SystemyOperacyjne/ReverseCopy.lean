import SystemyOperacyjne.Library.CString
import SystemyOperacyjne.Library.FileStream
import SystemyOperacyjne.Library.Reversal

/-!
# Reversed copies

`reverse_copy` and `reverse_copy_1024buffer` of `cw3/zad1.c`. The second reverses the file in blocks,
from the last to the first. Its loop also runs when no byte is left, so that it never ends.
-/

namespace SystemyOperacyjne.ReverseCopy
open CString FileStream Reversal

variable {ι : Type} [DecidableEq ι]

/-- The variables of `reverse_copy`, and the files. -/
structure Bytewise (ι : Type) where
  files : Files ι
  giver : Stream ι
  receiver : Stream ι
  byte : UInt8

/-- The body of the loop for the index `i`. -/
def copyByte (i : ℕ) (s : Bytewise ι) : Bytewise ι :=
  let (bytes, giver) := fread s.files (fseek s.files s.giver i .SEEK_SET) 1
  let byte := bytes.headD s.byte
  let (files, receiver) := fwrite s.files s.receiver [byte]
  { files, giver, receiver, byte }

/-- The loop for the indices below `n`, downwards. -/
def byteLoop : ℕ → Bytewise ι → Bytewise ι
  | 0, s => s
  | i + 1, s => byteLoop i (copyByte i s)

/-- `byte` is the value of the uninitialised variable. -/
def reverse_copy (byte : UInt8) (files : Files ι) (giver receiver : Stream ι) : Bytewise ι :=
  let giver := fseek files giver 0 .SEEK_END
  let totalBytesCount := ftell giver
  byteLoop totalBytesCount.toNat { files, giver, receiver, byte }

abbrev Buffer := Fin 1024 → UInt8

/-- The variables of `reverse_copy_1024buffer`, and the files. -/
structure Blockwise (ι : Type) where
  files : Files ι
  giver : Stream ι
  receiver : Stream ι
  buffer : Buffer
  bytesLeft : ℤ

def blockSize (bytesLeft : ℤ) : ℤ :=
  if bytesLeft ≥ 1024 then 1024 else bytesLeft

/-- The loop that reverses the first `size` bytes of the buffer. -/
def reverseBuffer (size : ℤ) (buffer : Buffer) : Option Buffer :=
  (List.range (size / 2).toNat).foldlM (fun (buffer : Buffer) (i : ℕ) => exchange buffer i (size - i - 1)) buffer

/-- The body of the loop; `none` is an access outside the buffer. -/
def copyBlock (s : Blockwise ι) : Option (Blockwise ι) := do
  let size := blockSize s.bytesLeft
  let (bytes, giver) := fread s.files (fseek s.files s.giver (-size) .SEEK_CUR) size.toNat
  let buffer ← memcpy s.buffer bytes
  let giver := fseek s.files giver (-size) .SEEK_CUR
  let buffer ← reverseBuffer size buffer
  let (files, receiver) := fwrite s.files s.receiver ((List.ofFn buffer).take size.toNat)
  return { files, giver, receiver, buffer, bytesLeft := s.bytesLeft - size }

/-- The state in which the loop is entered. -/
def entry (files : Files ι) (giver receiver : Stream ι) (buffer : Buffer) : Blockwise ι :=
  let giver := fseek files giver 0 .SEEK_END
  { files, giver, receiver, buffer, bytesLeft := ftell giver }

/-- `j` iterations of the loop; `none` if the loop ends before. -/
def iterations : ℕ → Blockwise ι → Option (Blockwise ι)
  | 0, s => some s
  | j + 1, s => if s.bytesLeft ≥ 0 then (copyBlock s).bind (iterations j) else none

/-- The loop up to its end, `none` without fuel. -/
def blockLoop : ℕ → Blockwise ι → Option (Blockwise ι)
  | 0, _ => none
  | fuel + 1, s => if s.bytesLeft ≥ 0 then (copyBlock s).bind (blockLoop fuel) else some s

def reverse_copy_1024buffer (fuel : ℕ) (files : Files ι) (giver receiver : Stream ι) (buffer : Buffer) :
    Option (Blockwise ι) :=
  blockLoop fuel (entry files giver receiver buffer)

/-! ### Byte by byte -/

section
variable {files : Files ι} {giver receiver : ι}

/-- What the two files hold when the bytes from `left` on have been copied. -/
def copied (files : Files ι) (giver receiver : ι) (left : ℕ) : Files ι :=
  Function.update files receiver ((files giver).drop left).reverse

/-- The receiver is empty before, so that this also holds when it is the giver. -/
lemma copied_giver (hempty : files receiver = []) (left : ℕ) :
    copied files giver receiver left giver = files giver := by
  by_cases h : giver = receiver
  · subst h
    rw [copied, Function.update_self, hempty]
    simp
  · exact Function.update_of_ne h _ _

lemma copied_receiver (left : ℕ) : copied files giver receiver left receiver = ((files giver).drop left).reverse :=
  Function.update_self _ _ _

lemma fwrite_copied (files : Files ι) (giver receiver : ι) {left : ℕ} (count : ℕ) (hcount : count ≤ left)
    (hleft : left ≤ (files giver).length) :
    fwrite (copied files giver receiver left) ⟨receiver, (files giver).length - left⟩
        (((files giver).drop (left - count)).take count).reverse =
      (copied files giver receiver (left - count), ⟨receiver, (files giver).length - (left - count)⟩) := by
  rw [fwrite_end _ _ _ (by rw [copied_receiver]; simp), copied_receiver, reverse_drop_append _ hcount]
  simp only [copied, Function.update_idem, List.length_reverse, List.length_take, List.length_drop]
  congr 2
  omega

lemma byteLoop_eq (hempty : files receiver = []) (left : ℕ) (hleft : left ≤ (files giver).length) (position : ℕ)
    (byte : UInt8) : ∃ position' byte',
      byteLoop left
          ⟨copied files giver receiver left, ⟨giver, position⟩, ⟨receiver, (files giver).length - left⟩, byte⟩ =
        ⟨copied files giver receiver 0, ⟨giver, position'⟩, ⟨receiver, (files giver).length⟩, byte'⟩ := by
  induction left generalizing position byte with
  | zero => exact ⟨position, byte, rfl⟩
  | succ i ih =>
    have hbyte : ((files giver).drop i).take 1 = [(files giver)[i]] := by
      rw [List.drop_eq_getElem_cons hleft]
      rfl
    have hread := fread_full (copied files giver receiver (i + 1)) ⟨giver, i⟩ 1
      (by rw [copied_giver hempty]; exact hleft)
    rw [copied_giver hempty, hbyte] at hread
    have hwrite := fwrite_copied files giver receiver 1 (Nat.le_add_left 1 i) hleft
    rw [Nat.add_sub_cancel, hbyte, List.reverse_singleton] at hwrite
    obtain ⟨position', byte', hloop⟩ := ih (by omega) (i + 1) (files giver)[i]
    refine ⟨position', byte', ?_⟩
    rw [byteLoop, copyByte, fseek_set]
    simp only [hread, List.headD_cons, hwrite]
    exact hloop

/-- `reverse_copy` fills an empty receiver with the reversed content of the giver. -/
theorem reverse_copy_files (byte : UInt8) (giver receiver : Stream ι) (hempty : files receiver.file = [])
    (hposition : receiver.position = 0) : (reverse_copy byte files giver receiver).files =
      Function.update files receiver.file (files giver.file).reverse := by
  have hstart : copied files giver.file receiver.file (files giver.file).length = files := by
    rw [copied, List.drop_length, List.reverse_nil, ← hempty, Function.update_eq_self]
  have hreceiver : receiver = ⟨receiver.file, (files giver.file).length - (files giver.file).length⟩ := by
    rw [Nat.sub_self, ← hposition]
  obtain ⟨position, byte', hloop⟩ := byteLoop_eq hempty (files giver.file).length le_rfl (files giver.file).length byte
  rw [hstart, ← hreceiver] at hloop
  have hcopy := hloop
  rw [← show reverse_copy byte files giver receiver = byteLoop _ _ by rw [reverse_copy, fseek_end]; rfl] at hcopy
  rw [hcopy, copied, List.drop_zero]

end

section
variable {files : Files ι}

lemma reverse_copy_receiver (byte : UInt8) (giver receiver : Stream ι) (hempty : files receiver.file = [])
    (hposition : receiver.position = 0) :
    (reverse_copy byte files giver receiver).files receiver.file = (files giver.file).reverse := by
  rw [reverse_copy_files byte giver receiver hempty hposition, Function.update_self]

lemma reverse_copy_of_ne (byte : UInt8) (giver receiver : Stream ι) (hempty : files receiver.file = [])
    (hposition : receiver.position = 0) {file : ι} (h : file ≠ receiver.file) :
    (reverse_copy byte files giver receiver).files file = files file := by
  rw [reverse_copy_files byte giver receiver hempty hposition, Function.update_of_ne h]

end

/-! ### Block by block -/

lemma blockSize_le (bytesLeft : ℤ) : blockSize bytesLeft ≤ 1024 ∧ blockSize bytesLeft ≤ bytesLeft := by
  unfold blockSize
  split <;> omega

lemma blockSize_nonneg {bytesLeft : ℤ} (h : 0 ≤ bytesLeft) : 0 ≤ blockSize bytesLeft := by
  unfold blockSize
  split <;> omega

lemma blockSize_natCast (left : ℕ) : blockSize left = (min left 1024 : ℕ) := by
  unfold blockSize
  split <;> omega

lemma reverseBuffer_eq {size : ℕ} (hsize : size ≤ 1024) (buffer : Buffer) :
    reverseBuffer size buffer = some (mirror buffer hsize (size / 2)) := by
  have hhalf : ((size : ℤ) / 2).toNat = size / 2 := by omega
  rw [reverseBuffer, hhalf, exchanges_eq buffer hsize le_rfl]

lemma take_reversed {size : ℕ} (hsize : size ≤ 1024) (buffer : Buffer) {bytes : List UInt8}
    (h : bytes.length = size) : (List.ofFn (mirror (overwrite buffer bytes) hsize (size / 2))).take size = bytes.reverse := by
  rw [take_mirror, ofFn_overwrite _ (h ▸ hsize), ← h, List.take_left]

lemma copyBlock_eq (s : Blockwise ι) {size : ℕ} {bytes : List UInt8} {giver : Stream ι}
    (hsize : blockSize s.bytesLeft = size)
    (hread : fread s.files (fseek s.files s.giver (-size) .SEEK_CUR) size = (bytes, giver)) :
    ∃ hle : size ≤ 1024, let buffer := mirror (overwrite s.buffer bytes) hle (size / 2)
      let write := fwrite s.files s.receiver ((List.ofFn buffer).take size)
      copyBlock s =
        some ⟨write.1, fseek s.files giver (-size) .SEEK_CUR, write.2, buffer, s.bytesLeft - size⟩ := by
  obtain ⟨hle, -⟩ := blockSize_le s.bytesLeft
  have hle : size ≤ 1024 := by omega
  have hfit : bytes.length ≤ 1024 := by
    have hcount : (fread s.files (fseek s.files s.giver (-size) .SEEK_CUR) size).1.length ≤ size :=
      List.length_take_le _ _
    rw [hread] at hcount
    exact hcount.trans hle
  refine ⟨hle, ?_⟩
  simp only [copyBlock, hsize, Int.toNat_natCast, hread, memcpy, if_pos hfit, Option.bind_eq_bind, Option.bind_some,
    reverseBuffer_eq hle]
  rfl

lemma copyBlock_nonneg (s : Blockwise ι) (h : 0 ≤ s.bytesLeft) : ∃ s', copyBlock s = some s' ∧ 0 ≤ s'.bytesLeft := by
  obtain ⟨size, hsize⟩ := Int.eq_ofNat_of_zero_le (blockSize_nonneg h)
  obtain ⟨hfit, hcopy⟩ := copyBlock_eq s hsize rfl
  have hle := (blockSize_le s.bytesLeft).2
  exact ⟨_, hcopy, by simp only; omega⟩

lemma blockLoop_eq_none (fuel : ℕ) (s : Blockwise ι) (h : 0 ≤ s.bytesLeft) : blockLoop fuel s = none := by
  induction fuel generalizing s with
  | zero => rfl
  | succ fuel ih =>
    obtain ⟨s', hcopy, hnonneg⟩ := copyBlock_nonneg s h
    rw [blockLoop, if_pos h, hcopy, Option.bind_some]
    exact ih s' hnonneg

/-- `reverse_copy_1024buffer` returns. -/
def Returns (files : Files ι) (giver receiver : Stream ι) (buffer : Buffer) : Prop :=
  ∃ fuel s, reverse_copy_1024buffer fuel files giver receiver buffer = some s

/-- `reverse_copy_1024buffer` returns for no file. -/
theorem never_returns (files : Files ι) (giver receiver : Stream ι) (buffer : Buffer) :
    ¬Returns files giver receiver buffer := by
  rintro ⟨fuel, s, hs⟩
  have hnone := blockLoop_eq_none fuel (entry files giver receiver buffer) (Int.natCast_nonneg _)
  rw [reverse_copy_1024buffer, hnone] at hs
  exact absurd hs.symm (Option.some_ne_none s)

/-- For the empty file it copies blocks of size 0. -/
theorem not_returns_empty : ¬∀ (files : Files Bool) (giver receiver : Stream Bool) (buffer : Buffer),
    Returns files giver receiver buffer := by
  intro h
  obtain ⟨fuel, s, hs⟩ := h (fun _ => []) ⟨false, 0⟩ ⟨true, 0⟩ fun _ => 0
  have hnone := blockLoop_eq_none fuel (entry (fun _ => []) ⟨false, 0⟩ ⟨true, 0⟩ fun _ => 0) le_rfl
  rw [reverse_copy_1024buffer, hnone] at hs
  exact absurd hs.symm (Option.some_ne_none s)

/-! ### The blocks are those of the reversed file -/

section
variable {files : Files ι} {giver receiver : ι}

/-- All but the first `left` bytes have been copied. -/
structure Remaining (files : Files ι) (giver receiver : ι) (left : ℕ) (s : Blockwise ι) : Prop where
  le : left ≤ (files giver).length
  files_eq : s.files = copied files giver receiver left
  giver_eq : s.giver = ⟨giver, left⟩
  receiver_eq : s.receiver = ⟨receiver, (files giver).length - left⟩
  bytesLeft_eq : s.bytesLeft = left

lemma Remaining.copyBlock (hempty : files receiver = []) {left : ℕ} {s : Blockwise ι}
    (h : Remaining files giver receiver left s) :
    ∃ s', copyBlock s = some s' ∧ Remaining files giver receiver (left - min left 1024) s' := by
  have hle := h.le
  have hmin : min left 1024 ≤ left := min_le_left _ _
  have hcontent : s.files giver = files giver := by rw [h.files_eq, copied_giver hempty]
  have hback : fseek s.files s.giver (-(min left 1024 : ℕ)) .SEEK_CUR = ⟨giver, left - min left 1024⟩ := by
    rw [h.giver_eq]
    exact fseek_back s.files ⟨giver, left⟩ hmin
  have hread : fread s.files (fseek s.files s.giver (-(min left 1024 : ℕ)) .SEEK_CUR) (min left 1024) =
      (((files giver).drop (left - min left 1024)).take (min left 1024), ⟨giver, left⟩) := by
    rw [hback, fread_full _ _ _ (by rw [hcontent]; simp only; omega), hcontent, Nat.sub_add_cancel hmin]
  obtain ⟨hsize, hcopy⟩ := copyBlock_eq s (by rw [h.bytesLeft_eq, blockSize_natCast]) hread
  have hlength : (((files giver).drop (left - min left 1024)).take (min left 1024)).length = min left 1024 := by
    rw [List.length_take, List.length_drop]
    omega
  have hwrite := fwrite_copied files giver receiver (min left 1024) hmin hle
  simp only [take_reversed hsize s.buffer hlength, h.files_eq, h.receiver_eq, hwrite] at hcopy
  refine ⟨_, hcopy, (Nat.sub_le _ _).trans hle, rfl, ?_, rfl, ?_⟩
  · exact fseek_back s.files ⟨giver, left⟩ hmin
  · simp only [h.bytesLeft_eq]
    omega

/-- What remains after `j` iterations. -/
theorem iterations_remaining (hempty : files receiver = []) (j : ℕ) {left : ℕ} {s : Blockwise ι}
    (h : Remaining files giver receiver left s) :
    ∃ s', iterations j s = some s' ∧ Remaining files giver receiver (left - min left (1024 * j)) s' := by
  induction j generalizing left s with
  | zero => exact ⟨s, rfl, by simpa using h⟩
  | succ j ih =>
    obtain ⟨s₁, hcopy, hrest⟩ := h.copyBlock hempty
    obtain ⟨s', hiterations, hremaining⟩ := ih hrest
    refine ⟨s', ?_, ?_⟩
    · rw [iterations, if_pos (by rw [h.bytesLeft_eq]; omega), hcopy]
      exact hiterations
    · convert hremaining using 1
      omega

lemma remaining_entry (giver receiver : Stream ι) (buffer : Buffer) (hempty : files receiver.file = [])
    (hposition : receiver.position = 0) : Remaining files giver.file receiver.file (files giver.file).length
      (entry files giver receiver buffer) := by
  refine ⟨le_rfl, ?_, fseek_end files giver, ?_, ?_⟩
  · rw [copied, List.drop_length, List.reverse_nil, ← hempty, Function.update_eq_self]
    rfl
  · rw [Nat.sub_self, ← hposition]
    rfl
  · rw [entry, fseek_end]
    rfl

end

/-- After `j` iterations the last `min L (1024 * j)` bytes have been copied, as the first of those that
`reverse_copy` writes; when no byte is left the receiver is what `reverse_copy` makes it, and stays so. -/
theorem blocks_agree (files : Files ι) (giver receiver : Stream ι) (buffer : Buffer) (byte : UInt8)
    (hempty : files receiver.file = []) (hposition : receiver.position = 0) (j : ℕ) :
    let length := (files giver.file).length
    let output := (reverse_copy byte files giver receiver).files receiver.file
    ∃ s, iterations j (entry files giver receiver buffer) = some s ∧
      s.giver.position = length - min length (1024 * j) ∧ s.bytesLeft = (length - min length (1024 * j) : ℕ) ∧
      s.files receiver.file = output.take (min length (1024 * j)) ∧
      (s.bytesLeft = 0 → s.files receiver.file = output ∧ ∀ i, ∃ s', iterations i s = some s' ∧ s'.files = s.files) := by
  intro length output
  have houtput : output = (files giver.file).reverse := reverse_copy_receiver byte giver receiver hempty hposition
  obtain ⟨s, hs, hremaining⟩ := iterations_remaining hempty j (remaining_entry giver receiver buffer hempty hposition)
  have hfiles : s.files receiver.file = output.take (min length (1024 * j)) := by
    rw [hremaining.files_eq, copied_receiver, houtput, List.take_reverse]
  refine ⟨s, hs, by rw [hremaining.giver_eq], hremaining.bytesLeft_eq, hfiles, fun hzero => ⟨?_, fun i => ?_⟩⟩
  · have hall : length ≤ min length (1024 * j) := by
      rw [hremaining.bytesLeft_eq] at hzero
      omega
    rw [hfiles, houtput, List.take_of_length_le (by rw [List.length_reverse]; exact hall)]
  · obtain ⟨s', hs', hlater⟩ := iterations_remaining hempty i hremaining
    refine ⟨s', hs', ?_⟩
    rw [hlater.files_eq, hremaining.files_eq]
    congr 1
    rw [hremaining.bytesLeft_eq] at hzero
    omega

/-- A file of three bytes and an empty one. -/
def three : Files Bool
  | false => [1, 2, 3]
  | true => []

theorem blocks_agree_three : ∃ s, iterations 1 (entry three ⟨false, 0⟩ ⟨true, 0⟩ fun _ => 0) = some s ∧
    s.bytesLeft = 0 ∧ s.files true = [3, 2, 1] := by
  obtain ⟨s, hs, -, hzero, -, hdone⟩ := blocks_agree three ⟨false, 0⟩ ⟨true, 0⟩ (fun _ => 0) 0 rfl rfl 1
  have houtput : (reverse_copy 0 three ⟨false, 0⟩ ⟨true, 0⟩).files true = [3, 2, 1] := by decide
  exact ⟨s, hs, hzero, (hdone hzero).1.trans houtput⟩

/-! ### Back and forth -/

/-- The copy of a file is its reverse, and no other file is changed; a copy of the copy, at any later
time at which that file holds what was written to it, is equal to the original. -/
theorem reverse_copy_twice (byte byte' : UInt8) (files files' : Files ι) (giver receiver giver' receiver' : Stream ι)
    (hempty : files receiver.file = []) (hposition : receiver.position = 0)
    (hlater : files' giver'.file = (reverse_copy byte files giver receiver).files receiver.file)
    (hempty' : files' receiver'.file = []) (hposition' : receiver'.position = 0) :
    (reverse_copy byte files giver receiver).files receiver.file = (files giver.file).reverse ∧
      (∀ file, file ≠ receiver.file → (reverse_copy byte files giver receiver).files file = files file) ∧
      (reverse_copy byte' files' giver' receiver').files receiver'.file = files giver.file := by
  have hfirst := reverse_copy_receiver byte giver receiver hempty hposition
  have hsecond := reverse_copy_receiver byte' giver' receiver' hempty' hposition'
  refine ⟨hfirst, fun file hne => reverse_copy_of_ne byte giver receiver hempty hposition hne, ?_⟩
  calc (reverse_copy byte' files' giver' receiver').files receiver'.file
      = (files' giver'.file).reverse := hsecond
    _ = (files giver.file).reverse.reverse := by rw [hlater, hfirst]
    _ = files giver.file := List.reverse_reverse _

/-- The copy of the three bytes is copied back over them. -/
theorem reverse_copy_twice_three :
    let first := (reverse_copy 0 three ⟨false, 0⟩ ⟨true, 0⟩).files
    let emptied := Function.update first false []
    first true = [3, 2, 1] ∧ (reverse_copy 0 emptied ⟨true, 0⟩ ⟨false, 0⟩).files false = [1, 2, 3] := by
  intro first emptied
  have h := reverse_copy_twice 0 0 three emptied ⟨false, 0⟩ ⟨true, 0⟩ ⟨true, 0⟩ ⟨false, 0⟩ rfl rfl rfl rfl rfl
  exact ⟨h.1, h.2.2⟩

end SystemyOperacyjne.ReverseCopy
