import LibTransmission.BlockInfo
import Mathlib.Algebra.BigOperators.Group.List
import Mathlib.Algebra.Order.Ring.Nat

/-!
# The torrent's files

What the webseed reads of the torrent's files: their sizes (`tr_torrent::file_size`) and
`tr_torrent::file_offset`, which names the file holding a byte of the torrent and the offset in it.

* `FileLayout` : files laid end to end, with a `fileOffset` that takes every byte below the total
  size to the file containing it (`fileOffset_spec`); zero-length files contain no byte, so they
  are never chosen;
* `ContainsByte.unique` : a byte lies in one file only;
* `torrentBytes`, `blockBytes`, `FileLayout.requestedBytes` : the data of the torrent, of a block,
  and of a byte range of one file;
* `FileLayout.ofSizes` : the search of `tr_file_piece_map::file_offset`, a layout for every list
  of sizes.
-/

namespace LibTransmission

/-- Where file `i` starts in the torrent. -/
def fileBegin (sizes : List Nat) (i : Nat) : Nat := (sizes.take i).sum

/-- File `i` holds byte `x` of the torrent. -/
def ContainsByte (sizes : List Nat) (i x : Nat) : Prop :=
  i < sizes.length ∧ fileBegin sizes i ≤ x ∧ x < fileBegin sizes i + sizes.getD i 0

theorem fileBegin_mono (sizes : List Nat) {i j : Nat} (h : i ≤ j) :
    fileBegin sizes i ≤ fileBegin sizes j := by
  have := List.sum_take_add_sum_drop (sizes.take j) i
  rw [List.take_take, Nat.min_eq_left h] at this
  unfold fileBegin; omega

theorem fileBegin_succ (sizes : List Nat) {i : Nat} (h : i < sizes.length) :
    fileBegin sizes (i + 1) = fileBegin sizes i + sizes.getD i 0 := by
  simp [fileBegin, List.sum_take_succ _ _ h, List.getD_eq_getElem?_getD, h]

theorem fileBegin_length (sizes : List Nat) : fileBegin sizes sizes.length = sizes.sum := by
  simp [fileBegin]

/-- Files are laid end to end, so a byte lies in one file only. -/
theorem ContainsByte.unique {sizes : List Nat} {i j x : Nat} (hi : ContainsByte sizes i x)
    (hj : ContainsByte sizes j x) : i = j := by
  have key : ∀ {i j}, ContainsByte sizes i x → ContainsByte sizes j x → ¬ i < j := by
    intro i j hi hj hij
    have h1 := fileBegin_succ sizes hi.1
    have h2 := fileBegin_mono sizes (show i + 1 ≤ j by omega)
    have := hi.2.2; have := hj.2.1
    omega
  by_contra hne
  rcases Nat.lt_or_gt_of_ne hne with h | h
  · exact key hi hj h
  · exact key hj hi h

/-- The files of a torrent as `tr_torrent::file_size` and `tr_torrent::file_offset` show them. -/
structure FileLayout where
  fileSizes : List Nat
  fileOffset : Nat → Nat × Nat
  fileOffset_spec : ∀ x < fileSizes.sum,
    ContainsByte fileSizes (fileOffset x).1 x ∧
      (fileOffset x).2 = x - fileBegin fileSizes (fileOffset x).1

namespace FileLayout

variable (L : FileLayout)

/-- `tr_torrent::file_size`. -/
def fileSize (i : Nat) : Nat := L.fileSizes.getD i 0

/-- The block division of a torrent of these files. -/
def blockInfo : BlockInfo := ⟨L.fileSizes.sum⟩

@[simp] theorem blockInfo_totalSize : L.blockInfo.totalSize = L.fileSizes.sum := rfl

theorem fileOffset_add {x : Nat} (hx : x < L.fileSizes.sum) :
    fileBegin L.fileSizes (L.fileOffset x).1 + (L.fileOffset x).2 = x ∧
      (L.fileOffset x).2 < L.fileSize (L.fileOffset x).1 := by
  obtain ⟨⟨-, h1, h2⟩, h3⟩ := L.fileOffset_spec x hx
  unfold fileSize; omega

/-- The bytes of file `i` from offset `o` on, `n` of them, in a torrent whose bytes are
`content`. -/
def requestedBytes (content : Nat → UInt8) (i o n : Nat) : List UInt8 :=
  (List.range' (fileBegin L.fileSizes i + o) n).map content

end FileLayout

/-- The bytes `x, ..., x + n - 1` of a torrent whose bytes are `content`. -/
def torrentBytes (content : Nat → UInt8) (x n : Nat) : List UInt8 := (List.range' x n).map content

/-- The bytes of block `j`, from `block_loc(j).byte` for `block_size(j)` bytes. -/
def blockBytes (bi : BlockInfo) (content : Nat → UInt8) (j : Nat) : List UInt8 :=
  torrentBytes content (bi.blockLoc j).byte (bi.blockSize j)

@[simp] theorem torrentBytes_length (content : Nat → UInt8) (x n : Nat) :
    (torrentBytes content x n).length = n := by
  simp [torrentBytes]

theorem torrentBytes_add (content : Nat → UInt8) (x m n : Nat) :
    torrentBytes content x (m + n) = torrentBytes content x m ++ torrentBytes content (x + m) n := by
  unfold torrentBytes
  rw [← List.map_append, show x + m = x + 1 * m by omega, List.range'_append, Nat.add_comm n m]

theorem torrentBytes_take (content : Nat → UInt8) (x m n : Nat) (h : m ≤ n) :
    (torrentBytes content x n).take m = torrentBytes content x m := by
  rw [show n = m + (n - m) by omega, torrentBytes_add, List.take_left' (torrentBytes_length _ _ _)]

theorem torrentBytes_drop (content : Nat → UInt8) (x m n : Nat) (h : m ≤ n) :
    (torrentBytes content x n).drop m = torrentBytes content (x + m) (n - m) := by
  rw [show n = m + (n - m) by omega, torrentBytes_add, List.drop_left' (torrentBytes_length _ _ _),
    Nat.add_sub_cancel_left]

/-! ## The search of `tr_file_piece_map::file_offset` -/

/-- Modelled from the spec: `tr_file_piece_map::file_offset` (file-piece-map.cc, not under src/),
the first file whose end lies past the byte, so zero-length files are passed over. -/
def findFileOffset : List Nat → Nat → Nat × Nat
  | [], x => (0, x)
  | s :: rest, x =>
    if x < s then (0, x) else ((findFileOffset rest (x - s)).1 + 1, (findFileOffset rest (x - s)).2)

theorem findFileOffset_spec : ∀ (sizes : List Nat) (x : Nat), x < sizes.sum →
    ContainsByte sizes (findFileOffset sizes x).1 x ∧
      (findFileOffset sizes x).2 = x - fileBegin sizes (findFileOffset sizes x).1
  | [], x, hx => by simp at hx
  | s :: rest, x, hx => by
    by_cases hs : x < s
    · simp [findFileOffset, hs, ContainsByte, fileBegin]
    · obtain ⟨⟨h1, h2, h3⟩, h4⟩ := findFileOffset_spec rest (x - s) (by simp at hx; omega)
      simp only [findFileOffset, hs, if_false, ContainsByte, fileBegin, List.take_succ_cons,
        List.sum_cons, List.length_cons, List.getD_cons_succ] at h1 h2 h3 h4 ⊢
      omega

/-- The layout of files of these sizes, with the search of `tr_file_piece_map`. -/
def FileLayout.ofSizes (sizes : List Nat) : FileLayout :=
  ⟨sizes, findFileOffset sizes, findFileOffset_spec sizes⟩

end LibTransmission
