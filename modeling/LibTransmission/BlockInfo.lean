import Mathlib.Order.MinMax

/-!
# Blocks and byte locations

The torrent's division into blocks, as the webseed reads it through `tr_torrent`: every block
holds `BlockSize` bytes except possibly the last, and `byteLoc` sends the end of the torrent back
into the final block.

* `blockCount`, `finalBlockSize`, `blockSize`, `byteLoc`, `blockLoc` : the model;
* `boundary j` : where block `j` starts, and the end of the torrent for `j = blockCount`; every
  cursor of a webseed task sits on one (`byteLoc_boundary`, `blockSize_eq_boundary_sub`);
* `wholeBlocks x` : how many blocks lie wholly below byte `x` (`boundary_wholeBlocks_le`,
  `lt_boundary_wholeBlocks_succ`), which is where the drain loop of the webseed stops, with less
  than a block left over (`sub_boundary_wholeBlocks_lt`).
-/

namespace LibTransmission

/-- Modelled from the spec: `tr_block_info` (block-info.h, not under src/), the torrent's division
into blocks: fixed-size blocks except possibly the last. Only the total size is kept; the piece
fields are read by no modelled function. -/
structure BlockInfo where
  totalSize : Nat
  deriving Repr, DecidableEq

namespace BlockInfo

/-- `tr_block_info::BlockSize`, 16 KiB. -/
def BlockSize : Nat := 16384

/-- `tr_block_info::Location` without its piece fields. -/
structure Location where
  byte : Nat
  block : Nat
  blockOffset : Nat
  deriving Repr, DecidableEq

variable (bi : BlockInfo)

def blockCount : Nat := (bi.totalSize + BlockSize - 1) / BlockSize

def finalBlockSize : Nat :=
  if bi.totalSize % BlockSize ≠ 0 then bi.totalSize % BlockSize else BlockSize

def blockSize (block : Nat) : Nat :=
  if block + 1 = bi.blockCount then bi.finalBlockSize else BlockSize

/-- The end of the torrent is located in the final block, at an offset of its size. -/
def byteLoc (byteIdx : Nat) : Location :=
  let block := if byteIdx = bi.totalSize then bi.blockCount - 1 else byteIdx / BlockSize
  { byte := byteIdx, block := block, blockOffset := byteIdx - block * BlockSize }

/-- Location of the first byte in `block`. -/
def blockLoc (block : Nat) : Location := bi.byteLoc (block * BlockSize)

/-- Where block `j` starts; `boundary blockCount` is the end of the torrent. -/
def boundary (j : Nat) : Nat := min (j * BlockSize) bi.totalSize

/-- How many blocks lie wholly below byte `x`, for `x` up to the total size. -/
def wholeBlocks (x : Nat) : Nat := if x = bi.totalSize then bi.blockCount else x / BlockSize

@[simp] theorem byteLoc_byte (x : Nat) : (bi.byteLoc x).byte = x := rfl

theorem blockCount_eq : bi.blockCount = (bi.totalSize + 16383) / 16384 := rfl

theorem byteLoc_of_ne {x : Nat} (hx : x ≠ bi.totalSize) :
    bi.byteLoc x = ⟨x, x / BlockSize, x % BlockSize⟩ := by
  simp only [byteLoc, hx, if_false, Location.mk.injEq, true_and, BlockSize]
  omega

theorem blockSize_pos (j : Nat) : 0 < bi.blockSize j := by
  unfold blockSize finalBlockSize BlockSize
  split_ifs <;> omega

theorem blockSize_le (j : Nat) : bi.blockSize j ≤ BlockSize := by
  unfold blockSize finalBlockSize BlockSize
  split_ifs <;> omega

theorem boundary_le (j : Nat) : bi.boundary j ≤ bi.totalSize := min_le_right _ _

theorem boundary_blockCount : bi.boundary bi.blockCount = bi.totalSize := by
  simp only [boundary, blockCount_eq, BlockSize]; omega

theorem boundary_of_lt {j : Nat} (hj : j < bi.blockCount) : bi.boundary j = j * BlockSize := by
  simp only [boundary, BlockSize] at *; rw [blockCount_eq] at hj; omega

theorem boundary_lt {j : Nat} (hj : j < bi.blockCount) : bi.boundary j < bi.totalSize := by
  simp only [boundary, BlockSize] at *; rw [blockCount_eq] at hj; omega

theorem boundary_mono {i j : Nat} (h : i ≤ j) : bi.boundary i ≤ bi.boundary j := by
  simp only [boundary, BlockSize]
  have : i * 16384 ≤ j * 16384 := Nat.mul_le_mul_right _ h
  omega

theorem boundary_lt_boundary {i j : Nat} (h : i < j) (hi : i < bi.blockCount) :
    bi.boundary i < bi.boundary j := by
  simp only [boundary, BlockSize]; rw [blockCount_eq] at hi
  have : i * 16384 < j * 16384 := Nat.mul_lt_mul_of_pos_right h (by decide)
  omega

/-- A cursor on a boundary is located in the block that starts there, or in the final block at the
end of the torrent. -/
theorem byteLoc_boundary {j : Nat} (hj : j ≤ bi.blockCount) :
    bi.byteLoc (bi.boundary j) =
      if j < bi.blockCount then ⟨j * BlockSize, j, 0⟩ else bi.byteLoc bi.totalSize := by
  split_ifs with h
  · rw [boundary_of_lt bi h, byteLoc_of_ne bi (by have := boundary_lt bi h; rw [boundary_of_lt bi h] at this; omega)]
    simp [BlockSize]
  · rw [show j = bi.blockCount by omega, boundary_blockCount]

theorem byteLoc_boundary_block {j : Nat} (hj : j < bi.blockCount) :
    (bi.byteLoc (bi.boundary j)).block = j := by
  rw [byteLoc_boundary bi hj.le, if_pos hj]

theorem byteLoc_totalSize_block : (bi.byteLoc bi.totalSize).block = bi.blockCount - 1 := by
  simp [byteLoc]

theorem blockSize_eq_boundary_sub {j : Nat} (hj : j < bi.blockCount) :
    bi.blockSize j = bi.boundary (j + 1) - bi.boundary j := by
  rw [boundary_of_lt bi hj, blockSize]
  split_ifs with hlast
  · -- the final block runs to the end of the torrent
    rw [hlast, boundary_blockCount, finalBlockSize]
    rw [blockCount_eq] at hlast
    simp only [BlockSize]
    split_ifs <;> omega
  · rw [boundary_of_lt bi (by omega), Nat.succ_mul, Nat.add_sub_cancel_left]

theorem blockLoc_byte (j : Nat) : (bi.blockLoc j).byte = j * BlockSize := rfl

theorem wholeBlocks_le {x : Nat} (hx : x ≤ bi.totalSize) : bi.wholeBlocks x ≤ bi.blockCount := by
  simp only [wholeBlocks, blockCount_eq, BlockSize]; split_ifs <;> omega

theorem boundary_wholeBlocks_le (x : Nat) : bi.boundary (bi.wholeBlocks x) ≤ x := by
  simp only [wholeBlocks, boundary, blockCount_eq, BlockSize]; split_ifs <;> omega

theorem lt_boundary_wholeBlocks_succ {x : Nat} (hx : x < bi.totalSize) :
    x < bi.boundary (bi.wholeBlocks x + 1) := by
  simp only [wholeBlocks, boundary, BlockSize, Nat.ne_of_lt hx, if_false]; omega

theorem wholeBlocks_boundary {j : Nat} (hj : j ≤ bi.blockCount) :
    bi.wholeBlocks (bi.boundary j) = j := by
  simp only [wholeBlocks, boundary, blockCount_eq, BlockSize] at *; split_ifs <;> omega

/-- `wholeBlocks x` is the last boundary at or below `x`. -/
theorem le_wholeBlocks {x j : Nat} (hx : x ≤ bi.totalSize) (hj : j ≤ bi.blockCount)
    (h : bi.boundary j ≤ x) : j ≤ bi.wholeBlocks x := by
  simp only [wholeBlocks, boundary, blockCount_eq, BlockSize] at *; split_ifs <;> omega

theorem wholeBlocks_lt {x : Nat} (hx : x < bi.totalSize) : bi.wholeBlocks x < bi.blockCount := by
  simp only [wholeBlocks, Nat.ne_of_lt hx, if_false, blockCount_eq, BlockSize]; omega

theorem wholeBlocks_totalSize : bi.wholeBlocks bi.totalSize = bi.blockCount := if_pos rfl

theorem lt_boundary_wholeBlocks_add_blockSize {x : Nat} (hx : x ≤ bi.totalSize) :
    x < bi.boundary (bi.wholeBlocks x) + bi.blockSize (bi.wholeBlocks x) := by
  rcases Nat.lt_or_ge x bi.totalSize with hlt | hge
  · rw [bi.blockSize_eq_boundary_sub (bi.wholeBlocks_lt hlt)]
    have := bi.lt_boundary_wholeBlocks_succ hlt
    omega
  · rw [show x = bi.totalSize by omega, wholeBlocks_totalSize, boundary_blockCount]
    exact Nat.lt_add_of_pos_right (bi.blockSize_pos _)

theorem sub_boundary_wholeBlocks_lt {x : Nat} (hx : x ≤ bi.totalSize) :
    x - bi.boundary (bi.wholeBlocks x) <
      bi.blockSize (bi.byteLoc (bi.boundary (bi.wholeBlocks x))).block := by
  rcases Nat.lt_or_ge x bi.totalSize with hlt | hge
  · have hm := bi.wholeBlocks_lt hlt
    rw [byteLoc_boundary_block bi hm, bi.blockSize_eq_boundary_sub hm]
    have := bi.lt_boundary_wholeBlocks_succ hlt
    have := bi.boundary_wholeBlocks_le x
    omega
  · rw [show x = bi.totalSize by omega, wholeBlocks_totalSize, boundary_blockCount, Nat.sub_self]
    exact bi.blockSize_pos _

theorem byteLoc_boundary_blockOffset {m : Nat} (hm : m ≤ bi.blockCount) :
    (bi.byteLoc (bi.boundary m)).blockOffset = 0 ∨ bi.boundary m = bi.totalSize := by
  rw [byteLoc_boundary bi hm]
  split_ifs with h
  · exact .inl rfl
  · exact .inr (by rw [show m = bi.blockCount by omega, boundary_blockCount])

theorem boundary_byteLoc_block {x : Nat} (hx : x < bi.totalSize)
    (h0 : (bi.byteLoc x).blockOffset = 0) :
    (bi.byteLoc x).block < bi.blockCount ∧ bi.boundary (bi.byteLoc x).block = x := by
  rw [byteLoc_of_ne bi (Nat.ne_of_lt hx)] at h0 ⊢
  simp only [boundary, blockCount_eq, BlockSize] at *
  omega

end BlockInfo

end LibTransmission
