import LibTransmission.Webseed.Task

/-!
# The drain loop of `useFetchedBlocks`

From a cursor on a block boundary, with no more buffered than the torrent holds, the loop takes
every block lying wholly inside what is buffered, in order, and stops on the boundary below the
end of the buffer.

* `drainedFrom` : the passes the loop makes from boundary `j` to boundary `m`;
* `drainLoop_boundary` : the loop's result, for every fuel at least the buffer length, by
  induction on the fuel with one pass at a time (`drainLoop_stop`, `drainLoop_pass`);
* `useFetchedBlocks_boundary` : the same for `useFetchedBlocks`, whose fuel is the buffer length;
* `drainedFrom_torrentBytes` : a buffer holding the torrent's bytes hands each block its own bytes;
* `drainCursors_boundary`, `useFetchedBlocksAsserts_boundary` : the cursors of the passes are the
  boundaries the loop crosses, so its two `TR_ASSERT`s hold when the buffer ends at or before
  `end_byte`;
* `useFetchedBlocks_takes_whole_blocks` : from any cursor of a task, on a block boundary or at
  `end_byte`, the loop ends, takes the whole blocks that fit in the buffer from its front, in
  order, and leaves a cursor of the same kind with less than its block buffered; at the end of
  the torrent that cursor is `byteLoc totalSize`, in the final block.
-/

namespace LibTransmission

open BlockInfo

variable (bi : BlockInfo) (hasBlock : Nat → Bool)

theorem drainLoop_stop {fuel : Nat} {loc : Location} {buf : List UInt8}
    (h : buf.length < bi.blockSize loc.block) :
    drainLoop bi hasBlock (fuel + 1) loc buf = (loc, buf, []) := by
  simp [drainLoop, h]

theorem drainLoop_pass {fuel : Nat} {loc : Location} {buf : List UInt8}
    (h : bi.blockSize loc.block ≤ buf.length) :
    drainLoop bi hasBlock (fuel + 1) loc buf =
      let r := drainLoop bi hasBlock fuel (bi.byteLoc (loc.byte + bi.blockSize loc.block))
        (buf.drop (bi.blockSize loc.block))
      (r.1, r.2.1, ⟨loc.block, buf.take (bi.blockSize loc.block), hasBlock loc.block⟩ :: r.2.2) := by
  simp [drainLoop, Nat.not_lt.mpr h]

theorem drainLoop_held : ∀ (fuel : Nat) (loc : Location) (buf : List UInt8),
    ∀ d ∈ (drainLoop bi hasBlock fuel loc buf).2.2, d.held = hasBlock d.block
  | 0, _, _ => by simp [drainLoop]
  | fuel + 1, loc, buf => by
    by_cases h : buf.length < bi.blockSize loc.block
    · simp [drainLoop_stop bi hasBlock h]
    · rw [drainLoop_pass bi hasBlock (Nat.not_lt.mp h)]
      rintro d (_ | ⟨_, hd⟩)
      · rfl
      · exact drainLoop_held fuel _ _ d hd

/-- The passes of the loop from boundary `j` up to boundary `m` over the buffer `buf`, which
starts at boundary `j`: block `k` takes the `blockSize k` bytes at offset
`boundary k - boundary j`. -/
def drainedFrom (j : Nat) (buf : List UInt8) (m : Nat) : List Drained :=
  (List.range' j (m - j)).map fun k =>
    ⟨k, (buf.drop (bi.boundary k - bi.boundary j)).take (bi.blockSize k), hasBlock k⟩

theorem drainedFrom_self (j : Nat) (buf : List UInt8) : drainedFrom bi hasBlock j buf j = [] := by
  simp [drainedFrom]

theorem drainedFrom_succ {j m : Nat} (buf : List UInt8) (hjm : j < m) (hj : j < bi.blockCount) :
    drainedFrom bi hasBlock j buf m =
      ⟨j, buf.take (bi.blockSize j), hasBlock j⟩ ::
        drainedFrom bi hasBlock (j + 1) (buf.drop (bi.blockSize j)) m := by
  have hsz := bi.blockSize_eq_boundary_sub hj
  have hmono := bi.boundary_mono (Nat.le_add_right j 1)
  unfold drainedFrom
  rw [show m - j = (m - (j + 1)) + 1 by omega, List.range'_succ, List.map_cons, Nat.sub_self,
    List.drop_zero]
  refine congrArg _ (List.map_congr_left fun k hk => ?_)
  have := bi.boundary_mono (List.mem_range'_1.mp hk).1
  rw [List.drop_drop, show bi.blockSize j + (bi.boundary k - bi.boundary (j + 1)) =
    bi.boundary k - bi.boundary j by omega]

theorem wholeBlocks_eq_of_lt {x j : Nat} (hj : j < bi.blockCount) (h1 : bi.boundary j ≤ x)
    (h2 : x < bi.boundary (j + 1)) : bi.wholeBlocks x = j := by
  have hT := bi.boundary_le (j + 1)
  have hle := bi.le_wholeBlocks (by omega) hj.le h1
  have hlt : bi.wholeBlocks x < j + 1 := by
    by_contra hc
    have := bi.boundary_mono (Nat.le_of_not_lt hc)
    have := bi.boundary_wholeBlocks_le x
    omega
  omega

/-- The drain loop from boundary `j`: it stops on boundary `m = wholeBlocks (boundary j + L)`,
`L` the buffer length, keeps what lies past it, and makes one pass per block from `j` to `m`. -/
theorem drainLoop_boundary : ∀ {fuel j : Nat} {buf : List UInt8}, j ≤ bi.blockCount →
    bi.boundary j + buf.length ≤ bi.totalSize → buf.length ≤ fuel →
    drainLoop bi hasBlock fuel (bi.byteLoc (bi.boundary j)) buf =
      (bi.byteLoc (bi.boundary (bi.wholeBlocks (bi.boundary j + buf.length))),
        buf.drop (bi.boundary (bi.wholeBlocks (bi.boundary j + buf.length)) - bi.boundary j),
        drainedFrom bi hasBlock j buf (bi.wholeBlocks (bi.boundary j + buf.length)))
  | 0, j, buf, hj, _, hfuel => by
    rw [List.eq_nil_of_length_eq_zero (Nat.le_zero.mp hfuel)]
    simp [drainLoop, bi.wholeBlocks_boundary hj, drainedFrom_self]
  | fuel + 1, j, buf, hj, hT, hfuel => by
    rcases Nat.lt_or_ge j bi.blockCount with hjN | hjN
    · have hblock := bi.byteLoc_boundary_block hjN
      have hsz := bi.blockSize_eq_boundary_sub hjN
      have hlt := bi.boundary_lt_boundary (Nat.lt_add_one j) hjN
      by_cases hfit : buf.length < bi.blockSize j
      · -- the block at the cursor is not all there: the loop stops at once
        rw [drainLoop_stop bi hasBlock (by rwa [hblock]),
          wholeBlocks_eq_of_lt bi hjN (Nat.le_add_right _ _) (by omega)]
        simp [drainedFrom_self]
      · -- one pass over block `j`, then the loop from boundary `j + 1`
        have hnext : (bi.byteLoc (bi.boundary j)).byte + bi.blockSize j = bi.boundary (j + 1) := by
          simp only [byteLoc_byte]; omega
        have hX : bi.boundary (j + 1) + (buf.drop (bi.blockSize j)).length =
            bi.boundary j + buf.length := by simp; omega
        have hm : j + 1 ≤ bi.wholeBlocks (bi.boundary j + buf.length) :=
          bi.le_wholeBlocks hT (by omega) (by omega)
        rw [drainLoop_pass bi hasBlock (by rw [hblock]; omega)]
        simp only [hblock, hnext]
        rw [drainLoop_boundary (by omega) (by omega) (by simp; omega), hX,
          drainedFrom_succ bi hasBlock buf (by omega) hjN, List.drop_drop]
        generalize bi.wholeBlocks (bi.boundary j + buf.length) = M at hm ⊢
        have := bi.boundary_mono hm
        rw [show bi.blockSize j + (bi.boundary M - bi.boundary (j + 1)) =
          bi.boundary M - bi.boundary j by omega]
    · -- at the end of the torrent the buffer is empty and the final block does not fit
      have hjT : j = bi.blockCount := by omega
      subst hjT
      rw [boundary_blockCount] at hT ⊢
      rw [List.eq_nil_of_length_eq_zero (by omega : buf.length = 0)]
      rw [drainLoop_stop bi hasBlock (by simpa using bi.blockSize_pos _)]
      simp [wholeBlocks, drainedFrom_self, boundary_blockCount]

theorem useFetchedBlocks_boundary {task : Task} {j : Nat} (hj : j ≤ bi.blockCount)
    (hloc : task.loc = bi.byteLoc (bi.boundary j))
    (hT : bi.boundary j + task.content.length ≤ bi.totalSize) :
    useFetchedBlocks bi hasBlock task =
      ({ task with
          loc := bi.byteLoc (bi.boundary (bi.wholeBlocks (bi.boundary j + task.content.length)))
          content := task.content.drop
            (bi.boundary (bi.wholeBlocks (bi.boundary j + task.content.length)) - bi.boundary j) },
        drainedFrom bi hasBlock j task.content
          (bi.wholeBlocks (bi.boundary j + task.content.length))) := by
  simp only [useFetchedBlocks, hloc, drainLoop_boundary bi hasBlock hj hT le_rfl]

theorem drainCursors_boundary : ∀ {fuel j : Nat} {buf : List UInt8}, j ≤ bi.blockCount →
    bi.boundary j + buf.length ≤ bi.totalSize →
    ∀ loc ∈ drainCursors bi fuel (bi.byteLoc (bi.boundary j)) buf, ∃ i, j < i ∧
      i ≤ bi.wholeBlocks (bi.boundary j + buf.length) ∧ loc = bi.byteLoc (bi.boundary i)
  | 0, _, _, _, _ => by simp [drainCursors]
  | fuel + 1, j, buf, hj, hT => by
    rcases Nat.lt_or_ge j bi.blockCount with hjN | hjN
    · have hblock := bi.byteLoc_boundary_block hjN
      have hsz := bi.blockSize_eq_boundary_sub hjN
      have hlt := bi.boundary_lt_boundary (Nat.lt_add_one j) hjN
      by_cases hfit : buf.length < bi.blockSize j
      · simp [drainCursors, hblock, hfit]
      · have hnext : (bi.byteLoc (bi.boundary j)).byte + bi.blockSize j = bi.boundary (j + 1) := by
          simp only [byteLoc_byte]; omega
        have hX : bi.boundary (j + 1) + (buf.drop (bi.blockSize j)).length =
            bi.boundary j + buf.length := by simp; omega
        have hm : j + 1 ≤ bi.wholeBlocks (bi.boundary j + buf.length) :=
          bi.le_wholeBlocks hT (by omega) (by omega)
        simp only [drainCursors, hblock, if_neg hfit, hnext, List.mem_cons]
        rintro loc (rfl | hloc)
        · exact ⟨j + 1, by omega, hm, rfl⟩
        · obtain ⟨i, hi, him, rfl⟩ :=
            drainCursors_boundary (by omega) (by rw [hX]; exact hT) loc hloc
          exact ⟨i, by omega, hX ▸ him, rfl⟩
    · -- at the end of the torrent the buffer is empty and the loop stops at once
      have hjT : j = bi.blockCount := by omega
      subst hjT
      rw [boundary_blockCount] at hT
      simp [drainCursors, show buf.length = 0 by omega, bi.blockSize_pos]

/-- The `TR_ASSERT`s of the loop hold on a task whose cursor sits on boundary `j` and whose buffer
ends at or before `end_byte`, itself at or before the torrent's end. -/
theorem useFetchedBlocksAsserts_boundary {task : Task} {j : Nat} (hj : j ≤ bi.blockCount)
    (hloc : task.loc = bi.byteLoc (bi.boundary j))
    (hE : bi.boundary j + task.content.length ≤ task.endByte)
    (hET : task.endByte ≤ bi.totalSize) : useFetchedBlocksAsserts bi task = true := by
  simp only [useFetchedBlocksAsserts, List.all_eq_true, hloc]
  intro loc hloc'
  obtain ⟨i, -, hi, rfl⟩ := drainCursors_boundary bi hj (by omega) loc hloc'
  have hiN := hi.trans (bi.wholeBlocks_le (by omega))
  have hle := (bi.boundary_mono hi).trans (bi.boundary_wholeBlocks_le _)
  simp only [cursorAsserts, byteLoc_byte, Bool.and_eq_true, decide_eq_true_eq, Bool.or_eq_true,
    beq_iff_eq]
  refine ⟨by omega, ?_⟩
  rcases bi.byteLoc_boundary_blockOffset hiN with h | h
  · exact .inr h
  · exact .inl (by omega)

theorem drainedFrom_torrentBytes (content : Nat → UInt8) {j m n : Nat}
    (hm : m ≤ bi.blockCount) (hn : bi.boundary m ≤ bi.boundary j + n) :
    ∀ d ∈ drainedFrom bi hasBlock j (torrentBytes content (bi.boundary j) n) m,
      d.data = blockBytes bi content d.block := by
  intro d hd
  obtain ⟨k, hk, rfl⟩ := List.mem_map.mp hd
  obtain ⟨hjk, hkm⟩ := List.mem_range'_1.mp hk
  have hkN : k < bi.blockCount := by omega
  have h1 := bi.boundary_mono hjk
  have h2 := bi.boundary_mono (show k + 1 ≤ m by omega)
  have hsz := bi.blockSize_eq_boundary_sub hkN
  have h3 := bi.boundary_mono (Nat.le_add_right k 1)
  simp only [blockBytes, blockLoc_byte, ← bi.boundary_of_lt hkN]
  rw [torrentBytes_drop _ _ _ _ (by omega), torrentBytes_take _ _ _ _ (by omega)]
  congr 1
  omega

/-! ## From any cursor of a task -/

theorem drainLoop_nil (fuel : Nat) (loc : Location) :
    drainLoop bi hasBlock fuel loc [] = (loc, [], []) := by
  cases fuel with
  | zero => rfl
  | succ fuel => exact drainLoop_stop bi hasBlock (bi.blockSize_pos loc.block)

theorem drainedFrom_length (j : Nat) (buf : List UInt8) (m : Nat) :
    (drainedFrom bi hasBlock j buf m).length = m - j := by
  simp [drainedFrom]

theorem drainedFrom_blocks (j : Nat) (buf : List UInt8) (m : Nat) :
    (drainedFrom bi hasBlock j buf m).map Drained.block = List.range' j (m - j) := by
  simp [drainedFrom, List.map_map, Function.comp_def]

theorem sum_blockSize_range' : ∀ {j d : Nat}, j + d ≤ bi.blockCount →
    ((List.range' j d).map bi.blockSize).sum = bi.boundary (j + d) - bi.boundary j
  | j, 0, _ => by simp
  | j, d + 1, h => by
    have hsz := bi.blockSize_eq_boundary_sub (show j < bi.blockCount by omega)
    have h1 := bi.boundary_mono (Nat.le_add_right j 1)
    have h2 := bi.boundary_mono (show j + 1 ≤ j + 1 + d by omega)
    rw [List.range'_succ, List.map_cons, List.sum_cons, sum_blockSize_range' (by omega),
      show j + (d + 1) = j + 1 + d by omega]
    omega

/-- One more block adds its size; by rewriting, so that `blockSize` is never unfolded. -/
theorem sum_blockSize_range'_succ (j d : Nat) :
    ((List.range' j (d + 1)).map bi.blockSize).sum =
      ((List.range' j d).map bi.blockSize).sum + bi.blockSize (j + d) := by
  rw [List.range'_concat, List.map_append, List.sum_append, List.map_singleton, List.sum_singleton,
    Nat.one_mul]

theorem drainedFrom_flatten : ∀ {j d : Nat} (buf : List UInt8), j + d ≤ bi.blockCount →
    ((drainedFrom bi hasBlock j buf (j + d)).map Drained.data).flatten =
      buf.take (bi.boundary (j + d) - bi.boundary j)
  | j, 0, buf, _ => by simp [drainedFrom_self]
  | j, d + 1, buf, h => by
    have hsz := bi.blockSize_eq_boundary_sub (show j < bi.blockCount by omega)
    have h1 := bi.boundary_mono (Nat.le_add_right j 1)
    have h2 := bi.boundary_mono (show j + 1 ≤ j + 1 + d by omega)
    rw [drainedFrom_succ bi hasBlock buf (by omega) (by omega), List.map_cons, List.flatten_cons,
      show j + (d + 1) = j + 1 + d by omega, drainedFrom_flatten _ (by omega), ← List.take_add]
    congr 1
    omega

theorem drainedFrom_append_drop {j m : Nat} (buf : List UInt8) (hjm : j ≤ m)
    (hm : m ≤ bi.blockCount) :
    ((drainedFrom bi hasBlock j buf m).map Drained.data).flatten ++
      buf.drop (bi.boundary m - bi.boundary j) = buf := by
  obtain ⟨d, rfl⟩ := Nat.exists_eq_add_of_le hjm
  rw [drainedFrom_flatten bi hasBlock buf hm, List.take_append_drop]

theorem drainedFrom_data_length {j m : Nat} {buf : List UInt8} (hm : m ≤ bi.blockCount)
    (hbuf : bi.boundary m ≤ bi.boundary j + buf.length) :
    ∀ d ∈ drainedFrom bi hasBlock j buf m, d.data.length = bi.blockSize d.block := by
  intro d hd
  obtain ⟨k, hk, rfl⟩ := List.mem_map.mp hd
  obtain ⟨hjk, hkm⟩ := List.mem_range'_1.mp hk
  have hsz := bi.blockSize_eq_boundary_sub (show k < bi.blockCount by omega)
  have h1 := bi.boundary_mono hjk
  have h2 := bi.boundary_mono (show k + 1 ≤ m by omega)
  simp only [List.length_take, List.length_drop, Nat.min_def]
  split <;> omega

/-- **`useFetchedBlocks` from any cursor of a task.** Start from a cursor on a block boundary or
at `end_byte`, with no more buffered than is left up to `end_byte`, in a task whose span ends
inside the torrent. The loop ends after at most as many passes as there are bytes buffered (every
fuel from the buffer length on gives the same result); it takes from the front of the buffer the
blocks `loc.block, loc.block + 1, ...` in order, each once and whole, as many as fit in the
buffer; it keeps `loc.byte` plus the buffer length, leaves a cursor with no block offset unless it
is at `end_byte`, and stops with less than the cursor's block buffered. -/
theorem useFetchedBlocks_takes_whole_blocks (task : Task)
    (hcursor : task.loc = bi.byteLoc task.loc.byte)
    (hstart : task.loc.blockOffset = 0 ∨ task.loc.byte = task.endByte)
    (hbuf : task.loc.byte + task.content.length ≤ task.endByte)
    (hend : task.endByte ≤ bi.totalSize) :
    let r := useFetchedBlocks bi hasBlock task
    (∀ fuel, task.content.length ≤ fuel →
      drainLoop bi hasBlock fuel task.loc task.content = (r.1.loc, r.1.content, r.2)) ∧
    r.2.map Drained.block = List.range' task.loc.block r.2.length ∧
    (r.2.map Drained.data).flatten ++ r.1.content = task.content ∧
    (∀ d ∈ r.2, d.data.length = bi.blockSize d.block) ∧
    ((List.range' task.loc.block r.2.length).map bi.blockSize).sum ≤ task.content.length ∧
    task.content.length <
      ((List.range' task.loc.block (r.2.length + 1)).map bi.blockSize).sum ∧
    r.1.loc = bi.byteLoc r.1.loc.byte ∧
    r.1.loc.byte + r.1.content.length = task.loc.byte + task.content.length ∧
    (r.1.loc.blockOffset = 0 ∨ r.1.loc.byte = task.endByte) ∧
    r.1.content.length < bi.blockSize r.1.loc.block := by
  dsimp only
  by_cases hx : task.loc.byte = task.endByte
  · -- at `end_byte` nothing is buffered and the loop stops at once
    have hnil : task.content = [] := List.eq_nil_of_length_eq_zero (by omega)
    simp only [useFetchedBlocks, hnil, List.length_nil, drainLoop_nil]
    have hpos := bi.blockSize_pos (task.loc.block + 0)
    exact ⟨fun _ _ => trivial, rfl, rfl, by simp, by simp,
      by rw [sum_blockSize_range'_succ]; omega, hcursor, trivial, .inr hx, bi.blockSize_pos _⟩
  -- otherwise the cursor sits on the boundary of its block, inside the torrent
  obtain ⟨hjN, hbj⟩ := bi.boundary_byteLoc_block (show task.loc.byte < bi.totalSize by omega)
    (by rw [← hcursor]; exact hstart.resolve_right hx)
  rw [← hcursor] at hjN hbj
  generalize task.loc.block = j at hjN hbj ⊢
  have hloc : task.loc = bi.byteLoc (bi.boundary j) := by rw [hbj]; exact hcursor
  have hT : bi.boundary j + task.content.length ≤ bi.totalSize := by omega
  rw [useFetchedBlocks_boundary bi hasBlock hjN.le hloc hT]
  refine ⟨fun fuel hfuel => by rw [hloc]; exact drainLoop_boundary bi hasBlock hjN.le hT hfuel, ?_⟩
  simp only [drainedFrom_length, drainedFrom_blocks, byteLoc_byte, List.length_drop]
  -- the loop stops on boundary `m`, the last one the buffer reaches
  have hjm := bi.le_wholeBlocks hT hjN.le (Nat.le_add_right _ _)
  have hmN := bi.wholeBlocks_le hT
  have hmX := bi.boundary_wholeBlocks_le (bi.boundary j + task.content.length)
  have hnext := bi.lt_boundary_wholeBlocks_add_blockSize hT
  have hrest := bi.sub_boundary_wholeBlocks_lt hT
  generalize bi.wholeBlocks (bi.boundary j + task.content.length) = m at *
  have hjm' := bi.boundary_mono hjm
  have hsum : ((List.range' j (m - j)).map bi.blockSize).sum = bi.boundary m - bi.boundary j := by
    rw [sum_blockSize_range' bi (show j + (m - j) ≤ _ by omega), show j + (m - j) = m by omega]
  have hsumNext : ((List.range' j (m - j + 1)).map bi.blockSize).sum =
      bi.boundary m - bi.boundary j + bi.blockSize m := by
    rw [sum_blockSize_range'_succ, hsum, show j + (m - j) = m by omega]
  refine ⟨trivial, drainedFrom_append_drop bi hasBlock _ hjm hmN,
    drainedFrom_data_length bi hasBlock hmN hmX, by omega, by omega, trivial, by omega, ?_, by omega⟩
  -- off a block boundary only at the end of the torrent, which the buffer reaches at `end_byte`
  exact (bi.byteLoc_boundary_blockOffset hmN).imp_right fun _ => by omega

/-- The short final block of a torrent of 16390 bytes: from the cursor at block 1, six bytes
buffered, the loop takes the block and stops at the end of the torrent, which `byteLoc` locates
back in block 1 at offset 6, and which is the task's `end_byte`. -/
theorem useFetchedBlocks_takes_whole_blocks_final_block :
    let info : BlockInfo := ⟨16390⟩
    let task : Task := ⟨⟨1, 2⟩, 16390, info.byteLoc 16384, [1, 2, 3, 4, 5, 6], false⟩
    (task.loc = info.byteLoc task.loc.byte ∧
      (task.loc.blockOffset = 0 ∨ task.loc.byte = task.endByte) ∧
      task.loc.byte + task.content.length ≤ task.endByte ∧ task.endByte ≤ info.totalSize) ∧
    let r := useFetchedBlocks info (fun _ => false) task
    (∀ fuel, task.content.length ≤ fuel →
      drainLoop info (fun _ => false) fuel task.loc task.content = (r.1.loc, r.1.content, r.2)) ∧
    r.2.map Drained.block = List.range' task.loc.block r.2.length ∧
    (r.2.map Drained.data).flatten ++ r.1.content = task.content ∧
    (∀ d ∈ r.2, d.data.length = info.blockSize d.block) ∧
    ((List.range' task.loc.block r.2.length).map info.blockSize).sum ≤ task.content.length ∧
    task.content.length <
      ((List.range' task.loc.block (r.2.length + 1)).map info.blockSize).sum ∧
    r.1.loc = info.byteLoc r.1.loc.byte ∧
    r.1.loc.byte + r.1.content.length = task.loc.byte + task.content.length ∧
    (r.1.loc.blockOffset = 0 ∨ r.1.loc.byte = task.endByte) ∧
    r.1.content.length < info.blockSize r.1.loc.block :=
  ⟨⟨rfl, by decide, by decide, by decide⟩,
    useFetchedBlocks_takes_whole_blocks _ _ _ rfl (by decide) (by decide) (by decide)⟩

end LibTransmission
