import LibTransmission.Webseed.TaskRun

/-!
# What a task delivers

Read off the invariants of `TaskRun`:

* `run_hands_off_span_bytes` : for answers that are prefixes of the asked bytes, every block the
  task takes from its buffer lies in the span and carries the torrent's bytes, the blocks come in
  ascending order, each flagged held as `has_block` answered at its completion, and once every
  byte of the span is received with the torrent there the task retires with its cursor at the
  end, an empty buffer and a pass for every block of the span; `run_stalls_without_torrent` : with
  the torrent gone, the same answer leaves it stalled for good;
* `run_block_outcomes` : for answers no longer than asked, every block of the span gets at most
  one outcome, the blocks with one are those wholly below the cursor while the task is in the
  webseed's set, and each block gets exactly one when it leaves the set;
* `run_overlong_reply` : a 206 answer longer than asked makes the drain loop run past the span's
  end and hand the final block to the cache twice.
-/

namespace LibTransmission

open BlockInfo

namespace TaskLog

variable {L : FileLayout}

theorem blockLoc_byte_add_blockSize {k : Nat} (hk : k < L.blockInfo.blockCount) :
    (L.blockInfo.blockLoc k).byte + L.blockInfo.blockSize k = L.blockInfo.boundary (k + 1) := by
  have := L.blockInfo.blockSize_eq_boundary_sub hk
  have := L.blockInfo.boundary_mono (Nat.le_add_right k 1)
  rw [blockLoc_byte, ← L.blockInfo.boundary_of_lt hk]
  omega

theorem mem_range'_iff_end_le {b e j : Nat} (heN : e ≤ L.blockInfo.blockCount) (hje : j < e)
    (k : Nat) : k ∈ List.range' b (j - b) ↔ b ≤ k ∧ k < e ∧
      (L.blockInfo.blockLoc k).byte + L.blockInfo.blockSize k ≤ L.blockInfo.boundary j := by
  rw [List.mem_range'_1]
  constructor
  · rintro ⟨h1, h2⟩
    rw [blockLoc_byte_add_blockSize (by omega)]
    exact ⟨h1, by omega, L.blockInfo.boundary_mono (by omega)⟩
  · rintro ⟨h1, h2, h3⟩
    rw [blockLoc_byte_add_blockSize (by omega)] at h3
    refine ⟨h1, Nat.lt_of_not_le fun hle => ?_⟩
    have := L.blockInfo.boundary_lt_boundary (show j < k + 1 by omega) (by omega)
    omega

theorem mem_range'_of_map {ds : List Drained} {b j : Nat} (h : ds.map Drained.block = List.range' b (j - b))
    {d : Drained} (hd : d ∈ ds) : b ≤ d.block ∧ d.block < j := by
  have := List.mem_map_of_mem Drained.block hd
  rw [h, List.mem_range'_1] at this
  omega

/-- The last answer of a span: with the torrent there, a 206 answer that brings the received
bytes up to the span's end retires the task. -/
theorem Inv.complete_retires {b e : Nat} {s : TaskLog} {q : FetchRequest} {r : Reply}
    (hs : Inv L b e s) (heN : e ≤ L.blockInfo.blockCount) (hq : s.phase = .fetching q)
    (h206 : r.status = 206) (hlen : r.body.length ≤ q.thisChunk) {hasBlock : Nat → Bool}
    (hh : r.torrent = some hasBlock)
    (hall : L.blockInfo.boundary b + (s.received.length + r.body.length) = L.blockInfo.boundary e) :
    (s.complete L r).phase = .retired := by
  obtain ⟨j, m, -, -, -, hme, -, hrecv, -, -, -, -, -, -, hiff, hdrain⟩ := hs.drain heN hq hlen hasBlock
  rcases TaskLog.complete_cases L s r with ⟨hnone, -⟩ | ⟨-, -, hf, -⟩ | ⟨h', hh', -, hcmp, -⟩ |
    ⟨_, -, -, -, heq⟩
  · simp [hh] at hnone
  · exact absurd h206 hf
  · obtain rfl : h' = hasBlock := Option.some.inj (hh'.symm.trans hh)
    rw [hdrain] at hcmp
    simp only [Task.append_endByte, byteLoc_byte, hs.2.1] at hcmp
    have hmE : m < e := by
      by_contra h
      have := L.blockInfo.boundary_mono (show e ≤ m by omega)
      omega
    have := hiff.mp hmE
    omega
  · simp [heq]

/-- A task's run against answers that are prefixes of the asked bytes: every block it takes from
its buffer, whether handed to the cache or drained as already held, lies in the span and carries
the torrent's bytes of that block; the blocks come in strictly ascending order; each answer only
adds passes, each flagged held exactly when that completion's `has_block` says so (so handed to
the cache exactly when it said the block was missing); a retired task has its cursor at the end,
an empty buffer and one pass for each block of the span; and a 206 answer that brings the
received bytes to `end_byte - start_byte` with the torrent still there retires the task. -/
theorem run_hands_off_span_bytes (content : Nat → UInt8) {span : BlockSpan}
    (hspan : span.begin < span.end) (hend : span.end ≤ L.blockInfo.blockCount)
    {answer : Nat → FetchRequest → Reply}
    (honest : ∀ k q, (answer k q).status = 206 →
      (answer k q).body <+: L.requestedBytes content q.fileIndex q.fileOffset q.thisChunk)
    (n : Nat) :
    let s := run L span answer n
    (∀ d ∈ s.drained, span.begin ≤ d.block ∧ d.block < span.end ∧
      d.data = blockBytes L.blockInfo content d.block) ∧
    (s.drained.map Drained.block).Pairwise (· < ·) ∧
    (∀ q, s.phase = .fetching q → ∃ new, (run L span answer (n + 1)).drained = s.drained ++ new ∧
      ∀ hasBlock, (answer n q).torrent = some hasBlock → ∀ d ∈ new, d.held = hasBlock d.block) ∧
    (s.phase = .retired → s.task.loc.byte = s.task.endByte ∧ s.task.content = [] ∧
      s.drained.map Drained.block = List.range' span.begin (span.end - span.begin)) ∧
    (∀ q, s.phase = .fetching q → (answer n q).status = 206 → (answer n q).torrent.isSome →
      s.received.length + (answer n q).body.length =
        s.task.endByte - (L.blockInfo.blockLoc span.begin).byte →
      (run L span answer (n + 1)).phase = .retired) := by
  dsimp only
  have hlen k q (_ : (run L span answer k).phase = .fetching q) h :=
    (body_eq_torrentBytes (honest k q h)).2
  have hinv := Inv.run hspan hend hlen n
  have hdata := DataInv.run hspan hend (fun k q _ => honest k q) n
  obtain ⟨j, hje, hblocks⟩ := hinv.drained_blocks
  refine ⟨fun d hd => ?_, by rw [hblocks]; exact List.pairwise_lt_range' _ _,
    fun q hq => by rw [run, step_fetching L hq]; exact complete_drained L _ _, fun hret => ?_,
    fun q hq h206 hsome hall => ?_⟩
  · have := mem_range'_of_map hblocks hd
    exact ⟨this.1, by omega, hdata.1 d hd⟩
  · obtain ⟨-, hendB, hph⟩ := hinv
    rw [hret] at hph
    exact ⟨hph.1.trans hendB.symm, hph.2.1, hph.2.2.2⟩
  · obtain ⟨h, hh⟩ := Option.isSome_iff_exists.mp hsome
    rw [run, step_fetching L hq]
    have hb : span.begin < L.blockInfo.blockCount := by omega
    have := L.blockInfo.boundary_mono (show span.begin ≤ span.end by omega)
    rw [hinv.2.1, blockLoc_byte, ← L.blockInfo.boundary_of_lt hb] at hall
    exact hinv.complete_retires hend hq h206 (hlen n q hq h206) hh (by omega)

/-- Block 0 of a three-byte torrent straddles its two files: the task asks for both bytes of the
first file, then for the byte of the second, and retires. -/
theorem run_hands_off_span_bytes_two_files :
    let L := FileLayout.ofSizes [2, 1]
    let s := run L ⟨0, 1⟩ (completeAnswer L fun x => x.toUInt8) 2
    (∀ d ∈ s.drained, 0 ≤ d.block ∧ d.block < 1 ∧
      d.data = blockBytes L.blockInfo (fun x => x.toUInt8) d.block) ∧
    (s.drained.map Drained.block).Pairwise (· < ·) ∧
    (∀ q, s.phase = .fetching q → ∃ new,
      (run L ⟨0, 1⟩ (completeAnswer L fun x => x.toUInt8) (2 + 1)).drained = s.drained ++ new ∧
      ∀ hasBlock, (completeAnswer L (fun x => x.toUInt8) 2 q).torrent = some hasBlock →
        ∀ d ∈ new, d.held = hasBlock d.block) ∧
    (s.phase = .retired → s.task.loc.byte = s.task.endByte ∧ s.task.content = [] ∧
      s.drained.map Drained.block = List.range' 0 (1 - 0)) ∧
    (∀ q, s.phase = .fetching q →
      (completeAnswer L (fun x => x.toUInt8) 2 q).status = 206 →
      (completeAnswer L (fun x => x.toUInt8) 2 q).torrent.isSome →
      s.received.length + (completeAnswer L (fun x => x.toUInt8) 2 q).body.length =
        s.task.endByte - (L.blockInfo.blockLoc 0).byte →
      (run L ⟨0, 1⟩ (completeAnswer L fun x => x.toUInt8) (2 + 1)).phase = .retired) :=
  run_hands_off_span_bytes (L := FileLayout.ofSizes [2, 1]) (fun x => x.toUInt8)
    (show (⟨0, 1⟩ : BlockSpan).begin < (⟨0, 1⟩ : BlockSpan).end by decide) (by decide)
    (fun _ _ _ => List.prefix_refl _) 2

/-- When the torrent is gone by the time a 206 answer carrying the whole span completes, the task
takes nothing from its buffer and stays in the webseed's set with no fetch in flight: it never
retires. -/
theorem run_stalls_without_torrent :
    let L := FileLayout.ofSizes [1]
    let answer : Nat → FetchRequest → Reply := fun _ _ => ⟨206, [0], none⟩
    (run L ⟨0, 1⟩ answer 0).phase = .fetching ⟨0, 0, 1⟩ ∧
      (answer 0 ⟨0, 0, 1⟩).body = L.requestedBytes (fun _ => 0) 0 0 1 ∧
      ∀ m, 1 ≤ m → (run L ⟨0, 1⟩ answer m).phase = .stalled ∧
        (run L ⟨0, 1⟩ answer m).task.content = [0] ∧ (run L ⟨0, 1⟩ answer m).drained = [] := by
  intro L answer
  refine ⟨by decide, by decide, fun m hm => ?_⟩
  rw [run_of_stalled L (n := 1) (by decide) hm]
  decide

theorem Inv.outcomes {b e : Nat} {s : TaskLog} (hs : Inv L b e s) (hend : e ≤ L.blockInfo.blockCount) :
    (s.drained.map Drained.block ++ s.phase.rejectedBlocks).Nodup ∧
    (∀ k ∈ s.drained.map Drained.block ++ s.phase.rejectedBlocks, b ≤ k ∧ k < e) ∧
    (s.phase.inTasks = true → ∀ k, k ∈ s.drained.map Drained.block ↔
      b ≤ k ∧ k < e ∧ (L.blockInfo.blockLoc k).byte + L.blockInfo.blockSize k ≤ s.task.loc.byte) ∧
    (∀ blocks, s.phase = .rejected blocks →
      blocks = List.range' s.task.loc.block (e - s.task.loc.block) ∧
      s.drained.map Drained.block ++ blocks = List.range' b (e - b)) ∧
    (s.phase = .retired → s.task.loc.byte = s.task.endByte ∧
      s.drained.map Drained.block = List.range' b (e - b)) := by
  obtain ⟨-, hendB, hph⟩ := hs
  have hrange : ∀ {j}, j ≤ e → ∀ k ∈ List.range' b (j - b),
      b ≤ k ∧ k < e := fun hj k hk => by
    have := List.mem_range'_1.mp hk; omega
  split at hph
  case h_1 q hq =>
    obtain ⟨j, -, hje, hloc, -, -, -, hdr⟩ := hph
    simp only [hq, Phase.rejectedBlocks, List.append_nil, hdr]
    refine ⟨List.nodup_range' _ _, hrange hje.le, fun _ k => ?_, fun _ h => by simp at h,
      fun h => by simp at h⟩
    rw [hloc, byteLoc_byte]; exact mem_range'_iff_end_le hend hje k
  case h_2 hq =>
    obtain ⟨j, -, hje, hloc, hdr⟩ := hph
    simp only [hq, Phase.rejectedBlocks, List.append_nil, hdr]
    refine ⟨List.nodup_range' _ _, hrange hje.le, fun _ k => ?_, fun _ h => by simp at h,
      fun h => by simp at h⟩
    rw [hloc, byteLoc_byte]; exact mem_range'_iff_end_le hend hje k
  case h_3 blocks hq =>
    -- the passes are `b, ..., j - 1` and the rejections `j, ..., e - 1`
    obtain ⟨j, hbj, hje, hblock, rfl, hdr⟩ := hph
    simp only [hq, Phase.rejectedBlocks, hdr]
    have hsplit : List.range' b (j - b) ++ List.range' j (e - j) =
        List.range' b (e - b) := by
      have := List.range'_append_1 b (j - b) (e - j)
      rwa [show b + (j - b) = j by omega,
        show e - j + (j - b) = e - b by omega] at this
    rw [hsplit]
    refine ⟨List.nodup_range' _ _, hrange le_rfl, fun h => by simp [Phase.inTasks] at h,
      fun bs h => ?_, fun h => by simp at h⟩
    simp only [Phase.rejected.injEq] at h
    subst h
    exact ⟨by rw [hblock], hsplit⟩
  case h_4 hq =>
    obtain ⟨hloc, -, -, hdr⟩ := hph
    simp only [hq, Phase.rejectedBlocks, List.append_nil, hdr]
    refine ⟨List.nodup_range' _ _, hrange le_rfl, fun h => by simp [Phase.inTasks] at h,
      fun _ h => by simp at h, fun _ => ⟨?_, by simp⟩⟩
    rw [hloc, hendB]

/-- A task's run against answers no longer than asked, with the torrent there or not: no block
gets two outcomes among being handed to the cache, drained as held, and rejected, and all lie in
the span; while the task is in the webseed's set the blocks with an outcome are exactly those of
the span lying wholly below the cursor; a failed fetch rejects each block from the cursor to the
span's end, which with the passes so far gives every block of the span exactly one outcome; and
a retired task has its cursor at `end_byte` and a pass for each block of the span. -/
theorem run_block_outcomes {span : BlockSpan}
    (hspan : span.begin < span.end) (hend : span.end ≤ L.blockInfo.blockCount)
    {answer : Nat → FetchRequest → Reply}
    (bounded : ∀ k q, (answer k q).status = 206 → (answer k q).body.length ≤ q.thisChunk)
    (n : Nat) :
    let s := run L span answer n
    (s.drained.map Drained.block ++ s.phase.rejectedBlocks).Nodup ∧
    (∀ k ∈ s.drained.map Drained.block ++ s.phase.rejectedBlocks, span.begin ≤ k ∧ k < span.end) ∧
    (s.phase.inTasks = true → ∀ k, k ∈ s.drained.map Drained.block ↔
      span.begin ≤ k ∧ k < span.end ∧
        (L.blockInfo.blockLoc k).byte + L.blockInfo.blockSize k ≤ s.task.loc.byte) ∧
    (∀ blocks, s.phase = .rejected blocks →
      blocks = List.range' s.task.loc.block (span.end - s.task.loc.block) ∧
      s.drained.map Drained.block ++ blocks = List.range' span.begin (span.end - span.begin)) ∧
    (s.phase = .retired → s.task.loc.byte = s.task.endByte ∧
      s.drained.map Drained.block = List.range' span.begin (span.end - span.begin)) :=
  (Inv.run hspan hend (fun k q _ => bounded k q) n).outcomes hend

/-- A server that answers the first request for a two-block span with all its bytes but the last,
and the request for that byte with 404: the first answer fills block 0, the second fails. -/
theorem run_block_outcomes_drain_then_not_found :
    let L := FileLayout.ofSizes [16385]
    let span : BlockSpan := ⟨0, 2⟩
    let answer : Nat → FetchRequest → Reply := fun k q =>
      if k = 0 then ⟨206, List.replicate (q.thisChunk - 1) 0, some fun _ => false⟩
      else ⟨404, [], some fun _ => false⟩
    let s := run L span answer 2
    (s.drained.map Drained.block ++ s.phase.rejectedBlocks).Nodup ∧
    (∀ k ∈ s.drained.map Drained.block ++ s.phase.rejectedBlocks,
      span.begin ≤ k ∧ k < span.end) ∧
    (s.phase.inTasks = true → ∀ k, k ∈ s.drained.map Drained.block ↔
      span.begin ≤ k ∧ k < span.end ∧
        (L.blockInfo.blockLoc k).byte + L.blockInfo.blockSize k ≤ s.task.loc.byte) ∧
    (∀ blocks, s.phase = .rejected blocks →
      blocks = List.range' s.task.loc.block (span.end - s.task.loc.block) ∧
      s.drained.map Drained.block ++ blocks = List.range' span.begin (span.end - span.begin)) ∧
    (s.phase = .retired → s.task.loc.byte = s.task.endByte ∧
      s.drained.map Drained.block = List.range' span.begin (span.end - span.begin)) :=
  run_block_outcomes (L := FileLayout.ofSizes [16385])
    (show (⟨0, 2⟩ : BlockSpan).begin < (⟨0, 2⟩ : BlockSpan).end by decide) (by decide)
    (fun k q _ => by split <;> simp) 2

/-- A torrent of three bytes in one file is one short block; a server answering the request for
those three bytes with six makes the drain loop hand block 0 to the cache twice and leave the
cursor at byte 6, past the span's end at byte 3. -/
theorem run_overlong_reply :
    (run (FileLayout.ofSizes [3]) ⟨0, 1⟩
        (fun _ _ => ⟨206, [1, 2, 3, 4, 5, 6], some fun _ => false⟩) 1).drained.map
        (fun d => (d.block, d.held)) = [(0, false), (0, false)] ∧
      (run (FileLayout.ofSizes [3]) ⟨0, 1⟩
        (fun _ _ => ⟨206, [1, 2, 3, 4, 5, 6], some fun _ => false⟩) 1).task.loc.byte = 6 ∧
      (run (FileLayout.ofSizes [3]) ⟨0, 1⟩
        (fun _ _ => ⟨206, [1, 2, 3, 4, 5, 6], some fun _ => false⟩) 1).task.endByte = 3 := by
  decide

end TaskLog

end LibTransmission
